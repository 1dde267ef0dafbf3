/-
# The path of a name in a directory

`join dir name` works on the text: it leaves out empty parts and `.`, and lets `..` take away the
part before it.  So it speaks of the name in the directory that `clean dir` names (`locate_join`).

On a disk with links that need not be the directory that `dir` names, since `..` after a link leads
up from where the link leads.  For a path that is followed without meeting a link nothing is lost:
where `..` stands, the part before it has led down into a directory, and the step up leads back.
`Spells` holds the parts that are left together with the place that they lead to.  One part more is
one step (`Spells.step`), and so the parts that are left lead to where the whole path leads
(`locate_clean`).

What one part of a path can do is said once, in `stretch_cases`, and what following a link can do in
`Walks`.  All else about paths is derived from these, also that a new file, at a place where nothing
was, leaves all paths as they were (`locate_put`).
-/
import HamScript.Files.Disk

namespace HamScript.Files

/-! ## Parts of a path -/

theorem pieces_ne_nil (cs : List Char) : pieces cs ≠ [] := by
  fun_cases pieces cs <;> simp

theorem pieces_cons {c : Char} {cs p : List Char} {ps : List (List Char)}
    (h : pieces cs = p :: ps) :
    pieces (c :: cs) = if c = '/' then [] :: p :: ps else (c :: p) :: ps := by
  rw [pieces, h]

theorem pieces_append (cs ds : List Char) : pieces (cs ++ '/' :: ds) = pieces cs ++ pieces ds := by
  induction cs with
  | nil =>
      obtain ⟨p, ps, hds⟩ := List.exists_cons_of_ne_nil (pieces_ne_nil ds)
      rw [List.nil_append, pieces_cons hds, if_pos rfl, hds]
      rfl
  | cons c cs ih =>
      obtain ⟨p, ps, hcs⟩ := List.exists_cons_of_ne_nil (pieces_ne_nil cs)
      rw [hcs, List.cons_append] at ih
      rw [List.cons_append, pieces_cons ih, pieces_cons hcs]
      split <;> rfl

theorem pieces_eq_singleton {cs : List Char} (h : '/' ∉ cs) : pieces cs = [cs] := by
  induction cs with
  | nil => rfl
  | cons c cs ih =>
      rw [List.mem_cons, not_or] at h
      rw [pieces_cons (ih h.2), if_neg (Ne.symm h.1)]

theorem slash_not_mem_of_mem_pieces {cs p : List Char} (h : p ∈ pieces cs) : '/' ∉ p := by
  induction cs generalizing p with
  | nil =>
      rw [List.mem_singleton.mp h]
      exact List.not_mem_nil
  | cons c cs ih =>
      obtain ⟨q, qs, hcs⟩ := List.exists_cons_of_ne_nil (pieces_ne_nil cs)
      rw [hcs] at ih
      rw [pieces_cons hcs] at h
      split at h
      next =>
        rcases List.mem_cons.mp h with rfl | h
        · exact List.not_mem_nil
        · exact ih h
      next hc =>
        rcases List.mem_cons.mp h with rfl | h
        · rw [List.mem_cons, not_or]
          exact ⟨Ne.symm hc, ih List.mem_cons_self⟩
        · exact ih (List.mem_cons_of_mem q h)

theorem parts_append (dir name : String) :
    parts (dir ++ "/" ++ name) = parts dir ++ parts name := by
  have hchars : (dir ++ "/" ++ name).toList = dir.toList ++ '/' :: name.toList := by simp
  rw [parts, hchars, pieces_append, List.map_append]
  rfl

theorem parts_eq_singleton {name : String} (h : '/' ∉ name.toList) : parts name = [name] := by
  rw [parts, pieces_eq_singleton h, List.map_singleton, String.ofList_toList]

theorem slash_not_mem_of_mem_parts {path part : String} (h : part ∈ parts path) :
    '/' ∉ part.toList := by
  obtain ⟨p, hp, rfl⟩ := List.mem_map.mp h
  rw [String.toList_ofList]
  exact slash_not_mem_of_mem_pieces hp

/-- Parts without slashes, put together again. -/
theorem parts_intercalate {ps : List String} (hne : ps ≠ []) (h : ∀ p ∈ ps, '/' ∉ p.toList) :
    parts ("/".intercalate ps) = ps := by
  induction ps with
  | nil => exact absurd rfl hne
  | cons p ps ih =>
      have hp := parts_eq_singleton (h p List.mem_cons_self)
      cases ps with
      | nil => rw [String.intercalate_singleton, hp]
      | cons q qs =>
          rw [String.intercalate_cons_cons, parts_append, hp,
            ih (List.cons_ne_nil q qs) fun r hr => h r (List.mem_cons_of_mem p hr)]
          rfl

/-- The first part of a path is empty just if the path starts at the top of the disk. -/
theorem exists_parts_eq {path : String} (h : path ≠ "") :
    ∃ part rest, parts path = part :: rest ∧ (part = "" ↔ isRooted path = true) := by
  obtain ⟨c, cs, hchars⟩ := List.exists_cons_of_ne_nil (mt String.toList_eq_nil_iff.mp h)
  obtain ⟨p, ps, hpieces⟩ := List.exists_cons_of_ne_nil (pieces_ne_nil cs)
  rw [parts, isRooted, hchars, pieces_cons hpieces]
  split
  next hslash => exact ⟨_, _, rfl, by simp [hslash]⟩
  next hslash => exact ⟨_, _, rfl, by simp [hslash]⟩

/-! ## Shortest spellings -/

/-- A text that can stand in a shortest spelling. -/
def IsSpelled (part : String) : Prop :=
  part ≠ "" ∧ '/' ∉ part.toList

theorem isSpelled_stepPart {rooted : Bool} {done : List String} {part : String}
    (h : ∀ p ∈ done, IsSpelled p) (hslash : '/' ∉ part.toList) :
    ∀ p ∈ stepPart rooted done part, IsSpelled p := by
  have hup : IsSpelled ".." := ⟨by decide, by decide⟩
  unfold stepPart
  split
  next => exact h
  next hstays =>
    split
    next =>
      cases done with
      | nil => cases rooted <;> simp [hup]
      | cons last rest =>
          obtain ⟨hlast, hrest⟩ := List.forall_mem_cons.mp h
          dsimp only
          split
          next => exact List.forall_mem_cons.mpr ⟨hup, h⟩
          next => exact hrest
    next => exact List.forall_mem_cons.mpr ⟨⟨fun hempty => hstays (.inl hempty), hslash⟩, h⟩

theorem isSpelled_of_mem_cleanParts {path p : String} (hp : p ∈ cleanParts path) : IsSpelled p := by
  have hfold : ∀ ps done : List String, (∀ q ∈ ps, '/' ∉ q.toList) → (∀ q ∈ done, IsSpelled q) →
      ∀ q ∈ ps.foldl (stepPart (isRooted path)) done, IsSpelled q := by
    intro ps
    induction ps with
    | nil => exact fun _ _ hdone => hdone
    | cons part ps ih =>
        intro done hps hdone
        obtain ⟨hpart, hps⟩ := List.forall_mem_cons.mp hps
        exact ih _ hps (isSpelled_stepPart hdone hpart)
  refine hfold (parts path) [] (fun q hq => slash_not_mem_of_mem_parts hq) ?_ p
    (List.mem_reverse.mp hp)
  intro q hq
  cases hq

/-- The parts of a shortest spelling that has any: those that are left, after an empty one if it
starts at the top. -/
theorem parts_clean {path : String} (hne : cleanParts path ≠ []) :
    clean path ≠ "" ∧ isRooted (clean path) = isRooted path ∧
      parts (clean path) =
        if isRooted path then "" :: cleanParts path else cleanParts path := by
  have hparts := parts_intercalate hne fun p hp => (isSpelled_of_mem_cleanParts hp).2
  have hempty : ¬ "/".intercalate (cleanParts path) = "" := by
    intro hempty
    have hmem : "" ∈ cleanParts path := by
      rw [← hparts, hempty]
      exact List.mem_singleton_self ""
    exact (isSpelled_of_mem_cleanParts hmem).1 rfl
  rw [clean]
  cases hrooted : isRooted path with
  | true =>
      have hsplit := parts_append "" ("/".intercalate (cleanParts path))
      rw [hparts] at hsplit
      exact ⟨by simp, by simp [isRooted], hsplit⟩
  | false =>
      rw [if_neg (by decide), if_neg hempty, if_neg (by decide)]
      refine ⟨hempty, Bool.eq_false_iff.mpr fun htop => ?_, hparts⟩
      obtain ⟨part, rest, hcons, hfirst⟩ := exists_parts_eq hempty
      have hmem : part ∈ cleanParts path := by
        rw [← hparts, hcons]
        exact List.mem_cons_self
      exact (isSpelled_of_mem_cleanParts hmem).1 (hfirst.mpr htop)

/-- A shortest spelling without parts names the top, or where one is. -/
theorem clean_of_cleanParts_nil {path : String} (h : cleanParts path = []) :
    clean path = if isRooted path then "/" else "." := by
  rw [clean, h]
  cases isRooted path <;> rfl

/-! ## Steps -/

/-- A part of a path that is looked up in a directory. -/
structure IsEntry (part : String) : Prop where
  ne_empty : part ≠ ""
  ne_here : part ≠ "."
  ne_up : part ≠ ".."

/-- A text that is one part of a path and names something in a directory. -/
structure IsName (name : String) : Prop extends IsEntry name where
  slash_not_mem : '/' ∉ name.toList

theorem IsEntry.stepPart_eq {part : String} (h : IsEntry part) (rooted : Bool)
    (done : List String) : stepPart rooted done part = part :: done := by
  unfold stepPart
  rw [if_neg fun hstays => hstays.elim h.ne_empty h.ne_here, if_neg h.ne_up]

theorem IsName.parts_eq {name : String} (h : IsName name) : parts name = [name] :=
  parts_eq_singleton h.slash_not_mem

theorem IsName.isRooted_eq {name : String} (h : IsName name) : isRooted name = false := by
  obtain ⟨part, rest, hparts, hfirst⟩ := exists_parts_eq h.ne_empty
  rw [h.parts_eq] at hparts
  cases hparts
  exact Bool.eq_false_iff.mpr (mt hfirst.mpr h.ne_empty)

theorem Place.up_down (p : Place) (name : String) : (p.down name).up = p := by
  simp [up, down]

namespace Tree

/-- Names can be looked up in the directory at a place. -/
def Searchable (t : Tree) (place : Place) : Prop :=
  ∃ access, t.node? place = some (.directory access) ∧ access.search = true

/-- There is no link at a place. -/
def NoLink (t : Tree) (place : Place) : Prop :=
  ∀ target, t.node? place ≠ some (.link target)

/-- A part of a path leads on from a directory, and not by a link. -/
inductive Steps (t : Tree) (here : Place) : String → Place → Prop
  | empty {access : Access} : t.node? here = some (.directory access) → Steps t here "" here
  | here : t.Searchable here → Steps t here "." here
  | up : t.Searchable here → Steps t here ".." here.up
  | down {part : String} :
      t.Searchable here → IsEntry part → t.NoLink (here.down part) →
      Steps t here part (here.down part)

section
variable {t : Tree} {follow : Bool} {here next place : Place} {part : String}
  {ps rest : List String} {s : Stretch} {n : Nat}

theorem Steps.stretch_eq (h : Steps t here part next) (follow : Bool) (rest : List String) :
    t.stretch follow here (part :: rest) = t.stretch follow next rest := by
  cases h with
  | empty hnode =>
      rw [stretch, hnode]
      dsimp only
      rw [if_pos rfl]
  | here hsearch =>
      obtain ⟨access, hnode, hsearch⟩ := hsearch
      rw [stretch, hnode]
      dsimp only
      rw [if_neg (by decide), hsearch, if_neg (by decide), if_pos rfl]
  | up hsearch =>
      obtain ⟨access, hnode, hsearch⟩ := hsearch
      rw [stretch, hnode]
      dsimp only
      rw [if_neg (by decide), hsearch, if_neg (by decide), if_neg (by decide), if_pos rfl]
  | down hsearch hentry hlink =>
      obtain ⟨access, hnode, hsearch⟩ := hsearch
      rw [stretch, hnode]
      dsimp only
      rw [if_neg hentry.ne_empty, hsearch, if_neg (by decide), if_neg hentry.ne_here,
        if_neg hentry.ne_up]
      split
      next target htarget => exact absurd htarget (hlink target)
      next => rfl

theorem Steps.of_empty (h : Steps t here "" next) :
    (∃ access, t.node? here = some (.directory access)) ∧ next = here := by
  generalize hpart : "" = part at h
  cases h with
  | empty hnode => exact ⟨⟨_, hnode⟩, rfl⟩
  | here | up => exact absurd hpart (by decide)
  | down _ hentry => exact absurd hpart.symm hentry.ne_empty

theorem Steps.of_here (h : Steps t here "." next) : t.Searchable here ∧ next = here := by
  generalize hpart : "." = part at h
  cases h with
  | here hsearch => exact ⟨hsearch, rfl⟩
  | empty | up => exact absurd hpart (by decide)
  | down _ hentry => exact absurd hpart.symm hentry.ne_here

/-- Only an empty part is not looked up. -/
theorem Steps.searchable (h : Steps t here part next) (hne : part ≠ "") : t.Searchable here := by
  cases h with
  | empty => exact absurd rfl hne
  | here hsearch => exact hsearch
  | up hsearch => exact hsearch
  | down hsearch => exact hsearch

/-- What the first part of a path can do. -/
inductive StretchCase (t : Tree) (follow : Bool) (here : Place) (part : String)
    (rest : List String) : Stretch → Prop
  | on {next : Place} {s : Stretch} :
      Steps t here part next → t.stretch follow next rest = .ok s →
      StretchCase t follow here part rest s
  | link {target : String} :
      t.Searchable here → IsEntry part → t.node? (here.down part) = some (.link target) →
      follow = true ∨ rest ≠ [] → StretchCase t follow here part rest (.link here target rest)
  | last {target : String} :
      t.Searchable here → IsEntry part → t.node? (here.down part) = some (.link target) →
      follow = false → rest = [] → StretchCase t follow here part rest (.arrived (here.down part))

theorem stretch_cases (h : t.stretch follow here (part :: rest) = .ok s) :
    StretchCase t follow here part rest s := by
  rw [stretch] at h
  split at h
  next => cases h
  next => cases h
  next => cases h
  next access hnode =>
    split at h
    next hempty =>
      subst hempty
      exact .on (.empty hnode) h
    next hempty =>
      split at h
      next => cases h
      next hdenied =>
        have hsearch : t.Searchable here := ⟨access, hnode, Bool.not_eq_false _ ▸ hdenied⟩
        split at h
        next hhere =>
          subst hhere
          exact .on (.here hsearch) h
        next hhere =>
          split at h
          next hup =>
            subst hup
            exact .on (.up hsearch) h
          next hup =>
            have hentry : IsEntry part := ⟨hempty, hhere, hup⟩
            split at h
            next target htarget =>
              split at h
              next hfollow =>
                obtain rfl := Except.ok.inj h
                exact .link hsearch hentry htarget hfollow
              next hfollow =>
                rw [not_or, Bool.not_eq_true, Decidable.not_not] at hfollow
                obtain rfl := Except.ok.inj h
                exact .last hsearch hentry htarget hfollow.1 hfollow.2
            next hnone => exact .on (.down hsearch hentry hnone) h

theorem searchable_of_stretch (h : t.stretch follow here (part :: rest) = .ok s) (hne : part ≠ "") :
    t.Searchable here := by
  cases stretch_cases h with
  | on hsteps => exact hsteps.searchable hne
  | link hsearch => exact hsearch
  | last hsearch => exact hsearch

/-- An empty part stays in the directory. -/
theorem stretch_empty (h : t.stretch follow here ("" :: rest) = .ok s) :
    (∃ access, t.node? here = some (.directory access)) ∧ t.stretch follow here rest = .ok s := by
  cases stretch_cases h with
  | on hsteps hrest =>
      obtain ⟨hnode, rfl⟩ := hsteps.of_empty
      exact ⟨hnode, hrest⟩
  | link _ hentry => exact absurd rfl hentry.ne_empty
  | last _ hentry => exact absurd rfl hentry.ne_empty

theorem stretch_here (h : t.stretch follow here ("." :: rest) = .ok s) :
    t.stretch follow here rest = .ok s := by
  cases stretch_cases h with
  | on hsteps hrest =>
      obtain ⟨-, rfl⟩ := hsteps.of_here
      exact hrest
  | link _ hentry => exact absurd rfl hentry.ne_here
  | last _ hentry => exact absurd rfl hentry.ne_here

theorem stretch_link {target : String} (hsearch : t.Searchable here) (hentry : IsEntry part)
    (htarget : t.node? (here.down part) = some (.link target)) (follow : Bool)
    (rest : List String) :
    t.stretch follow here (part :: rest) =
      if follow = true ∨ rest ≠ [] then .ok (.link here target rest)
      else .ok (.arrived (here.down part)) := by
  obtain ⟨access, hnode, hsearch⟩ := hsearch
  rw [stretch, hnode]
  dsimp only
  rw [if_neg hentry.ne_empty, hsearch, if_neg (by decide), if_neg hentry.ne_here,
    if_neg hentry.ne_up, htarget]

/-- A name in a directory is arrived at, be it a link that is not to be followed. -/
theorem stretch_name (hsearch : t.Searchable here) (hentry : IsEntry part)
    (hend : follow = false ∨ t.NoLink (here.down part)) :
    t.stretch follow here [part] = .ok (.arrived (here.down part)) := by
  by_cases hlink : t.NoLink (here.down part)
  · exact (Steps.down hsearch hentry hlink).stretch_eq follow []
  · obtain rfl := hend.resolve_right hlink
    obtain ⟨target, htarget⟩ := Classical.not_forall_not.mp hlink
    rw [stretch_link hsearch hentry htarget]
    exact if_neg (by simp)

/-- A path that goes on after it has arrived. -/
theorem stretch_append (h : t.stretch true here ps = .ok (.arrived place)) (follow : Bool)
    (rest : List String) : t.stretch follow here (ps ++ rest) = t.stretch follow place rest := by
  induction ps generalizing here with
  | nil =>
      cases h
      rfl
  | cons part ps ih =>
      cases stretch_cases h with
      | on hsteps hrest =>
          rw [List.cons_append, hsteps.stretch_eq]
          exact ih hrest
      | last _ _ _ hfollow => cases hfollow

/-- A path that goes on after a link. -/
theorem stretch_append_link {dir : Place} {target : String} {after : List String}
    (h : t.stretch true here ps = .ok (.link dir target after)) (follow : Bool)
    (hne : rest ≠ []) :
    t.stretch follow here (ps ++ rest) = .ok (.link dir target (after ++ rest)) := by
  induction ps generalizing here with
  | nil => cases h
  | cons part ps ih =>
      cases stretch_cases h with
      | on hsteps hrest =>
          rw [List.cons_append, hsteps.stretch_eq]
          exact ih hrest
      | link hsearch hentry htarget _ =>
          rw [List.cons_append, stretch_link hsearch hentry htarget]
          exact if_pos (.inr (by simp [hne]))

/-! ## Walks -/

/-- A walk that leads to a place: it arrives without a link, or it follows one and goes on. -/
inductive Walks (t : Tree) (follow : Bool) (place : Place) : Nat → Place → List String → Prop
  | arrived {n : Nat} {here : Place} {ps : List String} :
      t.stretch follow here ps = .ok (.arrived place) → Walks t follow place n here ps
  | link {n : Nat} {here dir : Place} {ps rest : List String} {target : String} :
      t.stretch follow here ps = .ok (.link dir target rest) → target ≠ "" →
      Walks t follow place n (startFrom dir target) (parts target ++ rest) →
      Walks t follow place (n + 1) here ps

theorem walks_of_walk (h : t.walk follow n here ps = .ok place) :
    Walks t follow place n here ps := by
  induction n generalizing here ps with
  | zero =>
      rw [walk] at h
      split at h
      next => cases h
      next hstretch => exact .arrived (Except.ok.inj h ▸ hstretch)
      next => cases h
  | succ n ih =>
      rw [walk] at h
      split at h
      next => cases h
      next hstretch => exact .arrived (Except.ok.inj h ▸ hstretch)
      next hstretch =>
        dsimp only at h
        split at h
        next => cases h
        next hne => exact .link hstretch hne (ih h)

theorem Walks.walk_eq (h : Walks t follow place n here ps) :
    t.walk follow n here ps = .ok place := by
  induction h with
  | arrived hstretch => rw [walk, hstretch]
  | link hstretch hne _ ih =>
      rw [walk, hstretch]
      exact (if_neg hne).trans ih

/-- The name at the end of a walk that has led to a directory. -/
theorem Walks.concat (h : Walks t true place n here ps) (hsearch : t.Searchable place)
    (hentry : IsEntry part) (hend : follow = false ∨ t.NoLink (place.down part)) :
    Walks t follow (place.down part) n here (ps ++ [part]) := by
  induction h with
  | arrived hstretch =>
      exact .arrived ((stretch_append hstretch follow [part]).trans
        (stretch_name hsearch hentry hend))
  | link hstretch hne _ ih =>
      rw [List.append_assoc] at ih
      exact .link (stretch_append_link hstretch follow (List.cons_ne_nil part [])) hne ih

end

end Tree

/-! ## The parts that are left -/

/-- Parts, the last one first, that lead from a place to another one: steps up, and then names. -/
inductive Spells (t : Tree) (start : Place) : List String → Place → Prop
  | start : Spells t start [] start
  | up {done : List String} {here : Place} :
      Spells t start done here → t.Searchable here →
      (∀ last, done.head? = some last → last = "..") → Spells t start (".." :: done) here.up
  | down {done : List String} {here : Place} {part : String} :
      Spells t start done here → t.Searchable here → IsEntry part → t.NoLink (here.down part) →
      Spells t start (part :: done) (here.down part)

namespace Spells

variable {t : Tree} {start here next place : Place} {done ps : List String} {part : String}
  {rooted : Bool}

theorem stretch_eq (h : Spells t start done here) :
    t.stretch true start done.reverse = .ok (.arrived here) := by
  induction h with
  | start => rfl
  | up _ hsearch _ ih =>
      rw [List.reverse_cons, Tree.stretch_append ih, (Tree.Steps.up hsearch).stretch_eq]
      rfl
  | down _ hsearch hentry hlink ih =>
      rw [List.reverse_cons, Tree.stretch_append ih,
        (Tree.Steps.down hsearch hentry hlink).stretch_eq]
      rfl

/-- One part more, and one step of the way. -/
theorem step (h : Spells t start done here) (hrooted : rooted = true → start = .top)
    (hstep : Tree.Steps t here part next) : Spells t start (stepPart rooted done part) next := by
  cases hstep with
  | empty => exact h
  | here => exact h
  | down hsearch hentry hlink =>
      rw [hentry.stepPart_eq]
      exact .down h hsearch hentry hlink
  | up hsearch =>
      -- the part before a step up decides: there is none, it is a step up itself, or it is a name
      cases h with
      | start =>
          cases rooted with
          | false => exact .up .start hsearch fun _ hlast => by cases hlast
          | true =>
              rw [hrooted rfl]
              exact .start
      | up hdone hbefore hall =>
          exact .up (.up hdone hbefore hall) hsearch fun _ hlast => (Option.some.inj hlast).symm
      | @down done before part hdone _ hentry _ =>
          have hback : stepPart rooted (part :: done) ".." = done := by
            unfold stepPart
            rw [if_neg (by decide), if_pos rfl]
            exact if_neg hentry.ne_up
          rw [hback, Place.up_down]
          exact hdone

/-- The parts that are left of a path lead to where the path leads. -/
theorem foldl (h : Spells t start done here) (hrooted : rooted = true → start = .top)
    (hstretch : t.stretch true here ps = .ok (.arrived place)) :
    Spells t start (ps.foldl (stepPart rooted) done) place := by
  induction ps generalizing done here with
  | nil =>
      cases hstretch
      exact h
  | cons p ps ih =>
      cases Tree.stretch_cases hstretch with
      | on hsteps hrest => exact ih (h.step hrooted hsteps) hrest
      | last _ _ _ hfollow => cases hfollow

end Spells

/-! ## Names in a directory -/

namespace Tree

section
variable {t : Tree} {path dir name : String} {place : Place}

theorem locate_clean_nil (hnil : cleanParts path = []) :
    t.locate true (clean path) =
      t.walk true maxLinks (startFrom t.home path) (if isRooted path then ["", ""] else ["."]) := by
  rw [clean_of_cleanParts_nil hnil, startFrom]
  cases isRooted path <;> rfl

theorem locate_clean_cons (hne : cleanParts path ≠ []) (follow : Bool) :
    t.locate follow (clean path) = t.walk follow maxLinks (startFrom t.home path)
      ((if isRooted path then [""] else []) ++ cleanParts path) := by
  obtain ⟨hempty, hrooted, hparts⟩ := parts_clean hne
  rw [locate, if_neg hempty, startFrom, hrooted, hparts, startFrom]
  cases isRooted path <;> rfl

/-- A path that meets no link leads to where its shortest spelling leads. -/
theorem locate_clean (hpath : path ≠ "")
    (h : t.stretch true (startFrom t.home path) (parts path) = .ok (.arrived place)) :
    t.locate true (clean path) = .ok place := by
  have hspells : Spells t (startFrom t.home path) (cleanParts path).reverse place := by
    rw [cleanParts, List.reverse_reverse]
    exact Spells.start.foldl (fun hrooted => if_pos hrooted) h
  -- the first part of the path shows that it starts in a directory
  obtain ⟨part, rest, hparts, hfirst⟩ := exists_parts_eq hpath
  rw [hparts] at h
  have hstart : isRooted path = false → t.Searchable (startFrom t.home path) := by
    intro hrooted
    refine searchable_of_stretch h fun hempty => ?_
    rw [hfirst.mp hempty] at hrooted
    cases hrooted
  have htop : isRooted path = true →
      Steps t (startFrom t.home path) "" (startFrom t.home path) := by
    intro hrooted
    rw [hfirst.mpr hrooted] at h
    obtain ⟨⟨access, hnode⟩, -⟩ := stretch_empty h
    exact .empty hnode
  by_cases hnil : cleanParts path = []
  · rw [hnil] at hspells
    cases hspells
    rw [locate_clean_nil hnil]
    refine (Walks.arrived ?_).walk_eq
    cases hrooted : isRooted path with
    | true =>
        rw [if_pos rfl, (htop hrooted).stretch_eq, (htop hrooted).stretch_eq]
        rfl
    | false =>
        rw [if_neg (by decide), (Steps.here (hstart hrooted)).stretch_eq]
        rfl
  · have hstretch := hspells.stretch_eq
    rw [List.reverse_reverse] at hstretch
    rw [locate_clean_cons hnil]
    refine (Walks.arrived ?_).walk_eq
    cases hrooted : isRooted path with
    | true =>
        rw [if_pos rfl, List.singleton_append, (htop hrooted).stretch_eq]
        exact hstretch
    | false => exact hstretch

/-- A path names a place as it is written, and in its shortest spelling. -/
structure Reaches (t : Tree) (path : String) (place : Place) : Prop where
  written : t.locate true path = .ok place
  spelled : t.locate true (clean path) = .ok place

/-- A path that meets no link names the same place in both ways. -/
theorem reaches_of_stretch (hpath : path ≠ "")
    (h : t.stretch true (startFrom t.home path) (parts path) = .ok (.arrived place)) :
    t.Reaches path place := by
  refine ⟨?_, locate_clean hpath h⟩
  rw [locate, if_neg hpath]
  exact (Walks.arrived h).walk_eq

/-- The path of a name in a directory is a shortest spelling, with the name after the parts that are
left of the directory. -/
theorem exists_join_eq (hname : IsName name) (dir : String) :
    ∃ path, join dir name = clean path ∧ isRooted path = isRooted dir ∧
      cleanParts path = cleanParts dir ++ [name] := by
  rw [join]
  by_cases hdir : dir = ""
  · subst hdir
    refine ⟨name, ?_, hname.isRooted_eq, ?_⟩
    · rw [if_pos rfl, if_neg hname.ne_empty]
    · rw [cleanParts, hname.parts_eq, List.foldl_cons, List.foldl_nil, hname.stepPart_eq]
      rfl
  · have hrooted : isRooted (dir ++ "/" ++ name) = isRooted dir := by
      obtain ⟨c, cs, hcs⟩ := List.exists_cons_of_ne_nil (mt String.toList_eq_nil_iff.mp hdir)
      simp [isRooted, hcs]
    refine ⟨dir ++ "/" ++ name, ?_, hrooted, ?_⟩
    · rw [if_neg hdir, if_neg hname.ne_empty]
    · rw [cleanParts, hrooted, parts_append, hname.parts_eq, List.foldl_append, List.foldl_cons,
        List.foldl_nil, hname.stepPart_eq, List.reverse_cons]
      rfl

/-- A name in a directory is found under the path of the directory with the name after it. -/
theorem locate_join {follow : Bool} (hname : IsName name)
    (h : t.locate true (clean dir) = .ok place) (hsearch : t.Searchable place)
    (hend : follow = false ∨ t.NoLink (place.down name)) :
    t.locate follow (join dir name) = .ok (place.down name) := by
  obtain ⟨path, hjoin, hrooted, hparts⟩ := exists_join_eq hname dir
  have hne : cleanParts path ≠ [] := by
    rw [hparts]
    simp
  have hstart : startFrom t.home path = startFrom t.home dir := by
    rw [startFrom, startFrom, hrooted]
  rw [hjoin, locate_clean_cons hne, hstart, hrooted, hparts, ← List.append_assoc]
  refine (Walks.concat ?_ hsearch hname.toIsEntry hend).walk_eq
  by_cases hnil : cleanParts dir = []
  · -- nothing is left of the directory but the top, or where one is
    rw [locate_clean_nil hnil] at h
    rw [hnil, List.append_nil]
    cases hdir : isRooted dir with
    | true =>
        rw [hdir, if_pos rfl] at h
        rw [if_pos rfl]
        cases walks_of_walk h with
        | arrived hstretch => exact .arrived (stretch_empty hstretch).2
        | link hstretch => cases (stretch_empty (stretch_empty hstretch).2).2
    | false =>
        rw [hdir, if_neg (by decide)] at h
        rw [if_neg (by decide)]
        cases walks_of_walk h with
        | arrived hstretch => exact .arrived (stretch_here hstretch)
        | link hstretch => cases stretch_here hstretch
  · rw [locate_clean_cons hnil] at h
    exact walks_of_walk h

theorem locate_eq_walk (hname : IsName name) (follow : Bool) :
    t.locate follow name = t.walk follow maxLinks t.home [name] := by
  rw [locate, if_neg hname.ne_empty, hname.parts_eq, startFrom, hname.isRooted_eq,
    if_neg (by decide)]

/-- A name in the working directory. -/
theorem locate_name {follow : Bool} (hname : IsName name) (hsearch : t.Searchable t.home)
    (hend : follow = false ∨ t.NoLink (t.home.down name)) :
    t.locate follow name = .ok (t.home.down name) := by
  rw [locate_eq_walk hname]
  exact (Walks.arrived (stretch_name hsearch hname.toIsEntry hend)).walk_eq

theorem reaches_here (hsearch : t.Searchable t.home) : t.Reaches "." t.home :=
  reaches_of_stretch (by decide) ((Steps.here hsearch).stretch_eq true [])

end

/-! ## The operations -/

section
variable {t : Tree} {path : String} {place p : Place} {bytes : List UInt8} {access : Access}

theorem bind_eq {α β : Type} {x : StateM Tree α} {f : α → StateM Tree β} {a : α} {t t' : Tree}
    (h : x t = (a, t')) : (x >>= f) t = f a t' := by
  show f (x t).1 (x t).2 = _
  rw [h]

theorem searchable_of_takesNames (h : t.takesNames place = true) : t.Searchable place := by
  unfold takesNames at h
  split at h
  next access hnode => exact ⟨access, hnode, (Bool.and_eq_true_iff.mp h).2⟩
  next => cases h

theorem noLink_of_file (h : t.node? place = some (.file bytes access)) : t.NoLink place := by
  intro target htarget
  rw [h] at htarget
  cases htarget

theorem stat_file (h : t.locate true path = .ok place)
    (hnode : t.node? place = some (.file bytes access)) : t.stat path = .ok .file := by
  rw [stat, h]
  dsimp only
  rw [hnode]

theorem stat_directory (h : t.locate true path = .ok place) (hsearch : t.Searchable place) :
    t.stat path = .ok .directory := by
  obtain ⟨access, hnode, -⟩ := hsearch
  rw [stat, h]
  dsimp only
  rw [hnode]

theorem read_file (h : t.locate true path = .ok place)
    (hnode : t.node? place = some (.file bytes access)) (hread : access.read = true) :
    t.read path = .ok bytes := by
  rw [read, h]
  dsimp only
  rw [hnode]
  exact if_pos hread

/-- Something is found at the end of a path, or the path is missing, or it is refused otherwise. -/
theorem stat_eq_ok {kind : NodeKind} (h : t.stat path = .ok kind) :
    ∃ place n, t.locate true path = .ok place ∧ t.node? place = some n := by
  rw [stat] at h
  split at h
  next => cases h
  next place hlocate =>
    split at h
    next hnode => exact ⟨place, _, hlocate, hnode⟩
    next hnode => exact ⟨place, _, hlocate, hnode⟩
    next => cases h
    next => cases h

theorem create_new (h : t.locate false path = .ok place) (hfree : t.node? place = none)
    (hdir : t.takesNames place.up = true) (bytes : List UInt8) :
    t.create path bytes = .ok (t.put place (.file bytes .fresh)) := by
  rw [create, h]
  dsimp only
  rw [hfree]
  exact if_pos hdir

/-- A name in the working directory that is taken, or cannot be made, is not made. -/
theorem create_name {name : String} (hname : IsName name)
    (h : t.node? (t.home.down name) ≠ none ∨ t.takesNames t.home = false) (bytes : List UInt8) :
    ∃ fault, t.create name bytes = .error fault := by
  rw [create]
  by_cases hsearch : t.Searchable t.home
  · rw [locate_name hname hsearch (.inl rfl)]
    dsimp only
    cases hnode : t.node? (t.home.down name) with
    | some n => exact ⟨_, rfl⟩
    | none =>
        have hdir : t.takesNames (t.home.down name).up = false := by
          rw [Place.up_down]
          exact h.resolve_left fun hne => hne hnode
        exact ⟨_, if_neg (Bool.eq_false_iff.mp hdir)⟩
  · cases hlocate : t.locate false name with
    | error r => exact ⟨_, rfl⟩
    | ok place =>
        -- no name is looked up there at all
        rw [locate_eq_walk hname] at hlocate
        cases walks_of_walk hlocate with
        | arrived hstretch => exact absurd (searchable_of_stretch hstretch hname.ne_empty) hsearch
        | link hstretch => exact absurd (searchable_of_stretch hstretch hname.ne_empty) hsearch

/-! ## New files -/

theorem node?_put_self (n : Node) : (t.put place n).node? place = some n := by
  simp [node?, put]

/-- Every other place stays as it was. -/
theorem node?_put_of_ne (h : p ≠ place) (n : Node) : (t.put place n).node? p = t.node? p := by
  have hne : (p == place) = false := by simpa using h
  simp [node?, put, List.lookup_cons, hne]

theorem node?_put_of_some (hfree : t.node? place = none) {n' : Node} (hp : t.node? p = some n')
    (n : Node) : (t.put place n).node? p = some n' := by
  refine (node?_put_of_ne ?_ n).trans hp
  rintro rfl
  rw [hfree] at hp
  cases hp

theorem Searchable.put (hfree : t.node? place = none) (h : t.Searchable p) (n : Node) :
    (t.put place n).Searchable p := by
  obtain ⟨access, hnode, hsearch⟩ := h
  exact ⟨access, node?_put_of_some hfree hnode n, hsearch⟩

theorem NoLink.put (h : t.NoLink p) (place : Place) (bytes : List UInt8) (access : Access) :
    (t.put place (.file bytes access)).NoLink p := by
  intro target
  by_cases hp : p = place
  · subst hp
    rw [node?_put_self]
    exact fun hfile => nomatch hfile
  · rw [node?_put_of_ne hp]
    exact h target

theorem Steps.put {here next : Place} {part : String} (hfree : t.node? place = none)
    (h : Steps t here part next) (bytes : List UInt8) (access : Access) :
    Steps (t.put place (.file bytes access)) here part next := by
  cases h with
  | empty hnode => exact .empty (node?_put_of_some hfree hnode _)
  | here hsearch => exact .here (hsearch.put hfree _)
  | up hsearch => exact .up (hsearch.put hfree _)
  | down hsearch hentry hlink =>
      exact .down (hsearch.put hfree _) hentry (hlink.put place bytes access)

theorem stretch_put {here : Place} {ps : List String} {s : Stretch} (hfree : t.node? place = none)
    (bytes : List UInt8) (access : Access) (h : t.stretch true here ps = .ok s) :
    (t.put place (.file bytes access)).stretch true here ps = .ok s := by
  induction ps generalizing here with
  | nil => exact h
  | cons part ps ih =>
      cases stretch_cases h with
      | on hsteps hrest =>
          rw [(hsteps.put hfree bytes access).stretch_eq]
          exact ih hrest
      | link hsearch hentry htarget hfollow =>
          rw [stretch_link (hsearch.put hfree _) hentry (node?_put_of_some hfree htarget _)]
          exact if_pos hfollow
      | last _ _ _ hfollow => cases hfollow

theorem Walks.put {here : Place} {ps : List String} {n : Nat} (hfree : t.node? place = none)
    (bytes : List UInt8) (access : Access) (h : Walks t true p n here ps) :
    Walks (t.put place (.file bytes access)) true p n here ps := by
  induction h with
  | arrived hstretch => exact .arrived (stretch_put hfree bytes access hstretch)
  | link hstretch hne _ ih => exact .link (stretch_put hfree bytes access hstretch) hne ih

theorem locate_put (hfree : t.node? place = none) (bytes : List UInt8) (access : Access)
    (h : t.locate true path = .ok p) :
    (t.put place (.file bytes access)).locate true path = .ok p := by
  unfold locate at h ⊢
  split
  next hempty =>
    rw [if_pos hempty] at h
    cases h
  next hempty =>
    rw [if_neg hempty] at h
    exact ((walks_of_walk h).put hfree bytes access).walk_eq

end

end Tree

end HamScript.Files
