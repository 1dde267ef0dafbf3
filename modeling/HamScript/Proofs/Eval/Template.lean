/-
# Templates

`format` cuts its template at the placeholders and puts the texts of its arguments between the
parts.  What the placeholders and the parts of a template are is said here without cutting:

* `Places cs is`: the placeholder stands at the indices `is` and nowhere else; they go up, and are
  so far apart that no two placeholders overlap;
* `Parts cs ps`: with placeholders between them the parts `ps` are the template, and no part has
  one inside.

A template has one list of places and one list of parts, whatever braces stand beside a placeholder:
an opening brace before it would have to be followed by a closing one to begin another.
-/
import HamScript.Proofs.Eval.Answer
import HamScript.Proofs.Heap.Chains

namespace HamScript

open Source (Span)

namespace Template

/-- The placeholder. -/
def hole : List Char :=
  ['\x7b', '\x7d']

/-- The indices at which the placeholder stands, from left to right; no two of them overlap. -/
def Places (cs : List Char) (is : List Nat) : Prop :=
  (∀ i, i ∈ is ↔ hole <+: cs.drop i) ∧ is.Pairwise fun i j => i + 2 ≤ j

/-- The parts around the placeholders, none of which has a placeholder inside. -/
def Parts (cs : List Char) (ps : List (List Char)) : Prop :=
  ps ≠ [] ∧ hole.intercalate ps = cs ∧ ∀ p ∈ ps, ¬ hole <:+: p

/-- The first part, then each text with the part after it. -/
def woven (ps : List (List Char)) (texts : List String) : String :=
  String.ofList (ps.headD [] ++
    (List.zipWith (fun text p => text.toList ++ p) texts ps.tail).flatten)

variable {c : Char} {cs p rest : List Char} {ps : List (List Char)} {i j : Nat}

/-! ## Cutting -/

theorem hole_isPrefix_cons : hole <+: c :: cs ↔ c = '\x7b' ∧ ∃ rest, cs = '\x7d' :: rest := by
  rw [hole, List.cons_prefix_cons, eq_comm]
  refine and_congr_right fun _ => ?_
  constructor
  · rintro ⟨rest, hrest⟩
    exact ⟨rest, hrest.symm⟩
  · rintro ⟨rest, rfl⟩
    exact ⟨rest, rfl⟩

/-- The text of a template begins with a placeholder, or with another character. -/
theorem hole_induction {motive : List Char → Prop} (nil : motive [])
    (hole : ∀ cs, motive cs → motive (hole ++ cs))
    (other : ∀ c cs, ¬ Template.hole <+: c :: cs → motive cs → motive (c :: cs))
    (cs : List Char) : motive cs := by
  induction cs using split.induct with
  | case1 => exact nil
  | case2 cs ih => exact hole cs ih
  | case3 c cs hne part parts hsplit ih =>
      refine other c cs (fun hfront => ?_) ih
      obtain ⟨hc, rest, hrest⟩ := hole_isPrefix_cons.mp hfront
      exact hne rest hc hrest
  | case4 c cs hne hsplit ih =>
      refine other c cs (fun hfront => ?_) ih
      obtain ⟨hc, rest, hrest⟩ := hole_isPrefix_cons.mp hfront
      exact hne rest hc hrest

theorem split_hole_append (cs : List Char) : split (hole ++ cs) = [] :: split cs := by
  rw [hole, List.cons_append, List.cons_append, List.nil_append, split]

theorem split_ne_nil (cs : List Char) : split cs ≠ [] := by
  induction cs using hole_induction with
  | nil => exact List.cons_ne_nil _ _
  | hole cs ih =>
      rw [split_hole_append]
      exact List.cons_ne_nil _ _
  | other c cs hc ih =>
      rw [split]
      · split
        · exact List.cons_ne_nil _ _
        · exact List.cons_ne_nil _ _
      · rintro rest rfl rfl
        exact hc ⟨rest, rfl⟩

/-- A character that begins no placeholder goes to the first part. -/
theorem split_cons (hc : ¬ hole <+: c :: cs) :
    ∃ p ps, split cs = p :: ps ∧ split (c :: cs) = (c :: p) :: ps := by
  obtain ⟨p, ps, hsplit⟩ := List.exists_cons_of_ne_nil (split_ne_nil cs)
  refine ⟨p, ps, hsplit, ?_⟩
  rw [split, hsplit]
  rintro rest rfl rfl
  exact hc ⟨rest, rfl⟩

/-! ## The parts -/

theorem intercalate_cons_cons_head (c : Char) (p : List Char) (ps : List (List Char)) :
    hole.intercalate ((c :: p) :: ps) = c :: hole.intercalate (p :: ps) := by
  cases ps with
  | nil => rw [List.intercalate_singleton, List.intercalate_singleton]
  | cons q ps => rw [List.intercalate_cons_cons, List.intercalate_cons_cons]; rfl

theorem intercalate_nil_cons (h : ps ≠ []) :
    hole.intercalate ([] :: ps) = hole ++ hole.intercalate ps := by
  obtain ⟨q, ps, rfl⟩ := List.exists_cons_of_ne_nil h
  rw [List.intercalate_cons_cons, List.nil_append]

theorem intercalate_split (cs : List Char) : hole.intercalate (split cs) = cs := by
  induction cs using hole_induction with
  | nil => rfl
  | hole cs ih => rw [split_hole_append, intercalate_nil_cons (split_ne_nil cs), ih]
  | other c cs hc ih =>
      obtain ⟨p, ps, hsplit, hsplit'⟩ := split_cons hc
      rw [hsplit', intercalate_cons_cons_head, ← hsplit, ih]

/-- A part begins like what it is cut from. -/
theorem head_split_isPrefix (h : split cs = p :: ps) : p <+: cs := by
  rw [← intercalate_split cs, h]
  cases ps with
  | nil => exact ⟨[], by rw [List.intercalate_singleton, List.append_nil]⟩
  | cons q ps =>
      rw [List.intercalate_cons_cons, List.append_assoc]
      exact List.prefix_append p _

theorem not_hole_isInfix_of_mem_split : ∀ p ∈ split cs, ¬ hole <:+: p := by
  have hnil : ¬ hole <:+: [] := fun h => absurd h.length_le (by decide)
  induction cs using hole_induction with
  | nil => exact fun p hp => (List.mem_singleton.mp hp) ▸ hnil
  | hole cs ih =>
      rw [split_hole_append]
      exact List.forall_mem_cons.mpr ⟨hnil, ih⟩
  | other c cs hc ih =>
      obtain ⟨p, ps, hsplit, hsplit'⟩ := split_cons hc
      rw [hsplit] at ih
      obtain ⟨hp, hps⟩ := List.forall_mem_cons.mp ih
      rw [hsplit']
      refine List.forall_mem_cons.mpr ⟨fun hinside => ?_, hps⟩
      rcases List.infix_cons_iff.mp hinside with hfront | hinside
      · -- a placeholder at the front of the part is one at the front of the text
        have hp : c :: p <+: c :: cs := List.cons_prefix_cons.mpr ⟨rfl, head_split_isPrefix hsplit⟩
        exact hc (hfront.trans hp)
      · exact hp hinside

theorem parts_split (cs : List Char) : Parts cs (split cs) :=
  ⟨split_ne_nil cs, intercalate_split cs, not_hole_isInfix_of_mem_split⟩

/-- A part without placeholders stays whole, also where a placeholder follows it. -/
theorem split_append_hole (hp : ¬ hole <:+: p) (rest : List Char) :
    split (p ++ (hole ++ rest)) = p :: split rest := by
  induction p with
  | nil => exact split_hole_append rest
  | cons c p ih =>
      have hc : ¬ hole <+: c :: (p ++ (hole ++ rest)) := by
        intro hfront
        obtain ⟨rfl, rest', hrest⟩ := hole_isPrefix_cons.mp hfront
        cases p with
        | nil => exact absurd (List.cons.inj hrest).1 (by decide)
        | cons d p =>
            obtain ⟨rfl, -⟩ := List.cons.inj hrest
            exact hp (List.IsPrefix.isInfix ⟨p, rfl⟩)
      obtain ⟨q, qs, hsplit, hsplit'⟩ := split_cons hc
      rw [ih fun hinside => hp (hinside.trans (List.suffix_cons c p).isInfix)] at hsplit
      obtain ⟨rfl, rfl⟩ := List.cons.inj hsplit
      exact hsplit'

theorem split_eq_singleton (hp : ¬ hole <:+: p) : split p = [p] := by
  induction p with
  | nil => rfl
  | cons c p ih =>
      obtain ⟨q, qs, hsplit, hsplit'⟩ := split_cons fun hfront => hp hfront.isInfix
      rw [ih fun hinside => hp (hinside.trans (List.suffix_cons c p).isInfix)] at hsplit
      obtain ⟨rfl, rfl⟩ := List.cons.inj hsplit
      exact hsplit'

/-- There is only one way to cut a template. -/
theorem Parts.eq_split (h : Parts cs ps) : ps = split cs := by
  obtain ⟨hne, rfl, hparts⟩ := h
  induction ps with
  | nil => exact absurd rfl hne
  | cons p ps ih =>
      obtain ⟨hp, hps⟩ := List.forall_mem_cons.mp hparts
      cases ps with
      | nil => rw [List.intercalate_singleton, split_eq_singleton hp]
      | cons q ps =>
          rw [List.intercalate_cons_cons, List.append_assoc, split_append_hole hp,
            ← ih (List.cons_ne_nil q ps) hps]

/-! ## The places -/

/-- The indices at which the placeholder stands, where the text begins with the index `i`. -/
def placesFrom : (i : Nat) → List Char → List Nat
  | _, [] => []
  | i, c :: cs =>
    if hole.isPrefixOf (c :: cs) then i :: placesFrom (i + 1) cs else placesFrom (i + 1) cs

/-- The indices at which the placeholder stands. -/
def places (cs : List Char) : List Nat :=
  placesFrom 0 cs

theorem mem_placesFrom : j ∈ placesFrom i cs ↔ ∃ k, j = i + k ∧ hole <+: cs.drop k := by
  induction cs generalizing i with
  | nil =>
      refine ⟨fun h => absurd h List.not_mem_nil, ?_⟩
      rintro ⟨k, -, hk⟩
      rw [List.drop_nil] at hk
      exact absurd hk.length_le (by decide)
  | cons c cs ih =>
      have hrest : j ∈ placesFrom (i + 1) cs ↔
          ∃ k, j = i + (k + 1) ∧ hole <+: (c :: cs).drop (k + 1) := by
        simp only [ih, List.drop_succ_cons, Nat.add_assoc, Nat.add_comm 1]
      have hcases : (∃ k, j = i + k ∧ hole <+: (c :: cs).drop k) ↔
          (j = i ∧ hole <+: c :: cs) ∨ j ∈ placesFrom (i + 1) cs := by
        rw [hrest]
        constructor
        · rintro ⟨k, hk⟩
          cases k with
          | zero => exact .inl hk
          | succ k => exact .inr ⟨k, hk⟩
        · rintro (hzero | ⟨k, hk⟩)
          · exact ⟨0, hzero⟩
          · exact ⟨k + 1, hk⟩
      rw [hcases, placesFrom]
      by_cases hc : hole <+: c :: cs
      · rw [if_pos (List.isPrefixOf_iff_prefix.mpr hc), List.mem_cons]
        simp only [hc, and_true]
      · rw [if_neg (mt List.isPrefixOf_iff_prefix.mp hc)]
        simp only [hc, and_false, false_or]

theorem pairwise_placesFrom (i : Nat) (cs : List Char) :
    (placesFrom i cs).Pairwise fun i j => i + 2 ≤ j := by
  induction cs generalizing i with
  | nil => exact .nil
  | cons c cs ih =>
      rw [placesFrom]
      split
      next hc =>
        refine List.pairwise_cons.mpr ⟨fun j hj => ?_, ih (i + 1)⟩
        obtain ⟨k, rfl, hk⟩ := mem_placesFrom.mp hj
        cases k with
        | zero =>
            -- the closing brace of this placeholder begins no other
            obtain ⟨-, rest, rfl⟩ := hole_isPrefix_cons.mp (List.isPrefixOf_iff_prefix.mp hc)
            exact absurd (hole_isPrefix_cons.mp hk).1 (by decide)
        | succ k => omega
      next => exact ih (i + 1)

theorem places_places (cs : List Char) : Places cs (places cs) := by
  refine ⟨fun i => ?_, pairwise_placesFrom 0 cs⟩
  rw [places, mem_placesFrom]
  constructor
  · rintro ⟨k, rfl, hk⟩
    rwa [Nat.zero_add]
  · intro hi
    exact ⟨i, (Nat.zero_add i).symm, hi⟩

/-- There is one part more than there are placeholders. -/
theorem length_split (i : Nat) (cs : List Char) :
    (split cs).length = (placesFrom i cs).length + 1 := by
  induction cs using hole_induction generalizing i with
  | nil => rfl
  | hole cs ih =>
      have hopen : hole <+: '\x7b' :: '\x7d' :: cs := ⟨cs, rfl⟩
      have hclose : ¬ hole <+: '\x7d' :: cs :=
        fun h => absurd (hole_isPrefix_cons.mp h).1 (by decide)
      have hplaces : placesFrom i (hole ++ cs) = i :: placesFrom (i + 1 + 1) cs := by
        change placesFrom i ('\x7b' :: '\x7d' :: cs) = _
        rw [placesFrom, if_pos (List.isPrefixOf_iff_prefix.mpr hopen), placesFrom,
          if_neg (mt List.isPrefixOf_iff_prefix.mp hclose)]
      rw [split_hole_append, hplaces, List.length_cons, List.length_cons, ih (i + 1 + 1)]
  | other c cs hc ih =>
      obtain ⟨p, ps, hsplit, hsplit'⟩ := split_cons hc
      rw [placesFrom, if_neg (mt List.isPrefixOf_iff_prefix.mp hc), ← ih (i + 1), hsplit, hsplit',
        List.length_cons, List.length_cons]

/-! ## Filling -/

theorem woven_singleton (p : List Char) : woven [p] [] = String.ofList p := by
  rw [woven, List.zipWith_nil_left, List.flatten_nil, List.append_nil, List.headD_cons]

theorem woven_cons_cons (p q : List Char) (ps : List (List Char)) (text : String)
    (texts : List String) :
    woven (p :: q :: ps) (text :: texts) = String.ofList p ++ text ++ woven (q :: ps) texts := by
  simp [woven, String.append_assoc]

theorem fill_eq_woven {texts : List String} (h : ps.length = texts.length + 1) :
    fill ps texts = woven ps texts := by
  induction texts generalizing ps with
  | nil =>
      obtain ⟨p, rfl⟩ := List.length_eq_one_iff.mp h
      rw [fill, woven_singleton]
  | cons text texts ih =>
      obtain ⟨p, ps, rfl⟩ := List.exists_cons_of_length_eq_add_one h
      obtain ⟨q, ps, rfl⟩ := List.exists_cons_of_length_eq_add_one (Nat.succ.inj h)
      rw [fill, ih (Nat.succ.inj h), woven_cons_cons]

/-- Placeholders that are filled in give back the template. -/
theorem woven_replicate_hole {n : Nat} (h : ps.length = n + 1) :
    woven ps (List.replicate n "\x7b\x7d") = String.ofList (hole.intercalate ps) := by
  induction n generalizing ps with
  | zero =>
      obtain ⟨p, rfl⟩ := List.length_eq_one_iff.mp h
      rw [List.intercalate_singleton]
      exact woven_singleton p
  | succ n ih =>
      obtain ⟨p, ps, rfl⟩ := List.exists_cons_of_length_eq_add_one h
      obtain ⟨q, ps, rfl⟩ := List.exists_cons_of_length_eq_add_one (Nat.succ.inj h)
      rw [List.intercalate_cons_cons, String.ofList_append, String.ofList_append,
        ← ih (Nat.succ.inj h), List.replicate_succ, woven_cons_cons]
      rfl

end Template

/-! ## The builtin -/

theorem Builtin.formatTemplate_eq (t : String) (vs : List Slot) (span : Span) (w : World) :
    formatTemplate t vs span w =
      if (Template.split t.toList).length - 1 = vs.length then
        .value (.string (Template.fill (Template.split t.toList) (vs.map w.heap.text))) w
      else .fault ⟨.placeholderCount ((Template.split t.toList).length - 1) vs.length, span⟩ w := by
  rw [formatTemplate, texts, Eval.read_bind, List.length_map]
  split
  · rfl
  · rfl

/-- A value shows what it refers to. -/
theorem Heap.text_of_deref? {h : Heap} {v : Value} {slot : Slot} (hv : h.deref? v = some slot) :
    h.text slot = h.text (some v) := by
  cases v with
  | pointer p =>
      have htext : h.text (some (.pointer p)) = Value.slotText slot := by rw [text, hv]
      obtain ⟨last, hlast, rfl⟩ := Option.map_eq_some_iff.mp hv
      obtain ⟨n, -, -, hrest⟩ := followFrom_eq_some_iff.mp hlast
      rw [htext, text]
      exact hrest
  | number | string | bool | unit | function | builtin => rw [← Option.some.inj hv]

namespace Eval

theorem derefSlot_of_deref? {v : Value} {span : Span} {w : World} {slot : Slot}
    (hv : w.heap.deref? v = some slot) : derefSlot v span w = .value slot w := by
  cases v with
  | pointer p =>
      rw [derefSlot, read_bind, hv]
      rfl
  | number | string | bool | unit | function | builtin =>
      rw [← Option.some.inj hv]
      rfl

/-- The arguments of a builtin show the same after their pointers have been followed. -/
theorem exists_derefAll {vs : List Value} {w : World} (hvs : ∀ v ∈ vs, (w.heap.deref? v).isSome)
    (span : Span) : ∃ slots, derefAll span vs w = .value slots w ∧
      slots.map w.heap.text = (vs.map some).map w.heap.text := by
  induction vs with
  | nil => exact ⟨[], rfl, rfl⟩
  | cons v vs ih =>
      obtain ⟨hv, hvs⟩ := List.forall_mem_cons.mp hvs
      obtain ⟨slot, hslot⟩ := Option.isSome_iff_exists.mp hv
      obtain ⟨slots, hslots, htexts⟩ := ih hvs
      refine ⟨slot :: slots, ?_, ?_⟩
      · rw [derefAll, bind_of_value (derefSlot_of_deref? hslot), bind_of_value hslots]
        rfl
      · rw [List.map_cons, List.map_cons, List.map_cons, htexts, Heap.text_of_deref? hslot]

/-- A program that calls `format` has its arguments shown as they are. -/
theorem callBuiltin_format {t : String} {vs : List Value} {w : World}
    (hvs : ∀ v ∈ vs, (w.heap.deref? v).isSome) (span : Span) :
    callBuiltin .format (.string t :: vs) span w =
      Builtin.run .format (some (.string t) :: vs.map some) span w := by
  obtain ⟨slots, hslots, htexts⟩ := exists_derefAll hvs span
  have hlength : slots.length = (vs.map some).length := by
    rw [← List.length_map w.heap.text, htexts, List.length_map]
  have hall : derefAll span (.string t :: vs) w = .value (some (.string t) :: slots) w := by
    rw [derefAll, bind_of_value (derefSlot_of_deref? rfl), bind_of_value hslots]
    rfl
  change (derefAll span (.string t :: vs) >>= fun args => Builtin.format.run args span) w = _
  rw [bind_of_value hall]
  change Builtin.formatTemplate t slots span w = Builtin.formatTemplate t (vs.map some) span w
  rw [Builtin.formatTemplate_eq, Builtin.formatTemplate_eq, htexts, hlength]

end Eval

/-- **Templates are filled once.**  `format` succeeds if and only if there are as many arguments as
places, and otherwise reports both numbers.  The result has the text of each argument between the
parts of the template, of which there is only one choice.  What has been filled in is not looked at
again: placeholders as arguments give back the template.  All this is so in every world and for all
arguments, also for those that a program gives, whose pointers are followed first. -/
theorem Builtin.format_fills_template (t : String) (vs : List Slot) (span : Span) (w : World) :
    Template.Places t.toList (Template.places t.toList) ∧
    ∃ ps, Template.Parts t.toList ps ∧ (∀ qs, Template.Parts t.toList qs → qs = ps) ∧
      ps.length = (Template.places t.toList).length + 1 ∧
      ((Template.places t.toList).length = vs.length →
        Builtin.format.run (some (.string t) :: vs) span w =
          .value (.string (Template.woven ps (vs.map w.heap.text))) w) ∧
      ((Template.places t.toList).length ≠ vs.length →
        ∃ f, Builtin.format.run (some (.string t) :: vs) span w = .fault f w ∧ f.span = span ∧
          f.cause.faultClass = .formatMismatch ∧
          f.cause.text = "template has " ++ toString (Template.places t.toList).length ++
            " placeholders but " ++ toString vs.length ++ " arguments were given") ∧
      (vs = List.replicate (Template.places t.toList).length (some (.string "\x7b\x7d")) →
        Builtin.format.run (some (.string t) :: vs) span w = .value (.string t) w) ∧
      (∀ us : List Value, vs = us.map some → (∀ u ∈ us, (w.heap.deref? u).isSome) →
        Eval.callBuiltin .format (.string t :: us) span w =
          Builtin.format.run (some (.string t) :: vs) span w) := by
  have hcount : (Template.split t.toList).length = (Template.places t.toList).length + 1 :=
    Template.length_split 0 t.toList
  -- what the builtin does, with the parts and the number of places
  have hrun : Builtin.format.run (some (.string t) :: vs) span w =
      if (Template.places t.toList).length = vs.length then
        .value (.string (Template.fill (Template.split t.toList) (vs.map w.heap.text))) w
      else .fault ⟨.placeholderCount (Template.places t.toList).length vs.length, span⟩ w := by
    have hformat := formatTemplate_eq t vs span w
    rwa [hcount, Nat.add_sub_cancel] at hformat
  have hsuccess : (Template.places t.toList).length = vs.length →
      Builtin.format.run (some (.string t) :: vs) span w =
        .value (.string (Template.woven (Template.split t.toList) (vs.map w.heap.text))) w := by
    intro heq
    rw [hrun, if_pos heq, Template.fill_eq_woven (by rw [hcount, heq, List.length_map])]
  refine ⟨Template.places_places t.toList, Template.split t.toList, Template.parts_split _,
    fun qs hqs => hqs.eq_split, hcount, hsuccess, fun hne => ?_, ?_, ?_⟩
  · exact ⟨_, hrun.trans (if_neg hne), rfl, rfl, rfl⟩
  · rintro rfl
    have htexts : (List.replicate (Template.places t.toList).length
        (some (.string "\x7b\x7d"))).map w.heap.text =
          List.replicate (Template.places t.toList).length "\x7b\x7d" := by
      rw [List.map_replicate]
      rfl
    rw [hsuccess List.length_replicate.symm, htexts, Template.woven_replicate_hole hcount,
      Template.intercalate_split, String.ofList_toList]
  · rintro us rfl hus
    exact Eval.callBuiltin_format hus span

/-- A placeholder between braces and one right behind them, filled with a placeholder and a
truth. -/
theorem Builtin.format_fills_template_nested :
    Template.places "\x7b\x7b\x7d\x7d\x7b\x7d".toList = [1, 4] ∧
    Builtin.format.run [some (.string "\x7b\x7b\x7d\x7d\x7b\x7d"), some (.string "\x7b\x7d"),
      some (.bool true)] default ⟨Heap.empty, "", []⟩ =
        .value (.string "\x7b\x7b\x7d\x7dtrue") ⟨Heap.empty, "", []⟩ := by
  have hplaces : Template.places "\x7b\x7b\x7d\x7d\x7b\x7d".toList = [1, 4] := by decide
  obtain ⟨-, ps, -, hunique, -, hsuccess, -⟩ :=
    format_fills_template "\x7b\x7b\x7d\x7d\x7b\x7d" [some (.string "\x7b\x7d"), some (.bool true)]
      default ⟨Heap.empty, "", []⟩
  refine ⟨hplaces, ?_⟩
  rw [hsuccess (congrArg List.length hplaces), ← hunique _ (Template.parts_split _)]
  have hwoven : Template.woven (Template.split "\x7b\x7b\x7d\x7d\x7b\x7d".toList)
      ["\x7b\x7d", "true"] = "\x7b\x7b\x7d\x7dtrue" := by decide +kernel
  exact congrArg (fun text => Outcome.value (Value.string text) _) hwoven

end HamScript
