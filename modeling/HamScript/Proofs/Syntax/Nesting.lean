/-
# Spans nest like the tree

The nodes of a tree are its statements, its expressions and the names in them.  Each node is made of
a run of tokens, and its span goes from the beginning of the first to the end of the last.  The runs
of its children are cut out of its own run, one behind the other (`Over`, `Lined`).  Between them are
the tokens that leave nothing in the tree: words, operators, commas, braces and the parentheses that
only group.

A grouping parenthesis belongs to no node inside it, but it need not be inside the node around it
either: `(a) + b` begins with the name, so its run is `a ) + b`.  That is why an expression is said
to be cut out of the tokens that derive it, not to be made of them.  Statements are made of all
their tokens, so those of a program tile it (`Tiles`).

This is about tokens and is shown by induction on derivations.  That the runs are apart as spans is
then only a matter of the order of the tokens (`Token.Rising`).
-/
import HamScript.Proofs.Syntax.Blame
import HamScript.Proofs.Syntax.Lines
import HamScript.Proofs.Syntax.Realises

namespace HamScript

open Grammar (Derives Designates IsName Params Phrase endOf endOf_append endOf_cons
  endOf_singleton exists_endOf startOf)
open Source (Glyph Span)

/-! ## Nodes -/

/-- A part of a tree that has a place. -/
inductive Node where
  | name (x : Ident)
  | expr (e : Expr)
  | stmt (s : Stmt)

namespace Node

def span : Node → Span
  | name x => x.span
  | expr e => e.span
  | stmt s => s.span

/-- The nodes right below a node, as they are written. -/
def children : Node → List Node
  | name _ => []
  | expr (.int _ _) | expr (.float _ _) | expr (.string _ _) | expr (.bool _ _) => []
  | expr (.var x) | expr (.ref x _) => [name x]
  | expr (.negate e _) => [expr e]
  | expr (.binary _ l r _) => [expr l, expr r]
  | expr (.assign x e _) => [name x, expr e]
  | expr (.call c es _) => expr c :: es.map expr
  | expr (.method r x es _) => expr r :: name x :: es.map expr
  | expr (.fn xs b _) => xs.map name ++ b.map stmt
  | stmt (.letIn x e _) => [name x, expr e]
  | stmt (.fnDecl x xs b _) => name x :: (xs.map name ++ b.map stmt)
  | stmt (.ifThen e b _) | stmt (.whileDo e b _) => expr e :: b.map stmt
  | stmt (.returnUnit _) | stmt (.breakOut _) => []
  | stmt (.returnValue e _) | stmt (.expr e _) => [expr e]

/-- The node stands in the program, at any depth. -/
inductive In (P : Program) : Node → Prop
  | top {s : Stmt} : s ∈ P → In P (stmt s)
  | child {n c : Node} : In P n → c ∈ n.children → In P c

end Node

/-- The span lies in the other one. -/
def Source.Span.Within (s outer : Span) : Prop :=
  outer.first.offset ≤ s.first.offset ∧ s.last.offset ≤ outer.last.offset

/-- The span ends before the other one begins. -/
def Source.Span.Before (s later : Span) : Prop :=
  s.last.offset < later.first.offset

/-! ## Runs of tokens -/

mutual

/-- The node is made of the tokens: its span goes from the first to the last, and its children are
cut out of them. -/
inductive Over : List Token → Node → Prop
  | mk {run : List Token} {n : Node} :
      run ≠ [] → n.span = ⟨startOf run, endOf run⟩ → Lined run n.children → Over run n

/-- The nodes are made of runs that are cut out of the tokens, one behind the other. -/
inductive Lined : List Token → List Node → Prop
  | nil (ts : List Token) : Lined ts []
  | cons (gap : List Token) {run rest : List Token} {n : Node} {ns : List Node} :
      Over run n → Lined rest ns → Lined (gap ++ (run ++ rest)) (n :: ns)

end

/-- The nodes are made of the tokens, and no token is left over. -/
inductive Tiles : List Token → List Node → Prop
  | nil : Tiles [] []
  | cons {run rest : List Token} {n : Node} {ns : List Node} :
      Over run n → Tiles rest ns → Tiles (run ++ rest) (n :: ns)

namespace Lined

variable {ts us : List Token} {n : Node} {ns ms : List Node}

theorem one (h : Over ts n) : Lined ts [n] := by
  have hlined : Lined ([] ++ (ts ++ [])) [n] := .cons [] h (.nil [])
  rwa [List.nil_append, List.append_nil] at hlined

/-- Tokens in front do not matter. -/
theorem after (gap : List Token) (h : Lined ts ns) : Lined (gap ++ ts) ns := by
  cases h with
  | nil => exact .nil _
  | cons gap' hn hns =>
      rw [← List.append_assoc]
      exact .cons (gap ++ gap') hn hns

theorem append (h : Lined ts ns) (h' : Lined us ms) : Lined (ts ++ us) (ns ++ ms) := by
  induction ns generalizing ts with
  | nil => exact h'.after ts
  | cons n ns ih =>
      cases h with
      | cons gap hn hns =>
          rw [List.append_assoc, List.append_assoc]
          exact .cons gap hn (ih hns)

/-- Tokens behind do not matter. -/
theorem before (h : Lined ts ns) (us : List Token) : Lined (ts ++ us) ns := by
  have hlined := h.append (.nil us)
  rwa [List.append_nil] at hlined

theorem exists_run (h : Lined ts ns) (hn : n ∈ ns) :
    ∃ gap run rest, ts = gap ++ (run ++ rest) ∧ Over run n := by
  induction ns generalizing ts with
  | nil => exact absurd hn List.not_mem_nil
  | cons m ns ih =>
      cases h with
      | @cons gap run rest _ _ hm hns =>
          rcases List.mem_cons.mp hn with rfl | hn
          · exact ⟨gap, run, rest, rfl, hm⟩
          · obtain ⟨gap', run', rest', rfl, hover⟩ := ih hns hn
            refine ⟨gap ++ (run ++ gap'), run', rest', ?_, hover⟩
            simp only [List.append_assoc]

end Lined

theorem Tiles.lined {ts : List Token} {ns : List Node} (h : Tiles ts ns) : Lined ts ns := by
  induction h with
  | nil => exact .nil []
  | cons hn _ ih => exact .cons [] hn ih

/-! ## Derivations -/

theorem Grammar.startOf_append {ts : List Token} (h : ts ≠ []) (us : List Token) :
    startOf (ts ++ us) = startOf ts := by
  obtain ⟨t, ts, rfl⟩ := List.exists_cons_of_ne_nil h
  rfl

namespace Over

variable {run us : List Token} {t : Token} {x : Ident} {n : Node}

theorem ne_nil : Over run n → run ≠ []
  | .mk hne _ _ => hne

theorem span_eq : Over run n → n.span = ⟨startOf run, endOf run⟩
  | .mk _ hspan _ => hspan

theorem children : Over run n → Lined run n.children
  | .mk _ _ hchildren => hchildren

/-- A token by itself. -/
theorem leaf (hspan : n.span = t.span) (hleaf : n.children = []) : Over [t] n :=
  .mk (List.cons_ne_nil t []) hspan (hleaf ▸ .nil [t])

theorem name (hx : IsName t x) : Over [t] (.name x) := by
  obtain ⟨-, rfl⟩ := hx
  exact leaf rfl rfl

/-- A node that begins with a token of its own. -/
theorem head (hne : us ≠ []) (hspan : n.span = ⟨t.span.first, endOf us⟩)
    (hchildren : Lined us n.children) : Over (t :: us) n := by
  refine .mk (List.cons_ne_nil t us) ?_ (hchildren.after [t])
  rw [hspan, endOf_cons t hne]
  rfl

end Over

/-- An expression that goes on with tokens after another one.  It has this one for its first child,
or takes over what is cut out of it. -/
theorem Lined.extend {ls us : List Token} {l e : Expr} {ms ns : List Node}
    (h : Lined ls [.expr l]) (hms : ∀ run, Over run (.expr l) → Lined run ms) (hns : Lined us ns)
    (hne : us ≠ []) (hspan : e.span = ⟨l.span.first, endOf us⟩)
    (hchildren : (Node.expr e).children = ms ++ ns) : Lined (ls ++ us) [.expr e] := by
  obtain ⟨gap, run, rest, rfl, hl⟩ := h.exists_run List.mem_cons_self
  have hover : Over (run ++ (rest ++ us)) (.expr e) := by
    have hne' : rest ++ us ≠ [] := List.append_ne_nil_of_right_ne_nil rest hne
    refine .mk (List.append_ne_nil_of_left_ne_nil hl.ne_nil _) ?_ ?_
    · have hlspan : l.span = ⟨startOf run, endOf run⟩ := hl.span_eq
      rw [Grammar.startOf_append hl.ne_nil, endOf_append run hne', endOf_append rest hne]
      rw [hlspan] at hspan
      exact hspan
    · rw [hchildren]
      exact (hms run hl).append (hns.after rest)
  have hlined := (Lined.one hover).after gap
  rwa [← List.append_assoc run, ← List.append_assoc] at hlined

theorem Lined.params {xs : List Ident} {ts : List Token} (h : Params xs ts) :
    Lined ts (xs.map .name) := by
  obtain ⟨o, us, rfl, -, hlist⟩ := h
  suffices hus : Lined us (xs.map .name) from hus.after [o]
  induction hlist with
  | none => exact .nil _
  | one hx _ =>
      obtain ⟨t, rfl, hname⟩ := hx
      exact (one (Over.name hname)).before _
  | @more x xs _ us c hx _ _ ih =>
      obtain ⟨t, rfl, hname⟩ := hx
      exact (one (Over.name hname)).append (ih.after [c])

/-- Whatever is assigned to, a variable or a pointer to one, has the name cut out of it. -/
theorem Over.target {run : List Token} {l : Expr} {x : Ident} (h : Over run (.expr l))
    (hx : Designates l x) : Lined run [.name x] := by
  have hchildren := h.children
  rcases hx with rfl | ⟨span, rfl⟩
  · exact hchildren
  · exact hchildren

/-- How a phrase lies over the tokens that derive it. -/
def Grammar.Phrase.LiesOver : Phrase → List Token → Prop
  | .expr _ e, ts => Lined ts [.expr e]
  | .args es, ts => Lined ts (es.map .expr)
  | .block b, ts => Lined ts (b.map .stmt)
  | .stmt s _, ts => Over ts (.stmt s)
  | .stmts b _, ts => Tiles ts (b.map .stmt)

theorem Grammar.Derives.liesOver {φ : Phrase} {ts : List Token} (h : Derives φ ts) :
    φ.LiesOver ts := by
  -- A span is closed with the end of its last token: by `hend`, what stands before does not matter.
  induction h with
  | int | float | string | truth | falsity => exact .one (.leaf rfl rfl)
  | @var t x hx =>
      have hname := Over.name hx
      exact .one (.mk hname.ne_nil hname.span_eq (.one hname))
  | ref _ hx => exact .one (.head (List.cons_ne_nil _ _) rfl (.one (.name hx)))
  | @paren o c _ _ _ _ _ ih => exact (ih.before [c]).after [o]
  | @fn f _ _ us vs _ hparams hblock ih =>
      have hne := hblock.block_ne_nil
      have hend := endOf_append us hne
      exact .one (.head (List.append_ne_nil_of_right_ne_nil us hne) (hend ▸ rfl)
        ((Lined.params hparams).append ih))
  | @call l es ls us o _ _ _ hargs ihl ihes =>
      have hend := endOf_cons o hargs.args_ne_nil
      exact ihl.extend (fun _ => .one) (ihes.after [o]) (List.cons_ne_nil o us) (hend ▸ rfl) rfl
  | @method l x es ls us d t o _ _ _ hx _ hargs ihl ihes =>
      have hend : endOf ([d, t, o] ++ us) = endOf us := endOf_append _ hargs.args_ne_nil
      have hrest : Lined ([d] ++ ([t] ++ ([o] ++ us))) (.name x :: es.map .expr) :=
        ((Lined.one (.name hx)).append (ihes.after [o])).after [d]
      exact ihl.extend (fun _ => .one) hrest (List.cons_ne_nil d _) (hend ▸ rfl) rfl
  | @negate m e ts _ he ih => exact .one (.head he.expr_ne_nil rfl ih)
  | @binary op l r ls rs o _ _ _ hr ihl ihr =>
      have hend := endOf_cons o hr.expr_ne_nil
      exact ihl.extend (fun _ => .one) (ihr.after [o]) (List.cons_ne_nil o rs) (hend ▸ rfl) rfl
  | @assign l v x ls rs o _ hx _ _ hv ihl ihv =>
      have hend := endOf_cons o hv.expr_ne_nil
      exact ihl.extend (fun _ hl => hl.target hx) (ihv.after [o]) (List.cons_ne_nil o rs)
        (hend ▸ rfl) rfl
  | up _ ih => exact ih
  | noArgs => exact .nil _
  | lastArg _ _ ih => exact ih.before _
  | @moreArgs _ _ _ _ c _ _ _ ih ihs => exact ih.append (ihs.after [c])
  | @block o c _ _ _ _ _ ih => exact (ih.lined.before [c]).after [o]
  | noStmts => exact .nil
  | moreStmts _ _ ih ihs => exact .cons ih ihs
  | @letIn k t o _ x e ts _ hx _ he _ ih =>
      have hend : endOf ([t, o] ++ ts) = endOf ts := endOf_append _ he.expr_ne_nil
      exact .head (List.cons_ne_nil t _) (hend ▸ rfl) ((Lined.one (.name hx)).append (ih.after [o]))
  | @fnDecl k t x xs b us vs _ _ hx hparams hblock ih =>
      have hend : endOf (([t] ++ us) ++ vs) = endOf vs := endOf_append _ hblock.block_ne_nil
      exact .head (List.cons_ne_nil t _) (hend ▸ rfl)
        ((Lined.one (.name hx)).append ((Lined.params hparams).append ih))
  | @ifThen k e b ts us _ _ he hblock ih ihs | @whileDo k e b ts us _ _ he hblock ih ihs =>
      have hend := endOf_append ts hblock.block_ne_nil
      exact .head (List.append_ne_nil_of_left_ne_nil he.expr_ne_nil us) (hend ▸ rfl) (ih.append ihs)
  | returnUnit | breakOut => exact .leaf rfl rfl
  | returnValue _ _ he _ ih => exact .head he.expr_ne_nil rfl ih
  | expr he _ ih => exact .mk he.expr_ne_nil rfl ih

/-! ## Spans -/

namespace Token.Rising

variable {k : Int} {t : Token} {ts : List Token}

theorem startOf_le (h : Rising k ts) (ht : t ∈ ts) :
    (startOf ts).offset ≤ t.span.first.offset := by
  cases h with
  | nil => exact absurd ht List.not_mem_nil
  | @cons _ u us _ hlast hrest =>
      rcases List.mem_cons.mp ht with rfl | ht
      · exact Int.le_refl _
      · have hle := hrest.le_first ht
        change u.span.first.offset ≤ t.span.first.offset
        omega

theorem le_endOf (h : Rising k ts) (ht : t ∈ ts) : t.span.last.offset ≤ (endOf ts).offset := by
  rcases ts.eq_nil_or_concat' with rfl | ⟨init, u, rfl⟩
  · exact absurd ht List.not_mem_nil
  · rw [endOf_append init (List.cons_ne_nil u []), endOf_singleton]
    rcases List.mem_append.mp ht with hinit | hlast
    · have hlt := h.lt_of_append hinit List.mem_cons_self
      have hle := h.first_le_last (List.mem_append_right init List.mem_cons_self)
      omega
    · obtain rfl := List.mem_singleton.mp hlast
      exact Int.le_refl _

end Token.Rising

/-- A node goes from one of its tokens to another one. -/
theorem Over.exists_ends {run : List Token} {n : Node} (h : Over run n) :
    ∃ t ∈ run, ∃ u ∈ run, n.span = ⟨t.span.first, u.span.last⟩ := by
  obtain ⟨u, hu, hlast⟩ := exists_endOf h.ne_nil
  have hspan := h.span_eq
  obtain ⟨t, ts, rfl⟩ := List.exists_cons_of_ne_nil h.ne_nil
  rw [hlast] at hspan
  exact ⟨t, List.mem_cons_self, u, hu, hspan⟩

theorem Over.within {run : List Token} {n : Node} {t : Token} {k : Int} (h : Over run n)
    (hr : Token.Rising k run) (ht : t ∈ run) : t.span.Within n.span := by
  rw [h.span_eq]
  exact ⟨hr.startOf_le ht, hr.le_endOf ht⟩

theorem Over.between {run : List Token} {n : Node} {k : Int} (h : Over run n)
    (hr : Token.Rising k run) : n.span.Between (· ∈ run) := by
  obtain ⟨t, ht, u, hu, hspan⟩ := h.exists_ends
  refine ⟨t, u, ht, hu, hspan, ?_⟩
  have hle := hr.first_le_last ht
  have hwithin := h.within hr ht
  exact Int.le_trans hwithin.1 (Int.le_trans hle hwithin.2)

namespace Lined

variable {ts : List Token} {n : Node} {ns : List Node} {k : Int}

theorem exists_ends (h : Lined ts ns) (hn : n ∈ ns) :
    ∃ t ∈ ts, ∃ u ∈ ts, n.span = ⟨t.span.first, u.span.last⟩ := by
  obtain ⟨gap, run, rest, rfl, hover⟩ := h.exists_run hn
  have hrun : ∀ {v}, v ∈ run → v ∈ gap ++ (run ++ rest) := fun hv =>
    List.mem_append_right gap (List.mem_append_left rest hv)
  obtain ⟨t, ht, u, hu, hspan⟩ := hover.exists_ends
  exact ⟨t, hrun ht, u, hrun hu, hspan⟩

theorem within (h : Lined ts ns) (hr : Token.Rising k ts) (hn : n ∈ ns) :
    n.span.Within ⟨startOf ts, endOf ts⟩ := by
  obtain ⟨t, ht, u, hu, hspan⟩ := h.exists_ends hn
  rw [hspan]
  exact ⟨hr.startOf_le ht, hr.le_endOf hu⟩

theorem pairwise_before (h : Lined ts ns) (hr : Token.Rising k ts) :
    ns.Pairwise fun n m => n.span.Before m.span := by
  induction ns generalizing ts k with
  | nil => exact .nil
  | cons n ns ih =>
      cases h with
      | @cons gap run rest _ _ hn hns =>
          obtain ⟨_, hr⟩ := hr.of_append.2
          obtain ⟨_, hrest⟩ := hr.of_append.2
          refine .cons (fun m hm => ?_) (ih hns hrest)
          obtain ⟨_, _, u, hu, hspan⟩ := hn.exists_ends
          obtain ⟨t, ht, _, _, hspan'⟩ := hns.exists_ends hm
          rw [hspan, hspan']
          exact hr.lt_of_append hu ht

end Lined

/-- A token lies in one of the nodes that tile the tokens; the nodes before it end before the token
begins, and the ones after it begin after the token has ended. -/
theorem Tiles.exists_tile {ts : List Token} {ns : List Node} {t : Token} {k : Int}
    (h : Tiles ts ns) (hr : Token.Rising k ts) (ht : t ∈ ts) :
    ∃ before n after, ns = before ++ n :: after ∧ t.span.Within n.span ∧
      (∀ m ∈ before, m.span.Before t.span) ∧ ∀ m ∈ after, t.span.Before m.span := by
  induction h generalizing k with
  | nil => exact absurd ht List.not_mem_nil
  | @cons run rest n ns hn hns ih =>
      obtain ⟨hrun, _, hrest⟩ := hr.of_append
      rcases List.mem_append.mp ht with ht | ht
      · refine ⟨[], n, ns, rfl, hn.within hrun ht, fun m hm => absurd hm List.not_mem_nil, ?_⟩
        intro m hm
        obtain ⟨u, hu, _, _, hspan⟩ := hns.lined.exists_ends hm
        rw [hspan]
        exact hr.lt_of_append ht hu
      · obtain ⟨before, m, after, rfl, hwithin, hbefore, hafter⟩ := ih hrest ht
        refine ⟨n :: before, m, after, rfl, hwithin, ?_, hafter⟩
        intro m' hm'
        rcases List.mem_cons.mp hm' with rfl | hm'
        · obtain ⟨_, _, u, hu, hspan⟩ := hn.exists_ends
          rw [hspan]
          exact hr.lt_of_append hu ht
        · exact hbefore m' hm'

/-! ## Programs -/

/-- Every node of a program is made of some of its tokens. -/
theorem Node.In.exists_run {P : Program} {n : Node} (h : n.In P) {ts : List Token}
    (hP : Tiles ts (P.map .stmt)) : ∃ gap run rest, ts = gap ++ (run ++ rest) ∧ Over run n := by
  induction h with
  | top hs => exact hP.lined.exists_run (List.mem_map_of_mem hs)
  | child _ hc ih =>
      obtain ⟨gap, run, rest, rfl, hn⟩ := ih
      obtain ⟨gap', run', rest', rfl, hover⟩ := hn.children.exists_run hc
      refine ⟨gap ++ gap', run', rest' ++ rest, ?_, hover⟩
      simp only [List.append_assoc]

/-- The node goes from one of the tokens to another one, its children lie in it, and they are in
order and apart. -/
structure Node.Nests (ts : List Token) (n : Node) : Prop where
  between : n.span.Between (· ∈ ts)
  within : ∀ c ∈ n.children, c.span.Within n.span
  apart : n.children.Pairwise fun c d => c.span.Before d.span

theorem Node.In.nests {P : Program} {n : Node} (h : n.In P) {ts : List Token}
    (hP : Tiles ts (P.map .stmt)) {k : Int} (hr : Token.Rising k ts) : n.Nests ts := by
  obtain ⟨gap, run, rest, rfl, hn⟩ := h.exists_run hP
  obtain ⟨_, hr⟩ := hr.of_append.2
  have hrun := hr.of_append.1
  refine ⟨?_, ?_, hn.children.pairwise_before hrun⟩
  · obtain ⟨t, u, ht, hu, hspan⟩ := hn.between hrun
    exact ⟨t, u, List.mem_append_right gap (List.mem_append_left rest ht),
      List.mem_append_right gap (List.mem_append_left rest hu), hspan⟩
  · rw [hn.span_eq]
    exact fun c hc => hn.children.within hrun hc

/-- **Spans nest like the tree.**  Let a source be parsed as a program.  Each node of the program
goes from the beginning of a token to the end of one and not backwards, its children lie within it,
and they stand one behind the other.  The statements of the program stand one behind the other too,
and each token of the source lies in exactly one of them: those before it end before the token, and
those after it begin after the token. -/
theorem spans_nest {bytes : List UInt8} {ending : Ending} {P : Program}
    (h : Program.ofGlyphs (Glyph.ofBytes bytes) ending = .ok P) :
    ∃ ts p, Scan.ofGlyphs (Glyph.ofBytes bytes) ending = ⟨ts, .ok p⟩ ∧
      (∀ n : Node, n.In P → n.Nests ts) ∧
      P.Pairwise (fun s s' => s.span.Before s'.span) ∧
      ∀ t ∈ ts, ∃ before s after, P = before ++ s :: after ∧ t.span.Within s.span ∧
        (∀ s' ∈ before, s'.span.Before t.span) ∧ ∀ s' ∈ after, t.span.Before s'.span := by
  obtain ⟨ts, p, hscan, hderives⟩ := Program.exists_derives h
  have hP : Tiles ts (P.map .stmt) := hderives.liesOver
  have hlisted := Scan.rising_listed bytes ending
  rw [hscan] at hlisted
  have hr := hlisted.of_append.1
  have hpairs := hP.lined.pairwise_before hr
  rw [List.pairwise_map] at hpairs
  refine ⟨ts, p, hscan, fun n hn => hn.nests hP hr, hpairs, fun t ht => ?_⟩
  obtain ⟨before, n, after, hsplit, hwithin, hbefore, hafter⟩ := hP.exists_tile hr ht
  obtain ⟨before, rest, rfl, rfl, hrest⟩ := List.map_eq_append_iff.mp hsplit
  obtain ⟨s, after, rfl, rfl, rfl⟩ := List.map_eq_cons_iff.mp hrest
  exact ⟨before, s, after, rfl, hwithin, fun s' hs' => hbefore _ (List.mem_map_of_mem hs'),
    fun s' hs' => hafter _ (List.mem_map_of_mem hs')⟩

/-- `(&x) = fn(a, b) { (a) - (b) }` and, on the next line, `((f))(2, (3))`: parentheses that only
group, before, in and behind what they group. -/
def grouped : List UInt8 :=
  "(&x) = fn(a, b) { (a) - (b) }\n((f))(2, (3))".toUTF8.data.toList

theorem spans_nest_grouped :
    ∃ P, P.length = 2 ∧ Program.ofGlyphs (Glyph.ofBytes grouped) .finished = .ok P ∧
      ∃ ts p, Scan.ofGlyphs (Glyph.ofBytes grouped) .finished = ⟨ts, .ok p⟩ ∧
        (∀ n : Node, n.In P → n.Nests ts) ∧
        P.Pairwise (fun s s' => s.span.Before s'.span) ∧
        ∀ t ∈ ts, ∃ before s after, P = before ++ s :: after ∧ t.span.Within s.span ∧
          (∀ s' ∈ before, s'.span.Before t.span) ∧ ∀ s' ∈ after, t.span.Before s'.span := by
  have hparse : ∃ P, P.length = 2 ∧ Program.ofGlyphs (Glyph.ofBytes grouped) .finished = .ok P :=
    exists_ok_of_length (by decide +kernel)
  obtain ⟨P, hlength, hP⟩ := hparse
  exact ⟨P, hlength, hP, spans_nest hP⟩

end HamScript
