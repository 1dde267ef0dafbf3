/-
# Bindings that are not mentioned

A name that stands nowhere in a program is never looked up, assigned to or pointed at in its run:
all that a run does with names goes through the names of the program and of the functions that it
has made.  So what the name is bound to in the global scope, or whether it is bound at all, makes no
difference.

The two runs are in step for the likeness that has the same spans on both sides and may mention
every name but this one (`Likeness.except`).  A likeness with the same spans is equality on trees
and values (`Value.eq_of_alike`); only the heaps are left to differ, and only in the one name.
-/
import HamScript.Proofs.Session.Ends

namespace HamScript

open Source (Span)

/-- The same at the same places, where every name may be mentioned but the one. -/
def Likeness.except (n : String) : Likeness where
  spans s s' := s = s'
  strays s s' := s = s'
  names m := m ≠ n
  loops := True

/-! ## Trees and values that are alike at the same places are equal -/

/-- Only a span itself may stand at its place. -/
def Likeness.Exact (L : Likeness) : Prop :=
  ∀ {s s' : Span}, L.spans s s' → s = s'

theorem Likeness.exact_except (n : String) : (Likeness.except n).Exact :=
  fun hs => hs

section
variable {L : Likeness}

theorem Ident.eq_of_alike (hL : L.Exact) {x x' : Ident} (h : x.Alike L x') : x = x' := by
  obtain ⟨name, span⟩ := x
  obtain ⟨name', span'⟩ := x'
  obtain rfl : name = name' := h.name_eq
  obtain rfl : span = span' := hL h.spans
  rfl

theorem Ident.eq_of_allAlike (hL : L.Exact) {xs xs' : List Ident}
    (h : List.Forall₂ (Ident.Alike L) xs xs') : xs = xs' := by
  induction h with
  | nil => rfl
  | cons hx _ ih => rw [Ident.eq_of_alike hL hx, ih]

mutual

theorem Expr.eq_of_alike (hL : L.Exact) : (e : Expr) → {e' : Expr} → e.Alike L e' → e = e'
  | .int _ _, _, .int _ hs | .float _ _, _, .float _ hs | .string _ _, _, .string _ hs
  | .bool _ _, _, .bool _ hs => by rw [hL hs]
  | .var _, _, .var hx => by rw [Ident.eq_of_alike hL hx]
  | .ref _ _, _, .ref hx hs => by rw [Ident.eq_of_alike hL hx, hL hs]
  | .negate e _, _, .negate he hs => by rw [Expr.eq_of_alike hL e he, hL hs]
  | .binary _ l r _, _, .binary _ hl hr hs => by
      rw [Expr.eq_of_alike hL l hl, Expr.eq_of_alike hL r hr, hL hs]
  | .assign _ e _, _, .assign hx he hs => by
      rw [Ident.eq_of_alike hL hx, Expr.eq_of_alike hL e he, hL hs]
  | .call c es _, _, .call hc hes hs => by
      rw [Expr.eq_of_alike hL c hc, Expr.eq_of_allAlike hL es hes, hL hs]
  | .method r _ es _, _, .method hr hx hes hs => by
      rw [Expr.eq_of_alike hL r hr, Ident.eq_of_alike hL hx, Expr.eq_of_allAlike hL es hes, hL hs]
  | .fn _ b _, _, .fn hxs hb hs => by
      rw [Ident.eq_of_allAlike hL hxs, Stmt.eq_of_allAlike hL b hb, hL hs]

theorem Expr.eq_of_allAlike (hL : L.Exact) : (es : List Expr) → {es' : List Expr} →
    Expr.AllAlike L es es' → es = es'
  | [], _, .nil => rfl
  | e :: es, _, .cons he hes => by rw [Expr.eq_of_alike hL e he, Expr.eq_of_allAlike hL es hes]

theorem Stmt.eq_of_alike (hL : L.Exact) : (t : Stmt) → {t' : Stmt} → {inLoop : Bool} →
    t.Alike L inLoop t' → t = t'
  | .letIn _ e _, _, _, .letIn _ hx he hs => by
      rw [Ident.eq_of_alike hL hx, Expr.eq_of_alike hL e he, hL hs]
  | .fnDecl _ _ b _, _, _, .fnDecl _ hx hxs hb hs => by
      rw [Ident.eq_of_alike hL hx, Ident.eq_of_allAlike hL hxs, Stmt.eq_of_allAlike hL b hb, hL hs]
  | .ifThen c b _, _, _, .ifThen hc hb hs => by
      rw [Expr.eq_of_alike hL c hc, Stmt.eq_of_allAlike hL b hb, hL hs]
  | .whileDo c b _, _, _, .whileDo _ _ hc hb hs => by
      rw [Expr.eq_of_alike hL c hc, Stmt.eq_of_allAlike hL b hb, hL hs]
  | .returnUnit _, _, _, .returnUnit _ hs => by rw [hL hs]
  | .returnValue e _, _, _, .returnValue _ he hs => by rw [Expr.eq_of_alike hL e he, hL hs]
  | .breakOut _, _, _, .breakOut hs _ => by rw [hL hs]
  | .expr e _, _, _, .expr _ he hs => by rw [Expr.eq_of_alike hL e he, hL hs]

theorem Stmt.eq_of_allAlike (hL : L.Exact) : (b : List Stmt) → {b' : List Stmt} →
    {inLoop : Bool} → Stmt.AllAlike L inLoop b b' → b = b'
  | [], _, _, .nil _ => rfl
  | t :: b, _, _, .cons ht hb => by rw [Stmt.eq_of_alike hL t ht, Stmt.eq_of_allAlike hL b hb]

end

theorem Closure.eq_of_alike (hL : L.Exact) {f f' : Closure} (h : f.Alike L f') : f = f' := by
  obtain ⟨name?, params, body, scope⟩ := f
  obtain ⟨name?', params', body', scope'⟩ := f'
  obtain rfl : name? = name?' := h.name_eq
  obtain rfl : params = params' := h.params_eq
  obtain rfl : body = body' := Stmt.eq_of_allAlike hL body h.body
  obtain rfl : scope = scope' := h.scope_eq
  rfl

theorem Value.eq_of_alike (hL : L.Exact) {v v' : Value} (h : v.Alike L v') : v = v' := by
  cases h with
  | function hf => rw [Closure.eq_of_alike hL hf]
  | number | string | bool | unit | builtin | pointer => rfl

theorem RuntimeFault.eq_of_alike (hL : L.Exact) {f f' : RuntimeFault} (h : f.Alike L f') :
    f = f' := by
  obtain ⟨cause, span⟩ := f
  obtain ⟨cause', span'⟩ := f'
  obtain rfl : cause = cause' := h.cause_eq
  obtain rfl : span = span' := hL h.spans
  rfl

theorem StepResult.eq_of_alike (hL : L.Exact) {r r' : StepResult} (h : r.Alike L r') : r = r' := by
  cases h with
  | value hv => rw [Value.eq_of_alike hL hv]
  | fault hf => rw [RuntimeFault.eq_of_alike hL hf]
  | misuse | exhausted => rfl

/-- Names that may be mentioned have the same bindings. -/
theorem Heap.Alike.find?_eq (hL : L.Exact) {h h' : Heap} (hh : h.Alike L h') {m : String}
    (hm : L.names m) (i : ScopeId) : h.find? i m = h'.find? i m := by
  have hslots := hh.slots i m hm
  generalize h.find? i m = slot, h'.find? i m = slot' at hslots
  cases hslots with
  | none => rfl
  | some hslot =>
      cases hslot with
      | none => rfl
      | some hv => rw [Value.eq_of_alike hL hv]

end

/-! ## Another binding for a name -/

/-- The bindings without the name. -/
def Bindings.forget (n : String) (bs : Bindings) : Bindings :=
  bs.filter (·.1 ≠ n)

theorem Bindings.find?_forget_of_ne {m n : String} (hm : m ≠ n) (bs : Bindings) :
    (bs.forget n).find? m = bs.find? m := by
  unfold forget
  induction bs with
  | nil => rfl
  | cons b bs ih =>
      rw [find?_cons]
      by_cases hb : b.1 = n
      · have hne : m ≠ b.1 := hb.symm ▸ hm
        rw [List.filter_cons_of_neg (by simpa using hb), if_neg hne, ih]
      · rw [List.filter_cons_of_pos (by simpa using hb), find?_cons, ih]

namespace Heap

/-- The heap whose scope `i` does not bind the name itself. -/
def forget (h : Heap) (i : ScopeId) (n : String) : Heap :=
  ⟨h.scopes.modify i fun s => { s with bindings := s.bindings.forget n }⟩

/-- The heap whose scope `i` binds the name to the value, or to nothing and not at all. -/
def rebind (h : Heap) (i : ScopeId) (n : String) : Option Value → Heap
  | some v => h.define i n (some v)
  | none => h.forget i n

theorem size_rebind (h : Heap) (i : ScopeId) (n : String) (v? : Option Value) :
    (h.rebind i n v?).scopes.size = h.scopes.size := by
  cases v? with
  | some v => exact size_define h i n (some v)
  | none => simp [rebind, forget]

theorem parent?_rebind (h : Heap) (i : ScopeId) (n : String) (v? : Option Value) (j : ScopeId) :
    (h.rebind i n v?).parent? j = h.parent? j := by
  cases v? with
  | some v => exact parent?_define h i n (some v) j
  | none =>
      simp only [rebind, forget, parent?, Array.getElem?_modify]
      by_cases hj : i = j
      · cases h.scopes[j]? <;> simp [hj]
      · simp [hj]

/-- The bindings of other names stay as they are. -/
theorem find?_rebind_of_ne (h : Heap) (i : ScopeId) {m n : String} (hm : m ≠ n)
    (v? : Option Value) (j : ScopeId) : (h.rebind i n v?).find? j m = h.find? j m := by
  cases v? with
  | some v =>
      by_cases hi : i < h.scopes.size
      · rw [rebind, find?_define hi, if_neg fun hjm => hm hjm.2]
      · exact find?_define_of_size_le (Nat.le_of_not_lt hi) n (some v) j m
  | none =>
      simp only [rebind, forget, find?, Array.getElem?_modify]
      by_cases hj : i = j
      · cases h.scopes[j]? <;> simp [hj, Bindings.find?_forget_of_ne hm]
      · simp [hj]

/-- What a name is bound to that may not be mentioned is left open. -/
theorem Alike.rebind {L : Likeness} {h h' : Heap} (hh : h.Alike L h') (i : ScopeId) {n : String}
    (hn : ¬ L.names n) (v? : Option Value) : h.Alike L (h'.rebind i n v?) where
  size_eq := by rw [size_rebind, hh.size_eq]
  parent_eq j := by rw [parent?_rebind, hh.parent_eq]
  slots j m hm := by
    have hne : m ≠ n := fun heq => hn (heq ▸ hm)
    rw [find?_rebind_of_ne h' i hne]
    exact hh.slots j m hm

end Heap

/-! ## Steps -/

/-- The steps have the same result, have printed and recorded the same, and have left the same
bindings, with the same texts, for all names but the one. -/
structure Step.SameBut (n : String) (st st' : Step) : Prop where
  result_eq : st.result = st'.result
  output_eq : st.output = st'.output
  calls_eq : st.calls = st'.calls
  value_text_eq : ∀ v, st.result = .value v →
    st.session.heap.text (some v) = st'.session.heap.text (some v)
  find?_eq : ∀ i m, m ≠ n → st.session.heap.find? i m = st'.session.heap.find? i m
  text_eq : ∀ i m slot, m ≠ n → st.session.heap.find? i m = some slot →
    st.session.heap.text slot = st'.session.heap.text slot

theorem Step.Alike.sameBut {n : String} {st st' : Step} (h : st.Alike (.except n) st') :
    st.SameBut n st' where
  result_eq := StepResult.eq_of_alike (Likeness.exact_except n) h.result
  output_eq := h.output_eq
  calls_eq := h.calls_eq
  value_text_eq v hv := by
    have hresult := h.result
    rw [hv] at hresult
    generalize st'.result = r' at hresult
    cases hresult with
    | value hv' =>
        obtain rfl := Value.eq_of_alike (Likeness.exact_except n) hv'
        exact h.heap.text_eq (.some hv')
  find?_eq i m hm := h.heap.find?_eq (Likeness.exact_except n) hm i
  text_eq i m slot hm hslot := by
    have hslots := h.heap.slots i m hm
    rw [← h.heap.find?_eq (Likeness.exact_except n) hm i, hslot] at hslots
    cases hslots with
    | some hself => exact h.heap.text_eq hself

namespace Session

/-- The session in which a global name is bound to the value, or to nothing and not at all. -/
def rebind (s : Session) (n : String) (v? : Option Value) : Session :=
  { s with heap := s.heap.rebind globals n v? }

/-- **Bindings that are not mentioned.**  Let `n` stand nowhere in a program.  The program is run
in a new session, and in one whose global scope binds `n` to any value, or does not bind it where
it is the name of a builtin.  Either both runs diverge, or both end, with the same value or the same
fault, the same output and the same bindings of all other names. -/
theorem run_of_unmentioned (settings : Settings) (traced : Bool) {p : Program} {n : String}
    (hn : n ∉ Stmt.allNames p) (v? : Option Value) :
    (Diverges ((start settings).run · traced p) ∧
      Diverges (((start settings).rebind n v?).run · traced p)) ∨
    ∃ st st', Ends ((start settings).run · traced p) st ∧
      Ends (((start settings).rebind n v?).run · traced p) st' ∧ st.SameBut n st' := by
  have hself : Stmt.AllAlike (.except n) false p p := by
    have hnames : (Likeness.except n).Admits (Stmt.allNames p) :=
      fun m hm heq => hn (heq ▸ hm)
    exact Stmt.allAlike_self_of_names false hnames (fun _ _ => rfl) (fun _ _ => rfl) (.inl trivial)
  have hdepth : (start settings).settings.maxDepth =
      ((start settings).rebind n v?).settings.maxDepth := rfl
  have hheap : (start settings).heap.Alike (.except n) ((start settings).rebind n v?).heap :=
    (alike_initialHeap (.except n)).rebind globals (fun hne => hne rfl) v?
  refine diverge_or_end (steady_run _ traced p) (steady_run _ traced p) 0 fun maxTurns _ => ?_
  have halike : ((start settings).run maxTurns traced p).Alike (.except n)
      (((start settings).rebind n v?).run maxTurns traced p) :=
    alike_run hdepth hheap hself maxTurns traced
  have hsame := halike.sameBut
  rcases (ready_start settings).isFinal_or_exhausted maxTurns traced p with hfinal | hex
  · exact .inr ⟨hfinal, hsame.result_eq ▸ hfinal, hsame⟩
  · exact .inl ⟨hex, hsame.result_eq ▸ hex⟩

/-- A program that does not mention `clear` runs without it as well. -/
theorem run_of_unmentioned_clear :
    "clear" ∉ Stmt.allNames nested ∧
    ((start ⟨"nested.ham", 10⟩).rebind "clear" none).heap.find? globals "clear" = none ∧
    ((Diverges ((start ⟨"nested.ham", 10⟩).run · true nested) ∧
      Diverges (((start ⟨"nested.ham", 10⟩).rebind "clear" none).run · true nested)) ∨
    ∃ st st', Ends ((start ⟨"nested.ham", 10⟩).run · true nested) st ∧
      Ends (((start ⟨"nested.ham", 10⟩).rebind "clear" none).run · true nested) st' ∧
      st.SameBut "clear" st') := by
  have hn : "clear" ∉ Stmt.allNames nested := by decide +kernel
  exact ⟨hn, by decide +kernel, run_of_unmentioned ⟨"nested.ham", 10⟩ true hn none⟩

end Session

end HamScript
