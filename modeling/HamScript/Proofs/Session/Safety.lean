/-
# Sessions never break a promise

A session is a row of sources, each run against the heap that the ones before it have left; a source
that ends in a fault leaves its heap too.  What is meant by safety:

* of a heap, `Heap.Sound`: every binding holds a value, every chain of parents ends, every pointer
  that is bound names a binding, and what is bound can be dereferenced;
* of a value, `Value.Derefs`: dereferencing it gives a plain value or fails, and fails for pointers
  only;
* of a run: no part of it ends in a misuse.  Nothing is read from an empty slot, no argument is
  missing, no integer is divided by zero.

The theorem `session_safe` says all three of every session: of the heaps between its steps, of the
heaps and values that a step comes to on its way, whether or not it ends, and of what it leaves.
-/
import HamScript.Proofs.Eval.Passage
import HamScript.Session

namespace HamScript

open Source (Glyph)

/-! ## What is promised -/

/-- Dereferencing the value gives a plain value, or it is a pointer and fails. -/
structure Value.Derefs (h : Heap) (v : Value) : Prop where
  plain : ∀ slot, h.deref? v = some slot → ∃ u, slot = some u ∧ u.IsPlain
  fails : h.deref? v = none → ∃ p, v = .pointer p

/-- Every binding holds a value that can be dereferenced, every pointer that is bound names a
binding, and every chain of parents ends. -/
structure Heap.Sound (h : Heap) : Prop where
  filled : ∀ i m slot, h.find? i m = some slot → ∃ v, slot = some v ∧ v.Derefs h
  linked : ∀ i m p, h.find? i m = some (some (.pointer p)) → h.Binds p
  chainEnds : ∀ i, i < h.scopes.size → h.ChainEnds i

theorem Value.LivesIn.derefs {h : Heap} (hw : h.WellFormed) {v : Value} (hv : v.LivesIn h) :
    v.Derefs h := by
  have hd := hw.deref? hv
  constructor
  · intro slot hs
    rw [hs] at hd
    obtain ⟨u, hu, -, hplain⟩ := hd
    exact ⟨u, hu, hplain⟩
  · intro hs
    rw [hs] at hd
    exact hd

theorem Heap.WellFormed.sound {h : Heap} (hw : h.WellFormed) : h.Sound where
  filled i m slot hf := by
    obtain ⟨v, rfl, hv⟩ := hw.filled i m slot hf
    exact ⟨v, rfl, hv.derefs hw⟩
  linked i m p hf := by
    obtain ⟨v, hv, hlive⟩ := hw.filled i m _ hf
    cases hv
    exact hlive
  chainEnds i _ := hw.chainEnds i

/-- The value that a method belongs to. -/
def BoundMethod.receiver : BoundMethod → Value
  | .sum n => .number n
  | .mutSum n => .number n
  | .len s => .string s

/-- A method is found only on a value of the kind that it works on. -/
theorem BoundMethod.receiver_of_of? {v : Value} {name : String} {m : BoundMethod}
    (h : BoundMethod.of? v name = some m) : m.receiver = v := by
  unfold BoundMethod.of? at h
  split at h
  · cases h; rfl
  · cases h; rfl
  · cases h; rfl
  · cases h

namespace Session

/-! ## Steps -/

/-- The session after the sources have been run in it, one after the other. -/
def after (s : Session) (maxTurns : Nat) (sources : List (List Glyph)) : Session :=
  sources.foldl (fun s source => (s.evaluate maxTurns source).session) s

/-- The stage at which the run of a program begins. -/
def firstStage (s : Session) (p : Program) : Eval.Stage :=
  ⟨s.settings.maxDepth, .program globals .unit p, ⟨s.heap, "", []⟩⟩

/-- The run of the source in the session comes to the stage. -/
def Reaches (s : Session) (maxTurns : Nat) (source : List Glyph) (b : Eval.Stage) : Prop :=
  ∃ p, Program.ofGlyphs source .finished = .ok p ∧
    Eval.Reaches (s.limits maxTurns false) (s.firstStage p) b

/-- The heap is well formed and has the global scope. -/
structure Ready (s : Session) : Prop where
  wellFormed : s.heap.WellFormed
  globals_lt : globals < s.heap.scopes.size

theorem Ready.fits {s : Session} (hs : s.Ready) (p : Program) : (s.firstStage p).Fits :=
  ⟨hs.wellFormed, hs.globals_lt, trivial⟩

theorem Ready.of_leads {s : Session} (hs : s.Ready) {w : World}
    (hl : World.Leads Eval.anywhere ⟨s.heap, "", []⟩ w) : Ready { s with heap := w.heap } :=
  ⟨hl.wellFormed, Nat.lt_of_lt_of_le hs.globals_lt hl.grows.size_le⟩

/-- Running a program leaves the session ready, and no misuse. -/
theorem Ready.run {s : Session} (hs : s.Ready) (maxTurns : Nat) (traced : Bool) (p : Program) :
    (s.run maxTurns traced p).session.Ready ∧
      ∀ m, (s.run maxTurns traced p).result ≠ .misuse m := by
  have h := Eval.safe_program (s.limits maxTurns traced) p hs.wellFormed hs.globals_lt
    (w := ⟨s.heap, "", []⟩)
  unfold Eval.Safe at h
  unfold Session.run
  cases hx : Eval.program (s.limits maxTurns traced) globals p ⟨s.heap, "", []⟩ with
  | value v w =>
      rw [hx] at h
      exact ⟨hs.of_leads h.1, fun _ hm => nomatch hm⟩
  | fault f w =>
      rw [hx] at h
      exact ⟨hs.of_leads h, fun _ hm => nomatch hm⟩
  | misuse m =>
      rw [hx] at h
      exact h.elim
  | exhausted => exact ⟨hs, fun _ hm => nomatch hm⟩

theorem Ready.evaluate {s : Session} (hs : s.Ready) (maxTurns : Nat) (source : List Glyph) :
    (s.evaluate maxTurns source).session.Ready ∧
      ∀ m, (s.evaluate maxTurns source).result ≠ .misuse m := by
  unfold Session.evaluate
  cases Program.ofGlyphs source .finished with
  | ok p => exact hs.run maxTurns false p
  | error f => exact ⟨hs, fun _ hm => nomatch hm⟩

/-! ## Sessions -/

theorem ready_start (settings : Settings) : (start settings).Ready := by
  -- the builtins are bound one after the other, like parameters
  have hw : (Heap.empty.newScope none).2.WellFormed :=
    Heap.wellFormed_empty.newScope fun _ h => nomatch h
  have hs : globals < (Heap.empty.newScope none).2.scopes.size := Nat.lt_succ_self 0
  obtain ⟨hw', hg⟩ := Eval.wellFormed_bindAll (Builtin.all.map fun b => (b.name, .builtin b)) hw hs
    (fun b hb => by
      obtain ⟨c, -, rfl⟩ := List.mem_map.mp hb
      trivial)
  rw [List.foldl_map] at hw' hg
  exact ⟨hw', Nat.lt_of_lt_of_le hs hg.size_le⟩

theorem Ready.after {s : Session} (hs : s.Ready) (maxTurns : Nat) (sources : List (List Glyph)) :
    (s.after maxTurns sources).Ready := by
  induction sources generalizing s with
  | nil => exact hs
  | cons source sources ih => exact ih (hs.evaluate maxTurns source).1

/-- **Safety.**  Between the steps of a session the heap is sound; no step ends in a misuse; and
wherever a step comes to on its way, the heap there is sound, the part of the run that begins there
ends in no misuse, and the heap and the values that it leaves are sound.  Methods are run only on
values of their own kind. -/
theorem session_safe (settings : Settings) (maxTurns : Nat) (sources : List (List Glyph))
    (source : List Glyph) :
    let s := (start settings).after maxTurns sources
    s.heap.Sound ∧
    (∀ m, (s.evaluate maxTurns source).result ≠ .misuse m) ∧
    (∀ b, s.Reaches maxTurns source b →
      b.world.heap.Sound ∧
      match b.outcome (s.limits maxTurns false) with
      | .value vs w => w.heap.Sound ∧
          ∀ v ∈ vs, v.Derefs w.heap ∧ ∀ p, v = .pointer p → w.heap.Binds p
      | .fault _ w => w.heap.Sound
      | .misuse _ => False
      | .exhausted => True) ∧
    ∀ v name m, BoundMethod.of? v name = some m → m.receiver = v := by
  intro s
  have hs : s.Ready := (ready_start settings).after maxTurns sources
  refine ⟨hs.wellFormed.sound, (hs.evaluate maxTurns source).2, ?_,
    fun _ _ _ => BoundMethod.receiver_of_of?⟩
  rintro b ⟨p, -, hb⟩
  obtain ⟨-, hfits⟩ := Eval.Reaches.fits hb (hs.fits p)
  refine ⟨hfits.wellFormed.sound, ?_⟩
  have hout := hfits.outcome (s.limits maxTurns false)
  cases hx : b.outcome (s.limits maxTurns false) with
  | value vs w =>
      rw [hx] at hout
      obtain ⟨hl, hvs⟩ := hout
      refine ⟨hl.wellFormed.sound, fun v hv => ⟨(hvs v hv).derefs hl.wellFormed, ?_⟩⟩
      rintro q rfl
      exact hvs _ hv
  | fault f w => rw [hx] at hout; exact hout.wellFormed.sound
  | misuse m => rw [hx] at hout; exact hout
  | exhausted => trivial

end Session

end HamScript
