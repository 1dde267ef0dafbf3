/-
# Parsing up to layout

Two sources whose rows of tokens are the same but for layout are parsed in the same way.  Both are
programs that are the same but for positions, and these correspond token by token; or both have a
fault of one kind, about the token with one number or about expressions from one token to another.

The positions of each source are sent to the numbers of its tokens.  Seen in this way the two inputs
are alike, so are the answers.  That a fault is about a token of the row, and not only about
something at its place, is known from `Program.about_of_ofScan`.
-/
import HamScript.Proofs.Syntax.Alike
import HamScript.Proofs.Syntax.Blame
import HamScript.Proofs.Syntax.Lines
import HamScript.Proofs.Token.Row

namespace HamScript

open Parsing
open Source (Glyph Position Span)

/-- Faults of one kind about the same tokens of two rows. -/
inductive SyntaxFault.SameAt (us vs : List Token) : SyntaxFault → SyntaxFault → Prop
  | expectedKind (kinds : List Kind) {i : Nat} {t t' : Token} :
      us[i]? = some t → vs[i]? = some t' →
      SameAt us vs (.expectedKind kinds t) (.expectedKind kinds t')
  | expectedExpression {i : Nat} {t t' : Token} :
      us[i]? = some t → vs[i]? = some t' →
      SameAt us vs (.expectedExpression t) (.expectedExpression t')
  | invalidTarget {s s' : Span} :
      s.relocate (Token.place us) = s'.relocate (Token.place vs) →
      SameAt us vs (.invalidTarget s) (.invalidTarget s')

/-- Programs that are the same but for positions, which correspond token by token, or faults about
the same tokens. -/
inductive Program.SameParse (us vs : List Token) :
    Except SyntaxFault Program → Except SyntaxFault Program → Prop
  | ok {P Q : Program} :
      P.relocate (Token.place us) = Q.relocate (Token.place vs) → SameParse us vs (.ok P) (.ok Q)
  | error {e e' : SyntaxFault} : e.SameAt us vs e' → SameParse us vs (.error e) (.error e')

namespace Token

section
variable {n m : Int} {us vs before before' after after' : List Token} {t t' : Token}

/-- Tokens with one number in two rows have the same place. -/
theorem Rising.relocate_eq (hus : Rising n us) (hvs : Rising m vs) (hu : us = before ++ t :: after)
    (hv : vs = before' ++ t' :: after') (hlength : before.length = before'.length)
    (hkind : t.kind = t'.kind) (htext : t.text = t'.text) :
    t.relocate (place us) = t'.relocate (place vs) := by
  subst hu hv
  rw [Token.relocate, Token.relocate, hus.relocate_span, hvs.relocate_span, hlength, hkind, htext]

/-- Tokens that have the same place have one number. -/
theorem Rising.exists_number (hus : Rising n us) (hvs : Rising m vs) (ht : t ∈ us) (ht' : t' ∈ vs)
    (h : t.relocate (place us) = t'.relocate (place vs)) :
    ∃ i : Nat, us[i]? = some t ∧ vs[i]? = some t' := by
  obtain ⟨before, after, rfl⟩ := List.append_of_mem ht
  obtain ⟨before', after', rfl⟩ := List.append_of_mem ht'
  have hspan := Parser.span_of_token h
  rw [hus.relocate_span, hvs.relocate_span] at hspan
  have hlength : before.length = before'.length := by
    have hoffset := congrArg (·.first.offset) hspan
    simp only [Span.single] at hoffset
    omega
  refine ⟨before.length, ?_, ?_⟩
  · rw [List.getElem?_append_right (Nat.le_refl _), Nat.sub_self, List.getElem?_cons_zero]
  · rw [hlength, List.getElem?_append_right (Nat.le_refl _), Nat.sub_self, List.getElem?_cons_zero]

end

end Token

/-! ## Inputs -/

namespace Parser

section
variable {n m : Int} {us vs : List Token} (hus : Token.Rising n us) (hvs : Token.Rising m vs)
include hus hvs

/-- What is left of two inputs after a token is alike, where their rows are the same from there. -/
theorem alike_of_sameRow (escape : ScanFault → Prop) {ts ts' before before' : List Token}
    {t t' : Token} {p p' : Position} (hu : us = before ++ t :: (ts ++ [.endAt p]))
    (hv : vs = before' ++ t' :: (ts' ++ [.endAt p'])) (hlength : before.length = before'.length)
    (h : Token.SameRow (t :: (ts ++ [.endAt p])) (t' :: (ts' ++ [.endAt p']))) :
    Alike (Token.place us) (Token.place vs) escape ⟨ts, .ok p, t.span.last⟩
      ⟨ts', .ok p', t'.span.last⟩ := by
  induction ts generalizing ts' before before' t t' with
  | nil =>
      cases ts' with
      | cons u' ts' => simpa using h.length_eq
      | nil =>
          obtain ⟨hkind, htext⟩ := h.head
          obtain ⟨_, _, hvs', hline, hrest⟩ := h.of_cons
          obtain ⟨rfl, rfl⟩ := List.cons.inj hvs'
          have ht := hus.relocate_eq hvs hu hv hlength hkind htext
          have hend := hus.relocate_eq hvs (hu.trans (List.append_cons _ _ _))
            (hv.trans (List.append_cons _ _ _)) (by simpa using hlength) rfl rfl
          exact .ended (congrArg (·.span.last) ht) (congrArg (·.span.first) hend) hline
  | cons u ts ih =>
      cases ts' with
      | nil => simpa using h.length_eq
      | cons u' ts' =>
          obtain ⟨hkind, htext⟩ := h.head
          obtain ⟨_, _, hvs', hline, hrest⟩ := h.of_cons
          obtain ⟨rfl, rfl⟩ := List.cons.inj hvs'
          obtain ⟨hkind', htext'⟩ := hrest.head
          have ht := hus.relocate_eq hvs hu hv hlength hkind htext
          have hu' := hu.trans (List.append_cons _ _ _)
          have hv' := hv.trans (List.append_cons _ _ _)
          have hlength' : (before ++ [t]).length = (before' ++ [t']).length := by
            simpa using hlength
          have hnext := hus.relocate_eq hvs hu' hv' hlength' hkind' htext'
          exact .token (congrArg (·.span.last) ht) hnext hline (ih hu' hv' hlength' hrest)

/-- The inputs of two sources whose rows are the same are alike, where their first tokens are taken
for what comes before. -/
theorem alike_of_rows (escape : ScanFault → Prop) {ts ts' : List Token} {t t' : Token}
    {p p' : Position} (hu : us = t :: (ts ++ [.endAt p])) (hv : vs = t' :: (ts' ++ [.endAt p']))
    (h : Token.SameRow us vs) :
    Alike (Token.place us) (Token.place vs) escape ⟨t :: ts, .ok p, t.span.first⟩
      ⟨t' :: ts', .ok p', t'.span.first⟩ := by
  have hrow : Token.SameRow (t :: (ts ++ [.endAt p])) (t' :: (ts' ++ [.endAt p'])) := by
    rwa [← hu, ← hv]
  obtain ⟨hkind, htext⟩ := hrow.head
  have hu' := hu.trans (List.nil_append _).symm
  have hv' := hv.trans (List.nil_append _).symm
  have ht := hus.relocate_eq hvs hu' hv' rfl hkind htext
  exact .token (congrArg (·.span.first) ht) ht (iff_of_true rfl rfl)
    (alike_of_sameRow hus hvs escape hu' hv' rfl hrow)

end

end Parser

/-! ## Programs -/

section
variable {n m : Int} {us vs : List Token} {e e' : SyntaxFault}

/-- Faults that name tokens of their rows, seen at the same places, are about the same tokens. -/
theorem SyntaxFault.sameAt_of_relocate {s s' : Scan} (hu : s.row = .ok us) (hv : s'.row = .ok vs)
    (hus : Token.Rising n us) (hvs : Token.Rising m vs) (he : e.About s.stock)
    (he' : e'.About s'.stock) (h : e.relocate (Token.place us) = e'.relocate (Token.place vs)) :
    e.SameAt us vs e' := by
  have hmem : ∀ t, s.stock.tokens t → t ∈ us := by
    intro t ht
    rw [← Scan.listed_of_row hu]
    exact ht
  have hmem' : ∀ t, s'.stock.tokens t → t ∈ vs := by
    intro t ht
    rw [← Scan.listed_of_row hv]
    exact ht
  cases e with
  | scan fault =>
      obtain ⟨p, hs, -⟩ := Scan.exists_of_row hu
      have hstop : s.stop = .error fault := he
      rw [hs] at hstop
      exact nomatch hstop
  | expectedKind kinds t =>
      cases e' with
      | expectedKind kinds' t' =>
          obtain ⟨rfl, ht⟩ := SyntaxFault.expectedKind.inj h
          obtain ⟨i, hi, hi'⟩ := hus.exists_number hvs (hmem t he) (hmem' t' he') ht
          exact .expectedKind kinds hi hi'
      | scan | expectedExpression | invalidTarget => exact nomatch h
  | expectedExpression t =>
      cases e' with
      | expectedExpression t' =>
          have ht := SyntaxFault.expectedExpression.inj h
          obtain ⟨i, hi, hi'⟩ := hus.exists_number hvs (hmem t he) (hmem' t' he') ht
          exact .expectedExpression hi hi'
      | scan | expectedKind | invalidTarget => exact nomatch h
  | invalidTarget sp =>
      cases e' with
      | invalidTarget sp' => exact .invalidTarget (SyntaxFault.invalidTarget.inj h)
      | scan | expectedKind | expectedExpression => exact nomatch h

end

namespace Parser

theorem program_nil (k : Nat) (p last : Position) :
    program (k + 1) ⟨[], .ok p, last⟩ = .done [] ⟨[], .ok p, last⟩ := by
  rw [program, stmtsToEnd]
  rfl

end Parser

section
variable {n m : Int} {us vs : List Token}

/-- Rows that begin with a token are read to answers that agree. -/
theorem Parser.answers_of_rows (hus : Token.Rising n us) (hvs : Token.Rising m vs)
    (h : Token.SameRow us vs) {ts ts' : List Token} {t t' : Token} {p p' : Position}
    (hu : us = t :: (ts ++ [.endAt p])) (hv : vs = t' :: (ts' ++ [.endAt p']))
    (heof : t.kind ≠ .eof) (k : Nat) (last last' : Position) :
    Answers (Token.place us) (Token.place vs) (fun _ => False) Program.relocate
      (program k ⟨t :: ts, .ok p, last⟩) (program k ⟨t' :: ts', .ok p', last'⟩) := by
  have hagree := agree_program k _ _ (alike_of_rows hus hvs (fun _ => False) hu hv h)
  have heof' : t'.kind ≠ .eof := by
    subst hu hv
    rwa [← h.head.1]
  rwa [program_forgets heof k ts _ _ last, program_forgets heof' k ts' _ _ last'] at hagree

/-- Sources whose rows are the same are parsed in the same way. -/
theorem Program.sameParse_of_rows {s s' : Scan} (hrow : s.row = .ok us) (hrow' : s'.row = .ok vs)
    (hus : Token.Rising 0 us) (hvs : Token.Rising 0 vs) (heof : ∀ t ∈ s.tokens, t.kind ≠ .eof)
    (h : Token.SameRow us vs) : SameParse us vs (Program.ofScan s) (Program.ofScan s') := by
  obtain ⟨ts, stop⟩ := s
  obtain ⟨ts', stop'⟩ := s'
  obtain ⟨p, hs, hu⟩ := Scan.exists_of_row hrow
  obtain ⟨p', hs', hv⟩ := Scan.exists_of_row hrow'
  obtain ⟨-, rfl⟩ := Scan.mk.inj hs
  obtain ⟨-, rfl⟩ := Scan.mk.inj hs'
  have hlength : ts.length = ts'.length := by
    have hrows := h.length_eq
    rw [hu, hv] at hrows
    simpa using hrows
  cases ts with
  | nil =>
      cases ts' with
      | cons t' ts' => simp at hlength
      | nil =>
          have hnil : ∀ p, Program.ofScan ⟨[], .ok p⟩ = .ok [] := fun p =>
            Program.ofScan_eq_ok_iff.mpr ⟨_, Parser.program_nil 0 p _⟩
          rw [hnil p, hnil p']
          exact .ok rfl
  | cons t ts =>
      cases ts' with
      | nil => simp at hlength
      | cons t' ts' =>
          have hanswers := Parser.answers_of_rows hus hvs h hu hv (heof t List.mem_cons_self)
            (Scan.bound ⟨t :: ts, .ok p⟩) ⟨0, 0, 0⟩ ⟨0, 0, 0⟩
          have hbound : Scan.bound ⟨t :: ts, .ok p⟩ = Scan.bound ⟨t' :: ts', .ok p'⟩ :=
            congrArg (· + 1) hlength
          generalize hr : Parser.program _ ⟨t :: ts, _, _⟩ = r,
            hr' : Parser.program _ ⟨t' :: ts', _, _⟩ = r' at hanswers
          rw [hbound] at hr'
          cases hanswers with
          | done hP _ =>
              rw [Program.ofScan_eq_ok_iff.mpr ⟨_, hr⟩, Program.ofScan_eq_ok_iff.mpr ⟨_, hr'⟩]
              exact .ok hP
          | fault he =>
              have hfault := Program.ofScan_eq_error_iff.mpr hr
              have hfault' := Program.ofScan_eq_error_iff.mpr hr'
              have habout := Program.about_of_ofScan ((Scan.listed_of_row hrow).symm ▸ hus) hfault
              have habout' :=
                Program.about_of_ofScan ((Scan.listed_of_row hrow').symm ▸ hvs) hfault'
              rw [hfault, hfault']
              exact .error
                (SyntaxFault.sameAt_of_relocate hrow hrow' hus hvs habout habout' he)
          | exhausted => exact absurd hr (Parser.program_ne_exhausted _)
          | escaped _ he => exact he.elim

end

end HamScript
