/-
# Parsing realises the grammar

A source that scans without a fault parses to a program exactly if its tokens derive the program.
Both directions together make the grammar unambiguous.  The literals of the grammar are read off the
texts of tokens; for the tokens that scanning makes, what these texts can be is said here too.
-/
import HamScript.Proofs.Decimal.Range
import HamScript.Proofs.Syntax.Complete
import HamScript.Proofs.Token.Scanning

namespace HamScript

open Grammar
open Source (Glyph Position)

/-! ## Literals with a point -/

/-- The text of a number with a point: ASCII digits on both sides of it, and the number, which is
all digits over a power of ten, is within the range of the doubles.  Its value is the nearest
double. -/
def Grammar.IsFloat (text : String) (x : Float) : Prop :=
  ∃ whole fraction, text.toList = whole ++ '.' :: fraction ∧ whole ≠ [] ∧ fraction ≠ [] ∧
    (∀ c ∈ whole ++ fraction, c.isDigit = true) ∧
    Decimal.valueOf (whole ++ fraction) < Decimal.firstInfinite * Decimal.tenTo fraction.length ∧
    x = Decimal.doubleOf false (Decimal.Reading.mk whole fraction 0).bits

namespace Decimal

theorem ofChars?_ascii {whole fraction : List Char} (hne : whole ≠ [])
    (hwhole : ∀ c ∈ whole, c.isDigit = true) (hfraction : ∀ c ∈ fraction, c.isDigit = true) :
    Reading.ofChars? (whole ++ '.' :: fraction) = some ⟨whole, fraction, 0⟩ := by
  have hpoint : Char.isDigit '.' = false := rfl
  have htake : fraction.takeWhile Char.isDigit = fraction := by
    simpa using @List.takeWhile_append_of_pos _ Char.isDigit fraction [] hfraction
  have hdrop : fraction.dropWhile Char.isDigit = [] := by
    simpa using @List.dropWhile_append_of_pos _ Char.isDigit fraction [] hfraction
  simp [Reading.ofChars?, List.takeWhile_append_of_pos hwhole, List.dropWhile_append_of_pos hwhole,
    hpoint, htake, hdrop, hne]

/-- A digit of another script ends the number, and no exponent begins with it. -/
theorem ofChars?_other {whole fraction : List Char}
    (hwhole : ∀ c ∈ whole, Text.isDecimalDigit c = true)
    (hfraction : ∀ c ∈ fraction, Text.isDecimalDigit c = true)
    (hother : ¬ ∀ c ∈ whole ++ fraction, c.isDigit = true) :
    Reading.ofChars? (whole ++ '.' :: fraction) = none := by
  have hne : ∀ {c}, Text.isDecimalDigit c = true → c ≠ '.' ∧ c ≠ 'e' ∧ c ≠ 'E' := by
    intro c hc
    refine ⟨?_, ?_, ?_⟩ <;> (rintro rfl; exact absurd hc (by decide))
  rcases Lexeme.exists_first_outside Char.isDigit whole with hall | ⟨ds, c, rest, hds, hc, rfl⟩
  · rcases Lexeme.exists_first_outside Char.isDigit fraction with
      hall' | ⟨ds, c, rest, hds, hc, rfl⟩
    · exact absurd (List.forall_mem_append.mpr ⟨hall, hall'⟩) hother
    · obtain ⟨-, he, hE⟩ := hne (hfraction c (by simp))
      have hpoint : Char.isDigit '.' = false := rfl
      simp [Reading.ofChars?, List.takeWhile_append_of_pos hall, List.dropWhile_append_of_pos hall,
        List.takeWhile_append_of_pos hds, List.dropWhile_append_of_pos hds, hpoint, hc, he, hE]
  · obtain ⟨hpoint, he, hE⟩ := hne (hwhole c (by simp))
    rw [List.append_assoc, List.cons_append]
    simp [Reading.ofChars?, List.takeWhile_append_of_pos hds, List.dropWhile_append_of_pos hds,
      hc, hpoint, he, hE]

/-- Of digits around a point, those in ASCII within the range of the doubles make a number. -/
theorem literal?_eq_some_iff {text : String} {whole fraction : List Char}
    (htext : text.toList = whole ++ '.' :: fraction) (hne : whole ≠ []) (hne' : fraction ≠ [])
    (hwhole : ∀ c ∈ whole, Text.isDecimalDigit c = true)
    (hfraction : ∀ c ∈ fraction, Text.isDecimalDigit c = true) {x : Float} :
    literal? text.toList = some x ↔ IsFloat text x := by
  constructor
  · intro h
    rw [htext, literal?] at h
    by_cases hascii : ∀ c ∈ whole ++ fraction, c.isDigit = true
    · obtain ⟨hw, hf⟩ := List.forall_mem_append.mp hascii
      rw [ofChars?_ascii hne hw hf] at h
      obtain ⟨hbits, hx⟩ := Option.ite_none_left_eq_some.mp h
      have hrange := (Reading.bits_lt_infinityBits_iff whole fraction).mp (Nat.lt_of_not_le hbits)
      exact ⟨whole, fraction, htext, hne, hne', hascii, hrange, (Option.some.inj hx).symm⟩
    · rw [ofChars?_other hwhole hfraction hascii] at h
      exact nomatch h
  · rintro ⟨w, f, htext', hw, -, hascii, hrange, rfl⟩
    obtain ⟨hwdigits, hfdigits⟩ := List.forall_mem_append.mp hascii
    rw [htext', literal?, ofChars?_ascii hw hwdigits hfdigits]
    exact if_neg (Nat.not_le.mpr ((Reading.bits_lt_infinityBits_iff w f).mpr hrange))

end Decimal

/-- The tokens of a scan that are numbers with a point have values as the grammar says. -/
theorem Lexes.float_iff {ending : Ending} {p : Position} {gs : List Glyph} {ts : List Token}
    {stop : Except ScanFault Position} (h : Lexes ending p gs ts stop) {t : Token} (ht : t ∈ ts)
    (hkind : t.kind = .float) {x : Float} :
    Decimal.literal? t.text.toList = some x ↔ IsFloat t.text x := by
  obtain ⟨before, taken, after, -, hlexeme, -⟩ := h.exists_lexeme ht
  rw [hkind] at hlexeme
  generalize htext : t.text = text at hlexeme ⊢
  have hmarks : ∀ m ∈ Lexeme.marks, m.2 ≠ .float := by decide
  have hwords : ∀ w ∈ Lexeme.words, w.2 ≠ .float := by decide
  have hchars : ∀ {gs : List Glyph}, Lexeme.Within Text.isDecimalDigit gs →
      ∀ c ∈ gs.map Glyph.char, Text.isDecimalDigit c = true := by
    intro gs hgs c hc
    obtain ⟨g, hg, rfl⟩ := List.mem_map.mp hc
    exact hgs g hg
  cases hlexeme with
  | mark rest hmark => exact absurd rfl (hmarks _ hmark)
  | word hstart hws hstop hword =>
      rcases hword with hword | ⟨hident, -⟩
      · exact absurd rfl (hwords _ hword)
      · exact nomatch hident
  | @float ds fs rest point hne hds hpoint hne' hfs hstop =>
      have hparts : (Glyph.text (ds ++ point :: fs)).toList =
          ds.map Glyph.char ++ '.' :: fs.map Glyph.char := by
        simp [Glyph.text, hpoint]
      exact Decimal.literal?_eq_some_iff hparts (by simpa using hne) (by simpa using hne')
        (hchars hds) (hchars hfs)

/-! ## The theorem -/

/-- A source that parses scans without a fault, and its tokens derive the program. -/
theorem Program.exists_derives {gs : List Glyph} {ending : Ending} {P : Program}
    (h : Program.ofGlyphs gs ending = .ok P) :
    ∃ ts p, Scan.ofGlyphs gs ending = ⟨ts, .ok p⟩ ∧ Derives (.stmts P (.endAt p)) ts := by
  rw [Program.ofGlyphs, Program.ofScan_eq_ok_iff] at h
  generalize hscan : Scan.ofGlyphs gs ending = scan at h
  obtain ⟨ts, stop⟩ := scan
  obtain ⟨s', hs'⟩ := h
  have hlexes : Lexes ending .start gs ts stop := lexes_iff.mpr hscan
  obtain ⟨p, rfl, hP⟩ := Parser.derives_of_program (fun t ht => hlexes.kind_ne_eof ht) hs'
  exact ⟨ts, p, rfl, hP⟩

/-- A source that scans without a fault parses to exactly the programs that its tokens derive, and
they derive at most one. -/
theorem parse_iff_derives (bytes : List UInt8) {p : Position}
    (hstop : (Scan.ofGlyphs (Glyph.ofBytes bytes) .finished).stop = .ok p) :
    let ts := (Scan.ofGlyphs (Glyph.ofBytes bytes) .finished).tokens
    (∀ P, Program.ofGlyphs (Glyph.ofBytes bytes) .finished = .ok P ↔
      Derives (.stmts P (.endAt p)) ts) ∧
    (∀ P Q, Derives (.stmts P (.endAt p)) ts → Derives (.stmts Q (.endAt p)) ts → P = Q) ∧
    (∀ t ∈ ts, t.kind = .float →
      ∀ x, Decimal.literal? t.text.toList = some x ↔ IsFloat t.text x) := by
  intro ts
  have hscan : Scan.ofGlyphs (Glyph.ofBytes bytes) .finished = ⟨ts, .ok p⟩ := by rw [← hstop]
  have hlexes : Lexes .finished .start (Glyph.ofBytes bytes) ts (.ok p) := lexes_iff.mpr hscan
  have hiff : ∀ P, Program.ofGlyphs (Glyph.ofBytes bytes) .finished = .ok P ↔
      Derives (.stmts P (.endAt p)) ts := by
    intro P
    constructor
    · intro hparse
      obtain ⟨ts', p', hscan', hP⟩ := Program.exists_derives hparse
      obtain ⟨rfl, hp⟩ := Scan.mk.inj (hscan.symm.trans hscan')
      obtain rfl := Except.ok.inj hp
      exact hP
    · intro hP
      rw [Program.ofGlyphs, Program.ofScan_eq_ok_iff, hscan]
      exact Parser.program_of_derives hP (Nat.lt_succ_self _)
  refine ⟨hiff, fun P Q hP hQ => ?_, fun t ht hkind x => hlexes.float_iff ht hkind⟩
  exact Except.ok.inj (((hiff P).mpr hP).symm.trans ((hiff Q).mpr hQ))

theorem eq_ok_of_toOption {ε α : Type} {x : Except ε α} {a : α} (h : x.toOption = some a) :
    x = .ok a := by
  cases x with
  | error e => exact nomatch h
  | ok b => exact congrArg Except.ok (Option.some.inj h)

theorem eq_error_of_swap {ε α : Type} {x : Except ε α} {e : ε}
    (h : (match x with | .ok _ => none | .error e => some e) = some e) : x = .error e := by
  cases x with
  | error e' => exact congrArg Except.error (Option.some.inj h)
  | ok b => exact nomatch h

theorem exists_ok_of_length {ε α : Type} {x : Except ε (List α)} {n : Nat}
    (h : x.toOption.map List.length = some n) : ∃ as, as.length = n ∧ x = .ok as := by
  obtain ⟨as, has, hlength⟩ := Option.map_eq_some_iff.mp h
  exact ⟨as, hlength, eq_ok_of_toOption has⟩

/-- `a -b` and, on the next line, `-c`: the first minus goes on with an expression, the second
begins a statement. -/
theorem parse_iff_derives_two_lines :
    let source := Glyph.ofBytes [97, 32, 45, 98, 10, 45, 99]
    (Scan.ofGlyphs source .finished).stop = .ok ⟨7, 2, 3⟩ ∧
    ∃ P, P.length = 2 ∧ Program.ofGlyphs source .finished = .ok P ∧
      Derives (.stmts P (.endAt ⟨7, 2, 3⟩)) (Scan.ofGlyphs source .finished).tokens := by
  intro source
  have hstop : (Scan.ofGlyphs source .finished).stop = .ok ⟨7, 2, 3⟩ :=
    eq_ok_of_toOption (by decide +kernel)
  have hparse : ∃ P, P.length = 2 ∧ Program.ofGlyphs source .finished = .ok P :=
    exists_ok_of_length (by decide +kernel)
  obtain ⟨P, hlength, hP⟩ := hparse
  exact ⟨hstop, P, hlength, hP, ((parse_iff_derives _ hstop).1 P).mp hP⟩

end HamScript
