/-
# Every fault points into the source

A source that is run in a new session may have a fault: of its characters, of its syntax, or of its
run.  Wherever the fault has come from, its span has come from the source.

    a character, an unclosed string    its own characters
    a token that was not due           the token
    a tree, a run                      from one token to another

For the run this is a likeness of the heap to itself (`Likeness.located`): all spans in the
functions that it holds are between tokens of the source, and a run raises no others.
-/
import HamScript.Proofs.Session.Ends
import HamScript.Proofs.Source.Coordinates
import HamScript.Proofs.Syntax.Blame

namespace HamScript

open Source (Glyph Position Span)

/-- Where a fault is; a failure of the supplier of the source has no place. -/
def Fault.span? : Fault → Option Span
  | text f => f.span?
  | runtime f => some f.span

/-- The span lies in the bytes, does not go backwards, and both its ends are coordinates. -/
structure Source.Span.LiesIn (bytes : List UInt8) (s : Span) : Prop where
  nonneg : 0 ≤ s.first.offset
  ordered : s.first.offset ≤ s.last.offset
  bounded : s.last.offset ≤ bytes.length
  first : s.first.IsCoordinate bytes
  last : s.last.IsCoordinate bytes

theorem Source.Span.LiesIn.of_coordinates {bytes : List UInt8} {s : Span}
    (hfirst : s.first.IsCoordinate bytes) (hlast : s.last.IsCoordinate bytes)
    (hordered : s.first.offset ≤ s.last.offset) : s.LiesIn bytes :=
  ⟨hfirst.bounds.1, hordered, hlast.bounds.2, hfirst, hlast⟩

/-! ## Tokens and faults of a scan -/

section
variable {bytes : List UInt8} {ending : Ending}

/-- Tokens begin and end at coordinates. -/
theorem Scan.isCoordinate_of_mem {t : Token}
    (ht : t ∈ (Scan.ofGlyphs (Glyph.ofBytes bytes) ending).listed) :
    t.span.first.IsCoordinate bytes ∧ t.span.last.IsCoordinate bytes := by
  have hlexes := Scan.lexes (Glyph.ofBytes bytes) ending
  rcases List.mem_append.mp ht with ht | ht
  · obtain ⟨before, taken, after, hsource, hlexeme, hspan⟩ := hlexes.exists_lexeme ht
    have hsplit : Glyph.ofBytes bytes =
        (before ++ taken.dropLast) ++ (taken.getLast hlexeme.taken_ne_nil :: after) := by
      rw [hsource, List.append_assoc, ← List.singleton_append, ← List.append_assoc taken.dropLast,
        List.dropLast_concat_getLast]
    rw [hspan]
    refine ⟨Position.isCoordinate_afterAll hsource, ?_⟩
    have hlast := Position.isCoordinate_afterAll hsplit
    rwa [Position.afterAll_append] at hlast
  · generalize (Scan.ofGlyphs (Glyph.ofBytes bytes) ending).stop = stop at ht hlexes
    cases stop with
    | error f => exact absurd ht List.not_mem_nil
    | ok q =>
        obtain rfl := List.mem_singleton.mp ht
        have hend : q.IsCoordinate bytes := by
          rw [hlexes.stop_eq rfl]
          exact Position.isCoordinate_afterAll (List.append_nil _).symm
        exact ⟨hend, hend⟩

theorem Source.Span.Between.liesIn {s : Span}
    (h : s.Between (Scan.ofGlyphs (Glyph.ofBytes bytes) ending).stock.tokens) : s.LiesIn bytes := by
  obtain ⟨t, u, ht, hu, rfl, hordered⟩ := h
  exact .of_coordinates (Scan.isCoordinate_of_mem ht).1 (Scan.isCoordinate_of_mem hu).2 hordered

/-- A stray character and an unclosed string lie in the source. -/
theorem Scan.exists_span_of_fault {f : ScanFault}
    (h : (Scan.ofGlyphs (Glyph.ofBytes bytes) .finished).stop = .error f) :
    ∃ s, f.span? = some s ∧ s.LiesIn bytes := by
  obtain ⟨before, g, after, hsource, hfault⟩ := (Scan.lexes _ _).exists_fault h
  have hfirst := Position.isCoordinate_afterAll hsource
  rcases hfault with ⟨-, rfl⟩ | ⟨-, -, rfl⟩
  · exact ⟨_, rfl, .of_coordinates hfirst hfirst (Int.le_refl _)⟩
  · refine ⟨_, rfl, .of_coordinates hfirst ?_ ?_⟩
    · exact Position.isCoordinate_afterAll (List.append_nil _).symm
    · show (Position.start.afterAll before).offset ≤ (Position.start.afterAll _).offset
      rw [hsource, Position.afterAll_append, Position.offset_afterAll _ (g :: after)]
      exact Int.le_add_of_nonneg_right (Int.natCast_nonneg _)

end

/-! ## Reports -/

/-- The fault is reported as one of a kind, with its place in the file at the end. -/
def Fault.Reported (file kind : String) (span : Span) (f : Fault) : Prop :=
  f.span? = some span ∧ ∃ text, f.describe file = kind ++ ": " ++ text ++ ". " ++ span.text file

section
variable (file : String)

/-- The parts of a report, put together. -/
theorem report_eq (kind text place : String) :
    (kind ++ ": ") ++ (text ++ ". " ++ place) = kind ++ ": " ++ text ++ ". " ++ place := by
  simp only [String.append_assoc]

theorem ScanFault.reported {f : ScanFault} {s : Span} (h : f.span? = some s) :
    Fault.Reported file "LexError" s (.text (.scan f)) := by
  refine ⟨h, ?_⟩
  cases f with
  | unrecognized c s' =>
      obtain rfl := Option.some.inj h
      exact ⟨_, report_eq "LexError" ("unrecognized character " ++ Text.quotedChar c) _⟩
  | unterminated s' =>
      obtain rfl := Option.some.inj h
      exact ⟨_, report_eq "LexError" "unterminated string literal" _⟩
  | broken reason => exact nomatch h

theorem RuntimeFault.reported (f : RuntimeFault) :
    Fault.Reported file "RuntimeError" f.span (.runtime f) :=
  ⟨rfl, _, report_eq "RuntimeError" (f.cause.faultClass.text ++ ": " ++ f.cause.text) _⟩

/-- A fault of the syntax names a token or the span of a tree. -/
theorem SyntaxFault.reported {S : Stock} (hS : ∀ t, S.tokens t → t.span.Between S.tokens)
    {e : SyntaxFault} (he : e.About S) :
    (∃ f, e = .scan f ∧ S.faults f) ∨
    ∃ s, s.Between S.tokens ∧ Fault.Reported file "ParseError" s (.text e) := by
  cases e with
  | scan f => exact .inl ⟨f, rfl, he⟩
  | expectedKind expected got =>
      exact .inr ⟨got.span, hS got he, rfl, _, report_eq "ParseError"
        ("got a " ++ got.describe ++ ", " ++ SyntaxFault.dueText expected) _⟩
  | expectedExpression got =>
      have hparts : SyntaxFault.message file (.expectedExpression got) =
          "got a " ++ got.describe ++ ", expected an expression" ++ ". " ++ got.span.text file := by
        show "got a " ++ got.describe ++ (", expected an expression" ++ ". ") ++ _ = _
        simp only [String.append_assoc]
      refine .inr ⟨got.span, hS got he, rfl,
        "got a " ++ got.describe ++ ", expected an expression", ?_⟩
      rw [← report_eq, ← hparts]
      rfl
  | invalidTarget s =>
      exact .inr ⟨s, he, rfl, _, report_eq "ParseError" "only a variable can be assigned to" _⟩

end

/-! ## Runs -/

/-- All spans are between tokens of the stock. -/
def Likeness.located (S : Stock) : Likeness where
  spans s _ := s.Between S.tokens
  strays _ _ := True
  names _ := True
  loops := True

namespace Session

/-- A run in a new session raises a fault only between tokens of its source. -/
theorem between_of_runtime {bytes : List UInt8} (settings : Settings) (maxTurns : Nat)
    {f : RuntimeFault}
    (h : ((start settings).evaluate maxTurns (Glyph.ofBytes bytes)).result = .fault (.runtime f)) :
    f.span.Between (Scan.ofGlyphs (Glyph.ofBytes bytes) .finished).stock.tokens := by
  have hp : ∀ p, Program.ofGlyphs (Glyph.ofBytes bytes) .finished = .ok p →
      Stmt.AllAlike (.located (Scan.ofGlyphs (Glyph.ofBytes bytes) .finished).stock) false p p := by
    intro p hp
    have hlocates := Program.locates_of_ofScan (Scan.rising_listed bytes .finished) hp
    exact Stmt.allAlike_self (fun _ => trivial) false (fun s hs => ⟨hlocates s hs, trivial⟩)
      (.inl trivial)
  exact ((alike_evaluate (alike_initialHeap _) hp maxTurns).2 f h).spans

/-- Only a source that is no program has a fault of its text. -/
theorem ofGlyphs_of_text {s : Session} {maxTurns : Nat} {source : List Glyph} {e : SyntaxFault}
    (h : (s.evaluate maxTurns source).result = .fault (.text e)) :
    Program.ofGlyphs source .finished = .error e := by
  rw [evaluate] at h
  cases hparse : Program.ofGlyphs source .finished with
  | error e' =>
      rw [hparse] at h
      obtain rfl : e' = e := by simpa using h
      rfl
  | ok p =>
      rw [hparse] at h
      dsimp only [run] at h
      generalize Eval.program _ _ _ _ = o at h
      cases o with
      | value | fault | misuse | exhausted => exact nomatch h

/-- **Every fault points into the source.**  A source that is run in a new session, whatever its
name and the limit on calls, comes to no misuse.  If it ends in a fault, this is reported with a
span under the name of the file.  The span lies in the source, and its ends are coordinates of it.
The report says that the fault is one of the characters, and then scanning ends in it, or that it is
one of the syntax or of the run, and then the span goes from the beginning of a token to the end of
a token. -/
theorem fault_points_into_source (bytes : List UInt8) (file : String) (depth : Int)
    (maxTurns : Nat) :
    let settings := Settings.ofRequest file depth
    let scan := Scan.ofGlyphs (Glyph.ofBytes bytes) .finished
    let result := ((start settings).evaluate maxTurns (Glyph.ofBytes bytes)).result
    (∀ m, result ≠ .misuse m) ∧
    ∀ fault, result = .fault fault → ∃ kind span,
      fault.Reported (if file = "" then "<input>" else file) kind span ∧ span.LiesIn bytes ∧
      (kind = "LexError" ∧ (∃ f, fault = .text (.scan f) ∧ scan.stop = .error f) ∨
        (kind = "ParseError" ∨ kind = "RuntimeError") ∧
          ∃ t u, t ∈ scan.listed ∧ u ∈ scan.listed ∧ span = ⟨t.span.first, u.span.last⟩) := by
  intro settings scan result
  refine ⟨((ready_start settings).evaluate maxTurns _).2, ?_⟩
  intro fault hfault
  cases fault with
  | runtime f =>
      have hbetween := between_of_runtime settings maxTurns hfault
      have hlies := hbetween.liesIn
      obtain ⟨t, u, ht, hu, hspan, -⟩ := hbetween
      exact ⟨_, _, f.reported _, hlies, .inr ⟨.inr rfl, t, u, ht, hu, hspan⟩⟩
  | text e =>
      have hrising := Scan.rising_listed bytes .finished
      have habout := Program.about_of_ofScan hrising (ofGlyphs_of_text hfault)
      have hown : ∀ t, scan.stock.tokens t → t.span.Between scan.stock.tokens := by
        intro t ht
        exact ⟨t, t, ht, ht, rfl, hrising.first_le_last ht⟩
      rcases SyntaxFault.reported settings.file hown habout with ⟨f, rfl, hf⟩ | ⟨s, hs, hreported⟩
      · obtain ⟨s, hspan, hlies⟩ := Scan.exists_span_of_fault hf
        exact ⟨_, s, ScanFault.reported _ hspan, hlies, .inl ⟨rfl, f, rfl, hf⟩⟩
      · have hlies := hs.liesIn
        obtain ⟨t, u, ht, hu, hspan, -⟩ := hs
        exact ⟨_, s, hreported, hlies, .inr ⟨.inl rfl, t, u, ht, hu, hspan⟩⟩

/-- A string with a wide character and, on the next line, a name that is not bound; the fault is
where the name is. -/
theorem fault_points_into_source_unbound :
    let bytes : List UInt8 := [34, 195, 169, 34, 10, 32, 120]
    let scan := Scan.ofGlyphs (Glyph.ofBytes bytes) .finished
    let span : Span := ⟨⟨6, 2, 2⟩, ⟨6, 2, 2⟩⟩
    ∃ fault kind, ((start (.ofRequest "" (-1))).evaluate 1 (Glyph.ofBytes bytes)).result =
        .fault (.runtime fault) ∧
      (Fault.runtime fault).Reported "<input>" kind span ∧ span.LiesIn bytes ∧
      ∃ t u, t ∈ scan.listed ∧ u ∈ scan.listed ∧ span = ⟨t.span.first, u.span.last⟩ := by
  intro bytes scan span
  have hfault : ∃ fault, ((start (.ofRequest "" (-1))).evaluate 1 (Glyph.ofBytes bytes)).result =
      .fault (.runtime fault) ∧ fault.span = span := by
    set_option maxRecDepth 8000 in exact ⟨_, rfl, rfl⟩
  obtain ⟨fault, hfault, hspan⟩ := hfault
  obtain ⟨kind, span', hreported, hlies, hkind⟩ :=
    (fault_points_into_source bytes "" (-1) 1).2 (.runtime fault) hfault
  obtain rfl : span = span' := hspan.symm.trans (Option.some.inj hreported.1)
  rcases hkind with ⟨-, f, hscan, -⟩ | ⟨-, htokens⟩
  · exact nomatch hscan
  · exact ⟨fault, kind, hfault, hreported, hlies, htokens⟩

end Session

end HamScript
