/-
# Whole numbers in sources

A whole number is scanned as digits of any script, and an expression takes only ASCII digits.  So a
token of the kind `int` is one of two things.  If its digits are in ASCII, it is read wherever an
expression may begin, as the number that they write.  Otherwise no program has it, and where an
expression is due it is refused.

* What a parser refuses as the beginning of an expression begins none (`Parser.Earns`): this goes
  through the parsers, since a fault stops them at once.
* What a parser has read is in the tree (`Derives.literals`): this goes by the rules of the
  grammar, of which only one has such a token in it.
-/
import HamScript.Proofs.Syntax.Parts

namespace HamScript

open Grammar (Derives IsInt Params Phrase)
open Parsing (Input)
open Source (Glyph Position Span)

/-! ## What is refused -/

/-- An expression can begin with the token. -/
def Token.Opens (t : Token) : Prop :=
  t.kind ∈ [.string, .trueWord, .falseWord, .ident, .leftParen, .minus, .fnWord, .ampersand] ∨
    t.kind = .int ∧ (Decimal.natural? t.text.toList).isSome ∨
    t.kind = .float ∧ (Decimal.literal? t.text.toList).isSome

/-- A token that is refused as the beginning of an expression is the beginning of none. -/
def SyntaxFault.Earned : SyntaxFault → Prop
  | .expectedExpression t => ¬ t.Opens
  | _ => True

namespace Parser

/-- The faults of the parser are earned. -/
def Earns {α : Type} (p : Parser α) : Prop :=
  ∀ s e, p s = .fault e → e.Earned

section
variable {α β : Type} {p : Parser α} {f : α → Parser β}

theorem Earns.bind (hp : Earns p) (hf : ∀ a, Earns (f a)) : Earns (p >>= f) := by
  intro s e h
  change Parser.bind p f s = .fault e at h
  rw [Parser.bind] at h
  cases hps : p s with
  | done a s' =>
      rw [hps] at h
      exact hf a s' e h
  | fault e' =>
      rw [hps] at h
      cases h
      exact hp s e hps
  | exhausted =>
      rw [hps] at h
      cases h

theorem earns_pure (a : α) : Earns (pure a : Parser α) := by
  intro s e h
  cases h

theorem earns_exhausted : Earns (exhausted : Parser α) := by
  intro s e h
  cases h

theorem earns_raise {e : SyntaxFault} (he : e.Earned) : Earns (raise e : Parser α) := by
  intro s e' h
  cases h
  exact he

theorem earns_peek : Earns peek := by
  intro s e h
  rw [peek] at h
  split at h
  · cases h
  · split at h
    · cases h
    · cases h
      trivial

theorem earns_next : Earns next := by
  intro s e h
  rw [next] at h
  split at h
  · cases h
  · split at h
    · cases h
    · cases h
      trivial

theorem earns_expect (kinds : List Kind) : Earns (expect kinds) := by
  refine earns_next.bind fun t => ?_
  split
  · exact earns_pure t
  · exact earns_raise trivial

theorem earns_peekIs (kind : Kind) : Earns (peekIs kind) :=
  earns_peek.bind fun _ => earns_pure _

theorem earns_onSameLine : Earns onSameLine := by
  intro s e h
  rw [onSameLine] at h
  cases hpeek : peek s with
  | done t s' =>
      rw [hpeek] at h
      cases h
  | fault e' =>
      rw [hpeek] at h
      cases h
      exact earns_peek s e hpeek
  | exhausted =>
      rw [hpeek] at h
      cases h

theorem earns_spanFrom (first : Position) : Earns (spanFrom first) := by
  intro s e h
  cases h

theorem earns_span_pure (first : Position) (make : Span → α) :
    Earns (do let span ← spanFrom first; return make span) :=
  (earns_spanFrom first).bind fun _ => earns_pure _

theorem earns_ident : Earns ident :=
  (earns_expect _).bind fun _ => earns_pure _

theorem earns_commaList (hp : Earns p) (n : Nat) : Earns (commaList p n) := by
  induction n with
  | zero => exact earns_exhausted
  | succ n ih =>
      refine (earns_peekIs _).bind fun closed => ?_
      cases closed with
      | true => exact (earns_expect _).bind fun _ => earns_pure _
      | false =>
          refine hp.bind fun a => (earns_peekIs _).bind fun closed => ?_
          cases closed with
          | true => exact (earns_expect _).bind fun _ => earns_pure _
          | false => exact (earns_expect _).bind fun _ => ih.bind fun _ => earns_pure _

theorem earns_params (n : Nat) : Earns (params n) :=
  (earns_expect _).bind fun _ => earns_commaList earns_ident n

variable {stmt : Parser Stmt}

theorem earns_stmtsToBrace (hstmt : Earns stmt) (n : Nat) : Earns (stmtsToBrace stmt n) := by
  induction n with
  | zero => exact earns_exhausted
  | succ n ih =>
      refine earns_peek.bind fun t => ?_
      split
      · exact earns_next.bind fun _ => earns_pure _
      · split
        · exact earns_raise trivial
        · exact hstmt.bind fun _ => ih.bind fun _ => earns_pure _

theorem earns_stmtsToEnd (hstmt : Earns stmt) (n : Nat) : Earns (stmtsToEnd stmt n) := by
  induction n with
  | zero => exact earns_exhausted
  | succ n ih =>
      refine earns_peek.bind fun t => ?_
      split
      · exact earns_pure _
      · exact hstmt.bind fun _ => ih.bind fun _ => earns_pure _

variable {expr : Nat → Parser Expr} {block : Parser Block}

theorem earns_fnRest (hblock : Earns block) (n : Nat) (first : Position) :
    Earns (fnRest block n first) :=
  (earns_params n).bind fun _ => hblock.bind fun _ => earns_span_pure first _

theorem earns_literal {t : Token} {value : Option α} {make : α → Span → Expr}
    (ht : value = none → ¬ t.Opens) : Earns (literal t value make) := by
  cases value with
  | none => exact earns_raise (ht rfl)
  | some v => exact earns_pure _

/-- The first token of an expression is refused only if it begins none. -/
theorem earns_primary (hexpr : ∀ k, Earns (expr k)) (hblock : Earns block) (n : Nat) :
    Earns (primary expr block n) := by
  refine earns_next.bind fun t => ?_
  have hother : ∀ {kind : Kind}, t.kind = kind →
      kind ∉ [.string, .trueWord, .falseWord, .ident, .leftParen, .minus, .fnWord, .ampersand] →
      (kind = .int → Decimal.natural? t.text.toList = none) →
      (kind = .float → Decimal.literal? t.text.toList = none) → ¬ t.Opens := by
    rintro kind rfl hkinds hint hfloat (hmem | ⟨hkind, hvalue⟩ | ⟨hkind, hvalue⟩)
    · exact hkinds hmem
    · rw [hint hkind] at hvalue
      cases hvalue
    · rw [hfloat hkind] at hvalue
      cases hvalue
  dsimp only
  cases hkind : t.kind with
  | int =>
      exact earns_literal fun hvalue =>
        hother hkind (by decide) (fun _ => hvalue) (fun h => Kind.noConfusion h)
  | float =>
      exact earns_literal fun hvalue =>
        hother hkind (by decide) (fun h => Kind.noConfusion h) (fun _ => hvalue)
  | string | trueWord | falseWord | ident => exact earns_pure _
  | leftParen => exact (hexpr _).bind fun _ => (earns_expect _).bind fun _ => earns_pure _
  | minus => exact (hexpr _).bind fun _ => earns_span_pure _ _
  | fnWord => exact earns_fnRest hblock n _
  | ampersand => exact earns_ident.bind fun _ => earns_span_pure _ _
  | eof | illegal | rightParen | leftBrace | rightBrace | comma | period | assign | equal
  | notEqual | plus | star | slash | letWord | ifWord | returnWord | whileWord | breakWord =>
      exact earns_raise (hother hkind (by decide) (fun h => Kind.noConfusion h)
        (fun h => Kind.noConfusion h))

theorem earns_continuation (hexpr : ∀ k, Earns (expr k)) (n : Nat) (left : Expr)
    (c : Continuation) : Earns (continuation expr n left c) := by
  have hargs := earns_commaList (hexpr loosest) n
  cases c with
  | assign =>
      rw [continuation]
      split
      · exact earns_raise trivial
      · exact (hexpr _).bind fun _ => earns_span_pure _ _
  | operator op => exact (hexpr _).bind fun _ => earns_span_pure _ _
  | call => exact hargs.bind fun _ => earns_span_pure _ _
  | method =>
      exact earns_ident.bind fun _ => (earns_expect _).bind fun _ => hargs.bind fun _ =>
        earns_span_pure _ _

theorem earns_continueFrom (hexpr : ∀ k, Earns (expr k)) (strength n : Nat) (left : Expr) :
    Earns (continueFrom expr strength n left) := by
  induction n generalizing left with
  | zero => exact earns_exhausted
  | succ n ih =>
      refine earns_peek.bind fun t => ?_
      split
      · exact earns_pure _
      · split
        · exact earns_pure _
        · refine earns_onSameLine.bind fun sameLine => ?_
          cases sameLine with
          | true =>
              exact earns_next.bind fun _ =>
                (earns_continuation hexpr n left _).bind fun longer => ih longer
          | false => exact earns_pure _

theorem earns_fnStmt (hexpr : ∀ k, Earns (expr k)) (hblock : Earns block) (n : Nat) :
    Earns (fnStmt expr block n) := by
  refine earns_next.bind fun t => (earns_peekIs _).bind fun named => ?_
  cases named with
  | true =>
      exact earns_ident.bind fun _ => (earns_params n).bind fun _ => hblock.bind fun _ =>
        earns_span_pure _ _
  | false =>
      exact (earns_fnRest hblock n _).bind fun left =>
        (earns_continueFrom hexpr _ n left).bind fun _ => earns_span_pure _ _

theorem earns_returnRest (hexpr : ∀ k, Earns (expr k)) (first : Position) :
    Earns (returnRest expr first) := by
  refine earns_onSameLine.bind fun sameLine => earns_peek.bind fun t => ?_
  split
  · exact (hexpr _).bind fun _ => earns_span_pure _ _
  · exact earns_span_pure _ _

theorem earns_guarded (hexpr : ∀ k, Earns (expr k)) (hblock : Earns block) (first : Position)
    (make : Expr → Block → Span → Stmt) : Earns (guarded expr block first make) :=
  (hexpr _).bind fun _ => hblock.bind fun _ => earns_span_pure _ _

theorem earns_stmtOf (hexpr : ∀ k, Earns (expr k)) (hblock : Earns block) (n : Nat) :
    Earns (stmtOf expr block n) := by
  refine earns_peek.bind fun t => ?_
  dsimp only
  split
  · exact earns_next.bind fun _ => earns_ident.bind fun _ => (earns_expect _).bind fun _ =>
      (hexpr _).bind fun _ => earns_span_pure _ _
  · exact earns_fnStmt hexpr hblock n
  · exact earns_next.bind fun _ => earns_guarded hexpr hblock _ _
  · exact earns_next.bind fun _ => earns_guarded hexpr hblock _ _
  · exact earns_next.bind fun _ => earns_returnRest hexpr _
  · exact earns_next.bind fun _ => earns_pure _
  · exact (hexpr _).bind fun _ => earns_span_pure _ _

end

theorem earns_knot : (n : Nat) → (∀ k, Earns (expr n k)) ∧ Earns (block n)
  | 0 => ⟨fun _ => earns_exhausted, earns_exhausted⟩
  | n + 1 => by
      obtain ⟨hexpr, hblock⟩ := earns_knot n
      refine ⟨fun k => ?_, ?_⟩
      · rw [expr]
        exact (earns_primary hexpr hblock n).bind fun left =>
          earns_continueFrom hexpr k n left
      · rw [block]
        exact (earns_expect _).bind fun _ =>
          earns_stmtsToBrace (earns_stmtOf hexpr hblock n) n

/-- A source is refused at a token where an expression is due only if the token begins none. -/
theorem earns_program (n : Nat) : Earns (program n) := by
  obtain ⟨hexpr, hblock⟩ := earns_knot n
  exact earns_stmtsToEnd (earns_stmtOf hexpr hblock n) n

end Parser

/-! ## What is read -/

/-- Every token that is a whole number is in ASCII digits and is one of the expressions, with the
number that it writes. -/
def Token.Literals (es : List Expr) (ts : List Token) : Prop :=
  ∀ t ∈ ts, t.kind = .int → ∃ n, IsInt t.text n ∧ .int n t.span ∈ es

namespace Token.Literals

variable {es ds : List Expr} {ts us : List Token} {u : Token} {kind : Kind}

theorem nil : Literals es [] :=
  fun _ ht => absurd ht List.not_mem_nil

/-- A token of another kind does not matter. -/
theorem cons (hu : u.kind = kind) (hne : kind ≠ .int) (h : Literals es ts) :
    Literals es (u :: ts) := by
  refine List.forall_mem_cons.mpr ⟨fun hint => ?_, h⟩
  exact absurd (hu.symm.trans hint) hne

theorem append (h : Literals es ts) (h' : Literals es us) : Literals es (ts ++ us) :=
  List.forall_mem_append.mpr ⟨h, h'⟩

theorem mono (h : Literals es ts) (hsub : es ⊆ ds) : Literals ds ts := by
  intro t ht hkind
  obtain ⟨n, hn, hmem⟩ := h t ht hkind
  exact ⟨n, hn, hsub hmem⟩

theorem params {xs : List Ident} (h : Params xs ts) : Literals es ts := by
  obtain ⟨o, us, rfl, ho, hlist⟩ := h
  refine .cons ho Kind.noConfusion ?_
  induction hlist with
  | none hc => exact .cons hc Kind.noConfusion .nil
  | one ha hc =>
      obtain ⟨t, rfl, hname, -⟩ := ha
      exact .cons hname Kind.noConfusion (.cons hc Kind.noConfusion .nil)
  | more ha hc _ ih =>
      obtain ⟨t, rfl, hname, -⟩ := ha
      exact .cons hname Kind.noConfusion (.cons hc Kind.noConfusion ih)

end Token.Literals

/-- The tokens of a phrase that are whole numbers are literals in its tree. -/
theorem Grammar.Derives.literals {φ : Phrase} {ts : List Token} (h : Derives φ ts) :
    Token.Literals φ.parts ts := by
  have hleft : ∀ es ds : List Expr, es ⊆ es ++ ds := List.subset_append_left
  have hright : ∀ es ds : List Expr, ds ⊆ es ++ ds := List.subset_append_right
  have hfirst : ∀ (e : Expr) (es ds : List Expr), es ⊆ e :: (es ++ ds) :=
    fun e es ds => List.subset_cons_of_subset e (hleft es ds)
  have hlast : ∀ (e : Expr) (es ds : List Expr), ds ⊆ e :: (es ++ ds) :=
    fun e es ds => List.subset_cons_of_subset e (hright es ds)
  induction h with
  | @int t n hkind hn =>
      refine List.forall_mem_singleton.mpr fun _ => ⟨n, hn, List.mem_singleton.mpr rfl⟩
  | float hk | string hk | truth hk | falsity hk => exact .cons hk Kind.noConfusion .nil
  | var hx => exact .cons hx.1 Kind.noConfusion .nil
  | ref ha hx => exact .cons ha Kind.noConfusion (.cons hx.1 Kind.noConfusion .nil)
  | paren ho _ hc ih =>
      exact .cons ho Kind.noConfusion (ih.append (.cons hc Kind.noConfusion .nil))
  | fn hf hparams _ ih =>
      exact .cons hf Kind.noConfusion
        ((Token.Literals.params hparams).append (ih.mono (List.subset_cons_self _ _)))
  | call _ ho _ _ ihl ihs =>
      exact (ihl.mono (hfirst _ _ _)).append
        (.cons ho Kind.noConfusion (ihs.mono (hlast _ _ _)))
  | method _ hd _ hx ho _ ihl ihs =>
      refine (ihl.mono (hfirst _ _ _)).append
        (.cons hd Kind.noConfusion (.cons hx.1 Kind.noConfusion ?_))
      exact .cons ho Kind.noConfusion (ihs.mono (hlast _ _ _))
  | negate hm _ ih => exact .cons hm Kind.noConfusion (ih.mono (List.subset_cons_self _ _))
  | @binary op _ _ _ _ _ _ ho _ _ ihl ihr =>
      refine (ihl.mono (hfirst _ _ _)).append (.cons ho ?_ (ihr.mono (hlast _ _ _)))
      cases op <;> exact Kind.noConfusion
  | assign _ hx ho _ _ ihl ihv =>
      -- what is assigned to is a name, in which there is no literal
      refine Token.Literals.append ?_
        (.cons ho Kind.noConfusion (ihv.mono (List.subset_cons_self _ _)))
      intro t ht hkind
      obtain ⟨n, -, hmem⟩ := ihl t ht hkind
      rcases hx with rfl | ⟨span, rfl⟩
      · cases List.mem_singleton.mp hmem
      · cases List.mem_singleton.mp hmem
  | up _ ih => exact ih
  | noArgs hc => exact .cons hc Kind.noConfusion .nil
  | lastArg _ hc ih => exact (ih.mono (hleft _ _)).append (.cons hc Kind.noConfusion .nil)
  | moreArgs _ hc _ ih ihs =>
      exact (ih.mono (hleft _ _)).append (.cons hc Kind.noConfusion (ihs.mono (hright _ _)))
  | block ho _ hc ih =>
      exact .cons ho Kind.noConfusion (ih.append (.cons hc Kind.noConfusion .nil))
  | noStmts => exact .nil
  | moreStmts _ _ ih ihs => exact (ih.mono (hleft _ _)).append (ihs.mono (hright _ _))
  | letIn hk hx ho _ _ ih =>
      exact .cons hk Kind.noConfusion (.cons hx.1 Kind.noConfusion (.cons ho Kind.noConfusion ih))
  | fnDecl _ hk hx hparams _ ih =>
      exact .cons hk Kind.noConfusion
        (.cons hx.1 Kind.noConfusion ((Token.Literals.params hparams).append ih))
  | ifThen _ hk _ _ ih ihs | whileDo _ hk _ _ ih ihs =>
      exact .cons hk Kind.noConfusion ((ih.mono (hleft _ _)).append (ihs.mono (hright _ _)))
  | returnUnit hk => exact .cons hk Kind.noConfusion .nil
  | returnValue hk _ _ _ ih => exact .cons hk Kind.noConfusion ih
  | breakOut _ hk => exact .cons hk Kind.noConfusion .nil
  | expr _ _ ih => exact ih

/-! ## Tokens of a scan -/

/-- The text of a whole number is digits, of any script. -/
theorem Lexes.int_digits {ending : Ending} {p : Position} {gs : List Glyph} {ts : List Token}
    {stop : Except ScanFault Position} (h : Lexes ending p gs ts stop) {t : Token} (ht : t ∈ ts)
    (hkind : t.kind = .int) :
    t.text.toList ≠ [] ∧ ∀ c ∈ t.text.toList, Text.isDecimalDigit c = true := by
  obtain ⟨before, taken, after, -, hlexeme, -⟩ := h.exists_lexeme ht
  rw [hkind] at hlexeme
  generalize t.text = text at hlexeme ⊢
  have hmarks : ∀ m ∈ Lexeme.marks, m.2 ≠ .int := by decide
  have hwords : ∀ w ∈ Lexeme.words, w.2 ≠ .int := by decide
  cases hlexeme with
  | mark rest hmark => exact absurd rfl (hmarks _ hmark)
  | word hstart hws hstop hword =>
      rcases hword with hword | ⟨hident, -⟩
      · exact absurd rfl (hwords _ hword)
      · cases hident
  | int hne hds _ _ =>
      rw [Glyph.text, String.toList_ofList]
      refine ⟨mt List.map_eq_nil_iff.mp hne, fun c hc => ?_⟩
      obtain ⟨g, hg, rfl⟩ := List.mem_map.mp hc
      exact hds g hg

theorem Decimal.natural?_eq_none_iff {cs : List Char} (hne : cs ≠ []) :
    natural? cs = none ↔ ¬ ∀ c ∈ cs, c.isDigit = true := by
  simp [natural?, hne]

/-- A whole number where an expression may begin. -/
theorem Parser.primary_int (E : Nat → Parser Expr) (B : Parser Block) (bound : Nat) {s : Input}
    {t : Token} {rest : List Token} (hs : s.tokens = t :: rest) (hkind : t.kind = .int) :
    primary E B bound s = literal t (Decimal.natural? t.text.toList) .int
      { s with tokens := rest, last := t.span.last } := by
  have hnext : next s = .done t { s with tokens := rest, last := t.span.last } := by
    rw [next, hs]
  change Parser.bind next _ s = _
  rw [Parser.bind, hnext]
  dsimp only
  rw [hkind]

/-- **Whole numbers.**  A token of a source that is a whole number has digits for its text.
Wherever an expression may begin, it is read as the number that the digits write, if they are all in
ASCII, and refused otherwise.  So a source that is a program has it among its literals, and one that
is refused there has a digit of another script in it. -/
theorem int_tokens_read_iff_ascii (bytes : List UInt8) (ending : Ending) {t : Token}
    (ht : t ∈ (Scan.ofGlyphs (Glyph.ofBytes bytes) ending).tokens) (hkind : t.kind = .int) :
    (t.text.toList ≠ [] ∧ ∀ c ∈ t.text.toList, Text.isDecimalDigit c = true) ∧
    (∀ (E : Nat → Parser Expr) (B : Parser Block) (bound : Nat) (s : Input) (rest : List Token),
      s.tokens = t :: rest →
      ((∀ c ∈ t.text.toList, c.isDigit = true) → Parser.primary E B bound s =
        .done (.int (Decimal.valueOf t.text.toList) t.span)
          { s with tokens := rest, last := t.span.last }) ∧
      ((¬ ∀ c ∈ t.text.toList, c.isDigit = true) → Parser.primary E B bound s =
        .fault (.expectedExpression t))) ∧
    (∀ P, Program.ofGlyphs (Glyph.ofBytes bytes) ending = .ok P →
      (∀ c ∈ t.text.toList, c.isDigit = true) ∧
        .int (Decimal.valueOf t.text.toList) t.span ∈ Stmt.allParts P) ∧
    (Program.ofGlyphs (Glyph.ofBytes bytes) ending = .error (.expectedExpression t) →
      ¬ ∀ c ∈ t.text.toList, c.isDigit = true) := by
  obtain ⟨hne, hdigits⟩ := (Scan.lexes _ ending).int_digits ht hkind
  have hvalue : (∀ c ∈ t.text.toList, c.isDigit = true) →
      Decimal.natural? t.text.toList = some (Decimal.valueOf t.text.toList) :=
    fun hascii => Decimal.natural?_eq_some_iff.mpr ⟨hne, hascii, rfl⟩
  refine ⟨⟨hne, hdigits⟩, fun E B bound s rest hs => ⟨fun hascii => ?_, fun hother => ?_⟩,
    fun P hP => ?_, fun hfault hascii => ?_⟩
  · rw [Parser.primary_int E B bound hs hkind, hvalue hascii]
    rfl
  · rw [Parser.primary_int E B bound hs hkind, (Decimal.natural?_eq_none_iff hne).mpr hother]
    rfl
  · obtain ⟨ts, p, hscan, hderives⟩ := Program.exists_derives hP
    rw [hscan] at ht
    obtain ⟨n, ⟨-, hascii, rfl⟩, hmem⟩ := hderives.literals t ht hkind
    exact ⟨hascii, hmem⟩
  · have hearned := Parser.earns_program _ _ _ (Program.ofScan_eq_error_iff.mp hfault)
    refine hearned (.inr (.inl ⟨hkind, ?_⟩))
    rw [hvalue hascii]
    rfl

/-- Zeros in front do not matter. -/
theorem int_tokens_read_iff_ascii_zeros :
    ∃ t ∈ (Scan.ofGlyphs (Glyph.ofBytes [48, 48, 55]) .finished).tokens,
      t.kind = .int ∧ t.text = "007" ∧
      ∃ P, Program.ofGlyphs (Glyph.ofBytes [48, 48, 55]) .finished = .ok P ∧
        .int 7 t.span ∈ Stmt.allParts P := by
  have htokens : (Scan.ofGlyphs (Glyph.ofBytes [48, 48, 55]) .finished).tokens =
      [⟨.int, "007", ⟨⟨0, 1, 1⟩, ⟨2, 1, 3⟩⟩⟩] := by decide +kernel
  have hmem := htokens ▸ List.mem_singleton_self (⟨.int, "007", ⟨⟨0, 1, 1⟩, ⟨2, 1, 3⟩⟩⟩ : Token)
  obtain ⟨P, -, hP⟩ : ∃ P, P.length = 1 ∧
      Program.ofGlyphs (Glyph.ofBytes [48, 48, 55]) .finished = .ok P :=
    exists_ok_of_length (by decide +kernel)
  obtain ⟨-, -, hliteral, -⟩ := int_tokens_read_iff_ascii _ _ hmem rfl
  exact ⟨_, hmem, rfl, rfl, P, hP, (hliteral P hP).2⟩

/-- The Arabic digit three by itself is scanned as a whole number, and is no program. -/
theorem int_token_refused_arabic :
    ∃ t, (Scan.ofGlyphs (Glyph.ofBytes [0xD9, 0xA3]) .finished).tokens = [t] ∧
      t.kind = .int ∧ t.text = "\u0663" ∧
      Program.ofGlyphs (Glyph.ofBytes [0xD9, 0xA3]) .finished = .error (.expectedExpression t) := by
  refine ⟨⟨.int, "\u0663", ⟨⟨0, 1, 1⟩, ⟨0, 1, 1⟩⟩⟩, by decide +kernel, rfl, rfl, ?_⟩
  exact eq_error_of_swap (by decide +kernel)

end HamScript
