/-
# Texts tell shapes apart

A shape can be read off its text from left to right.  The first character tells what kind of thing
begins, a word ends where a character stands that no name has, and a chain ends where neither a
parenthesis opens nor a point stands.  So two shapes whose texts agree, each before something that
ends it, are the same.

The one trap is ` = `, which goes on with an assignment, beside the operator ` == `.
-/
import HamScript.Proofs.Syntax.Shape
import HamScript.Proofs.Text.Literals
import HamScript.Proofs.Token.Classes

namespace HamScript

open Lexeme (IsIdentifier isNamePart isNameStart)
open Source (Glyph)

/-! ## What ends a word -/

/-- No name goes on with the characters. -/
def Breaks (r : List Char) : Prop :=
  ∀ c ∈ r.head?, isNamePart c = false

theorem breaks_cons {c : Char} (h : isNamePart c = false) (r : List Char) : Breaks (c :: r) := by
  rintro _ ⟨⟩
  exact h

/-- A word can be told from what begins with it. -/
theorem word_append_inj {x y r u : List Char} (hx : ∀ c ∈ x, isNamePart c = true)
    (hy : ∀ c ∈ y, isNamePart c = true) (hr : Breaks r) (hu : Breaks u) (h : x ++ r = y ++ u) :
    x = y ∧ r = u := by
  induction x generalizing y with
  | nil =>
      cases y with
      | nil => exact ⟨rfl, h⟩
      | cons d y =>
          have hd := hr d (by rw [← List.nil_append r, h]; rfl)
          exact absurd (hy d List.mem_cons_self) (by rw [hd]; exact Bool.false_ne_true)
  | cons c x ih =>
      cases y with
      | nil =>
          have hc := hu c (by rw [← List.nil_append u, ← h]; rfl)
          exact absurd (hx c List.mem_cons_self) (by rw [hc]; exact Bool.false_ne_true)
      | cons d y =>
          obtain ⟨rfl, hrest⟩ := List.cons.inj h
          obtain ⟨rfl, hru⟩ := ih (fun c hc => hx c (List.mem_cons_of_mem _ hc))
            (fun c hc => hy c (List.mem_cons_of_mem _ hc)) hrest
          exact ⟨rfl, hru⟩

theorem isNamePart_of_isIdentifier {x : String} (h : IsIdentifier x) :
    ∀ c ∈ x.toList, isNamePart c = true := by
  obtain ⟨⟨c, cs, hx, hc, hcs⟩, -⟩ := h
  rw [hx]
  intro d hd
  rcases List.mem_cons.mp hd with rfl | hd
  · exact Lexeme.isNamePart_of_isNameStart hc
  · exact hcs d hd

theorem name_append_inj {x y : String} {r u : List Char} (hx : IsIdentifier x)
    (hy : IsIdentifier y) (hr : Breaks r) (hu : Breaks u) (h : x.toList ++ r = y.toList ++ u) :
    x = y ∧ r = u := by
  obtain ⟨hxy, hru⟩ := word_append_inj (isNamePart_of_isIdentifier hx)
    (isNamePart_of_isIdentifier hy) hr hu h
  exact ⟨String.toList_inj.mp hxy, hru⟩

/-! ## What ends a shape -/

/-- What may stand behind a shape: nothing, the end of arguments or operands, a comma, or an
operator between blanks. -/
inductive Stop : List Char → Prop
  | done : Stop []
  | close (r : List Char) : Stop (')' :: r)
  | comma (r : List Char) : Stop (',' :: r)
  | operator (op : BinaryOp) (r : List Char) : Stop (' ' :: (op.symbol.toList ++ ' ' :: r))

namespace Stop

variable {r u : List Char}

theorem breaks (h : Stop r) : Breaks r := by
  cases h with
  | done => exact nofun
  | close | comma | operator => exact breaks_cons (by decide +kernel) _

theorem ne_leftParen (h : Stop r) : r ≠ '(' :: u := by
  rintro rfl
  generalize hr : '(' :: u = r at h
  cases h <;> simp at hr

theorem ne_period (h : Stop r) : r ≠ '.' :: u := by
  rintro rfl
  generalize hr : '.' :: u = r at h
  cases h <;> simp at hr

/-- The sign of an assignment is no operator. -/
theorem ne_assignSign (h : Stop r) : r ≠ ' ' :: '=' :: ' ' :: u := by
  rintro rfl
  generalize hr : ' ' :: '=' :: ' ' :: u = r at h
  cases h with
  | operator op r => cases op <;> simp [BinaryOp.symbol] at hr
  | _ => simp at hr

end Stop

/-- An operator can be told from what begins with it and a blank. -/
theorem symbol_append_inj {op op' : BinaryOp} {r u : List Char}
    (h : op.symbol.toList ++ ' ' :: r = op'.symbol.toList ++ ' ' :: u) : op = op' ∧ r = u := by
  cases op <;> cases op' <;> simp_all [BinaryOp.symbol]

/-! ## What begins a shape -/

/-- What the first character of a text tells about it. -/
inductive Lead where
  | quote
  | ampersand
  | opening
  | closing
  | minus
  | digit
  | letter
  deriving DecidableEq

def Lead.of (c : Char) : Lead :=
  if c = '"' then .quote
  else if c = '&' then .ampersand
  else if c = '(' then .opening
  else if c = ')' then .closing
  else if c = '-' then .minus
  else if Text.isDecimalDigit c then .digit
  else .letter

theorem Lead.of_isNameStart {c : Char} (h : isNameStart c = true) : Lead.of c = .letter := by
  have hne : ∀ d, isNameStart d = false → c ≠ d := by
    rintro d hd rfl
    exact Bool.false_ne_true (hd.symm.trans h)
  have hdigit := Text.not_isDecimalDigit_of_isNameStart h
  rw [Lead.of, if_neg (hne _ (by decide +kernel)), if_neg (hne _ (by decide +kernel)),
    if_neg (hne _ (by decide +kernel)), if_neg (hne _ (by decide +kernel)),
    if_neg (hne _ (by decide +kernel)), if_neg (Bool.eq_false_iff.mp hdigit)]

theorem Lead.of_isDigit {c : Char} (h : c.isDigit = true) : Lead.of c = .digit := by
  have hne : ∀ d : Char, d.isDigit = false → c ≠ d := by
    rintro d hd rfl
    exact Bool.false_ne_true (hd.symm.trans h)
  have hdigit : Text.isDecimalDigit c = true := Bool.or_eq_true_iff.mpr (.inl h)
  rw [Lead.of, if_neg (hne _ (by decide)), if_neg (hne _ (by decide)), if_neg (hne _ (by decide)),
    if_neg (hne _ (by decide)), if_neg (hne _ (by decide)), if_pos hdigit]

/-- The text begins with a character of this kind. -/
def Begins (text : List Char) (lead : Lead) : Prop :=
  text.head?.map Lead.of = some lead

theorem Begins.append {text : List Char} {lead : Lead} (h : Begins text lead) (r : List Char) :
    Begins (text ++ r) lead := by
  cases text with
  | nil => cases h
  | cons c cs => exact h

theorem Begins.unique {text : List Char} {lead lead' : Lead} (h : Begins text lead)
    (h' : Begins text lead') : lead = lead' :=
  Option.some.inj (h.symm.trans h')

theorem begins_name {x : String} (h : IsIdentifier x) : Begins x.toList .letter := by
  obtain ⟨⟨c, cs, hx, hc, -⟩, -⟩ := h
  rw [Begins, hx]
  exact congrArg some (Lead.of_isNameStart hc)

theorem isDigit_of_mem_toDigits {n : Nat} : ∀ c ∈ Nat.toDigits 10 n, c.isDigit = true :=
  fun _ hc => Nat.isDigit_of_mem_toDigits (by decide) (by decide) hc

theorem begins_numeral (n : Nat) : Begins (Nat.toDigits 10 n) .digit := by
  obtain ⟨c, cs, hn⟩ := List.exists_cons_of_ne_nil (Nat.toDigits_ne_nil (b := 10) (n := n))
  have hc : c ∈ Nat.toDigits 10 n := hn ▸ List.mem_cons_self
  rw [Begins, hn]
  exact congrArg some (Lead.of_isDigit (isDigit_of_mem_toDigits c hc))

def Atom.lead : Atom → Lead
  | .int _ => .digit
  | .string _ => .quote
  | .bool _ | .var _ | .verbatim _ => .letter
  | .ref _ => .ampersand
  | .binary _ _ _ => .opening

theorem Atom.begins {a : Atom} (h : a.Proper) : Begins a.text a.lead := by
  cases a with
  | int n => exact begins_numeral n
  | string t =>
      rw [text, Text.toList_quoted]
      rfl
  | bool b =>
      rw [Begins, text]
      cases b <;> decide +kernel
  | var x => exact begins_name h
  | ref x | binary op l r => rfl
  | verbatim t => exact h.elim

def Shape.lead : Shape → Lead
  | .negate _ => .minus
  | .assign _ _ => .letter
  | .chain a _ => a.lead

theorem Shape.begins {s : Shape} (h : s.Proper) : Begins s.text s.lead := by
  cases s with
  | negate s => rfl
  | assign x s =>
      rw [text]
      exact (begins_name h.1).append _
  | chain a ls =>
      rw [text]
      exact (Atom.begins h.1).append _

theorem Shape.lead_ne_closing (s : Shape) : s.lead ≠ .closing := by
  cases s with
  | negate | assign => exact Lead.noConfusion
  | chain a ls => cases a <;> exact Lead.noConfusion

theorem Atom.lead_ne_minus (a : Atom) : a.lead ≠ .minus := by
  cases a <;> exact Lead.noConfusion

/-- A shape is not the end of arguments. -/
theorem Shape.text_ne_close {s : Shape} {r u : List Char} (h : s.Proper) :
    s.text ++ r ≠ ')' :: u := by
  intro heq
  have hlead := heq ▸ (Shape.begins h).append r
  exact s.lead_ne_closing (Begins.unique hlead rfl)

/-! ## What goes on with a chain -/

theorem Link.text_cases (l : Link) : ∃ cs, l.text = '(' :: cs ∨ l.text = '.' :: cs := by
  cases l with
  | call ss => exact ⟨_, .inl rfl⟩
  | method x ss => exact ⟨_, .inr rfl⟩

theorem Link.text_ne_stop {l : Link} {r u : List Char} (h : Stop u) : l.text ++ r ≠ u := by
  obtain ⟨cs, hl | hl⟩ := l.text_cases <;> rw [hl]
  · exact h.ne_leftParen.symm
  · exact h.ne_period.symm

theorem Link.breaks_allText (ls : List Link) {r : List Char} (h : Stop r) :
    Breaks (allText ls ++ r) := by
  cases ls with
  | nil => exact h.breaks
  | cons l ls =>
      obtain ⟨cs, hl | hl⟩ := l.text_cases <;> rw [allText, hl]
      · exact breaks_cons (by decide +kernel) _
      · exact breaks_cons (by decide +kernel) _

theorem Link.allText_ne_assignSign (ls : List Link) {r u : List Char} (h : Stop r) :
    allText ls ++ r ≠ ' ' :: '=' :: ' ' :: u := by
  cases ls with
  | nil => exact h.ne_assignSign
  | cons l ls =>
      obtain ⟨cs, hl | hl⟩ := l.text_cases <;> rw [allText, hl] <;> simp

theorem Shape.stop_moreText (ss : List Shape) (r : List Char) : Stop (moreText ss ++ r) := by
  cases ss with
  | nil => exact .close r
  | cons s ss => exact .comma _

/-! ## Reading from left to right -/

theorem isNamePart_bool (b : Bool) : ∀ c ∈ (Atom.bool b).text, isNamePart c = true := by
  rw [Atom.text]
  cases b with
  | true => exact List.all_eq_true.mp (by decide +kernel)
  | false => exact List.all_eq_true.mp (by decide +kernel)

theorem isIdentifier_ne_bool {x : String} (h : IsIdentifier x) (b : Bool) :
    x.toList ≠ (Atom.bool b).text := by
  intro hx
  cases b with
  | true => exact h.2 .trueWord (String.toList_inj.mp hx ▸ by decide)
  | false => exact h.2 .falseWord (String.toList_inj.mp hx ▸ by decide)

theorem bool_text_inj {b b' : Bool} (h : (Atom.bool b).text = (Atom.bool b').text) : b = b' := by
  match b, b' with
  | true, true | false, false => rfl
  | true, false | false, true => exact absurd h (by decide)

theorem isNamePart_numeral (n : Nat) : ∀ c ∈ Nat.toDigits 10 n, isNamePart c = true := by
  intro c hc
  have hdigit : Text.isDecimalDigit c = true :=
    Bool.or_eq_true_iff.mpr (.inl (isDigit_of_mem_toDigits c hc))
  exact Bool.or_eq_true_iff.mpr (.inr hdigit)

theorem numeral_append_inj {n m : Nat} {r u : List Char} (hr : Breaks r) (hu : Breaks u)
    (h : Nat.toDigits 10 n ++ r = Nat.toDigits 10 m ++ u) : n = m ∧ r = u := by
  obtain ⟨hdigits, hru⟩ := word_append_inj (isNamePart_numeral n) (isNamePart_numeral m) hr hu h
  refine ⟨?_, hru⟩
  rw [← Decimal.valueOf_toDigits n, hdigits, Decimal.valueOf_toDigits]

theorem Atom.lead_eq {a a' : Atom} {r u : List Char} (ha : a.Proper) (ha' : a'.Proper)
    (h : a.text ++ r = a'.text ++ u) : a.lead = a'.lead :=
  Begins.unique (h ▸ (Atom.begins ha).append r) ((Atom.begins ha').append u)

theorem Shape.lead_eq {s s' : Shape} {r u : List Char} (hs : s.Proper) (hs' : s'.Proper)
    (h : s.text ++ r = s'.text ++ u) : s.lead = s'.lead :=
  Begins.unique (h ▸ (Shape.begins hs).append r) ((Shape.begins hs').append u)

/-- A name before the sign of an assignment begins no chain. -/
theorem assign_ne_chain {x : String} {a : Atom} {ls : List Link} {t u : List Char}
    (hx : IsIdentifier x) (ha : a.Proper) (hu : Stop u) :
    x.toList ++ ' ' :: '=' :: ' ' :: t ≠ a.text ++ (Link.allText ls ++ u) := by
  intro h
  have hsign : Breaks (' ' :: '=' :: ' ' :: t) := breaks_cons (by decide +kernel) _
  have hword : ∀ w, (∀ c ∈ w, isNamePart c = true) →
      x.toList ++ ' ' :: '=' :: ' ' :: t ≠ w ++ (Link.allText ls ++ u) := by
    intro w hw h
    have hrest := (word_append_inj (isNamePart_of_isIdentifier hx) hw hsign
      (Link.breaks_allText ls hu) h).2
    exact Link.allText_ne_assignSign ls hu hrest.symm
  have hlead : Lead.letter = a.lead :=
    Begins.unique (h ▸ (begins_name hx).append _) ((Atom.begins ha).append _)
  cases a with
  | bool b => exact hword _ (isNamePart_bool b) h
  | var y => exact hword _ (isNamePart_of_isIdentifier ha) h
  | verbatim => exact ha
  | int | string | ref | binary => cases hlead

mutual

/-- A shape can be told from what begins with it. -/
theorem Shape.text_append_inj : (s : Shape) → ∀ {s' : Shape} {r u : List Char}, s.Proper →
    s'.Proper → Stop r → Stop u → s.text ++ r = s'.text ++ u → s = s' ∧ r = u
  | .negate s, s', r, u, hs, hs', hr, hu, h => by
      have hlead := Shape.lead_eq hs hs' h
      cases s' with
      | negate s' =>
          have hoperand : s'.Proper := hs'
          obtain ⟨rfl, hru⟩ := Shape.text_append_inj s hs hoperand hr hu (List.cons.inj h).2
          exact ⟨rfl, hru⟩
      | assign => cases hlead
      | chain a ls => exact absurd hlead.symm a.lead_ne_minus
  | .assign x s, s', r, u, hs, hs', hr, hu, h => by
      have hlead := Shape.lead_eq hs hs' h
      cases s' with
      | negate => cases hlead
      | assign y s' =>
          rw [Shape.text, Shape.text, List.append_assoc, List.append_assoc] at h
          have hsign : ∀ t, Breaks (' ' :: t) := breaks_cons (by decide +kernel)
          obtain ⟨rfl, hrest⟩ := name_append_inj hs.1 hs'.1 (hsign _) (hsign _) h
          have hvalue : s.text ++ r = s'.text ++ u := by
            simpa using hrest
          obtain ⟨rfl, hru⟩ := Shape.text_append_inj s hs.2 hs'.2 hr hu hvalue
          exact ⟨rfl, hru⟩
      | chain a ls =>
          rw [Shape.text, Shape.text, List.append_assoc, List.append_assoc] at h
          exact absurd h (assign_ne_chain hs.1 hs'.1 hu)
  | .chain a ls, s', r, u, hs, hs', hr, hu, h => by
      have hlead := Shape.lead_eq hs hs' h
      cases s' with
      | negate => exact absurd hlead a.lead_ne_minus
      | assign y s' =>
          rw [Shape.text, Shape.text, List.append_assoc, List.append_assoc] at h
          exact absurd h.symm (assign_ne_chain hs'.1 hs.1 hr)
      | chain a' ls' =>
          rw [Shape.text, Shape.text, List.append_assoc, List.append_assoc] at h
          obtain ⟨rfl, hrest⟩ := Atom.text_append_inj a hs.1 hs'.1 (Link.breaks_allText ls hr)
            (Link.breaks_allText ls' hu) h
          obtain ⟨rfl, hru⟩ := Link.allText_append_inj ls hs.2 hs'.2 hr hu hrest
          exact ⟨rfl, hru⟩

theorem Atom.text_append_inj : (a : Atom) → ∀ {a' : Atom} {r u : List Char}, a.Proper →
    a'.Proper → Breaks r → Breaks u → a.text ++ r = a'.text ++ u → a = a' ∧ r = u
  | .int n, a', r, u, ha, ha', hr, hu, h => by
      have hlead := Atom.lead_eq ha ha' h
      cases a' with
      | int m =>
          obtain ⟨rfl, hru⟩ := numeral_append_inj hr hu h
          exact ⟨rfl, hru⟩
      | string | bool | var | ref | binary | verbatim => cases hlead
  | .string t, a', r, u, ha, ha', hr, hu, h => by
      have hlead := Atom.lead_eq ha ha' h
      cases a' with
      | string t' =>
          obtain ⟨rfl, hru⟩ := Text.quoted_append_inj h
          exact ⟨rfl, hru⟩
      | int | bool | var | ref | binary | verbatim => cases hlead
  | .bool b, a', r, u, ha, ha', hr, hu, h => by
      have hlead := Atom.lead_eq ha ha' h
      cases a' with
      | bool b' =>
          obtain ⟨htext, hru⟩ := word_append_inj (isNamePart_bool b) (isNamePart_bool b') hr hu h
          exact ⟨congrArg Atom.bool (bool_text_inj htext), hru⟩
      | var x =>
          have hword := (word_append_inj (isNamePart_bool b) (isNamePart_of_isIdentifier ha') hr hu
            h).1
          exact absurd hword.symm (isIdentifier_ne_bool ha' b)
      | verbatim => exact ha'.elim
      | int | string | ref | binary => cases hlead
  | .var x, a', r, u, ha, ha', hr, hu, h => by
      have hlead := Atom.lead_eq ha ha' h
      cases a' with
      | bool b =>
          have hword := (word_append_inj (isNamePart_of_isIdentifier ha) (isNamePart_bool b) hr hu
            h).1
          exact absurd hword (isIdentifier_ne_bool ha b)
      | var y =>
          obtain ⟨rfl, hru⟩ := name_append_inj ha ha' hr hu h
          exact ⟨rfl, hru⟩
      | verbatim => exact ha'.elim
      | int | string | ref | binary => cases hlead
  | .ref x, a', r, u, ha, ha', hr, hu, h => by
      have hlead := Atom.lead_eq ha ha' h
      cases a' with
      | ref y =>
          obtain ⟨rfl, hru⟩ := name_append_inj ha ha' hr hu (List.cons.inj h).2
          exact ⟨rfl, hru⟩
      | int | string | bool | var | binary | verbatim => cases hlead
  | .binary op l r', a', r, u, ha, ha', hr, hu, h => by
      have hlead := Atom.lead_eq ha ha' h
      cases a' with
      | binary op' l' r'' =>
          simp only [Atom.text, List.cons_append, List.append_assoc, List.cons.injEq, true_and] at h
          obtain ⟨rfl, hop⟩ := Shape.text_append_inj l ha.1 ha'.1 (.operator op _)
            (.operator op' _) h
          obtain ⟨rfl, hright⟩ := symbol_append_inj (List.cons.inj hop).2
          obtain ⟨rfl, hru⟩ := Shape.text_append_inj r' ha.2 ha'.2 (.close _) (.close _) hright
          exact ⟨rfl, (List.cons.inj hru).2⟩
      | int | string | bool | var | ref | verbatim => cases hlead
  | .verbatim _, _, _, _, ha, _, _, _, _ => ha.elim

theorem Link.text_append_inj : (l : Link) → ∀ {l' : Link} {r u : List Char}, l.Proper →
    l'.Proper → l.text ++ r = l'.text ++ u → l = l' ∧ r = u
  | .call ss, l', r, u, hl, hl', h => by
      cases l' with
      | call ss' =>
          obtain ⟨rfl, hru⟩ := Shape.argsText_append_inj ss hl hl' (List.cons.inj h).2
          exact ⟨rfl, hru⟩
      | method => exact absurd (List.cons.inj h).1 (by decide)
  | .method x ss, l', r, u, hl, hl', h => by
      cases l' with
      | call => exact absurd (List.cons.inj h).1 (by decide)
      | method y ss' =>
          simp only [Link.text, List.cons_append, List.append_assoc, List.cons.injEq, true_and] at h
          have hopen : ∀ t, Breaks ('(' :: t) := breaks_cons (by decide +kernel)
          obtain ⟨rfl, hargs⟩ := name_append_inj hl.1 hl'.1 (hopen _) (hopen _) h
          obtain ⟨rfl, hru⟩ := Shape.argsText_append_inj ss hl.2 hl'.2 (List.cons.inj hargs).2
          exact ⟨rfl, hru⟩

theorem Link.allText_append_inj : (ls : List Link) → ∀ {ls' : List Link} {r u : List Char},
    Link.AllProper ls → Link.AllProper ls' → Stop r → Stop u →
    Link.allText ls ++ r = Link.allText ls' ++ u → ls = ls' ∧ r = u
  | [], ls', r, u, _, hls', hr, _, h => by
      cases ls' with
      | nil => exact ⟨rfl, h⟩
      | cons l' ls' =>
          rw [Link.allText, Link.allText, List.append_assoc] at h
          exact absurd h.symm (Link.text_ne_stop hr)
  | l :: ls, ls', r, u, hls, hls', hr, hu, h => by
      cases ls' with
      | nil =>
          rw [Link.allText, Link.allText, List.append_assoc] at h
          exact absurd h (Link.text_ne_stop hu)
      | cons l' ls' =>
          rw [Link.allText, Link.allText, List.append_assoc, List.append_assoc] at h
          obtain ⟨rfl, hrest⟩ := Link.text_append_inj l hls.1 hls'.1 h
          obtain ⟨rfl, hru⟩ := Link.allText_append_inj ls hls.2 hls'.2 hr hu hrest
          exact ⟨rfl, hru⟩

theorem Shape.argsText_append_inj : (ss : List Shape) → ∀ {ss' : List Shape} {r u : List Char},
    Shape.AllProper ss → Shape.AllProper ss' → Shape.argsText ss ++ r = Shape.argsText ss' ++ u →
    ss = ss' ∧ r = u
  | [], ss', r, u, _, hss', h => by
      cases ss' with
      | nil => exact ⟨rfl, (List.cons.inj h).2⟩
      | cons s' ss' =>
          rw [Shape.argsText, Shape.argsText, List.append_assoc] at h
          exact absurd h.symm (Shape.text_ne_close hss'.1)
  | s :: ss, ss', r, u, hss, hss', h => by
      cases ss' with
      | nil =>
          rw [Shape.argsText, Shape.argsText, List.append_assoc] at h
          exact absurd h (Shape.text_ne_close hss.1)
      | cons s' ss' =>
          rw [Shape.argsText, Shape.argsText, List.append_assoc, List.append_assoc] at h
          obtain ⟨rfl, hrest⟩ := Shape.text_append_inj s hss.1 hss'.1 (Shape.stop_moreText ss r)
            (Shape.stop_moreText ss' u) h
          obtain ⟨rfl, hru⟩ := Shape.moreText_append_inj ss hss.2 hss'.2 hrest
          exact ⟨rfl, hru⟩

theorem Shape.moreText_append_inj : (ss : List Shape) → ∀ {ss' : List Shape} {r u : List Char},
    Shape.AllProper ss → Shape.AllProper ss' → Shape.moreText ss ++ r = Shape.moreText ss' ++ u →
    ss = ss' ∧ r = u
  | [], ss', r, u, _, _, h => by
      cases ss' with
      | nil => exact ⟨rfl, (List.cons.inj h).2⟩
      | cons s' ss' => exact absurd (List.cons.inj h).1 (by decide)
  | s :: ss, ss', r, u, hss, hss', h => by
      cases ss' with
      | nil => exact absurd (List.cons.inj h).1 (by decide)
      | cons s' ss' =>
          rw [Shape.moreText, Shape.moreText] at h
          simp only [List.cons_append, List.append_assoc, List.cons.injEq, true_and] at h
          obtain ⟨rfl, hrest⟩ := Shape.text_append_inj s hss.1 hss'.1 (Shape.stop_moreText ss r)
            (Shape.stop_moreText ss' u) h
          obtain ⟨rfl, hru⟩ := Shape.moreText_append_inj ss hss.2 hss'.2 hrest
          exact ⟨rfl, hru⟩

end

/-! ## The theorem -/

/-- **The text of an expression.**  Two expressions of parsed programs, without functions and
floats, have the same text exactly if they have the same shape; and if nothing negated or assigned
is called in them, they are then the same, but for their places. -/
theorem render_eq_iff_shape_eq {e e' : Expr} (he : e.Parsed) (he' : e'.Parsed)
    (hs : e.simple = true) (hs' : e'.simple = true) :
    (e.render = e'.render ↔ e.shape = e'.shape) ∧
    (e.tight = true → e'.tight = true → e.render = e'.render → e.bare = e'.bare) := by
  have hiff : e.render = e'.render ↔ e.shape = e'.shape := by
    rw [← String.toList_inj, ← e.text_shape, ← e'.text_shape]
    constructor
    · intro h
      have happend : e.shape.text ++ [] = e'.shape.text ++ [] := congrArg (· ++ []) h
      exact (Shape.text_append_inj e.shape (Expr.proper_shape e he.named hs)
        (Expr.proper_shape e' he'.named hs') .done .done happend).1
    · exact congrArg Shape.text
  refine ⟨hiff, fun ht ht' h => ?_⟩
  rw [← Expr.tree_shape e hs ht, ← Expr.tree_shape e' hs' ht', hiff.mp h]

theorem Expr.isNegation_bare (e : Expr) : e.bare.isNegation = e.isNegation := by
  cases e <;> rfl

/-- What is seen of an expression without its places. -/
def Expr.view (e : Expr) : String × Bool × Bool × Bool :=
  (e.render, e.isNegation, e.simple, e.tight)

/-- A view of some part of a program, read off the views of its parts. -/
theorem Expr.exists_parsed {bytes : List UInt8} {views : List (String × Bool × Bool × Bool)}
    (hviews : (Program.ofGlyphs (Glyph.ofBytes bytes) .finished).toOption.map
      (fun P => (Stmt.allParts P).map Expr.view) = some views)
    {v : String × Bool × Bool × Bool} (hv : v ∈ views) : ∃ e : Expr, e.Parsed ∧ e.view = v := by
  obtain ⟨P, hP, rfl⟩ := Option.map_eq_some_iff.mp hviews
  obtain ⟨e, he, hview⟩ := List.mem_map.mp hv
  exact ⟨e, ⟨bytes, .finished, P, eq_ok_of_toOption hP, he⟩, hview⟩

/-- The call of a method of `-a` and the negation of one of `a`, from `(-a).b()` and `-a.b()` on two
lines, have the same text. -/
theorem render_eq_of_negated_receiver :
    ∃ e e' : Expr, e.Parsed ∧ e'.Parsed ∧ e.simple = true ∧ e'.simple = true ∧
      e.render = "-a.b()" ∧ e'.render = "-a.b()" ∧ e.bare ≠ e'.bare := by
  have hviews : (Program.ofGlyphs (Glyph.ofBytes "(-a).b()\n-a.b()".toUTF8.data.toList)
      .finished).toOption.map (fun P => (Stmt.allParts P).map Expr.view) =
      some [("-a.b()", false, true, false), ("-a", true, true, true), ("a", false, true, true),
        ("-a.b()", true, true, true), ("a.b()", false, true, true), ("a", false, true, true)] := by
    decide +kernel
  obtain ⟨e, he, hview⟩ :=
    Expr.exists_parsed hviews (v := ("-a.b()", false, true, false)) (by decide)
  obtain ⟨e', he', hview'⟩ :=
    Expr.exists_parsed hviews (v := ("-a.b()", true, true, true)) (by decide)
  simp only [Expr.view, Prod.mk.injEq] at hview hview'
  obtain ⟨hrender, hneg, hs, -⟩ := hview
  obtain ⟨hrender', hneg', hs', -⟩ := hview'
  refine ⟨e, e', he, he', hs, hs', hrender, hrender', fun hbare => ?_⟩
  have hsame : e.isNegation = e'.isNegation := by
    rw [← e.isNegation_bare, hbare, e'.isNegation_bare]
  exact Bool.false_ne_true (hneg.symm.trans (hsame.trans hneg'))

/-- `-a.b(1)`, written close and written wide. -/
theorem render_eq_iff_shape_eq_spaced :
    ∃ e e' : Expr, (e.Parsed ∧ e'.Parsed ∧ e.simple = true ∧ e'.simple = true ∧ e.tight = true ∧
        e'.tight = true ∧ e.render = "-a.b(1)" ∧ e'.render = "-a.b(1)") ∧
      (e.render = e'.render ↔ e.shape = e'.shape) ∧
      (e.tight = true → e'.tight = true → e.render = e'.render → e.bare = e'.bare) := by
  have hclose : (Program.ofGlyphs (Glyph.ofBytes "-a.b(1)".toUTF8.data.toList)
      .finished).toOption.map (fun P => (Stmt.allParts P).map Expr.view) =
      some [("-a.b(1)", true, true, true), ("a.b(1)", false, true, true), ("a", false, true, true),
        ("1", false, true, true)] := by
    decide +kernel
  have hwide : (Program.ofGlyphs (Glyph.ofBytes "- (a) . b( 1 )".toUTF8.data.toList)
      .finished).toOption.map (fun P => (Stmt.allParts P).map Expr.view) =
      some [("-a.b(1)", true, true, true), ("a.b(1)", false, true, true), ("a", false, true, true),
        ("1", false, true, true)] := by
    decide +kernel
  obtain ⟨e, he, hview⟩ :=
    Expr.exists_parsed hclose (v := ("-a.b(1)", true, true, true)) (by decide)
  obtain ⟨e', he', hview'⟩ :=
    Expr.exists_parsed hwide (v := ("-a.b(1)", true, true, true)) (by decide)
  simp only [Expr.view, Prod.mk.injEq] at hview hview'
  obtain ⟨hrender, -, hs, ht⟩ := hview
  obtain ⟨hrender', -, hs', ht'⟩ := hview'
  exact ⟨e, e', ⟨he, he', hs, hs', ht, ht', hrender, hrender'⟩,
    render_eq_iff_shape_eq he he' hs hs'⟩

end HamScript
