/-
# What is relied on of documents

A codec turns manifests into documents and documents into manifests.  What is relied on of it is how
YAML is written and read where it is at its simplest, in a flat mapping of scalars
(`Codec.Documented`):

    writes    a line for each field that is given: its key, a colon and its value, which is a text,
              plain or in quotes, or an integer in decimal digits
    reads     such lines set their fields and leave all others as they are; a plain scalar counts
              for what it is typed as, a scalar in quotes for its text
    numeral   the digits of an integer are typed as the integer

The two sides speak of scalars in terms of their own, the writer by `Yaml.Written` and the reader by
`Yaml.Inscribes`; and the writer leaves out what has its default.  That the one fits the other is
proved (`Codec.Documented.unmarshal_marshal`).

The codec that the program works with is of that kind (`Codec.documented_yaml`).
-/
import HamScript.Manifest.Yaml
import HamScript.Proofs.Source.Encoding
import HamScript.Proofs.Token.Spelling
import HamScript.Proofs.Yaml.Integers
import HamScript.Proofs.Yaml.Mappings

namespace HamScript.Manifest

open Source (Glyph)
open Yaml (Entry NodesOf)

/-! ## Fields -/

/-- What a field holds. -/
inductive Content where
  | text (s : String)
  | integer (n : Int)
  deriving Repr, DecidableEq

/-- What a manifest has in a field. -/
def content (m : Manifest) : Field → Content
  | .name => .text m.name
  | .version => .text m.version
  | .main => .text m.main
  | .maxCallDepth => .integer m.maxCallDepth

/-- A manifest with one field taken from another one. -/
def copy (m : Manifest) : Field → Manifest → Manifest
  | .name, into => { into with name := m.name }
  | .version, into => { into with version := m.version }
  | .main, into => { into with main := m.main }
  | .maxCallDepth, into => { into with maxCallDepth := m.maxCallDepth }

/-- The fields that are written: a first source that is empty and a depth of zero are left out. -/
def given (m : Manifest) : List Field :=
  [.name, .version] ++ (if m.main = "" then [] else [.main]) ++
    (if m.maxCallDepth = 0 then [] else [.maxCallDepth])

theorem nodup_given (m : Manifest) : m.given.Nodup := by
  unfold given
  split <;> split <;> simp

theorem ne_zero_of_mem_given {m : Manifest} (h : .maxCallDepth ∈ m.given) : m.maxCallDepth ≠ 0 := by
  intro hzero
  unfold given at h
  rw [if_pos hzero] at h
  split at h <;> simp at h

/-- What is left out has its default. -/
theorem foldl_copy_given (m : Manifest) :
    m.given.foldl (fun into f => m.copy f into) blank = m := by
  obtain ⟨name, version, main, depth⟩ := m
  unfold given
  dsimp only
  split
  next hmain =>
    split
    next hdepth =>
      rw [hmain, hdepth]
      rfl
    next =>
      rw [hmain]
      rfl
  next =>
    split
    next hdepth =>
      rw [hdepth]
      rfl
    next => rfl

/-- The key of a field is a key, it means its text, and it is the key of no other field. -/
theorem Field.isKey_key (f : Field) : Yaml.Stream.IsKey f.key.toList ∧
    Yaml.Meaning.ofPlain f.key = .str ∧ f.key ≠ "<<" ∧ ofKey? f.key = some f := by
  have hnamed : (f.key.toList.all fun c => Yaml.isNameChar c && c != '-') = true := by
    cases f <;> decide +kernel
  refine ⟨⟨?_, ?_, ?_⟩, ?_, ?_, ?_⟩
  · cases f <;> decide +kernel
  · intro c hc
    simpa using List.all_eq_true.mp hnamed c hc
  · cases f <;> decide +kernel
  · cases f <;> decide +kernel
  · cases f <;> decide
  · cases f <;> decide

/-! ## Writing and reading -/

/-- What a plain scalar is typed as. -/
inductive Typed where
  | text
  | integer (n : Int)
  | other
  deriving Repr, DecidableEq

section
variable (typing : String → Typed) (m : Manifest)

/-- What the content of a field is written as. -/
inductive WritesContent : Content → List Char → Prop
  | text {s : String} {w : List Char} :
      Yaml.Written (typing s = .text) s.toList w → WritesContent (.text s) w
  | integer (n : Int) : WritesContent (.integer n) (toString n).toList

/-- What fields of a manifest are written as, one after the other. -/
inductive WritesFields : List Field → List Char → Prop
  | nil : WritesFields [] []
  | cons {f : Field} {fs : List Field} {w rest : List Char} :
      WritesContent typing (m.content f) w → WritesFields fs rest →
      WritesFields (f :: fs) (f.key.toList ++ ':' :: ' ' :: (w ++ '\n' :: rest))

/-- What the value of an entry is read as. -/
inductive ReadsContent (e : Entry) : Content → Prop
  | text {s : String} :
      e.text = s.toList → (e.plain = true → typing s = .text) → ReadsContent e (.text s)
  | integer {n : Int} :
      e.plain = true → typing (String.ofList e.text) = .integer n → ReadsContent e (.integer n)

/-- An entry says what a manifest has in a field. -/
structure Says (f : Field) (e : Entry) : Prop where
  fits : e.Fits
  key_eq : e.key = f.key.toList
  reads : ReadsContent typing e (m.content f)

/-- Entries say what a manifest has in fields, in the same order. -/
inductive Tells : List Field → List Entry → Prop
  | nil : Tells [] []
  | cons {f : Field} {e : Entry} {fs : List Field} {es : List Entry} :
      Says typing m f e → Tells fs es → Tells (f :: fs) (e :: es)

end

/-- All texts of a manifest are printable and on one line. -/
def Printable (m : Manifest) : Prop :=
  ∀ text ∈ [m.name, m.version, m.main], ∀ c ∈ text.toList, Text.isPrintable c = true

/-- The bytes of a document. -/
def encoded (cs : List Char) : List UInt8 :=
  (String.ofList cs).toUTF8.data.toList

/-- What is relied on of a codec that types plain scalars by `typing`. -/
structure Codec.Documented (codec : Codec) (typing : String → Typed) : Prop where
  writes : ∀ m : Manifest, m.Printable →
    ∃ cs, WritesFields typing m m.given cs ∧ codec.marshal m = .ok (encoded cs)
  reads : ∀ (m : Manifest) (fs : List Field) (es : List Entry), fs ≠ [] → fs.Nodup →
    Tells typing m fs es →
    codec.unmarshalStrict (encoded (es.flatMap Entry.line)) =
      .ok (fs.foldl (fun into f => m.copy f into) blank)
  numeral : ∀ n : Int, 0 < n → n ≤ Decimal.maxWord → typing (toString n) = .integer n

/-! ## What is written can be read -/

section
variable {typing : String → Typed} {m : Manifest}

/-- The digits of a positive integer can be read. -/
theorem inscribes_toString {n : Int} (hpos : 0 < n) :
    Yaml.InLines (toString n).toList ∧
      Yaml.Inscribes (toString n).toList (toString n).toList true := by
  obtain ⟨k, rfl⟩ := Int.eq_ofNat_of_zero_le (Int.le_of_lt hpos)
  have hnumeral := Decimal.IsNumeral.toDigits (Int.natCast_pos.mp hpos)
  have htext : (toString (k : Int)).toList = Nat.toDigits 10 k := Nat.toList_repr
  rw [htext]
  generalize Nat.toDigits 10 k = digits at hnumeral
  obtain ⟨c, cs, rfl⟩ := List.exists_cons_of_ne_nil hnumeral.ne_nil
  refine ⟨.of_isInline fun d hd => ?_, Yaml.inscribes_numeral hnumeral⟩
  exact Yaml.isInline_of_isNameChar (Yaml.isNameChar_of_isDigit (hnumeral.digits d hd))

theorem WritesContent.exists_says {f : Field} {w : List Char}
    (h : WritesContent typing (m.content f) w)
    (hnumeral : ∀ n, m.content f = .integer n → 0 < n ∧ typing (toString n) = .integer n) :
    ∃ e, Says typing m f e ∧ e.written = w := by
  have hkey := f.isKey_key.1
  generalize hcontent : m.content f = content at h hnumeral
  cases h with
  | @text s w hw =>
      obtain ⟨hlines, plain, hinscribes, hmeans⟩ := hw.inscribes
      refine ⟨⟨f.key.toList, w, s.toList, plain⟩, ⟨⟨hkey, hinscribes, hlines⟩, rfl, ?_⟩, rfl⟩
      rw [hcontent]
      exact .text rfl hmeans
  | integer n =>
      obtain ⟨hpos, htyping⟩ := hnumeral n rfl
      obtain ⟨hlines, hinscribes⟩ := inscribes_toString hpos
      refine ⟨⟨f.key.toList, _, (toString n).toList, true⟩,
        ⟨⟨hkey, hinscribes, hlines⟩, rfl, ?_⟩, rfl⟩
      rw [hcontent]
      exact .integer rfl (by rwa [String.ofList_toList])

/-- Fields that are written are lines of entries that say what the fields hold. -/
theorem WritesFields.exists_tells {fs : List Field} {cs : List Char}
    (h : WritesFields typing m fs cs)
    (hnumeral : ∀ f ∈ fs, ∀ n, m.content f = .integer n →
      0 < n ∧ typing (toString n) = .integer n) :
    ∃ es, Tells typing m fs es ∧ es.flatMap Entry.line = cs := by
  induction h with
  | nil => exact ⟨[], .nil, rfl⟩
  | @cons f fs w rest hw _ ih =>
      obtain ⟨hf, hfs⟩ := List.forall_mem_cons.mp hnumeral
      obtain ⟨e, hsaid, rfl⟩ := hw.exists_says hf
      obtain ⟨es, htells, rfl⟩ := ih hfs
      refine ⟨e :: es, .cons hsaid htells, ?_⟩
      rw [List.flatMap_cons, Entry.line_append, hsaid.key_eq]

/-- A manifest comes back from its document. -/
theorem Codec.Documented.unmarshal_marshal {codec : Codec} (h : codec.Documented typing)
    (hprintable : m.Printable) (hlow : 0 ≤ m.maxCallDepth)
    (hhigh : m.maxCallDepth ≤ Decimal.maxWord) :
    ∃ bytes, codec.marshal m = .ok bytes ∧ codec.unmarshalStrict bytes = .ok m := by
  obtain ⟨cs, hwrites, hmarshal⟩ := h.writes m hprintable
  have hnumeral : ∀ f ∈ m.given, ∀ n, m.content f = .integer n →
      0 < n ∧ typing (toString n) = .integer n := by
    intro f hf n hn
    cases f with
    | name | version | main => cases hn
    | maxCallDepth =>
        obtain rfl := Content.integer.inj hn
        have hne := ne_zero_of_mem_given hf
        have hpos : 0 < m.maxCallDepth := by omega
        exact ⟨hpos, h.numeral _ hpos hhigh⟩
  obtain ⟨es, htells, rfl⟩ := hwrites.exists_tells hnumeral
  have hne : m.given ≠ [] := by simp [given]
  have hreads := h.reads m m.given es hne m.nodup_given htells
  rw [foldl_copy_given] at hreads
  exact ⟨_, hmarshal, hreads⟩

end

/-! ## The bytes of a text -/

theorem replacement_not_mem_ofText (text : String) : Glyph.replacement ∉ Glyph.ofText text := by
  intro hmem
  obtain ⟨c, -, hc⟩ := List.mem_map.mp hmem
  have hchar : c = '\uFFFD' := congrArg Glyph.char hc
  have hsize : c.utf8Size = 1 := congrArg Glyph.size hc
  rw [hchar] at hsize
  exact absurd hsize (by decide)

/-- The bytes of a text are taken for UTF-8, and give the text. -/
theorem textOfBytes?_toUTF8 (text : String) :
    Yaml.textOfBytes? text.toUTF8.data.toList = some text := by
  have hglyphs := Glyph.ofBytes_toUTF8 text
  have hnone := replacement_not_mem_ofText text
  rw [← hglyphs] at hnone
  generalize text.toUTF8.data.toList = bytes at hglyphs hnone ⊢
  -- the first byte of a mark of UTF-16 belongs to no character
  unfold Yaml.textOfBytes?
  split
  next => exact absurd List.mem_cons_self hnone
  next => exact absurd List.mem_cons_self hnone
  next =>
    rw [Yaml.utf8Text?, if_neg hnone, hglyphs, Glyph.text_ofText]

/-! ## The codec of the program -/

/-- What a plain scalar is typed as. -/
def Typed.ofPlain (text : String) : Typed :=
  match Yaml.Meaning.ofPlain text with
  | .str => .text
  | .int n => if n ≤ Decimal.maxWord then .integer n else .other
  | _ => .other

theorem Typed.ofPlain_text {text : String} :
    ofPlain text = .text ↔ Yaml.Meaning.ofPlain text = .str := by
  unfold ofPlain
  cases Yaml.Meaning.ofPlain text with
  | int n => by_cases hword : n ≤ Decimal.maxWord <;> simp [hword]
  | _ => simp

theorem Typed.ofPlain_integer {text : String} {n : Int} :
    ofPlain text = .integer n ↔ Yaml.Meaning.ofPlain text = .int n ∧ n ≤ Decimal.maxWord := by
  unfold ofPlain
  cases Yaml.Meaning.ofPlain text with
  | int k =>
      simp only [Yaml.Meaning.int.injEq]
      split
      next hle =>
        constructor
        · intro hk
          obtain rfl := Typed.integer.inj hk
          exact ⟨rfl, hle⟩
        · rintro ⟨rfl, -⟩
          rfl
      next hlt =>
        constructor
        · intro hk
          cases hk
        · rintro ⟨rfl, hle⟩
          exact absurd hle hlt
  | _ => simp

theorem Typed.ofPlain_numeral {n : Int} (hpos : 0 < n) (hword : n ≤ Decimal.maxWord) :
    ofPlain (toString n) = .integer n := by
  obtain ⟨k, rfl⟩ := Int.eq_ofNat_of_zero_le (Int.le_of_lt hpos)
  have hnumeral := Decimal.IsNumeral.toDigits (Int.natCast_pos.mp hpos)
  have hvalue := Decimal.valueOf_toDigits k
  have htext : toString (k : Int) = String.ofList (Nat.toDigits 10 k) :=
    String.toList_inj.mp (by rw [String.toList_ofList]; exact Nat.toList_repr)
  rw [htext, ofPlain_integer]
  generalize Nat.toDigits 10 k = digits at hnumeral hvalue
  obtain ⟨c, cs, rfl⟩ := List.exists_cons_of_ne_nil hnumeral.ne_nil
  refine ⟨?_, hword⟩
  rw [← hvalue]
  exact Yaml.Meaning.ofPlain_numeral hnumeral (hvalue.symm ▸ hword)

/-- Printable text breaks no line. -/
theorem isBreak_of_isPrintable {c : Char} (h : Text.isPrintable c = true) :
    Yaml.isBreak c = false ∧ c ≠ '\uFEFF' := by
  have hne : ∀ d, Text.isPrintable d = false → c ≠ d := by
    rintro d hd rfl
    rw [h] at hd
    cases hd
  simp [Yaml.isBreak, hne '\n' (by decide +kernel), hne '\u2028' (by decide +kernel),
    hne '\u2029' (by decide +kernel), hne '\uFEFF' (by decide +kernel)]

section
variable {m : Manifest}

/-- The line of a field. -/
def lineOf (m : Manifest) (f : Field) : List Char :=
  match m.content f with
  | .text s => Yaml.writeText f.key s
  | .integer n => Yaml.writeInt f.key n

theorem toText_eq (m : Manifest) : m.toText = String.ofList (m.given.flatMap m.lineOf) := by
  unfold toText given
  split <;> split <;> simp [lineOf, content]

theorem exists_writesContent (h : m.Printable) (f : Field) :
    ∃ w, WritesContent Typed.ofPlain (m.content f) w ∧
      m.lineOf f = f.key.toList ++ ':' :: ' ' :: (w ++ ['\n']) := by
  have htext : ∀ text ∈ [m.name, m.version, m.main],
      ∃ w, WritesContent Typed.ofPlain (.text text) w ∧
        Yaml.writeText f.key text = f.key.toList ++ ':' :: ' ' :: (w ++ ['\n']) := by
    intro text htext
    have hall := h text htext
    have hmark : text.toList.head? ≠ some '\uFEFF' := fun hhead =>
      (isBreak_of_isPrintable (hall _ (List.mem_of_mem_head? hhead))).2 rfl
    obtain ⟨hstyle, hwritten⟩ := Yaml.written_writeScalar (f.key.toList ++ [':', ' ']).length
      (fun c hc => (isBreak_of_isPrintable (hall c hc)).1) hmark
    refine ⟨_, .text (by rwa [Typed.ofPlain_text]), ?_⟩
    have hend : Yaml.lineEnd text = ['\n'] := if_neg fun h => hstyle h.1
    simp [Yaml.writeText, hend]
  cases f with
  | name => exact htext m.name (by simp)
  | version => exact htext m.version (by simp)
  | main => exact htext m.main (by simp)
  | maxCallDepth =>
      refine ⟨_, .integer m.maxCallDepth, ?_⟩
      simp [lineOf, content, Yaml.writeInt]

theorem writesFields_lines (h : m.Printable) (fs : List Field) :
    WritesFields Typed.ofPlain m fs (fs.flatMap m.lineOf) := by
  induction fs with
  | nil => exact .nil
  | cons f fs ih =>
      obtain ⟨w, hw, hline⟩ := exists_writesContent h f
      have hlines : (f :: fs).flatMap m.lineOf =
          f.key.toList ++ ':' :: ' ' :: (w ++ '\n' :: fs.flatMap m.lineOf) := by
        rw [List.flatMap_cons, hline]
        simp
      rw [hlines]
      exact .cons hw ih

/-! ## Reading entries -/

theorem meaning?_quoted_or_plain {text : String} {plain : Bool}
    (h : plain = true → Yaml.Meaning.ofPlain text = .str) :
    (if plain then Yaml.Label.plain else .quoted).meaning? text = some .str := by
  cases plain with
  | true => exact congrArg some (h rfl)
  | false => rfl

theorem ReadsContent.textOf_eq {e : Entry} {s : String}
    (h : ReadsContent Typed.ofPlain e (.text s)) (l : Nat) :
    textOf (e.nodes l).2 = some (.ok s) := by
  cases h with
  | text htext hplain =>
      have hmeans := meaning?_quoted_or_plain fun hp => Typed.ofPlain_text.mp (hplain hp)
      simp only [Entry.nodes, htext, String.ofList_toList, textOf, Yaml.Node.target, hmeans,
        Option.map_some, givenText]

theorem ReadsContent.integerOf_eq {e : Entry} {n : Int}
    (h : ReadsContent Typed.ofPlain e (.integer n)) (l : Nat) :
    integerOf (e.nodes l).2 = some (.ok n) := by
  cases h with
  | integer hplain htyping =>
      obtain ⟨hmeans, hword⟩ := Typed.ofPlain_integer.mp htyping
      simp only [Entry.nodes, hplain, integerOf, Yaml.Node.target, Yaml.Label.meaning?, hmeans,
        if_true, Option.map_some, givenInteger?, Yaml.Meaning.word?, if_pos hword]

theorem Says.set_eq {f : Field} {e : Entry} (h : Says Typed.ofPlain m f e) (into : Manifest)
    (l : Nat) : into.set f (e.nodes l).2 = some (.ok (m.copy f into)) := by
  have hreads := h.reads
  cases f with
  | name | version | main =>
      rw [set, hreads.textOf_eq]
      rfl
  | maxCallDepth =>
      rw [set, hreads.integerOf_eq]
      rfl

variable {fs : List Field} {es : List Entry}

theorem Tells.fits {typing : String → Typed} (h : Tells typing m fs es) : ∀ e ∈ es, e.Fits := by
  induction h with
  | nil =>
      intro e he
      cases he
  | cons hsaid _ ih => exact List.forall_mem_cons.mpr ⟨hsaid.fits, ih⟩

/-- An entry sets its field, unless the field has been met before. -/
theorem Says.add_eq {f : Field} {e : Entry} (h : Says Typed.ofPlain m f e) (d : Draft)
    (hmet : f ∉ d.met) (l : Nat) : d.add (e.nodes l).1 (e.nodes l).2 =
      some ⟨m.copy f d.manifest, f :: d.met, d.faults⟩ := by
  obtain ⟨-, hmeans, -, hfield⟩ := f.isKey_key
  have hkey : textOf (e.nodes l).1 = some (.ok f.key) := by
    simp [Entry.nodes, h.key_eq, textOf, Yaml.Node.target, Yaml.Label.meaning?, hmeans, givenText]
  rw [Draft.add, hkey, Option.bind_eq_bind, Option.bind_some]
  dsimp only
  rw [hfield]
  dsimp only
  rw [if_neg hmet, Draft.take]
  dsimp only
  rw [h.set_eq]
  rfl

/-- The entries set their fields, one after the other. -/
theorem Tells.addEntries_eq (h : Tells Typed.ofPlain m fs es) {ps : List (Yaml.Node × Yaml.Node)}
    (hnodes : NodesOf es ps) (hnodup : fs.Nodup) (d : Draft) (hmet : ∀ f ∈ fs, f ∉ d.met) :
    d.addEntries ps = some ⟨fs.foldl (fun into f => m.copy f into) d.manifest, fs.reverse ++ d.met,
      d.faults⟩ := by
  induction h generalizing ps d with
  | nil =>
      cases hnodes
      rw [Draft.addEntries]
      rfl
  | @cons f e fs es hsaid _ ih =>
      cases hnodes with
      | @cons _ _ ps l hnodes =>
          obtain ⟨hnot, hnodup⟩ := List.nodup_cons.mp hnodup
          have hmerge : (e.nodes l).1.isMerge = false := by
            simp [Entry.nodes, hsaid.key_eq, Yaml.Node.isMerge, f.isKey_key.2.2.1]
          have hadd := hsaid.add_eq d (hmet f List.mem_cons_self) l
          have hrest := ih hnodes hnodup ⟨m.copy f d.manifest, f :: d.met, d.faults⟩ (by
            intro g hg
            rw [List.mem_cons, not_or]
            exact ⟨fun heq => hnot (heq ▸ hg), hmet g (List.mem_cons_of_mem f hg)⟩)
          rw [show e.nodes l = ((e.nodes l).1, (e.nodes l).2) from rfl, Draft.addEntries, hmerge,
            if_neg (by decide), hadd]
          refine hrest.trans ?_
          simp

theorem Tells.ofText_lines (h : Tells Typed.ofPlain m fs es) (hne : fs ≠ []) (hnodup : fs.Nodup) :
    ofText (String.ofList (es.flatMap Entry.line)) =
      .ok (fs.foldl (fun into f => m.copy f into) blank) := by
  have hes : es ≠ [] := by
    rintro rfl
    cases h
    exact hne rfl
  obtain ⟨l, ps, hnodes, hread⟩ := Yaml.Document.read_lines hes h.fits
  have hentries := h.addEntries_eq hnodes hnodup ⟨blank, [], []⟩ fun _ _ hmem =>
    absurd hmem List.not_mem_nil
  have hdocument : Yaml.Document.read (String.ofList (es.flatMap Entry.line)) >>= ofDocument =
      some (.ok (fs.foldl (fun into f => m.copy f into) blank)) := by
    rw [hread]
    show (Draft.addEntries ⟨blank, [], []⟩ ps).map Draft.finish = _
    rw [hentries]
    rfl
  rw [ofText, hdocument]

end

/-- The codec of the program writes and reads as is relied on. -/
theorem Codec.documented_yaml : Codec.yaml.Documented Typed.ofPlain where
  writes m h := by
    refine ⟨_, writesFields_lines h m.given, ?_⟩
    rw [encoded, ← toText_eq]
    rfl
  reads m fs es hne hnodup h := by
    simp only [Codec.yaml, encoded, textOfBytes?_toUTF8]
    exact h.ofText_lines hne hnodup
  numeral _ := Typed.ofPlain_numeral

end HamScript.Manifest
