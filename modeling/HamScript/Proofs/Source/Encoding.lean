/-
# The bytes of a text

A text that is written as UTF-8 is read back as its own characters, each of the size of its form:
decoding undoes encoding.  The bytes of a character are given by its number `n`:

| `n`                  | bytes                                                       |
| :------------------- | :---------------------------------------------------------- |
| up to `0x7F`         | `n`                                                         |
| up to `0x7FF`        | `0xC0 + n / 64`, a tail                                     |
| up to `0xFFFF`       | `0xE0 + n / 4096`, two tails                                |
| beyond               | `0xF0 + n / 262144`, three tails                            |

where a tail is `0x80` and six bits.  The second byte of a longer form has bounds of its own, and
they are met because the number belongs to the form and is no surrogate.
-/
import HamScript.Proofs.Source.Decoding

namespace HamScript.Source.Glyph

/-- The bytes of a character. -/
def bytesOf (c : Char) : List Nat :=
  (String.utf8EncodeChar c).map UInt8.toNat

theorem isTail_add (n : Nat) : isTail (n % 64 + 128) = true := by
  rw [isTail_iff]
  omega

/-- A second byte is in its bounds. -/
theorem isSecond_of_bounds {b₀ b₁ : Nat} (h : 0x80 ≤ b₁ ∧ b₁ ≤ 0xBF)
    (hE0 : b₀ = 0xE0 → 0xA0 ≤ b₁) (hED : b₀ = 0xED → b₁ ≤ 0x9F) (hF0 : b₀ = 0xF0 → 0x90 ≤ b₁)
    (hF4 : b₀ = 0xF4 → b₁ ≤ 0x8F) : isSecond b₀ b₁ = true := by
  unfold isSecond secondBounds
  rw [Bool.and_eq_true, decide_eq_true_iff, decide_eq_true_iff]
  split
  next h₀ => exact ⟨hE0 h₀, h.2⟩
  next =>
    split
    next h₀ => exact ⟨h.1, hED h₀⟩
    next =>
      split
      next h₀ => exact ⟨hF0 h₀, h.2⟩
      next =>
        split
        next h₀ => exact ⟨h.1, hF4 h₀⟩
        next => exact h

section
variable {n : Nat}

theorem readFirst_two (hlow : 0x7F < n) (hhigh : n ≤ 0x7FF) (more : List Nat) :
    readFirst (n / 64 % 32 + 192) ((n % 64 + 128) :: more) = ⟨Char.ofNat n, 2⟩ := by
  have hvalue : (n / 64 % 32 + 192 - 0xC0) * 0x40 + (n % 64 + 128 - 0x80) = n := by omega
  rw [readFirst, if_neg (by omega), if_pos (by omega), if_pos (isTail_add n), hvalue]

theorem readFirst_three (hlow : 0x7FF < n) (hhigh : n ≤ 0xFFFF)
    (hvalid : n < 0xD800 ∨ 0xDFFF < n) (more : List Nat) :
    readFirst (n / 4096 % 16 + 224) ((n / 64 % 64 + 128) :: (n % 64 + 128) :: more) =
      ⟨Char.ofNat n, 3⟩ := by
  have hvalue : (n / 4096 % 16 + 224 - 0xE0) * 0x1000 + (n / 64 % 64 + 128 - 0x80) * 0x40 +
      (n % 64 + 128 - 0x80) = n := by omega
  have hsecond : isSecond (n / 4096 % 16 + 224) (n / 64 % 64 + 128) = true :=
    isSecond_of_bounds (by omega) (by omega) (by omega) (by omega) (by omega)
  have htails : (isSecond (n / 4096 % 16 + 224) (n / 64 % 64 + 128) && isTail (n % 64 + 128)) =
      true := by
    rw [hsecond, isTail_add n]
    rfl
  rw [readFirst, if_neg (by omega), if_neg (by omega), if_pos (by omega)]
  dsimp only
  rw [if_pos htails, hvalue]

theorem readFirst_four (hlow : 0xFFFF < n) (hhigh : n < 0x110000) (more : List Nat) :
    readFirst (n / 262144 % 8 + 240)
        ((n / 4096 % 64 + 128) :: (n / 64 % 64 + 128) :: (n % 64 + 128) :: more) =
      ⟨Char.ofNat n, 4⟩ := by
  have hvalue : (n / 262144 % 8 + 240 - 0xF0) * 0x40000 + (n / 4096 % 64 + 128 - 0x80) * 0x1000 +
      (n / 64 % 64 + 128 - 0x80) * 0x40 + (n % 64 + 128 - 0x80) = n := by omega
  have hsecond : isSecond (n / 262144 % 8 + 240) (n / 4096 % 64 + 128) = true :=
    isSecond_of_bounds (by omega) (by omega) (by omega) (by omega) (by omega)
  have htails : (isSecond (n / 262144 % 8 + 240) (n / 4096 % 64 + 128) &&
      isTail (n / 64 % 64 + 128) && isTail (n % 64 + 128)) = true := by
    rw [hsecond, isTail_add, isTail_add]
    rfl
  rw [readFirst, if_neg (by omega), if_neg (by omega), if_neg (by omega), if_pos (by omega)]
  dsimp only
  rw [if_pos htails, hvalue]

end

theorem bytesOf_eq (c : Char) :
    bytesOf c =
      if c.toNat ≤ 0x7F then [c.toNat]
      else if c.toNat ≤ 0x7FF then [c.toNat / 64 % 32 + 192, c.toNat % 64 + 128]
      else if c.toNat ≤ 0xFFFF then
        [c.toNat / 4096 % 16 + 224, c.toNat / 64 % 64 + 128, c.toNat % 64 + 128]
      else
        [c.toNat / 262144 % 8 + 240, c.toNat / 4096 % 64 + 128, c.toNat / 64 % 64 + 128,
          c.toNat % 64 + 128] := by
  have hencode : String.utf8EncodeChar c =
      if c.toNat ≤ 0x7F then [UInt8.ofNat c.toNat]
      else if c.toNat ≤ 0x7FF then
        [UInt8.ofNat (c.toNat / 64 % 32 + 192), UInt8.ofNat (c.toNat % 64 + 128)]
      else if c.toNat ≤ 0xFFFF then
        [UInt8.ofNat (c.toNat / 4096 % 16 + 224), UInt8.ofNat (c.toNat / 64 % 64 + 128),
          UInt8.ofNat (c.toNat % 64 + 128)]
      else
        [UInt8.ofNat (c.toNat / 262144 % 8 + 240), UInt8.ofNat (c.toNat / 4096 % 64 + 128),
          UInt8.ofNat (c.toNat / 64 % 64 + 128), UInt8.ofNat (c.toNat % 64 + 128)] := rfl
  have byte : ∀ {n : Nat}, n < 256 → (UInt8.ofNat n).toNat = n := UInt8.toNat_ofNat_of_lt'
  rw [bytesOf, hencode]
  split
  next => rw [List.map_singleton, byte (by omega)]
  next =>
    split
    next =>
      rw [List.map_cons, List.map_singleton, byte (by omega), byte (by omega)]
    next =>
      split
      next =>
        rw [List.map_cons, List.map_cons, List.map_singleton, byte (by omega), byte (by omega),
          byte (by omega)]
      next =>
        rw [List.map_cons, List.map_cons, List.map_cons, List.map_singleton, byte (by omega),
          byte (by omega), byte (by omega), byte (by omega)]

theorem utf8Size_eq (c : Char) :
    c.utf8Size =
      if c.toNat ≤ 0x7F then 1 else if c.toNat ≤ 0x7FF then 2 else if c.toNat ≤ 0xFFFF then 3 else 4 :=
  rfl

/-- A character is read from its bytes, whatever follows them. -/
theorem readFirst_bytesOf (c : Char) (more : List Nat) :
    ∃ b tails, bytesOf c = b :: tails ∧ c.utf8Size = tails.length + 1 ∧
      readFirst b (tails ++ more) = ofChar c := by
  have hvalid : c.toNat < 0xD800 ∨ 0xDFFF < c.toNat ∧ c.toNat < 0x110000 := c.valid
  have hchar : ∀ {size}, c.utf8Size = size → Glyph.mk (Char.ofNat c.toNat) size = ofChar c := by
    rintro _ rfl
    rw [Char.ofNat_toNat, ofChar]
  have hbytes := bytesOf_eq c
  have hsize := utf8Size_eq c
  by_cases h₁ : c.toNat ≤ 0x7F
  · rw [if_pos h₁] at hbytes hsize
    refine ⟨_, [], hbytes, hsize, ?_⟩
    unfold readFirst
    rw [if_pos (by omega), hchar hsize]
  · rw [if_neg h₁] at hbytes hsize
    by_cases h₂ : c.toNat ≤ 0x7FF
    · rw [if_pos h₂] at hbytes hsize
      refine ⟨_, _, hbytes, hsize, ?_⟩
      exact (readFirst_two (Nat.lt_of_not_le h₁) h₂ more).trans (hchar hsize)
    · rw [if_neg h₂] at hbytes hsize
      by_cases h₃ : c.toNat ≤ 0xFFFF
      · rw [if_pos h₃] at hbytes hsize
        refine ⟨_, _, hbytes, hsize, ?_⟩
        exact (readFirst_three (Nat.lt_of_not_le h₂) h₃ (by omega) more).trans (hchar hsize)
      · rw [if_neg h₃] at hbytes hsize
        refine ⟨_, _, hbytes, hsize, ?_⟩
        exact (readFirst_four (Nat.lt_of_not_le h₃) (by omega) more).trans (hchar hsize)

theorem readFrom_bytesOf (cs : List Char) : readFrom 0 (cs.flatMap bytesOf) = cs.map ofChar := by
  induction cs with
  | nil => rfl
  | cons c cs ih =>
      obtain ⟨b, tails, hbytes, hsize, hfirst⟩ := readFirst_bytesOf c (cs.flatMap bytesOf)
      rw [List.flatMap_cons, hbytes, List.cons_append, readFrom_cons, hfirst]
      have hskip : (ofChar c).size - 1 = tails.length := by
        rw [ofChar, hsize, Nat.add_sub_cancel]
      rw [hskip, List.drop_left, ih, List.map_cons]

/-- The bytes of a text are read as the characters of the text. -/
theorem ofBytes_toUTF8 (text : String) : ofBytes text.toUTF8.data.toList = ofText text := by
  have hbytes : text.toUTF8.data.toList = text.toList.flatMap String.utf8EncodeChar := by
    conv => lhs; rw [← String.ofList_toList (s := text)]
    exact List.toList_data_toByteArray
  rw [ofBytes, hbytes, List.map_flatMap]
  exact readFrom_bytesOf text.toList

end HamScript.Source.Glyph
