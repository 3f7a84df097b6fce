import Mathlib.Data.List.Basic

/-!
# UTF-16

Texts as sequences of 16-bit code units. A character of the basic plane is one unit, and any
other a pair of surrogates. Decoding reads a pair back, and what is half a pair as the
replacement character, so that every sequence of units decodes to some text.

## Main results

* `decode_encode`: a text is read back from its units.
* `mem_encodeChar`: a unit is its character, or a surrogate.
-/

namespace Utf16

/-- A unit that opens a pair. -/
def isHigh (unit : ℕ) : Bool :=
  0xD800 ≤ unit && unit < 0xDC00

/-- A unit that closes a pair. -/
def isLow (unit : ℕ) : Bool :=
  0xDC00 ≤ unit && unit < 0xE000

/-- The units of a character. -/
def encodeChar (c : Char) : List ℕ :=
  if c.toNat < 0x10000 then [c.toNat]
  else [0xD800 + (c.toNat - 0x10000) / 0x400, 0xDC00 + (c.toNat - 0x10000) % 0x400]

/-- The units of a text. -/
def encode (text : List Char) : List ℕ :=
  text.flatMap encodeChar

/-- The character of a unit that is not part of a pair. -/
def decodeUnit (unit : ℕ) : Char :=
  if isHigh unit || isLow unit then Char.ofNat 0xFFFD else Char.ofNat unit

/-- The character of a pair. -/
def decodePair (high low : ℕ) : Char :=
  Char.ofNat (0x10000 + (high - 0xD800) * 0x400 + (low - 0xDC00))

/-- The text of a sequence of units. -/
def decode : List ℕ → List Char
  | [] => []
  | [unit] => [decodeUnit unit]
  | high :: low :: rest =>
    if isHigh high && isLow low then decodePair high low :: decode rest
    else decodeUnit high :: decode (low :: rest)

/-- The empty text has no units. -/
@[simp] theorem encode_nil : encode [] = [] :=
  rfl

/-- A text is encoded character by character. -/
@[simp] theorem encode_cons (c : Char) (text : List Char) :
    encode (c :: text) = encodeChar c ++ encode text :=
  rfl

/-- Texts are encoded one after the other. -/
@[simp] theorem encode_append (one other : List Char) :
    encode (one ++ other) = encode one ++ encode other :=
  List.flatMap_append

/-- A character is no surrogate, and lies within the planes. -/
theorem toNat_bounds (c : Char) : (c.toNat < 0xD800 ∨ 0xDFFF < c.toNat) ∧ c.toNat < 0x110000 := by
  have hval := c.valid
  simp only [UInt32.isValidChar, Nat.isValidChar] at hval
  change (c.val.toNat < 0xD800 ∨ 0xDFFF < c.val.toNat) ∧ c.val.toNat < 0x110000
  omega

/-- **A unit is its character, or a surrogate.** -/
theorem mem_encodeChar {c : Char} {unit : ℕ} (h : unit ∈ encodeChar c) :
    unit = c.toNat ∨ 0xD800 ≤ unit := by
  unfold encodeChar at h
  split at h
  · exact .inl (List.mem_singleton.mp h)
  simp only [List.mem_cons, List.not_mem_nil, or_false] at h
  refine .inr ?_
  rcases h with h | h <;> omega

/-- A character of the basic plane is one unit. -/
theorem encodeChar_eq {c : Char} (h : c.toNat < 0x10000) : encodeChar c = [c.toNat] :=
  if_pos h

/-- A unit that is no high surrogate is decoded alone. -/
theorem decode_cons {unit : ℕ} (h : isHigh unit = false) (rest : List ℕ) :
    decode (unit :: rest) = decodeUnit unit :: decode rest := by
  cases rest with
  | nil => rfl
  | cons => simp [decode, h]

/-- A character is read back from its units, whatever follows. -/
theorem decode_encodeChar_append (c : Char) (rest : List ℕ) :
    decode (encodeChar c ++ rest) = c :: decode rest := by
  obtain ⟨_, _⟩ := toNat_bounds c
  unfold encodeChar
  split
  · have hhigh : isHigh c.toNat = false := by
      simp only [isHigh, Bool.and_eq_false_iff, decide_eq_false_iff_not]
      omega
    have hlow : isLow c.toNat = false := by
      simp only [isLow, Bool.and_eq_false_iff, decide_eq_false_iff_not]
      omega
    rw [List.singleton_append, decode_cons hhigh]
    simp [decodeUnit, hhigh, hlow, Char.ofNat_toNat]
  · rename_i hast
    have hhigh : isHigh (0xD800 + (c.toNat - 0x10000) / 0x400) = true := by
      simp only [isHigh, Bool.and_eq_true, decide_eq_true_eq]
      omega
    have hlow : isLow (0xDC00 + (c.toNat - 0x10000) % 0x400) = true := by
      simp only [isLow, Bool.and_eq_true, decide_eq_true_eq]
      omega
    have hpair : decodePair (0xD800 + (c.toNat - 0x10000) / 0x400)
        (0xDC00 + (c.toNat - 0x10000) % 0x400) = c := by
      have hnat : 0x10000 + (0xD800 + (c.toNat - 0x10000) / 0x400 - 0xD800) * 0x400 +
          (0xDC00 + (c.toNat - 0x10000) % 0x400 - 0xDC00) = c.toNat := by
        omega
      rw [decodePair, hnat, Char.ofNat_toNat]
    simp only [List.cons_append, List.nil_append, decode, hhigh, hlow, Bool.and_self, if_true, hpair]

/-- **A text is read back from its units.** -/
theorem decode_encode (text : List Char) : decode (encode text) = text := by
  induction text with
  | nil => rfl
  | cons c text ih => rw [encode_cons, decode_encodeChar_append, ih]

/-- Different texts have different units. -/
theorem encode_injective : Function.Injective encode :=
  Function.LeftInverse.injective decode_encode

end Utf16
