import Mathlib.Tactic

/-!
# Encoded text

Text is a list of characters, and its bytes are their UTF-8 encodings.  Decoding
never fails: a byte that starts no character is replaced, together with the
bytes behind it that could still have belonged to one.  Characters below 128 are
single bytes, and no other character's encoding contains such a byte.
-/

namespace DoomsdayModules.Utf8

def encode (text : List Char) : List UInt8 := text.flatMap String.utf8EncodeChar

/-- The range of the second byte behind each first byte of several. -/
def secondByte (first second : UInt8) : Bool :=
  if first = 0xE0 then 0xA0 ≤ second && second ≤ 0xBF
  else if first = 0xED then 0x80 ≤ second && second ≤ 0x9F
  else if first = 0xF0 then 0x90 ≤ second && second ≤ 0xBF
  else if first = 0xF4 then 0x80 ≤ second && second ≤ 0x8F
  else 0x80 ≤ second && second ≤ 0xBF

/-- How many bytes are replaced where no character starts: the longest beginning
of one that is there, or one byte. -/
def replacedLength : List UInt8 → ℕ
  | first :: second :: third :: _ =>
      if 0xE0 ≤ first && first ≤ 0xEF && secondByte first second then 2
      else if 0xF0 ≤ first && first ≤ 0xF4 && secondByte first second then
        if 0x80 ≤ third && third ≤ 0xBF then 3 else 2
      else 1
  | [first, second] =>
      if 0xE0 ≤ first && first ≤ 0xF4 && secondByte first second then 2 else 1
  | _ => 1

/-- Decode the first `fuel` characters, replacing what is no character. -/
def decodeFrom : ℕ → List UInt8 → List Char
  | 0, _ => []
  | _ + 1, [] => []
  | fuel + 1, bytes =>
      match bytes.toByteArray.utf8DecodeChar? 0 with
      | some c => c :: decodeFrom fuel (bytes.drop c.utf8Size)
      | none => Char.ofNat 0xFFFD :: decodeFrom fuel (bytes.drop (replacedLength bytes))

/-- `bytes.decode(errors="replace")`. -/
def decodeReplace (bytes : List UInt8) : List Char := decodeFrom bytes.length bytes

theorem encode_cons (c : Char) (text : List Char) :
    encode (c :: text) = String.utf8EncodeChar c ++ encode text := rfl

theorem encode_append (first second : List Char) :
    encode (first ++ second) = encode first ++ encode second := by
  simp [encode]

theorem length_le_length_encode (text : List Char) : text.length ≤ (encode text).length := by
  induction text with
  | nil => rfl
  | cons c text ih =>
      have hsize := c.utf8Size_pos
      rw [encode_cons, List.length_append, String.length_utf8EncodeChar, List.length_cons]
      omega

theorem decodeFrom_encode {fuel : ℕ} (text : List Char) (hfuel : text.length ≤ fuel) :
    decodeFrom fuel (encode text) = text := by
  induction text generalizing fuel with
  | nil => cases fuel <;> rfl
  | cons c text ih =>
      obtain ⟨fuel, rfl⟩ := Nat.exists_eq_succ_of_ne_zero (Nat.ne_of_gt (Nat.zero_lt_of_lt hfuel))
      have hdecode : (encode (c :: text)).toByteArray.utf8DecodeChar? 0 = some c := by
        rw [encode_cons, List.toByteArray_append]
        exact ByteArray.utf8DecodeChar?_utf8EncodeChar_append
      have hdrop : (encode (c :: text)).drop c.utf8Size = encode text := by
        rw [encode_cons, ← String.length_utf8EncodeChar, List.drop_left]
      cases hbytes : encode (c :: text) with
      | nil =>
          have hlength := congrArg List.length hbytes
          rw [encode_cons, List.length_append, String.length_utf8EncodeChar] at hlength
          have hsize := c.utf8Size_pos
          simp only [List.length_nil] at hlength
          omega
      | cons b bytes =>
          rw [hbytes] at hdecode hdrop
          rw [decodeFrom, hdecode]
          · simp only [hdrop]
            rw [ih (by simpa using hfuel)]
          · simp

/-- Decoding reads back what was encoded. -/
theorem decodeReplace_encode (text : List Char) : decodeReplace (encode text) = text :=
  decodeFrom_encode text (length_le_length_encode text)

/-- The characters of ASCII bytes. -/
def ascii (bytes : List UInt8) : List Char := bytes.map fun b => Char.ofNat b.toNat

theorem utf8EncodeChar_ascii {b : UInt8} (hb : b < 0x80) :
    String.utf8EncodeChar (Char.ofNat b.toNat) = [b] := by
  have hall : ∀ n : Fin 128, String.utf8EncodeChar (Char.ofNat (UInt8.ofNat n).toNat) =
      [UInt8.ofNat n] := by decide +kernel
  have hlt : b.toNat < 128 := hb
  simpa using hall ⟨b.toNat, hlt⟩

theorem encode_ascii {bytes : List UInt8} (hbytes : ∀ b ∈ bytes, b < 0x80) :
    encode (ascii bytes) = bytes := by
  induction bytes with
  | nil => rfl
  | cons b bytes ih =>
      have hfirst := utf8EncodeChar_ascii (hbytes b (by simp))
      rw [ascii, List.map_cons, encode_cons, hfirst]
      exact congrArg (b :: ·) (ih fun c hc => hbytes c (List.mem_cons_of_mem b hc))

/-- A byte below 128 in an encoding is the whole encoding. -/
theorem eq_of_mem_utf8EncodeChar {c : Char} {b : UInt8} (hmem : b ∈ String.utf8EncodeChar c)
    (hb : b < 0x80) : c = Char.ofNat b.toNat := by
  have hlt : b.toNat < 128 := hb
  -- every byte of an encoding of several has its top bit set
  have hhigh : ∀ v w, v < w → w ≤ 0x80 → b ≠ UInt8.ofNat (v + (256 - w)) := by
    rintro v w hv hw rfl
    simp only [UInt8.toNat_ofNat'] at hlt
    omega
  simp only [String.utf8EncodeChar] at hmem
  split at hmem
  · rename_i hone
    rw [List.mem_singleton.mp hmem, UInt8.toNat_ofNat', Nat.mod_eq_of_lt (by omega)]
    exact (Char.ofNat_toNat c).symm
  split at hmem
  · simp only [List.mem_cons, List.not_mem_nil, or_false] at hmem
    rcases hmem with h | h
    · exact absurd h (hhigh _ 0x40 (by omega) (by norm_num))
    · exact absurd h (hhigh _ 0x80 (by omega) le_rfl)
  split at hmem
  · simp only [List.mem_cons, List.not_mem_nil, or_false] at hmem
    rcases hmem with h | h | h
    · exact absurd h (hhigh _ 0x20 (by omega) (by norm_num))
    · exact absurd h (hhigh _ 0x80 (by omega) le_rfl)
    · exact absurd h (hhigh _ 0x80 (by omega) le_rfl)
  · simp only [List.mem_cons, List.not_mem_nil, or_false] at hmem
    rcases hmem with h | h | h | h
    · exact absurd h (hhigh _ 0x10 (by omega) (by norm_num))
    · exact absurd h (hhigh _ 0x80 (by omega) le_rfl)
    · exact absurd h (hhigh _ 0x80 (by omega) le_rfl)
    · exact absurd h (hhigh _ 0x80 (by omega) le_rfl)

theorem mem_encode_iff {text : List Char} {b : UInt8} (hb : b < 0x80) :
    b ∈ encode text ↔ Char.ofNat b.toNat ∈ text := by
  rw [encode, List.mem_flatMap]
  constructor
  · rintro ⟨c, hc, hmem⟩
    rwa [← eq_of_mem_utf8EncodeChar hmem hb]
  · intro hmem
    exact ⟨_, hmem, by rw [utf8EncodeChar_ascii hb]; simp⟩

theorem zero_not_mem_encode {text : List Char} (hzero : '\x00' ∉ text) : 0 ∉ encode text := by
  rw [mem_encode_iff (by decide)]
  exact hzero

end DoomsdayModules.Utf8
