import Mathlib.Tactic

/-!
# Byte-addressed memory

A memory is a total map from addresses to bytes.  Fixed-width fields are read
and written little-endian, so a field of a C structure is an address and a
width.  The lemmas below say what a field holds after a write to the same
field, to a disjoint field, and after any change that leaves its bytes alone.
-/

namespace DoomsdayModules.ByteMemory

abbrev Memory := ℕ → UInt8

/-- Two memories hold the same bytes at every address outside `region`. -/
def UnchangedOutside (before after : Memory) (region : ℕ → Prop) : Prop :=
  ∀ address, ¬ region address → after address = before address

/-- Two memories hold the same bytes in `[start, stop)`. -/
def AgreeOn (before after : Memory) (start stop : ℕ) : Prop :=
  ∀ address, start ≤ address → address < stop → after address = before address

/-- Little-endian value of `width` bytes starting at `address`. -/
def readLE (memory : Memory) (address : ℕ) : ℕ → ℕ
  | 0 => 0
  | width + 1 => (memory address).toNat + 256 * readLE memory (address + 1) width

/-- Store the low `width` bytes of `value` little-endian at `address`. -/
def writeLE (memory : Memory) (address width value : ℕ) : Memory := fun query =>
  if address ≤ query ∧ query < address + width then
    UInt8.ofNat (value / 256 ^ (query - address))
  else memory query

/-- `memset`. -/
def fill (memory : Memory) (address : ℕ) (byte : UInt8) (count : ℕ) : Memory := fun query =>
  if address ≤ query ∧ query < address + count then byte else memory query

/-- `memcpy` between two ranges that do not overlap. -/
def copyBytes (memory : Memory) (source address count : ℕ) : Memory := fun query =>
  if address ≤ query ∧ query < address + count then memory (source + (query - address))
  else memory query

def writeByte (memory : Memory) (address : ℕ) (byte : UInt8) : Memory := fun query =>
  if query = address then byte else memory query

/-- A 64-bit field: `size_t` or a pointer. -/
def readWord (memory : Memory) (address : ℕ) : ℕ := readLE memory address 8

def writeWord (memory : Memory) (address value : ℕ) : Memory :=
  writeLE memory address 8 value

/-! ## Reading back -/

theorem readLE_lt (memory : Memory) (address width : ℕ) :
    readLE memory address width < 256 ^ width := by
  induction width generalizing address with
  | zero => simp [readLE]
  | succ width ih =>
      have hbyte : (memory address).toNat < 256 := (memory address).toNat_lt
      have htail := ih (address + 1)
      simp only [readLE, pow_succ]
      omega

theorem readWord_lt (memory : Memory) (address : ℕ) :
    readWord memory address < 2 ^ 64 := by
  simpa [readWord] using readLE_lt memory address 8

theorem readLE_congr {before after : Memory} {address width : ℕ}
    (hagree : AgreeOn before after address (address + width)) :
    readLE after address width = readLE before address width := by
  induction width generalizing address with
  | zero => rfl
  | succ width ih =>
      have htail : AgreeOn before after (address + 1) (address + 1 + width) := by
        intro query hlower hupper
        exact hagree query (by omega) (by omega)
      simp only [readLE]
      rw [ih htail, hagree address le_rfl (by omega)]

theorem readWord_congr {before after : Memory} {address : ℕ}
    (hagree : AgreeOn before after address (address + 8)) :
    readWord after address = readWord before address :=
  readLE_congr hagree

/-- Equal bytes at two places read as the same value. -/
theorem readLE_of_shift {before after : Memory} {address source width : ℕ}
    (hbytes : ∀ index < width, after (address + index) = before (source + index)) :
    readLE after address width = readLE before source width := by
  induction width generalizing address source with
  | zero => rfl
  | succ width ih =>
      have hhead : after address = before source := hbytes 0 (Nat.succ_pos _)
      have htail : readLE after (address + 1) width = readLE before (source + 1) width := by
        apply ih
        intro index hindex
        have hbyte := hbytes (index + 1) (by omega)
        rwa [Nat.add_assoc, Nat.add_comm 1, Nat.add_assoc source, Nat.add_comm 1]
      rw [readLE, readLE, hhead, htail]

/-- A value has one sequence of bytes. -/
theorem agreeOn_of_readLE_eq {before after : Memory} {address width : ℕ}
    (hvalue : readLE after address width = readLE before address width) :
    AgreeOn before after address (address + width) := by
  induction width generalizing address with
  | zero =>
      intro query hlower hupper
      omega
  | succ width ih =>
      have hbyte : (after address).toNat < 256 := (after address).toNat_lt
      have hbyte' : (before address).toNat < 256 := (before address).toNat_lt
      simp only [readLE] at hvalue
      have hrest : AgreeOn before after (address + 1) (address + 1 + width) := ih (by omega)
      have hfirst : after address = before address := UInt8.toNat_inj.mp (by omega)
      intro query hlower hupper
      rcases hlower.eq_or_lt with rfl | hlower
      · exact hfirst
      · exact hrest query hlower (by omega)

theorem agreeOn_of_readWord_eq {before after : Memory} {address : ℕ}
    (hvalue : readWord after address = readWord before address) :
    AgreeOn before after address (address + 8) :=
  agreeOn_of_readLE_eq hvalue

/-- Bytes that are the base-256 digits of `value` read back as `value`. -/
theorem readLE_of_digits {memory : Memory} {address width value : ℕ}
    (hdigits : ∀ index < width,
      memory (address + index) = UInt8.ofNat (value / 256 ^ index)) :
    readLE memory address width = value % 256 ^ width := by
  induction width generalizing address value with
  | zero => simp [readLE, Nat.mod_one]
  | succ width ih =>
      have hhead : (memory address).toNat = value % 256 := by
        have := hdigits 0 (by omega)
        simp only [Nat.add_zero, pow_zero, Nat.div_one] at this
        rw [this]
        simp
      have htail : readLE memory (address + 1) width = value / 256 % 256 ^ width := by
        apply ih
        intro index hindex
        have := hdigits (index + 1) (by omega)
        rw [Nat.pow_succ', ← Nat.div_div_eq_div_mul] at this
        rw [← this]
        congr 1
        omega
      rw [readLE, hhead, htail, Nat.pow_succ', Nat.mod_mul]

@[simp]
theorem readLE_writeLE_same (memory : Memory) (address width value : ℕ) :
    readLE (writeLE memory address width value) address width = value % 256 ^ width := by
  apply readLE_of_digits
  intro index hindex
  simp [writeLE, hindex]

theorem readWord_writeWord_mod (memory : Memory) (address value : ℕ) :
    readWord (writeWord memory address value) address = value % 2 ^ 64 := by
  simp [readWord, writeWord]

/-- A word that fits in 64 bits is read back as it was written. -/
theorem readWord_writeWord_same {memory : Memory} {address value : ℕ}
    (hvalue : value < 2 ^ 64) :
    readWord (writeWord memory address value) address = value := by
  rw [readWord_writeWord_mod, Nat.mod_eq_of_lt hvalue]

/-! ## Frames -/

theorem unchangedOutside_refl (memory : Memory) (region : ℕ → Prop) :
    UnchangedOutside memory memory region := fun _ _ => rfl

theorem UnchangedOutside.trans {first second third : Memory} {region : ℕ → Prop}
    (hfirst : UnchangedOutside first second region)
    (hsecond : UnchangedOutside second third region) :
    UnchangedOutside first third region := fun address houtside =>
  (hsecond address houtside).trans (hfirst address houtside)

theorem UnchangedOutside.mono {before after : Memory} {small large : ℕ → Prop}
    (hchange : UnchangedOutside before after small)
    (hsubset : ∀ address, small address → large address) :
    UnchangedOutside before after large := fun address houtside =>
  hchange address fun hsmall => houtside (hsubset address hsmall)

theorem UnchangedOutside.agreeOn {before after : Memory} {region : ℕ → Prop}
    {start stop : ℕ} (hchange : UnchangedOutside before after region)
    (hdisjoint : ∀ address, start ≤ address → address < stop → ¬ region address) :
    AgreeOn before after start stop := fun address hlower hupper =>
  hchange address (hdisjoint address hlower hupper)

theorem AgreeOn.trans {first second third : Memory} {start stop : ℕ}
    (hfirst : AgreeOn first second start stop)
    (hsecond : AgreeOn second third start stop) : AgreeOn first third start stop :=
  fun address hlower hupper =>
    (hsecond address hlower hupper).trans (hfirst address hlower hupper)

theorem AgreeOn.mono {before after : Memory} {start stop start' stop' : ℕ}
    (hagree : AgreeOn before after start stop) (hstart : start ≤ start')
    (hstop : stop' ≤ stop) : AgreeOn before after start' stop' :=
  fun address hlower hupper => hagree address (by omega) (by omega)

theorem writeLE_of_outside {memory : Memory} {address width value query : ℕ}
    (houtside : query < address ∨ address + width ≤ query) :
    writeLE memory address width value query = memory query := by
  simp only [writeLE]
  rw [if_neg (by omega)]

theorem writeWord_of_outside {memory : Memory} {address value query : ℕ}
    (houtside : query < address ∨ address + 8 ≤ query) :
    writeWord memory address value query = memory query :=
  writeLE_of_outside houtside

theorem writeWord_unchangedOutside (memory : Memory) (address value : ℕ) :
    UnchangedOutside memory (writeWord memory address value)
      (fun query => address ≤ query ∧ query < address + 8) := by
  intro query houtside
  exact writeWord_of_outside (by omega)

/-- A byte of the written word is what is written, whatever was there. -/
theorem writeWord_of_inside {memory memory' : Memory} {address value query : ℕ}
    (hlower : address ≤ query) (hupper : query < address + 8) :
    writeWord memory address value query = writeWord memory' address value query := by
  simp only [writeWord, writeLE, if_pos (And.intro hlower hupper)]

theorem fill_of_outside {memory : Memory} {address count query : ℕ} {byte : UInt8}
    (houtside : query < address ∨ address + count ≤ query) :
    fill memory address byte count query = memory query := by
  simp only [fill]
  rw [if_neg (by omega)]

theorem fill_of_inside {memory : Memory} {address count query : ℕ} {byte : UInt8}
    (hlower : address ≤ query) (hupper : query < address + count) :
    fill memory address byte count query = byte := by
  simp only [fill]
  rw [if_pos ⟨hlower, hupper⟩]

theorem copyBytes_unchangedOutside (memory : Memory) (source address count : ℕ) :
    UnchangedOutside memory (copyBytes memory source address count)
      (fun query => address ≤ query ∧ query < address + count) :=
  fun _ houtside => if_neg houtside

@[simp]
theorem writeByte_same (memory : Memory) (address : ℕ) (byte : UInt8) :
    writeByte memory address byte address = byte := by
  simp [writeByte]

theorem writeByte_of_ne {memory : Memory} {address query : ℕ} {byte : UInt8}
    (hne : query ≠ address) : writeByte memory address byte query = memory query := by
  simp [writeByte, hne]

/-- A word is unaffected by a write to a disjoint word. -/
theorem readWord_writeWord_of_disjoint {memory : Memory} {written value address : ℕ}
    (hdisjoint : address + 8 ≤ written ∨ written + 8 ≤ address) :
    readWord (writeWord memory written value) address = readWord memory address := by
  apply readWord_congr
  intro query hlower hupper
  exact writeWord_of_outside (by omega)

theorem readWord_writeByte_of_disjoint {memory : Memory} {written address : ℕ}
    {byte : UInt8} (hdisjoint : written < address ∨ address + 8 ≤ written) :
    readWord (writeByte memory written byte) address = readWord memory address := by
  apply readWord_congr
  intro query hlower hupper
  exact writeByte_of_ne (by omega)

theorem readWord_fill_of_disjoint {memory : Memory} {start count address : ℕ}
    {byte : UInt8} (hdisjoint : address + 8 ≤ start ∨ start + count ≤ address) :
    readWord (fill memory start byte count) address = readWord memory address := by
  apply readWord_congr
  intro query hlower hupper
  exact fill_of_outside (by omega)

/-- A word of the copied range. -/
theorem readWord_copyBytes {memory : Memory} {source address count offset : ℕ}
    (hoffset : offset + 8 ≤ count) :
    readWord (copyBytes memory source address count) (address + offset) =
      readWord memory (source + offset) := by
  apply readLE_of_shift
  intro index hindex
  rw [copyBytes, if_pos (by omega)]
  congr 1
  omega

/-- A word inside a zeroed range reads as zero. -/
theorem readWord_fill_zero {memory : Memory} {start count address : ℕ}
    (hlower : start ≤ address) (hupper : address + 8 ≤ start + count) :
    readWord (fill memory start 0 count) address = 0 := by
  have hzero : readLE (fill memory start 0 count) address 8 = 0 % 256 ^ 8 := by
    apply readLE_of_digits
    intro index hindex
    rw [fill_of_inside (by omega) (by omega)]
    simp
  simpa [readWord] using hzero

end DoomsdayModules.ByteMemory
