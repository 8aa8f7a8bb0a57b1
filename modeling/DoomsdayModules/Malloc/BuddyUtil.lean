import DoomsdayModules.Core.ByteMemory
import DoomsdayModules.Core.DyadicBlocks
import DoomsdayModules.Malloc.Util
import Mathlib.Data.Nat.Bitwise

/-!
# Bitmap addressing and block geometry

The helpers of `buddy_util.c`.  The bitmap keeps one bit for each tree node
in heap order: the node at `layer` with `index` is bit `2 ^ layer + index`.
The geometry helpers turn a node into the address of its first page and an
address into the node of a layer that contains it.
-/

namespace DoomsdayModules.BuddyUtil

open DoomsdayModules.ByteMemory DoomsdayModules.Util DoomsdayModules.DyadicBlocks

def buddyBitmapSize (blocksCount : ℕ) : ℕ := (blocksCount + 7) / 8

def maskIndex (layer index : ℕ) : ℕ :=
  if layer < 3 then 0 else 2 ^ (layer - 3) + index / 8

def bitIndex (layer index : ℕ) : ℕ :=
  if layer < 3 then index + 2 ^ layer else index % 8

/-- `1ull << bit`, as far as it reaches a byte. -/
def bitMask (bit : ℕ) : UInt8 := UInt8.ofNat (2 ^ bit)

def buddySet (memory : Memory) (bitmap layer index : ℕ) : Memory :=
  let byte := bitmap + maskIndex layer index
  writeByte memory byte (memory byte ||| bitMask (bitIndex layer index))

def buddyUnset (memory : Memory) (bitmap layer index : ℕ) : Memory :=
  let byte := bitmap + maskIndex layer index
  writeByte memory byte (memory byte &&& ~~~ bitMask (bitIndex layer index))

def buddyGet (memory : Memory) (bitmap layer index : ℕ) : Bool :=
  memory (bitmap + maskIndex layer index) &&& bitMask (bitIndex layer index) != 0

def blockSize (layer rootBlockSize : ℕ) : ℕ := rootBlockSize >>> layer

/-- A request for no pages divides by zero. -/
def bestFitLayer (pages rootBlockSize : ℕ) : Option ℕ :=
  if pages = 0 then none else log2Upper (rootBlockSize / pages)

def toPointer (begin_ layer index rootBlockSize : ℕ) : ℕ :=
  (begin_ + blockSize layer rootBlockSize * index * pageSize) % wordSize

def toIndex (begin_ layer pointer rootBlockSize : ℕ) : ℕ :=
  (pointer + wordSize - begin_) % wordSize / blockSize layer rootBlockSize / pageSize

/-! ## Heap order -/

/-- The byte and the bit of a node are the quotient and the remainder of its
position in heap order. -/
theorem maskIndex_bitIndex {layer index : ℕ} (hindex : index < 2 ^ layer) :
    8 * maskIndex layer index + bitIndex layer index = 2 ^ layer + index ∧
      bitIndex layer index < 8 := by
  by_cases hlayer : layer < 3
  · simp only [maskIndex, bitIndex, if_pos hlayer]
    have hsmall : 2 ^ layer ≤ 4 := by
      simpa using Nat.pow_le_pow_right (show 0 < 2 by norm_num) (show layer ≤ 2 by omega)
    omega
  · simp only [maskIndex, bitIndex, if_neg hlayer]
    have hpow : 8 * 2 ^ (layer - 3) = 2 ^ layer := by
      rw [show (8 : ℕ) = 2 ^ 3 by norm_num, ← pow_add]
      congr 1
      omega
    omega

theorem heapOrder_injective {layer index layer' index' : ℕ} (hindex : index < 2 ^ layer)
    (hindex' : index' < 2 ^ layer') (heq : 2 ^ layer + index = 2 ^ layer' + index') :
    layer = layer' ∧ index = index' := by
  have hlayer : layer = layer' := by
    rcases lt_trichotomy layer layer' with hlt | heq' | hgt
    · have : 2 ^ (layer + 1) ≤ 2 ^ layer' := Nat.pow_le_pow_right (by norm_num) hlt
      rw [pow_succ] at this
      omega
    · exact heq'
    · have : 2 ^ (layer' + 1) ≤ 2 ^ layer := Nat.pow_le_pow_right (by norm_num) hgt
      rw [pow_succ] at this
      omega
  subst hlayer
  exact ⟨rfl, by omega⟩

/-- The bytes of the nodes of a tree of the given depth lie in the bitmap. -/
theorem maskIndex_lt {depth bytes : ℕ} {node : Block} (hvalid : node.Valid depth)
    (hbytes : 2 ^ (depth + 1) ≤ 8 * bytes) : maskIndex node.layer node.index < bytes := by
  obtain ⟨hlayer, hindex⟩ := hvalid
  obtain ⟨hposition, -⟩ := maskIndex_bitIndex hindex
  have : 2 ^ (node.layer + 1) ≤ 2 ^ (depth + 1) :=
    Nat.pow_le_pow_right (by norm_num) (by omega)
  rw [pow_succ] at this
  omega

/-! ## Bits of a byte -/

theorem toNat_bitMask {bit : ℕ} (hbit : bit < 8) : (bitMask bit).toNat = 2 ^ bit := by
  have hsmall : 2 ^ bit < 2 ^ 8 := Nat.pow_lt_pow_right (by norm_num) hbit
  rw [bitMask, UInt8.toNat_ofNat', Nat.mod_eq_of_lt hsmall]

theorem and_bitMask_bne_zero {byte : UInt8} {bit : ℕ} (hbit : bit < 8) :
    (byte &&& bitMask bit != 0) = byte.toNat.testBit bit := by
  have hvalue : (byte &&& bitMask bit).toNat = (byte.toNat.testBit bit).toNat * 2 ^ bit := by
    rw [UInt8.toNat_and, toNat_bitMask hbit, Nat.and_two_pow]
  have hpos : 0 < 2 ^ bit := Nat.two_pow_pos bit
  cases htest : byte.toNat.testBit bit
  · rw [htest] at hvalue
    have : byte &&& bitMask bit = 0 := UInt8.toNat_inj.mp (by simpa using hvalue)
    simp [this]
  · rw [htest] at hvalue
    have : byte &&& bitMask bit ≠ 0 := by
      intro hzero
      rw [hzero] at hvalue
      simp only [UInt8.toNat_zero, Bool.toNat_true, one_mul] at hvalue
      omega
    simpa using this

theorem testBit_or_bitMask {byte : UInt8} {bit other : ℕ} (hbit : bit < 8) :
    (byte ||| bitMask bit).toNat.testBit other =
      (byte.toNat.testBit other || decide (bit = other)) := by
  rw [UInt8.toNat_or, toNat_bitMask hbit, Nat.testBit_or, Nat.testBit_two_pow]

theorem testBit_andNot_bitMask {byte : UInt8} {bit other : ℕ} (hbit : bit < 8)
    (hother : other < 8) :
    (byte &&& ~~~ bitMask bit).toNat.testBit other =
      (byte.toNat.testBit other && !decide (bit = other)) := by
  have hmask : (~~~ bitMask bit).toNat.testBit other = !decide (bit = other) := by
    rw [← UInt8.toNat_toBitVec, UInt8.toBitVec_not, BitVec.testBit_toNat, BitVec.getLsbD_not,
      ← BitVec.testBit_toNat, UInt8.toNat_toBitVec, toNat_bitMask hbit, Nat.testBit_two_pow]
    simp [hother]
  rw [UInt8.toNat_and, Nat.testBit_and, hmask]

/-! ## The bitmap as an array of bits -/

/-- Position of a node in heap order. -/
def position (node : Block) : ℕ := 2 ^ node.layer + node.index

/-- Bit `place` of the bitmap, whether or not it belongs to a node. -/
def bitmapBit (memory : Memory) (bitmap place : ℕ) : Bool :=
  (memory (bitmap + place / 8)).toNat.testBit (place % 8)

theorem position_injective {depth : ℕ} {node other : Block} (hnode : node.Valid depth)
    (hother : other.Valid depth) (hposition : position node = position other) : node = other := by
  obtain ⟨hlayer, hindex⟩ := heapOrder_injective hnode.2 hother.2 hposition
  cases node
  cases other
  exact congrArg₂ Block.mk hlayer hindex

theorem position_div_mod {depth : ℕ} {node : Block} (hnode : node.Valid depth) :
    position node / 8 = maskIndex node.layer node.index ∧
      position node % 8 = bitIndex node.layer node.index := by
  obtain ⟨hposition, hbit⟩ := maskIndex_bitIndex hnode.2
  simp only [position]
  omega

theorem position_lt {depth : ℕ} {node : Block} (hnode : node.Valid depth) :
    position node < 2 ^ (depth + 1) := by
  have hpow : 2 ^ (node.layer + 1) ≤ 2 ^ (depth + 1) :=
    Nat.pow_le_pow_right (by norm_num) (Nat.succ_le_succ hnode.1)
  have hindex := hnode.2
  rw [pow_succ] at hpow
  simp only [position]
  omega

theorem position_eq_iff {depth : ℕ} {node other : Block} (hnode : node.Valid depth)
    (hother : other.Valid depth) : position other = position node ↔ node = other :=
  ⟨fun heq => (position_injective hother hnode heq).symm, fun heq => congrArg position heq.symm⟩

theorem bitmapBit_writeByte (memory : Memory) (bitmap offset place : ℕ) (byte : UInt8) :
    bitmapBit (writeByte memory (bitmap + offset) byte) bitmap place =
      if place / 8 = offset then byte.toNat.testBit (place % 8)
      else bitmapBit memory bitmap place := by
  simp only [bitmapBit, writeByte]
  by_cases hbyte : place / 8 = offset
  · rw [if_pos (by omega), if_pos hbyte]
  · rw [if_neg (by omega), if_neg hbyte]

theorem bitmapBit_buddySet {memory : Memory} {bitmap depth place : ℕ} {node : Block}
    (hnode : node.Valid depth) :
    bitmapBit (buddySet memory bitmap node.layer node.index) bitmap place =
      (bitmapBit memory bitmap place || decide (place = position node)) := by
  obtain ⟨hdiv, hmod⟩ := position_div_mod hnode
  simp only [buddySet]
  rw [bitmapBit_writeByte, testBit_or_bitMask (maskIndex_bitIndex hnode.2).2, ← hdiv, ← hmod]
  by_cases hbyte : place / 8 = position node / 8
  · rw [if_pos hbyte, bitmapBit, hbyte]
    congr 1
    rw [decide_eq_decide]
    omega
  · have hne : place ≠ position node := by
      rintro rfl
      exact hbyte rfl
    rw [if_neg hbyte, decide_eq_false hne, Bool.or_false]

theorem bitmapBit_buddyUnset {memory : Memory} {bitmap depth place : ℕ} {node : Block}
    (hnode : node.Valid depth) :
    bitmapBit (buddyUnset memory bitmap node.layer node.index) bitmap place =
      (bitmapBit memory bitmap place && !decide (place = position node)) := by
  obtain ⟨hdiv, hmod⟩ := position_div_mod hnode
  simp only [buddyUnset]
  rw [bitmapBit_writeByte, testBit_andNot_bitMask (maskIndex_bitIndex hnode.2).2 (by omega),
    ← hdiv, ← hmod]
  by_cases hbyte : place / 8 = position node / 8
  · rw [if_pos hbyte, bitmapBit, hbyte]
    congr 2
    rw [decide_eq_decide]
    omega
  · have hne : place ≠ position node := by
      rintro rfl
      exact hbyte rfl
    rw [if_neg hbyte, decide_eq_false hne, Bool.not_false, Bool.and_true]

/-! ## The bit of one node -/

/-- `buddy_get` of a node of the tree. -/
def nodeBit (memory : Memory) (bitmap : ℕ) (node : Block) : Bool :=
  buddyGet memory bitmap node.layer node.index

theorem nodeBit_eq_testBit {memory : Memory} {bitmap depth : ℕ} {node : Block}
    (hvalid : node.Valid depth) :
    nodeBit memory bitmap node =
      (memory (bitmap + maskIndex node.layer node.index)).toNat.testBit
        (bitIndex node.layer node.index) :=
  and_bitMask_bne_zero (maskIndex_bitIndex hvalid.2).2

theorem nodeBit_eq_bitmapBit {memory : Memory} {bitmap depth : ℕ} {node : Block}
    (hvalid : node.Valid depth) :
    nodeBit memory bitmap node = bitmapBit memory bitmap (position node) := by
  obtain ⟨hdiv, hmod⟩ := position_div_mod hvalid
  rw [nodeBit_eq_testBit hvalid, bitmapBit, hdiv, hmod]

/-- After `buddy_set` of a node its bit is one and every other bit is as it was. -/
theorem nodeBit_buddySet {memory : Memory} {bitmap depth : ℕ} {node other : Block}
    (hnode : node.Valid depth) (hother : other.Valid depth) :
    nodeBit (buddySet memory bitmap node.layer node.index) bitmap other =
      (nodeBit memory bitmap other || decide (node = other)) := by
  rw [nodeBit_eq_bitmapBit hother, nodeBit_eq_bitmapBit hother, bitmapBit_buddySet hnode]
  simp only [position_eq_iff hnode hother]

/-- After `buddy_unset` of a node its bit is zero and every other bit is as it was. -/
theorem nodeBit_buddyUnset {memory : Memory} {bitmap depth : ℕ} {node other : Block}
    (hnode : node.Valid depth) (hother : other.Valid depth) :
    nodeBit (buddyUnset memory bitmap node.layer node.index) bitmap other =
      (nodeBit memory bitmap other && !decide (node = other)) := by
  rw [nodeBit_eq_bitmapBit hother, nodeBit_eq_bitmapBit hother, bitmapBit_buddyUnset hnode]
  simp only [position_eq_iff hnode hother]

/-- Bits depend on the bytes of the bitmap only. -/
theorem nodeBit_congr {before after : Memory} {bitmap depth bytes : ℕ} {node : Block}
    (hvalid : node.Valid depth) (hbytes : 2 ^ (depth + 1) ≤ 8 * bytes)
    (hagree : AgreeOn before after bitmap (bitmap + bytes)) :
    nodeBit after bitmap node = nodeBit before bitmap node := by
  have := maskIndex_lt hvalid hbytes
  simp only [nodeBit, buddyGet]
  rw [hagree _ (by omega) (by omega)]

theorem buddySet_unchangedOutside (memory : Memory) (bitmap : ℕ) {depth bytes : ℕ}
    {node : Block} (hvalid : node.Valid depth) (hbytes : 2 ^ (depth + 1) ≤ 8 * bytes) :
    UnchangedOutside memory (buddySet memory bitmap node.layer node.index) fun query =>
      bitmap ≤ query ∧ query < bitmap + bytes := by
  have := maskIndex_lt hvalid hbytes
  intro query houtside
  exact writeByte_of_ne (by omega)

theorem buddyUnset_unchangedOutside (memory : Memory) (bitmap : ℕ) {depth bytes : ℕ}
    {node : Block} (hvalid : node.Valid depth) (hbytes : 2 ^ (depth + 1) ≤ 8 * bytes) :
    UnchangedOutside memory (buddyUnset memory bitmap node.layer node.index) fun query =>
      bitmap ≤ query ∧ query < bitmap + bytes := by
  have := maskIndex_lt hvalid hbytes
  intro query houtside
  exact writeByte_of_ne (by omega)

/-! ## Geometry -/

/-- The layer of a request is the rounded-up logarithm of how often it goes
into the root block. -/
theorem bestFitLayer_eq_clog {pages depth : ℕ} (hpages : 1 ≤ pages) (hdepth : depth < 64) :
    bestFitLayer pages (2 ^ depth) = some (Nat.clog 2 (2 ^ depth / pages)) := by
  have hsmall : 2 ^ depth ≤ 2 ^ 63 := Nat.pow_le_pow_right (by norm_num) (by omega)
  rw [bestFitLayer, if_neg (by omega), log2Upper_eq_clog ((Nat.div_le_self _ _).trans hsmall)]

theorem clog_div_le (depth pages : ℕ) : Nat.clog 2 (2 ^ depth / pages) ≤ depth :=
  Nat.clog_le_of_le_pow (Nat.div_le_self _ _)

theorem blockSize_eq_size {depth layer : ℕ} (index : ℕ) (hlayer : layer ≤ depth) :
    blockSize layer (2 ^ depth) = (Block.mk layer index).size depth := by
  simp only [blockSize, Block.size, Nat.shiftRight_eq_div_pow]
  exact Nat.pow_div hlayer (by norm_num)

/-- Address of the first byte of a page. -/
def pageAddress (begin_ page : ℕ) : ℕ := begin_ + page * pageSize

/-- `to_pointer` is the address of the block's first page. -/
theorem toPointer_eq {begin_ depth : ℕ} {block : Block} (hvalid : block.Valid depth)
    (hroom : pageAddress begin_ (2 ^ depth) ≤ wordSize) :
    toPointer begin_ block.layer block.index (2 ^ depth) =
      pageAddress begin_ (block.start depth) := by
  have hstop := Block.stop_le hvalid
  have hpages := block.start_lt_stop depth
  simp only [toPointer, blockSize_eq_size block.index hvalid.1]
  have hstart : block.size depth * block.index * pageSize = block.start depth * pageSize := by
    simp only [Block.start]
    ring
  rw [hstart, Nat.mod_eq_of_lt]
  · rfl
  · simp only [pageAddress, pageSize] at hroom ⊢
    omega

/-- `to_index` at a layer recovers the block from its first address. -/
theorem toIndex_pageAddress {begin_ depth : ℕ} {block : Block} (hvalid : block.Valid depth)
    (hroom : pageAddress begin_ (2 ^ depth) ≤ wordSize) :
    toIndex begin_ block.layer (pageAddress begin_ (block.start depth)) (2 ^ depth) =
      block.index := by
  have hstop := Block.stop_le hvalid
  have hpages := block.start_lt_stop depth
  have hsize := block.size_pos depth
  have hdiff : (pageAddress begin_ (block.start depth) + wordSize - begin_) % wordSize =
      block.index * pageSize * block.size depth := by
    have hstart : block.start depth * pageSize = block.index * pageSize * block.size depth := by
      simp only [Block.start]
      ring
    rw [← hstart]
    simp only [pageAddress, pageSize, wordSize] at hroom ⊢
    omega
  simp only [toIndex]
  rw [hdiff, blockSize_eq_size block.index hvalid.1]
  change block.index * pageSize * block.size depth / block.size depth / pageSize = block.index
  rw [Nat.mul_div_cancel _ hsize, Nat.mul_div_cancel _ (by norm_num [pageSize])]

end DoomsdayModules.BuddyUtil
