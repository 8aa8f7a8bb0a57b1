import DoomsdayModules.Malloc.BuddyUtil

/-!
# One bit for each node

`mask_index` and `bit_index` pack the first three layers into one byte and give
each deeper layer bytes of its own.  Both come from one number, the node's
position in heap order, so no two nodes share a bit, and setting or unsetting a
node writes one byte of the bitmap and changes what `buddy_get` says of that
node only.
-/

namespace DoomsdayModules.BuddyBitmap

open DoomsdayModules.ByteMemory DoomsdayModules.BuddyUtil DoomsdayModules.DyadicBlocks

/-! ## Setting and unsetting -/

/-- Setting or unsetting a node's bit writes the one byte it lies in. -/
theorem buddySet_buddyUnset_oneByte (memory : Memory) (bitmap layer index : ℕ) :
    UnchangedOutside memory (buddySet memory bitmap layer index)
        (· = bitmap + maskIndex layer index) ∧
      UnchangedOutside memory (buddyUnset memory bitmap layer index)
        (· = bitmap + maskIndex layer index) :=
  ⟨fun _ houtside => writeByte_of_ne houtside, fun _ houtside => writeByte_of_ne houtside⟩

/-! ## Addressing -/

section Nodes

variable {layer index layer' index' depth : ℕ} (memory : Memory) (bitmap : ℕ)

/-- A node's bit after it was set and after it was unset. -/
theorem buddyGet_same (hnode : (Block.mk layer index).Valid depth) :
    buddyGet (buddySet memory bitmap layer index) bitmap layer index = true ∧
      buddyGet (buddyUnset memory bitmap layer index) bitmap layer index = false := by
  have hset := @nodeBit_buddySet memory bitmap depth ⟨layer, index⟩ ⟨layer, index⟩ hnode hnode
  have hunset :=
    @nodeBit_buddyUnset memory bitmap depth ⟨layer, index⟩ ⟨layer, index⟩ hnode hnode
  rw [decide_eq_true rfl, Bool.or_true] at hset
  rw [decide_eq_true rfl, Bool.not_true, Bool.and_false] at hunset
  exact ⟨hset, hunset⟩

/-- The bit of another node stays. -/
theorem buddyGet_other (hnode : (Block.mk layer index).Valid depth)
    (hother : (Block.mk layer' index').Valid depth)
    (hne : Block.mk layer index ≠ Block.mk layer' index') :
    buddyGet (buddySet memory bitmap layer index) bitmap layer' index' =
        buddyGet memory bitmap layer' index' ∧
      buddyGet (buddyUnset memory bitmap layer index) bitmap layer' index' =
        buddyGet memory bitmap layer' index' := by
  have hset := @nodeBit_buddySet memory bitmap depth ⟨layer, index⟩ ⟨layer', index'⟩ hnode hother
  have hunset :=
    @nodeBit_buddyUnset memory bitmap depth ⟨layer, index⟩ ⟨layer', index'⟩ hnode hother
  rw [decide_eq_false hne, Bool.or_false] at hset
  rw [decide_eq_false hne, Bool.not_false, Bool.and_true] at hunset
  exact ⟨hset, hunset⟩

end Nodes

/-- For every node of the first 64 layers, position, byte and bit agree, no
number involved leaves 64 bits, no other node has the same bit, and on every
bitmap that reaches the node's position, setting and unsetting write its bit
and no other. -/
theorem bitmapAddressing_heapOrder {layer index : ℕ} (hlayer : layer ≤ 63)
    (hindex : index < 2 ^ layer) :
    8 * maskIndex layer index + bitIndex layer index = 2 ^ layer + index ∧
      bitIndex layer index < 8 ∧ 2 ^ layer + index < 2 ^ 64 ∧
      (∀ layer' ≤ 63, ∀ index' < 2 ^ layer', (layer', index') ≠ (layer, index) →
        (maskIndex layer' index', bitIndex layer' index') ≠
          (maskIndex layer index, bitIndex layer index)) ∧
      ∀ (memory : Memory) (bitmap bytes : ℕ), 2 ^ layer + index < 8 * bytes →
        buddyGet (buddySet memory bitmap layer index) bitmap layer index = true ∧
        buddyGet (buddyUnset memory bitmap layer index) bitmap layer index = false ∧
        (∀ layer' ≤ 63, ∀ index' < 2 ^ layer', (layer', index') ≠ (layer, index) →
          buddyGet (buddySet memory bitmap layer index) bitmap layer' index' =
            buddyGet memory bitmap layer' index' ∧
          buddyGet (buddyUnset memory bitmap layer index) bitmap layer' index' =
            buddyGet memory bitmap layer' index') ∧
        maskIndex layer index < bytes ∧
        UnchangedOutside memory (buddySet memory bitmap layer index)
          (· = bitmap + maskIndex layer index) ∧
        UnchangedOutside memory (buddyUnset memory bitmap layer index)
          (· = bitmap + maskIndex layer index) := by
  have hnode : (Block.mk layer index).Valid 63 := ⟨hlayer, hindex⟩
  obtain ⟨hposition, hbit⟩ := maskIndex_bitIndex hindex
  have hother : ∀ layer' ≤ 63, ∀ index' < 2 ^ layer', (layer', index') ≠ (layer, index) →
      (Block.mk layer' index').Valid 63 ∧ Block.mk layer index ≠ Block.mk layer' index' := by
    intro layer' hlayer' index' hindex' hne
    refine ⟨⟨hlayer', hindex'⟩, fun heq => hne ?_⟩
    cases heq
    rfl
  refine ⟨hposition, hbit, position_lt hnode, ?_, ?_⟩
  · intro layer' hlayer' index' hindex' hne hsame
    obtain ⟨hvalid, hne'⟩ := hother layer' hlayer' index' hindex' hne
    obtain ⟨hmask, hbit'⟩ := Prod.mk.inj hsame
    obtain ⟨hposition', -⟩ := maskIndex_bitIndex hindex'
    exact hne' ((position_eq_iff hnode hvalid).mp (by simp only [position]; omega))
  · intro memory bitmap bytes hlong
    obtain ⟨hset, hunset⟩ := buddyGet_same memory bitmap hnode
    obtain ⟨hsetByte, hunsetByte⟩ := buddySet_buddyUnset_oneByte memory bitmap layer index
    refine ⟨hset, hunset, ?_, by omega, hsetByte, hunsetByte⟩
    intro layer' hlayer' index' hindex' hne
    obtain ⟨hvalid, hne'⟩ := hother layer' hlayer' index' hindex' hne
    exact buddyGet_other memory bitmap hnode hvalid hne'

theorem bitmapAddressing_heapOrder_third :
    8 * maskIndex 3 5 + bitIndex 3 5 = 2 ^ 3 + 5 ∧ bitIndex 3 5 < 8 ∧ 2 ^ 3 + 5 < 2 ^ 64 ∧
      (maskIndex 2 3, bitIndex 2 3) ≠ (maskIndex 3 5, bitIndex 3 5) ∧
      buddyGet (buddySet (fun _ => 0) 4096 3 5) 4096 3 5 = true ∧
      buddyGet (buddyUnset (fun _ => 255) 4096 3 5) 4096 3 5 = false := by
  obtain ⟨hposition, hbit, hword, hdistinct, hbits⟩ :=
    @bitmapAddressing_heapOrder 3 5 (by norm_num) (by norm_num)
  have hother := hdistinct 2 (by norm_num) 3 (by norm_num) (by decide)
  have hset := hbits (fun _ => 0) 4096 2 (by norm_num)
  have hunset := hbits (fun _ => 255) 4096 2 (by norm_num)
  exact ⟨hposition, hbit, hword, hother, hset.1, hunset.2.1⟩

end DoomsdayModules.BuddyBitmap
