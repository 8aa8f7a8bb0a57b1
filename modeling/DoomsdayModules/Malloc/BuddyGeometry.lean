import DoomsdayModules.Core.DyadicCover
import DoomsdayModules.Malloc.BuddyUtil
import Mathlib

/-!
# Addresses of the tree

The geometry helpers divide byte distances by block and page sizes, the
allocator halves, doubles and flips indices.  Both read the same tree: the
block of an address is the one whose pages cover the address's page, and the
index arithmetic walks to its halves, its parent and its sibling.
-/

namespace DoomsdayModules.BuddyGeometry

open DoomsdayModules.Util DoomsdayModules.BuddyUtil DoomsdayModules.DyadicBlocks

/-- Addresses of the bytes of a block, in a pool of `2 ^ depth` pages. -/
def blockBytes (begin_ depth : ℕ) (block : Block) : Set ℕ :=
  {pointer | pageAddress begin_ (block.start depth) ≤ pointer ∧
    pointer < pageAddress begin_ (block.stop depth)}

variable {begin_ depth : ℕ} {block : Block}

theorem mem_blockBytes_iff {pointer : ℕ} : pointer ∈ blockBytes begin_ depth block ↔
    begin_ ≤ pointer ∧ block.Covers depth ((pointer - begin_) / pageSize) := by
  simp only [blockBytes, Set.mem_ofPred_eq, pageAddress, Block.Covers, pageSize]
  omega

/-! ## Indices and pointers -/

theorem lt_wordSize_of_mem {pointer : ℕ} (hvalid : block.Valid depth)
    (hroom : pageAddress begin_ (2 ^ depth) ≤ wordSize)
    (hmem : pointer ∈ blockBytes begin_ depth block) : pointer < wordSize := by
  have hstop : pageAddress begin_ (block.stop depth) ≤ pageAddress begin_ (2 ^ depth) :=
    Nat.add_le_add_left (Nat.mul_le_mul_right _ (Block.stop_le hvalid)) _
  exact hmem.2.trans_le (hstop.trans hroom)

/-- `to_index` of any address of a block is the block's index. -/
theorem toIndex_of_mem {pointer : ℕ} (hvalid : block.Valid depth)
    (hroom : pageAddress begin_ (2 ^ depth) ≤ wordSize)
    (hmem : pointer ∈ blockBytes begin_ depth block) :
    toIndex begin_ block.layer pointer (2 ^ depth) = block.index := by
  have hword := lt_wordSize_of_mem hvalid hroom hmem
  obtain ⟨hbegin, hcovers⟩ := mem_blockBytes_iff.mp hmem
  have hdistance : (pointer + wordSize - begin_) % wordSize = pointer - begin_ := by
    simp only [wordSize] at hword ⊢
    omega
  calc
    toIndex begin_ block.layer pointer (2 ^ depth) =
        (pointer - begin_) / block.size depth / pageSize := by
      rw [toIndex, hdistance, blockSize_eq_size block.index hvalid.1]
    _ = (pointer - begin_) / pageSize / block.size depth := Nat.div_right_comm _ _ _
    _ = block.index := (Block.index_eq_div_of_covers hcovers).symm

/-- `to_pointer` of a block is the address of its first byte. -/
theorem isLeast_toPointer (hvalid : block.Valid depth)
    (hroom : pageAddress begin_ (2 ^ depth) ≤ wordSize) :
    IsLeast (blockBytes begin_ depth block)
      (toPointer begin_ block.layer block.index (2 ^ depth)) := by
  rw [toPointer_eq hvalid hroom]
  constructor
  · refine ⟨le_rfl, ?_⟩
    have hpages := block.start_lt_stop depth
    simp only [pageAddress, pageSize]
    omega
  · exact fun pointer hmem => hmem.1

/-! ## Halves and siblings -/

theorem blockBytes_parent (hvalid : block.Valid depth) (hlayer : 0 < block.layer) :
    blockBytes begin_ depth block ∪ blockBytes begin_ depth block.sibling =
      blockBytes begin_ depth block.parent := by
  ext pointer
  rw [Set.mem_union, mem_blockBytes_iff, mem_blockBytes_iff, mem_blockBytes_iff,
    Block.covers_parent_iff hvalid hlayer, and_or_left]

theorem disjoint_blockBytes_sibling (hvalid : block.Valid depth) (hlayer : 0 < block.layer) :
    Disjoint (blockBytes begin_ depth block) (blockBytes begin_ depth block.sibling) := by
  rw [Set.disjoint_left]
  intro pointer hmem hmem'
  have hapart := Block.apart_sibling hvalid hlayer
  exact hapart.not_covers (mem_blockBytes_iff.mp hmem).2 (mem_blockBytes_iff.mp hmem').2

theorem blockBytes_sibling (hvalid : block.Valid depth) (hlayer : 0 < block.layer) :
    blockBytes begin_ depth block.sibling =
      blockBytes begin_ depth block.parent \ blockBytes begin_ depth block := by
  have hdisjoint := @disjoint_blockBytes_sibling begin_ depth block hvalid hlayer
  rw [← blockBytes_parent hvalid hlayer, Set.union_sdiff_left, hdisjoint.symm.sdiff_eq_left]

theorem blockBytes_halves (hvalid : block.Valid depth) (hlayer : block.layer < depth) :
    blockBytes begin_ depth block.leftHalf ∪ blockBytes begin_ depth block.rightHalf =
        blockBytes begin_ depth block ∧
      Disjoint (blockBytes begin_ depth block.leftHalf)
        (blockBytes begin_ depth block.rightHalf) := by
  have hleft := hvalid.leftHalf hlayer
  have hunion := @blockBytes_parent begin_ depth _ hleft (Nat.succ_pos _)
  have hdisjoint := @disjoint_blockBytes_sibling begin_ depth _ hleft (Nat.succ_pos _)
  rw [Block.sibling_leftHalf] at hunion hdisjoint
  rw [Block.parent_leftHalf] at hunion
  exact ⟨hunion, hdisjoint⟩

/-- An address lies in one of the halves, and its index there doubles. -/
theorem toIndex_halves {pointer : ℕ} (hvalid : block.Valid depth) (hlayer : block.layer < depth)
    (hroom : pageAddress begin_ (2 ^ depth) ≤ wordSize)
    (hmem : pointer ∈ blockBytes begin_ depth block) :
    toIndex begin_ (block.layer + 1) pointer (2 ^ depth) / 2 = block.index := by
  rw [← (blockBytes_halves hvalid hlayer).1] at hmem
  rcases hmem with hmem | hmem
  · have hindex := toIndex_of_mem (hvalid.leftHalf hlayer) hroom hmem
    simp only [Block.leftHalf] at hindex
    omega
  · have hindex := toIndex_of_mem (hvalid.rightHalf hlayer) hroom hmem
    simp only [Block.rightHalf] at hindex
    omega

/-- Flipping the last bit of a child's index gives the rest of its parent. -/
theorem blockBytes_flip {layer index child : ℕ} (hvalid : (Block.mk layer index).Valid depth)
    (hlayer : layer < depth) (hchild : child / 2 = index) :
    (child ^^^ 1) / 2 = index ∧
      blockBytes begin_ depth ⟨layer + 1, child ^^^ 1⟩ =
        blockBytes begin_ depth ⟨layer, index⟩ \ blockBytes begin_ depth ⟨layer + 1, child⟩ := by
  have hchildValid : (Block.mk (layer + 1) child).Valid depth := by
    refine ⟨hlayer, ?_⟩
    have hindex := hvalid.2
    simp only [pow_succ] at hindex ⊢
    omega
  have hbytes := @blockBytes_sibling begin_ depth _ hchildValid (Nat.succ_pos _)
  simp only [Block.sibling, Block.parent, Nat.add_sub_cancel, hchild] at hbytes
  have hparent := congrArg Block.index
    (@Block.parent_sibling ⟨layer + 1, child⟩ (Nat.succ_pos _))
  exact ⟨hparent.trans hchild, hbytes⟩

/-! ## The geometry of the pool -/

/-- For a root block of `2 ^ depth` pages that does not run over the end of the
address space: every address of a block has the block's index and the block's
pointer is its first byte; the two halves tile the block, the index halves on
the way up, and the flipped index is the other half. -/
theorem buddyGeometry_tree {layer index pointer : ℕ}
    (hroom : begin_ + 2 ^ depth * pageSize ≤ 2 ^ 64) (hlayer : layer ≤ depth)
    (hindex : index < 2 ^ layer) (hmem : pointer ∈ blockBytes begin_ depth ⟨layer, index⟩) :
    toIndex begin_ layer pointer (2 ^ depth) = index ∧
      IsLeast (blockBytes begin_ depth ⟨layer, index⟩)
        (toPointer begin_ layer index (2 ^ depth)) ∧
      (layer < depth →
        blockBytes begin_ depth ⟨layer + 1, 2 * index⟩ ∪
            blockBytes begin_ depth ⟨layer + 1, 2 * index + 1⟩ =
          blockBytes begin_ depth ⟨layer, index⟩ ∧
        Disjoint (blockBytes begin_ depth ⟨layer + 1, 2 * index⟩)
          (blockBytes begin_ depth ⟨layer + 1, 2 * index + 1⟩) ∧
        toIndex begin_ layer pointer (2 ^ depth) =
          toIndex begin_ (layer + 1) pointer (2 ^ depth) / 2 ∧
        ∀ child, child / 2 = index →
          (child ^^^ 1) / 2 = index ∧
          blockBytes begin_ depth ⟨layer + 1, child ^^^ 1⟩ =
            blockBytes begin_ depth ⟨layer, index⟩ \
              blockBytes begin_ depth ⟨layer + 1, child⟩) := by
  have hvalid : (Block.mk layer index).Valid depth := ⟨hlayer, hindex⟩
  have hself := toIndex_of_mem hvalid hroom hmem
  refine ⟨hself, isLeast_toPointer hvalid hroom, fun hdeeper => ?_⟩
  obtain ⟨htile, hdisjoint⟩ := @blockBytes_halves begin_ depth _ hvalid hdeeper
  refine ⟨htile, hdisjoint, ?_, fun child hchild => blockBytes_flip hvalid hdeeper hchild⟩
  exact hself.trans (toIndex_halves hvalid hdeeper hroom hmem).symm

theorem buddyGeometry_tree_of_four :
    toIndex 8192 1 20481 (2 ^ 2) = 1 ∧
      toIndex 8192 1 20481 (2 ^ 2) = toIndex 8192 2 20481 (2 ^ 2) / 2 := by
  have hmem : 20481 ∈ blockBytes 8192 2 ⟨1, 1⟩ := by
    rw [mem_blockBytes_iff]
    decide +kernel
  obtain ⟨hindex, -, hdeeper⟩ :=
    @buddyGeometry_tree 8192 2 1 1 20481 (by norm_num [pageSize]) (by norm_num) (by norm_num) hmem
  exact ⟨hindex, (hdeeper (by norm_num)).2.2.1⟩

end DoomsdayModules.BuddyGeometry
