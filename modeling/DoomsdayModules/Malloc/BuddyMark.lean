import DoomsdayModules.Core.DyadicCover
import DoomsdayModules.Malloc.BuddyUtil
import Mathlib.Data.List.Perm.Basic

/-!
# Marking leaves

`buddy_mark` sets a node's bit, but as long as the sibling's bit is set it
clears that one and goes on with the parent.  A bitmap in which leaves have been
marked one after the other keeps the canonical cover of the marked leaves: the
bits of the maximal blocks, and no others.  While a call climbs, the bits within
the node it has reached are clear and all others are those of the old cover.
-/

namespace DoomsdayModules.BuddyMark

open DoomsdayModules.ByteMemory DoomsdayModules.BuddyUtil DoomsdayModules.DyadicBlocks

/-- The loop runs down the layers; `index ^ 1` is the sibling's index. -/
def buddyMark (memory : Memory) (bitmap : ℕ) : ℕ → ℕ → Memory
  | 0, index => buddySet memory bitmap 0 index
  | layer + 1, index =>
      if buddyGet memory bitmap (layer + 1) (index ^^^ 1) then
        buddyMark (buddyUnset memory bitmap (layer + 1) (index ^^^ 1)) bitmap layer (index / 2)
      else buddySet memory bitmap (layer + 1) index

/-- `buddy_mark` of the leaves of a list, in its order. -/
def buddyMarkAll (memory : Memory) (bitmap layer : ℕ) (order : List ℕ) : Memory :=
  order.foldl (fun memory index => buddyMark memory bitmap layer index) memory

/-! ## Bitmaps that represent a set of nodes -/

/-- The bits of the bitmap that are set are those of the nodes of the tree in
the set; the bytes of the bitmap hold all of the tree. -/
structure Represents (memory : Memory) (bitmap depth : ℕ) (nodes : Block → Prop) : Prop where
  bit_iff : ∀ place < 8 * buddyBitmapSize (2 ^ (depth + 1)),
    bitmapBit memory bitmap place = true ↔
      ∃ node : Block, node.Valid depth ∧ nodes node ∧ position node = place

theorem bitmap_reaches {depth : ℕ} : 2 ^ (depth + 1) ≤ 8 * buddyBitmapSize (2 ^ (depth + 1)) := by
  simp only [buddyBitmapSize]
  omega

variable {memory : Memory} {bitmap depth : ℕ} {nodes nodes' : Block → Prop}

theorem Represents.get {node : Block} (hrepresents : Represents memory bitmap depth nodes)
    (hvalid : node.Valid depth) :
    buddyGet memory bitmap node.layer node.index = true ↔ nodes node := by
  have hplace := (position_lt hvalid).trans_le bitmap_reaches
  change nodeBit memory bitmap node = true ↔ nodes node
  rw [nodeBit_eq_bitmapBit hvalid, hrepresents.bit_iff _ hplace]
  constructor
  · rintro ⟨other, hother, hnode, hposition⟩
    rwa [← position_injective hother hvalid hposition]
  · exact fun hnode => ⟨node, hvalid, hnode, rfl⟩

theorem Represents.congr (hrepresents : Represents memory bitmap depth nodes)
    (hiff : ∀ node : Block, node.Valid depth → (nodes node ↔ nodes' node)) :
    Represents memory bitmap depth nodes' where
  bit_iff place hplace := by
    rw [hrepresents.bit_iff place hplace]
    constructor
    · rintro ⟨node, hvalid, hnode, hposition⟩
      exact ⟨node, hvalid, (hiff node hvalid).mp hnode, hposition⟩
    · rintro ⟨node, hvalid, hnode, hposition⟩
      exact ⟨node, hvalid, (hiff node hvalid).mpr hnode, hposition⟩

theorem Represents.set {node : Block} (hrepresents : Represents memory bitmap depth nodes)
    (hvalid : node.Valid depth) :
    Represents (buddySet memory bitmap node.layer node.index) bitmap depth
      fun other => other = node ∨ nodes other where
  bit_iff place hplace := by
    rw [bitmapBit_buddySet hvalid, Bool.or_eq_true, decide_eq_true_iff,
      hrepresents.bit_iff place hplace]
    constructor
    · rintro (⟨other, hother, hmem, hposition⟩ | rfl)
      · exact ⟨other, hother, .inr hmem, hposition⟩
      · exact ⟨node, hvalid, .inl rfl, rfl⟩
    · rintro ⟨other, hother, rfl | hmem, hposition⟩
      · exact .inr hposition.symm
      · exact .inl ⟨other, hother, hmem, hposition⟩

theorem Represents.unset {node : Block} (hrepresents : Represents memory bitmap depth nodes)
    (hvalid : node.Valid depth) :
    Represents (buddyUnset memory bitmap node.layer node.index) bitmap depth
      fun other => nodes other ∧ other ≠ node where
  bit_iff place hplace := by
    rw [bitmapBit_buddyUnset hvalid, Bool.and_eq_true, Bool.not_eq_true', decide_eq_false_iff_not,
      hrepresents.bit_iff place hplace]
    constructor
    · rintro ⟨⟨other, hother, hmem, hposition⟩, hne⟩
      refine ⟨other, hother, ⟨hmem, ?_⟩, hposition⟩
      rintro rfl
      exact hne hposition.symm
    · rintro ⟨other, hother, ⟨hmem, hne⟩, hposition⟩
      refine ⟨⟨other, hother, hmem, hposition⟩, fun hplace => hne ?_⟩
      exact position_injective hother hvalid (hposition.trans hplace)

theorem represents_of_zero
    (hzero : ∀ offset < buddyBitmapSize (2 ^ (depth + 1)), memory (bitmap + offset) = 0) :
    Represents memory bitmap depth fun _ => False where
  bit_iff place hplace := by
    rw [bitmapBit, hzero _ (by omega)]
    simp

/-! ## One call -/

/-- A call that has reached a full node over the new leaf, with the bits within
the node clear and the others those of the old cover, ends with the new cover. -/
theorem buddyMark_represents {pages : Set ℕ} {leaf : ℕ} (hleaf : leaf ∉ pages) {node : Block}
    (hvalid : node.Valid depth) (hcovers : node.Covers depth leaf)
    (hfull : Block.Full (insert leaf pages) depth node)
    (hrepresents : Represents memory bitmap depth fun other =>
      Block.Maximal pages depth other ∧ ¬ Block.Within depth node other) :
    Represents (buddyMark memory bitmap node.layer node.index) bitmap depth
      (Block.Maximal (insert leaf pages) depth) := by
  obtain ⟨layer, index⟩ := node
  induction layer generalizing memory index with
  | zero =>
      have htop := Block.maximal_of_layer_zero rfl hfull
      exact (hrepresents.set hvalid).congr fun other hother =>
        (Block.maximal_insert_iff htop hcovers hvalid hother).symm
  | succ layer ih =>
      have hlayer : 0 < (Block.mk (layer + 1) index).layer := Nat.succ_pos _
      have hsibling := hvalid.sibling hlayer
      have hapart := Block.apart_sibling hvalid hlayer
      -- the sibling's bit tells whether the sibling is full
      have hget : buddyGet memory bitmap (layer + 1) (index ^^^ 1) = true ↔
          Block.Full pages depth (Block.mk (layer + 1) index).sibling := by
        rw [← Block.maximal_sibling_iff hleaf hcovers hvalid hlayer]
        refine (hrepresents.get hsibling).trans (and_iff_left ?_)
        exact fun hwithin => hapart.not_covers (hwithin.covers (Block.covers_start depth _))
          (Block.covers_start depth _)
      rw [buddyMark]
      split
      next hset =>
          have hsiblingFull := hget.mp hset
          have hparent := (Block.full_parent_iff hvalid hlayer).mpr
            ⟨hfull, hsiblingFull.insert leaf⟩
          apply ih (index / 2) (hvalid.parent hlayer)
            ((Block.below_parent hvalid hlayer).1.covers hcovers) hparent
          exact (hrepresents.unset hsibling).congr fun other hother =>
            (Block.maximal_outside_parent_iff hleaf hcovers hvalid hlayer hsiblingFull
              hother).symm
      next hunset =>
          have hsiblingFull := fun hfull => hunset (hget.mpr hfull)
          have htop := Block.maximal_insert_of_sibling hcovers hvalid hlayer hfull hsiblingFull
          exact (hrepresents.set hvalid).congr fun other hother =>
            (Block.maximal_insert_iff htop hcovers hvalid hother).symm

theorem buddyMark_unchangedOutside (memory : Memory) (bitmap : ℕ) {node : Block}
    (hvalid : node.Valid depth) :
    UnchangedOutside memory (buddyMark memory bitmap node.layer node.index) fun query =>
      bitmap ≤ query ∧ query < bitmap + buddyBitmapSize (2 ^ (depth + 1)) := by
  obtain ⟨layer, index⟩ := node
  induction layer generalizing memory index with
  | zero => exact buddySet_unchangedOutside memory bitmap hvalid bitmap_reaches
  | succ layer ih =>
      have hlayer : 0 < (Block.mk (layer + 1) index).layer := Nat.succ_pos _
      rw [buddyMark]
      split
      · have hunset := buddyUnset_unchangedOutside memory bitmap (hvalid.sibling hlayer)
          bitmap_reaches
        exact hunset.trans (ih _ (index / 2) (hvalid.parent hlayer))
      · exact buddySet_unchangedOutside memory bitmap hvalid bitmap_reaches

/-! ## A sequence of calls -/

theorem leaf_covers_iff {leaf page : ℕ} :
    (Block.mk depth leaf).Covers depth page ↔ page = leaf := by
  simp only [Block.Covers, Block.stop, Block.start, Block.size, Nat.sub_self, pow_zero, mul_one]
  omega

theorem within_leaf_iff {leaf : ℕ} {node : Block} (hvalid : node.Valid depth) :
    Block.Within depth ⟨depth, leaf⟩ node ↔ node = ⟨depth, leaf⟩ := by
  refine ⟨?_, .inl⟩
  rintro (heq | hbelow)
  · exact heq
  · exact absurd hvalid.1 (not_le.mpr hbelow.1)

/-- Marking a new leaf turns the cover of a set into that of the larger set. -/
theorem buddyMark_leaf_represents {pages : Set ℕ} {leaf : ℕ} (hleaf : leaf ∉ pages)
    (hrange : leaf < 2 ^ depth)
    (hrepresents : Represents memory bitmap depth (Block.Maximal pages depth)) :
    Represents (buddyMark memory bitmap depth leaf) bitmap depth
      (Block.Maximal (insert leaf pages) depth) := by
  have hvalid : (Block.mk depth leaf).Valid depth := ⟨le_rfl, hrange⟩
  have hcovers : (Block.mk depth leaf).Covers depth leaf := leaf_covers_iff.mpr rfl
  have hfull : Block.Full (insert leaf pages) depth ⟨depth, leaf⟩ := by
    intro page hpage
    rw [leaf_covers_iff.mp hpage]
    exact Set.mem_insert _ _
  apply buddyMark_represents hleaf hvalid hcovers hfull
  apply hrepresents.congr
  intro node hnode
  rw [within_leaf_iff hnode, iff_self_and]
  rintro hmaximal rfl
  exact hleaf (hmaximal.1 leaf hcovers)

theorem buddyMarkAll_represents {order : List ℕ} {pages : Set ℕ} (hnodup : order.Nodup)
    (hrange : ∀ leaf ∈ order, leaf < 2 ^ depth) (hnew : ∀ leaf ∈ order, leaf ∉ pages)
    (hrepresents : Represents memory bitmap depth (Block.Maximal pages depth)) :
    Represents (buddyMarkAll memory bitmap depth order) bitmap depth
      (Block.Maximal (pages ∪ {leaf | leaf ∈ order}) depth) := by
  induction order generalizing memory pages with
  | nil => simpa [buddyMarkAll] using hrepresents
  | cons leaf order ih =>
      obtain ⟨hnotMem, hnodup⟩ := List.nodup_cons.mp hnodup
      have hfirst := buddyMark_leaf_represents (hnew leaf List.mem_cons_self)
        (hrange leaf List.mem_cons_self) hrepresents
      have hunion : pages ∪ {other | other ∈ leaf :: order} =
          insert leaf pages ∪ {other | other ∈ order} := by
        ext other
        simp only [Set.mem_union, Set.mem_ofPred_eq, Set.mem_insert_iff, List.mem_cons]
        tauto
      rw [hunion]
      apply ih hnodup (fun other hother => hrange other (List.mem_cons_of_mem _ hother)) _ hfirst
      rintro other hother (rfl | hold)
      · exact hnotMem hother
      · exact hnew other (List.mem_cons_of_mem _ hother) hold

theorem buddyMarkAll_unchangedOutside {order : List ℕ}
    (hrange : ∀ leaf ∈ order, leaf < 2 ^ depth) :
    UnchangedOutside memory (buddyMarkAll memory bitmap depth order) fun query =>
      bitmap ≤ query ∧ query < bitmap + buddyBitmapSize (2 ^ (depth + 1)) := by
  induction order generalizing memory with
  | nil => exact unchangedOutside_refl _ _
  | cons leaf order ih =>
      have hvalid : (Block.mk depth leaf).Valid depth := ⟨le_rfl, hrange leaf List.mem_cons_self⟩
      exact (buddyMark_unchangedOutside memory bitmap hvalid).trans
        (ih fun other hother => hrange other (List.mem_cons_of_mem _ hother))

/-! ## The cover -/

theorem not_maximal_empty (node : Block) : ¬ Block.Maximal ∅ depth node :=
  fun hmaximal => hmaximal.1 _ (Block.covers_start depth node)

theorem byte_eq_of_testBit {byte other : UInt8}
    (hbits : ∀ bit < 8, byte.toNat.testBit bit = other.toNat.testBit bit) : byte = other := by
  apply UInt8.toNat_inj.mp
  apply Nat.eq_of_testBit_eq
  intro bit
  rcases lt_or_ge bit 8 with hbit | hbit
  · exact hbits bit hbit
  · have hpow : 2 ^ 8 ≤ 2 ^ bit := Nat.pow_le_pow_right (by norm_num) hbit
    rw [Nat.testBit_lt_two_pow (byte.toNat_lt.trans_le hpow),
      Nat.testBit_lt_two_pow (other.toNat_lt.trans_le hpow)]

/-- Bitmaps that represent the same nodes and agree outside are the same memory. -/
theorem Represents.unique {before after after' : Memory}
    (hrepresents : Represents after bitmap depth nodes)
    (hrepresents' : Represents after' bitmap depth nodes)
    (hout : UnchangedOutside before after fun query =>
      bitmap ≤ query ∧ query < bitmap + buddyBitmapSize (2 ^ (depth + 1)))
    (hout' : UnchangedOutside before after' fun query =>
      bitmap ≤ query ∧ query < bitmap + buddyBitmapSize (2 ^ (depth + 1))) :
    after = after' := by
  funext query
  by_cases hinside : bitmap ≤ query ∧ query < bitmap + buddyBitmapSize (2 ^ (depth + 1))
  · obtain ⟨offset, rfl⟩ := Nat.exists_eq_add_of_le hinside.1
    apply byte_eq_of_testBit
    intro bit hbit
    have hplace : 8 * offset + bit < 8 * buddyBitmapSize (2 ^ (depth + 1)) := by omega
    have hsame := Bool.eq_iff_iff.mpr
      ((hrepresents.bit_iff _ hplace).trans (hrepresents'.bit_iff _ hplace).symm)
    simp only [bitmapBit] at hsame
    rwa [show (8 * offset + bit) / 8 = offset by omega,
      show (8 * offset + bit) % 8 = bit by omega] at hsame
  · rw [hout query hinside, hout' query hinside]

theorem mem_of_length_eq {order : List ℕ} (hnodup : order.Nodup)
    (hrange : ∀ leaf ∈ order, leaf < 2 ^ depth) (hlength : order.length = 2 ^ depth) :
    ∀ leaf < 2 ^ depth, leaf ∈ order := by
  have hsubset : order.toFinset ⊆ Finset.range (2 ^ depth) := by
    intro leaf hleaf
    exact Finset.mem_range.mpr (hrange leaf (List.mem_toFinset.mp hleaf))
  have hcard : (Finset.range (2 ^ depth)).card ≤ order.toFinset.card := by
    rw [Finset.card_range, List.toFinset_card_of_nodup hnodup, hlength]
  have hall := Finset.eq_of_subset_of_card_le hsubset hcard
  intro leaf hleaf
  rw [← List.mem_toFinset, hall]
  exact Finset.mem_range.mpr hleaf

/-- The calls leave the canonical cover of the leaves they marked. -/
theorem buddyMarkAll_cover {order : List ℕ} (hnodup : order.Nodup)
    (hrange : ∀ leaf ∈ order, leaf < 2 ^ depth)
    (hzero : ∀ offset < buddyBitmapSize (2 ^ (depth + 1)), memory (bitmap + offset) = 0) :
    Represents (buddyMarkAll memory bitmap depth order) bitmap depth
      (Block.Maximal {leaf | leaf ∈ order} depth) := by
  have hempty : Represents memory bitmap depth (Block.Maximal ∅ depth) :=
    (represents_of_zero hzero).congr fun node _ => (iff_false_intro (not_maximal_empty node)).symm
  have hall := buddyMarkAll_represents hnodup hrange (fun _ _ => Set.notMem_empty _) hempty
  rwa [Set.empty_union] at hall

theorem buddyMarkAll_perm {order order' : List ℕ} (hperm : order'.Perm order)
    (hnodup : order.Nodup) (hrange : ∀ leaf ∈ order, leaf < 2 ^ depth)
    (hzero : ∀ offset < buddyBitmapSize (2 ^ (depth + 1)), memory (bitmap + offset) = 0) :
    buddyMarkAll memory bitmap depth order' = buddyMarkAll memory bitmap depth order := by
  have hrange' : ∀ leaf ∈ order', leaf < 2 ^ depth :=
    fun leaf hleaf => hrange leaf (hperm.mem_iff.mp hleaf)
  have hother := buddyMarkAll_cover (hperm.nodup_iff.mpr hnodup) hrange' hzero
  have hsame : {leaf | leaf ∈ order'} = {leaf | leaf ∈ order} :=
    Set.ext fun leaf => hperm.mem_iff
  rw [hsame] at hother
  exact hother.unique (buddyMarkAll_cover hnodup hrange hzero)
    (buddyMarkAll_unchangedOutside hrange') (buddyMarkAll_unchangedOutside hrange)

/-- Marking distinct leaves of a cleared bitmap leaves the bits of the maximal
blocks of their set, and no other; the rest of the memory is untouched, the
order of the calls does not matter, and when every leaf was marked the root's
bit is the only one. -/
theorem buddyMark_canonicalCover {order : List ℕ} (hnodup : order.Nodup)
    (hrange : ∀ leaf ∈ order, leaf < 2 ^ depth)
    (hzero : ∀ offset < buddyBitmapSize (2 ^ (depth + 1)), memory (bitmap + offset) = 0) :
    (∀ place < 8 * buddyBitmapSize (2 ^ (depth + 1)),
      bitmapBit (buddyMarkAll memory bitmap depth order) bitmap place = true ↔
        ∃ node : Block, node.Valid depth ∧
          Block.Maximal {leaf | leaf ∈ order} depth node ∧ position node = place) ∧
    (UnchangedOutside memory (buddyMarkAll memory bitmap depth order) fun query =>
      bitmap ≤ query ∧ query < bitmap + buddyBitmapSize (2 ^ (depth + 1))) ∧
    (∀ order' : List ℕ, order'.Perm order →
      buddyMarkAll memory bitmap depth order' = buddyMarkAll memory bitmap depth order) ∧
    (order.length = 2 ^ depth → ∀ place < 8 * buddyBitmapSize (2 ^ (depth + 1)),
      bitmapBit (buddyMarkAll memory bitmap depth order) bitmap place = true ↔
        place = position ⟨0, 0⟩) := by
  have hcover := buddyMarkAll_cover hnodup hrange hzero
  refine ⟨hcover.bit_iff, buddyMarkAll_unchangedOutside hrange,
    fun order' hperm => buddyMarkAll_perm hperm hnodup hrange hzero, ?_⟩
  intro hlength place hplace
  have hall := mem_of_length_eq hnodup hrange hlength
  rw [hcover.bit_iff place hplace]
  constructor
  · rintro ⟨node, hvalid, hmaximal, hposition⟩
    rw [← hposition, (Block.maximal_iff_root hall hvalid).mp hmaximal]
  · rintro rfl
    have hroot : (Block.mk 0 0).Valid depth := ⟨Nat.zero_le _, by simp⟩
    exact ⟨⟨0, 0⟩, hroot, (Block.maximal_iff_root hall hroot).mpr rfl, rfl⟩

/-- The eight leaves of the third layer, in an order that makes the climbs
start anywhere. -/
theorem buddyMark_canonicalCover_eight :
    bitmapBit (buddyMarkAll (fun _ => 0) 4096 3 [5, 0, 7, 2, 6, 1, 4, 3]) 4096 1 = true ∧
      ¬ bitmapBit (buddyMarkAll (fun _ => 0) 4096 3 [5, 0, 7, 2, 6, 1, 4, 3]) 4096 13 = true := by
  obtain ⟨-, -, -, hroot⟩ := @buddyMark_canonicalCover (fun _ => 0) 4096 3
    [5, 0, 7, 2, 6, 1, 4, 3] (by decide) (by decide) (fun _ _ => rfl)
  refine ⟨(hroot rfl 1 (by decide)).mpr rfl, fun hbit => ?_⟩
  exact absurd ((hroot rfl 13 (by decide)).mp hbit) (by decide)

end DoomsdayModules.BuddyMark
