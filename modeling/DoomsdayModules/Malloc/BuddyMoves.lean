import DoomsdayModules.Malloc.BuddyLists

/-!
# The moves of the buddy allocator

Pop, split and release on the abstract state, and from them what a whole
`buddy_alloc` and a whole `buddy_free` do.  A free keeps the invariant when
the freed block is the left half of its parent (or the root): there the upward
search stops at the block itself, and its buddy's bit stops the merge.
-/

namespace DoomsdayModules.BuddyMoves

open DoomsdayModules.ByteMemory DoomsdayModules.Util DoomsdayModules.BuddyUtil
open DoomsdayModules.IntrusiveStack DoomsdayModules.Freelist
open DoomsdayModules.DyadicBlocks DoomsdayModules.Buddy DoomsdayModules.BuddyInvariant
open DoomsdayModules.BuddyLists

variable {layout : Layout} {memory : Memory} {free live : List Block}

/-- The bytes an operation on one block may write. -/
def Touches (layout : Layout) (block : Block) (query : ℕ) : Prop :=
  layout.IsMetadata query ∨ layout.InBlock block query

/-- The free lists and the bits make up the represented state. -/
theorem represents_of_freeBlocks (hrep : Represents layout memory free live)
    {memory' : Memory} {free' live' : List Block}
    (hbits : AgreeOn memory memory' layout.bitmap (layout.bitmap + layout.bitmapBytes))
    (hperm : (live ++ free).Perm (live' ++ free'))
    (hfree : FreeBlocks (siteOf layout) memory' free') :
    Represents layout memory' free' live' := by
  have hnodeBit : ∀ node : Block, node.Valid layout.depth →
      nodeBit memory' layout.bitmap node = nodeBit memory layout.bitmap node :=
    fun node hnode => nodeBit_congr hnode layout.capacity hbits
  exact
    { bitmap_eq := hfree.bitmap_eq
      freelist_eq := hfree.freelist_eq
      layers_eq := hfree.layers_eq
      root_eq := hfree.root_eq
      begin_eq := hfree.begin_eq
      lists := fun layer hlayer => hfree.lists layer (Nat.lt_succ_of_le hlayer)
      tiling := hrep.tiling.perm hperm
      odd_bit := fun node hnode hodd => (hnodeBit node hnode).trans (hrep.odd_bit node hnode hodd)
      even_bit := fun other hother heven =>
        (hnodeBit other (hrep.valid (hperm.mem_iff.mpr hother))).trans
          (hrep.even_bit other (hperm.mem_iff.mpr hother) heven)
      below_bit := fun other hother node hnode hbelow =>
        (hnodeBit node hnode).trans
          (hrep.below_bit other (hperm.mem_iff.mpr hother) node hnode hbelow) }

/-! ## Pop -/

/-- Popping the first free block of a layer makes it live. -/
theorem pop_represents (hrep : Represents layout memory free live) {block : Block}
    {rest : List Block} (hhead : freeAt free block.layer = block :: rest) :
    (freelistPop memory (layout.slot block.layer)).1 = layout.address block ∧
      Represents layout (freelistPop memory (layout.slot block.layer)).2
        (free.erase block) (block :: live) := by
  have hmem : block ∈ free := (mem_freeAt.mp (hhead ▸ List.mem_cons_self)).1
  have hslot := layout.slot_bounds (hrep.valid_free hmem).1
  have hchange := freelistPop_unchangedOutside memory (layout.slot block.layer)
  obtain ⟨hptr, hpopped⟩ := (freeBlocks_of_represents hrep).pop hhead
  have hperm : (live ++ free).Perm (block :: live ++ free.erase block) :=
    ((List.perm_cons_erase hmem).append_left live).trans (by simp)
  exact ⟨hptr, represents_of_freeBlocks hrep
    (hchange.agreeOn fun query hlower hupper => by omega) hperm hpopped⟩

/-! ## Release -/

/-- Pushing a live block on the list of its layer makes it free. -/
theorem release_represents {block : Block}
    (hrep : Represents layout memory free (block :: live)) :
    Represents layout
      (freelistPush memory (layout.slot block.layer) (layout.address block))
      (block :: free) live := by
  have hvalid := hrep.valid (List.mem_append_left _ List.mem_cons_self)
  have hslot := layout.slot_bounds hvalid.1
  have hbits := layout.bitmap_le
  have hbegin := layout.begin_le_address block
  have hchange := freelistPush_unchangedOutside memory (layout.slot block.layer)
    (layout.address block)
  have hperm : (block :: live ++ free).Perm (live ++ block :: free) := by
    simpa using List.perm_middle.symm
  apply represents_of_freeBlocks hrep (hchange.agreeOn fun query hlower hupper => by omega) hperm
  apply (freeBlocks_of_represents hrep).push hvalid (Nat.lt_succ_of_le hvalid.1)
  intro other hother
  exact hrep.tiling.apart (List.mem_append_right live hother)

/-! ## Split -/

theorem splitBits_unchangedOutside (memory : Memory) {block : Block} (hvalid : block.Valid layout.depth)
    (hlayer : block.layer < layout.depth) :
    UnchangedOutside memory (splitBits memory layout.bitmap block) fun query =>
      layout.bitmap ≤ query ∧ query < layout.bitmap + layout.bitmapBytes :=
  ((buddySet_unchangedOutside _ _ hvalid layout.capacity).trans
    (buddyUnset_unchangedOutside _ _ (hvalid.leftHalf hlayer) layout.capacity)).trans
    (buddySet_unchangedOutside _ _ (hvalid.rightHalf hlayer) layout.capacity)

theorem nodeBit_splitBits {block other : Block} (hvalid : block.Valid layout.depth)
    (hlayer : block.layer < layout.depth) (hother : other.Valid layout.depth) :
    nodeBit (splitBits memory layout.bitmap block) layout.bitmap other =
      (((nodeBit memory layout.bitmap other || decide (block = other)) &&
        !decide (block.leftHalf = other)) || decide (block.rightHalf = other)) := by
  rw [splitBits, nodeBit_buddySet (hvalid.rightHalf hlayer) hother,
    nodeBit_buddyUnset (hvalid.leftHalf hlayer) hother, nodeBit_buddySet hvalid hother]

/-- A bit that was one stays one, unless it is the left half's. -/
theorem nodeBit_splitBits_of_true {block other : Block} (hvalid : block.Valid layout.depth)
    (hlayer : block.layer < layout.depth) (hother : other.Valid layout.depth)
    (hbit : nodeBit memory layout.bitmap other = true) (hne : block.leftHalf ≠ other) :
    nodeBit (splitBits memory layout.bitmap block) layout.bitmap other = true := by
  rw [nodeBit_splitBits hvalid hlayer hother]
  simp [hbit, hne]

/-- After the bit updates both halves of the block are in hand. -/
theorem splitBits_represents {block : Block}
    (hrep : Represents layout memory free (block :: live))
    (hlayer : block.layer < layout.depth) :
    Represents layout (splitBits memory layout.bitmap block) free
      (block.rightHalf :: block.leftHalf :: live) := by
  have hmem : block ∈ block :: live ++ free := List.mem_append_left _ List.mem_cons_self
  have hvalid := hrep.valid hmem
  have hchange := splitBits_unchangedOutside memory hvalid hlayer
  have hheader := layout.header_le
  have hlist := layout.freelist_le
  have hbits := layout.bitmap_le
  have hapart : ∀ other ∈ live ++ free, Block.Apart layout.depth block other :=
    fun other hother => hrep.tiling.apart hother
  have hleftBelow := Block.below_leftHalf hlayer
  have hrightBelow := Block.below_rightHalf hlayer
  have hmemCases : ∀ other, other ∈ block.rightHalf :: block.leftHalf :: live ++ free →
      other = block.rightHalf ∨ other = block.leftHalf ∨ other ∈ live ++ free := by
    intro other hother
    simpa [or_assoc] using hother
  refine
    { hrep.toHeader.frame (hchange.agreeOn fun query hlower hupper => by omega) with
      lists := ?_
      tiling := (hrep.tiling.split hlayer).perm (List.Perm.swap _ _ _)
      odd_bit := ?_
      even_bit := ?_
      below_bit := ?_ }
  · intro layer hlayer'
    have hslot := layout.slot_bounds hlayer'
    apply lists_frame (hrep.lists layer hlayer')
    · exact hchange.agreeOn fun query hlower hupper => by omega
    · intro node hnode
      have := layout.begin_le_address node
      exact hchange.agreeOn fun query hlower hupper => by omega
  · intro node hnode hodd
    have hne : block.leftHalf ≠ node := by
      rintro rfl
      simp only [Block.leftHalf] at hodd
      omega
    exact nodeBit_splitBits_of_true hvalid hlayer hnode (hrep.odd_bit node hnode hodd) hne
  · intro other hother heven
    rcases hmemCases other hother with rfl | rfl | hrest
    · simp only [Block.rightHalf] at heven
      omega
    · rw [nodeBit_splitBits hvalid hlayer (hvalid.leftHalf hlayer)]
      simp [Block.leftHalf, Block.rightHalf]
    · have hmemRest : other ∈ block :: live ++ free := by
        simpa using Or.inr (by simpa using hrest)
      have happart := hapart other hrest
      rw [nodeBit_splitBits hvalid hlayer (hrep.valid hmemRest),
        hrep.even_bit other hmemRest heven]
      simp [happart.ne, happart.below_ne (.inr hrightBelow) (.inl rfl)]
  · intro other hother node hnode hbelow
    rcases hmemCases other hother with rfl | rfl | hrest
    · have hne : block.leftHalf ≠ node := by
        rintro rfl
        exact absurd hbelow.1 (lt_irrefl _)
      exact nodeBit_splitBits_of_true hvalid hlayer hnode
        (hrep.below_bit block hmem node hnode (hrightBelow.trans hbelow)) hne
    · have hne : block.leftHalf ≠ node := by
        rintro rfl
        exact absurd hbelow.1 (lt_irrefl _)
      exact nodeBit_splitBits_of_true hvalid hlayer hnode
        (hrep.below_bit block hmem node hnode (hleftBelow.trans hbelow)) hne
    · have hmemRest : other ∈ block :: live ++ free := by
        simpa using Or.inr (by simpa using hrest)
      exact nodeBit_splitBits_of_true hvalid hlayer hnode
        (hrep.below_bit other hmemRest node hnode hbelow)
        ((hapart other hrest).below_ne (.inr hleftBelow) (.inr hbelow))

theorem splitStep_eq {block : Block} (hheader : Header layout memory)
    (hvalid : block.Valid layout.depth) (hlayer : block.layer < layout.depth) :
    splitStep memory layout.alloc block.layer block.index =
      freelistPush (splitBits memory layout.bitmap block)
        (layout.slot block.rightHalf.layer) (layout.address block.rightHalf) :=
  (siteHeader_of_header hheader).splitStep_eq hvalid hlayer

/-- One pass of the split loop: the block in hand becomes its left half, and
its right half becomes free. -/
theorem splitStep_represents {block : Block}
    (hrep : Represents layout memory free (block :: live))
    (hlayer : block.layer < layout.depth) :
    Represents layout (splitStep memory layout.alloc block.layer block.index)
      (block.rightHalf :: free) (block.leftHalf :: live) := by
  have hvalid := hrep.valid (List.mem_append_left _ List.mem_cons_self)
  rw [splitStep_eq hrep.toHeader hvalid hlayer]
  exact release_represents (splitBits_represents hrep hlayer)

theorem splitStep_unchangedOutside {block : Block} (hheader : Header layout memory)
    (hvalid : block.Valid layout.depth) (hlayer : block.layer < layout.depth) :
    UnchangedOutside memory (splitStep memory layout.alloc block.layer block.index)
      (Touches layout block) := by
  have hheaderLe := layout.header_le
  have hlist := layout.freelist_le
  have hbits := layout.bitmap_le
  have hslot := layout.slot_bounds (hvalid.rightHalf hlayer).1
  have hpage := layout.address_add_le block.rightHalf
  have hbelow := Block.below_rightHalf hlayer
  have hlower : layout.address block ≤ layout.address block.rightHalf := by
    simp only [Layout.address, pageAddress]
    exact Nat.add_le_add_left (Nat.mul_le_mul_right _ hbelow.2.1) _
  have hupper : layout.addressStop block.rightHalf ≤ layout.addressStop block := by
    simp only [Layout.addressStop, pageAddress]
    exact Nat.add_le_add_left (Nat.mul_le_mul_right _ hbelow.2.2) _
  simp only [pageSize] at hpage
  rw [splitStep_eq hheader hvalid hlayer]
  apply UnchangedOutside.trans
  · apply (splitBits_unchangedOutside memory hvalid hlayer).mono
    rintro query ⟨hquery, hquery'⟩
    exact .inl ⟨by omega, by omega⟩
  · apply (freelistPush_unchangedOutside _ _ _).mono
    rintro query (⟨hquery, hquery'⟩ | ⟨hquery, hquery'⟩)
    · exact .inl ⟨by omega, by omega⟩
    · exact .inr ⟨by omega, by omega⟩

/-- The whole split loop leaves the leftmost descendant in hand. -/
theorem splitLoop_represents {block : Block}
    (hrep : Represents layout memory free (block :: live)) (steps : ℕ)
    (hsteps : block.layer + steps ≤ layout.depth) :
    (∃ free', Represents layout (splitLoop layout.alloc steps block.layer block.index memory)
      free' (block.leftmost (block.layer + steps) :: live)) ∧
    UnchangedOutside memory (splitLoop layout.alloc steps block.layer block.index memory)
      (Touches layout block) := by
  induction steps generalizing block memory free with
  | zero =>
      refine ⟨⟨free, ?_⟩, unchangedOutside_refl _ _⟩
      simpa only [splitLoop, Nat.add_zero, Block.leftmost_self] using hrep
  | succ steps ih =>
      have hlayer : block.layer < layout.depth := by omega
      have hvalid := hrep.valid (List.mem_append_left _ List.mem_cons_self)
      have hindex : block.index * 2 = block.leftHalf.index := Nat.mul_comm _ _
      obtain ⟨⟨free', hrep'⟩, hchange⟩ :=
        ih (splitStep_represents hrep hlayer) (by simp only [Block.leftHalf]; omega)
      rw [Block.leftmost_leftHalf] at hrep'
      simp only [splitLoop, hindex]
      refine ⟨⟨free', hrep'⟩, (splitStep_unchangedOutside hrep.toHeader hvalid hlayer).trans
        (hchange.mono ?_)⟩
      rintro query (hquery | ⟨hquery, hquery'⟩)
      · exact .inl hquery
      · have hstart := Block.start_leftHalf hlayer
        have hbelow := Block.below_leftHalf hlayer
        refine .inr ⟨?_, ?_⟩
        · simpa only [Layout.address, hstart] using hquery
        · refine hquery'.trans_le ?_
          simp only [Layout.addressStop, pageAddress]
          exact Nat.add_le_add_left (Nat.mul_le_mul_right _ hbelow.2.2) _

/-! ## A whole allocation -/

/-- The search stops at the deepest layer with a free block, or at the root. -/
theorem searchLayer_spec (hrep : Represents layout memory free live) {target : ℕ}
    (htarget : target ≤ layout.depth) :
    searchLayer memory layout.alloc target ≤ target ∧
      (∀ layer ≤ target, searchLayer memory layout.alloc target < layer →
        freeAt free layer = []) ∧
      (searchLayer memory layout.alloc target = 0 ∨
        freeAt free (searchLayer memory layout.alloc target) ≠ []) :=
  (freeBlocks_of_represents hrep).searchLayer_spec (Nat.lt_succ_of_le htarget)

/-- What `buddy_alloc` does for a target layer: either no list down to it has
a block and nothing changes, or one free block `top` gives the block at its
start of the target layer, and the rest of `top` becomes free. -/
theorem buddyAllocLayer_represents (hrep : Represents layout memory free live) {target : ℕ}
    (htarget : target ≤ layout.depth) :
    (buddyAllocLayer memory layout.alloc target = (0, memory) ∧
      ∀ layer ≤ target, freeAt free layer = []) ∨
    ∃ top free', top ∈ free ∧ top.layer ≤ target ∧
      top.layer = searchLayer memory layout.alloc target ∧
      (buddyAllocLayer memory layout.alloc target).1 = layout.address (top.leftmost target) ∧
      Represents layout (buddyAllocLayer memory layout.alloc target).2 free'
        (top.leftmost target :: live) ∧
      UnchangedOutside memory (buddyAllocLayer memory layout.alloc target).2
        (Touches layout top) := by
  obtain ⟨hle, hempty, hfound⟩ := searchLayer_spec hrep htarget
  simp only [buddyAllocLayer, hrep.slot_eq]
  generalize searchLayer memory layout.alloc target = layer at *
  cases hlist : freeAt free layer with
  | nil =>
      left
      have hroot : layer = 0 := by
        rcases hfound with hroot | hne
        · exact hroot
        · exact absurd hlist hne
      subst hroot
      have hstack := hrep.lists 0 (Nat.zero_le _)
      rw [hlist, List.map_nil] at hstack
      rw [freelistPop_nil hstack]
      refine ⟨by simp, fun layer hlayer => ?_⟩
      rcases Nat.eq_zero_or_pos layer with rfl | hpos
      · exact hlist
      · exact hempty layer hlayer hpos
  | cons top rest =>
      right
      have hmem : top ∈ freeAt free layer := hlist ▸ List.mem_cons_self
      obtain ⟨hfree, rfl⟩ := mem_freeAt.mp hmem
      have hvalid := hrep.valid_free hfree
      have hslot := layout.slot_bounds hvalid.1
      obtain ⟨hptr, hpopped⟩ := pop_represents hrep hlist
      have hsplit := splitLoop_represents hpopped (target - top.layer) (by omega)
      rw [show top.layer + (target - top.layer) = target by omega] at hsplit
      obtain ⟨⟨free', hrep'⟩, hchange⟩ := hsplit
      have hindex := toIndex_pageAddress hvalid layout.room.le
      have hstart : layout.address (top.leftmost target) = layout.address top := by
        simp only [Layout.address, Block.start_leftmost hle htarget]
      refine ⟨top, free', hfree, hle, rfl, ?_⟩
      rw [hptr, if_neg (layout.address_pos top), hpopped.begin_eq, hpopped.root_eq]
      simp only [Layout.address] at hstart ⊢
      rw [hindex]
      refine ⟨hstart.symm, hrep', UnchangedOutside.trans ?_ hchange⟩
      apply (freelistPop_unchangedOutside _ _).mono
      rintro query ⟨hlower, hupper⟩
      have hbits := layout.bitmap_le
      exact .inl ⟨by omega, by omega⟩

theorem depth_lt (layout : Layout) : layout.depth < 64 := by
  have hroom := layout.room
  simp only [pageAddress, pageSize] at hroom
  by_contra hdepth
  have hpow : 2 ^ 64 ≤ 2 ^ layout.depth := Nat.pow_le_pow_right (by norm_num) (by omega)
  simp only [wordSize] at hroom
  omega

/-- Every request for at least one page has a target layer inside the tree. -/
theorem bestFitLayer_eq_some (layout : Layout) {pages : ℕ} (hpages : 1 ≤ pages) :
    ∃ target ≤ layout.depth, bestFitLayer pages (2 ^ layout.depth) = some target :=
  ⟨_, clog_div_le layout.depth pages, bestFitLayer_eq_clog hpages (depth_lt layout)⟩

theorem buddyAlloc_eq (hheader : Header layout memory) {pages target : ℕ}
    (htarget : bestFitLayer pages (2 ^ layout.depth) = some target) :
    buddyAlloc memory layout.alloc pages =
      some (buddyAllocLayer memory layout.alloc target) := by
  have hpos := layout.alloc_pos
  simp only [buddyAlloc, if_neg hpos.ne', hheader.root_eq, htarget, Option.map_some]

/-! ## A whole free -/

/-- From a leaf at the block's start the search stops at the block, when the
block is a left half or the root. -/
theorem findBlock_eq (hrep : Represents layout memory free live) {block : Block}
    (hmem : block ∈ live ++ free) (heven : block.index % 2 = 0) {layer : ℕ}
    (hlower : block.layer ≤ layer) (hupper : layer ≤ layout.depth) :
    findBlock memory layout.bitmap layer (block.leftmost layer).index =
      (block.layer, block.index) := by
  induction layer, hlower using Nat.le_induction with
  | base =>
      rw [Block.leftmost_self]
      cases hlayer : block.layer with
      | zero => rfl
      | succ layer =>
          have hbit := hrep.even_bit block hmem heven
          rw [nodeBit, hlayer] at hbit
          simp only [findBlock, hbit, Bool.false_eq_true, if_false]
  | succ layer hlayer ih =>
      have hvalid := hrep.valid hmem
      have hbit := hrep.below_bit block hmem (block.leftmost (layer + 1))
        (hvalid.leftmost (by omega) hupper) (Block.below_leftmost (by omega) hupper)
      change buddyGet memory layout.bitmap (layer + 1) (block.leftmost (layer + 1)).index = true
        at hbit
      simp only [findBlock]
      rw [if_pos hbit, Block.leftmost_index_half hlayer]
      exact ih (by omega)

/-- The buddy of a left half keeps the merge loop from starting. -/
theorem mergeLoop_eq (hheader : Header layout memory)
    (hodd : ∀ node : Block, node.Valid layout.depth → node.index % 2 = 1 →
      nodeBit memory layout.bitmap node = true)
    {block : Block} (hvalid : block.Valid layout.depth) (heven : block.index % 2 = 0) :
    mergeLoop layout.alloc block.layer block.index memory =
      (block.layer, block.index, memory) := by
  cases hlayer : block.layer with
  | zero => rfl
  | succ layer =>
      have hindex := hvalid.2
      rw [hlayer, pow_succ] at hindex
      have hbuddy := hodd ⟨layer + 1, block.index + 1⟩
        ⟨hlayer ▸ hvalid.1, by simp only [pow_succ]; omega⟩ (by simp only; omega)
      rw [nodeBit] at hbuddy
      simp only [mergeLoop, hheader.bitmap_eq,
        Nat.xor_one_of_even (Nat.even_iff.mpr heven)]
      rw [if_pos hbuddy]

/-- Clearing a bit that is clear already changes no bit. -/
theorem buddyUnset_represents (hrep : Represents layout memory free live) {block : Block}
    (hmem : block ∈ live ++ free) (heven : block.index % 2 = 0) :
    Represents layout (buddyUnset memory layout.bitmap block.layer block.index) free live := by
  have hvalid := hrep.valid hmem
  have hchange := buddyUnset_unchangedOutside memory layout.bitmap hvalid layout.capacity
  have hheader := layout.header_le
  have hlist := layout.freelist_le
  have hbits := layout.bitmap_le
  have hnodeBit : ∀ node : Block, node.Valid layout.depth →
      nodeBit (buddyUnset memory layout.bitmap block.layer block.index) layout.bitmap node =
        nodeBit memory layout.bitmap node := by
    intro node hnode
    rw [nodeBit_buddyUnset hvalid hnode]
    by_cases hsame : block = node
    · subst hsame
      simp [hrep.even_bit block hmem heven]
    · simp [hsame]
  refine
    { hrep.toHeader.frame (hchange.agreeOn fun query hlower hupper => by omega) with
      lists := ?_
      tiling := hrep.tiling
      odd_bit := fun node hnode hodd => (hnodeBit node hnode).trans (hrep.odd_bit node hnode hodd)
      even_bit := fun other hother hparity =>
        (hnodeBit other (hrep.valid hother)).trans (hrep.even_bit other hother hparity)
      below_bit := fun other hother node hnode hbelow =>
        (hnodeBit node hnode).trans (hrep.below_bit other hother node hnode hbelow) }
  intro layer hlayer
  have hslot := layout.slot_bounds hlayer
  apply lists_frame (hrep.lists layer hlayer)
  · exact hchange.agreeOn fun query hlower hupper => by omega
  · intro node hnode
    have := layout.begin_le_address node
    exact hchange.agreeOn fun query hlower hupper => by omega

theorem toInt_of_lt {value : ℕ} (hvalue : value < 2 ^ 31) : toInt value = some value :=
  if_pos hvalue

theorem leafLayer_eq {depth : ℕ} (hdepth : depth < 64) :
    (depth + 1 + wordSize - 1) % wordSize = depth := by
  rw [Nat.add_right_comm, Nat.add_sub_cancel, Nat.add_mod_right]
  exact Nat.mod_eq_of_lt (hdepth.trans (by norm_num))

/-- The leaf that starts at a page has the page's number. -/
theorem toIndex_leaf {begin_ depth page : ℕ} (hpage : page < 2 ^ depth)
    (hroom : pageAddress begin_ (2 ^ depth) ≤ wordSize) :
    toIndex begin_ depth (pageAddress begin_ page) (2 ^ depth) = page := by
  have hleaf : Block.start depth ⟨depth, page⟩ = page := by
    simp [Block.start, Block.size]
  have hnode := toIndex_pageAddress (show Block.Valid depth ⟨depth, page⟩ from ⟨le_rfl, hpage⟩)
    hroom
  rwa [hleaf] at hnode

/-- `buddy_free` starts at the leaf of the freed page. -/
theorem buddyFree_eq (hheader : Header layout memory) {page : ℕ} (hpage : page < 2 ^ layout.depth)
    (hint : page < 2 ^ 31) :
    buddyFree memory layout.alloc (pageAddress layout.begin_ page) =
      some (buddyFreeLeaf memory layout.alloc layout.depth page) := by
  have hdepth := depth_lt layout
  have hindex := toIndex_leaf hpage layout.room.le
  have hlayer : toInt layout.depth = some layout.depth :=
    toInt_of_lt (hdepth.trans (by norm_num))
  have hpageInt : toInt page = some page := toInt_of_lt hint
  rw [buddyFree, if_neg layout.alloc_pos.ne', hheader.layers_eq, hheader.begin_eq,
    hheader.root_eq, leafLayer_eq hdepth, hlayer, Option.bind_eq_bind, Option.bind_some, hindex,
    hpageInt, Option.bind_some, Option.pure_def]

/-- For a left half or the root, `buddy_free` clears a clear bit and pushes the block. -/
theorem buddyFreeLeaf_eq (hrep : Represents layout memory free live) {block : Block}
    (hmem : block ∈ live ++ free) (heven : block.index % 2 = 0) :
    buddyFreeLeaf memory layout.alloc layout.depth (block.start layout.depth) =
      freelistPush (buddyUnset memory layout.bitmap block.layer block.index)
        (layout.slot block.layer) (layout.address block) := by
  have hvalid := hrep.valid hmem
  have hclear := buddyUnset_represents hrep hmem heven
  have hfind := findBlock_eq hrep hmem heven hvalid.1 le_rfl
  have hleaf : (block.leftmost layout.depth).index = block.start layout.depth := rfl
  have hmerge := mergeLoop_eq hclear.toHeader hclear.odd_bit hvalid heven
  have hptr := toPointer_eq hvalid layout.room.le
  rw [hleaf] at hfind
  simp only [buddyFreeLeaf, hrep.bitmap_eq, hfind, hmerge]
  rw [hclear.slot_eq, hclear.begin_eq, hclear.root_eq, hptr]
  rfl

/-- What `buddy_free` does to a live block that is a left half or the root:
the block becomes free and nothing else changes. -/
theorem buddyFree_represents {block : Block}
    (hrep : Represents layout memory free (block :: live)) (heven : block.index % 2 = 0)
    (hint : block.start layout.depth < 2 ^ 31) :
    ∃ memory', buddyFree memory layout.alloc (layout.address block) = some memory' ∧
      Represents layout memory' (block :: free) live ∧
      UnchangedOutside memory memory' (Touches layout block) := by
  have hmem : block ∈ block :: live ++ free := List.mem_append_left _ List.mem_cons_self
  have hvalid := hrep.valid hmem
  have hslot := layout.slot_bounds hvalid.1
  have hbits := layout.bitmap_le
  have hheader := layout.header_le
  have hlist := layout.freelist_le
  have hclear := buddyUnset_represents hrep hmem heven
  have hstart := (block.start_lt_stop layout.depth).trans_le (Block.stop_le hvalid)
  have hfree := buddyFree_eq hrep.toHeader hstart hint
  rw [buddyFreeLeaf_eq hrep hmem heven] at hfree
  have hpage := layout.address_add_le block
  simp only [pageSize] at hpage
  have hunset := buddyUnset_unchangedOutside memory layout.bitmap hvalid layout.capacity
  have hpush := freelistPush_unchangedOutside
    (buddyUnset memory layout.bitmap block.layer block.index) (layout.slot block.layer)
    (layout.address block)
  refine ⟨_, hfree, release_represents hclear, (hunset.mono ?_).trans (hpush.mono ?_)⟩
  · rintro query ⟨hlower, hupper⟩
    exact .inl ⟨by omega, by omega⟩
  · rintro query (⟨hlower, hupper⟩ | ⟨hlower, hupper⟩)
    · exact .inl ⟨by omega, by omega⟩
    · exact .inr ⟨by omega, by omega⟩

end DoomsdayModules.BuddyMoves
