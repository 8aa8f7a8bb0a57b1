import DoomsdayModules.Malloc.Buddy

/-!
# What the buddy allocator's memory represents

The abstract state of a buddy allocator is a list of free blocks and a list of
live blocks.  `Represents` says that a memory holds such a state: the header
fields, one well-formed free list for each layer, a tiling of the managed
pages by the free and the live blocks, and the bits.  A block's own bit is the
parity of its index and every bit below it is set, as the split loop leaves
them.

Each operation is a small number of moves of the abstract state: a pop makes a
free block live, a split halves a live block, a release makes a live block
free again.
-/

namespace DoomsdayModules.BuddyInvariant

open DoomsdayModules.ByteMemory DoomsdayModules.Util DoomsdayModules.BuddyUtil
open DoomsdayModules.IntrusiveStack DoomsdayModules.Freelist
open DoomsdayModules.DyadicBlocks DoomsdayModules.Buddy

/-- Where a pool with room for its metadata keeps it. -/
structure Layout where
  alloc : ℕ
  freelist : ℕ
  bitmap : ℕ
  bitmapBytes : ℕ
  begin_ : ℕ
  depth : ℕ
  alloc_pos : 0 < alloc
  header_le : alloc + sizeofBuddyAlloc ≤ freelist
  freelist_le : freelist + 8 * (depth + 1) ≤ bitmap
  bitmap_le : bitmap + bitmapBytes ≤ begin_
  capacity : 2 ^ (depth + 1) ≤ 8 * bitmapBytes
  room : pageAddress begin_ (2 ^ depth) < wordSize

namespace Layout

variable (layout : Layout)

/-- Address of a block's first byte. -/
def address (block : Block) : ℕ := pageAddress layout.begin_ (block.start layout.depth)

/-- Address past a block's last byte. -/
def addressStop (block : Block) : ℕ := pageAddress layout.begin_ (block.stop layout.depth)

/-- The allocator's header, free-list heads and bitmap. -/
def IsMetadata (query : ℕ) : Prop := layout.alloc ≤ query ∧ query < layout.begin_

def InBlock (block : Block) (query : ℕ) : Prop :=
  layout.address block ≤ query ∧ query < layout.addressStop block

def slot (layer : ℕ) : ℕ := layout.freelist + 8 * layer

theorem begin_le_address (block : Block) : layout.begin_ ≤ layout.address block := by
  simp only [address, pageAddress]
  omega

theorem address_pos (block : Block) : layout.address block ≠ 0 := by
  have := layout.begin_le_address block
  have := layout.alloc_pos
  have := layout.header_le
  have := layout.freelist_le
  have := layout.bitmap_le
  omega

theorem address_add_le (block : Block) :
    layout.address block + pageSize ≤ layout.addressStop block := by
  have := block.start_lt_stop layout.depth
  simp only [address, addressStop, pageAddress, pageSize]
  omega

theorem addressStop_lt {block : Block} (hvalid : block.Valid layout.depth) :
    layout.addressStop block < wordSize := by
  have hstop := Block.stop_le hvalid
  have hroom := layout.room
  simp only [addressStop, pageAddress, pageSize] at hroom ⊢
  exact lt_of_le_of_lt (Nat.add_le_add_left (Nat.mul_le_mul_right _ hstop) _) hroom

theorem address_lt {block : Block} (hvalid : block.Valid layout.depth) :
    layout.address block < wordSize := by
  have hpage : layout.address block < layout.addressStop block :=
    lt_of_lt_of_le (by norm_num [pageSize]) (layout.address_add_le block)
  exact hpage.trans (layout.addressStop_lt hvalid)

/-- Blocks that share no page share no byte. -/
theorem addressStop_le_of_apart {left right : Block}
    (hapart : Block.Apart layout.depth left right) :
    layout.addressStop left ≤ layout.address right ∨
      layout.addressStop right ≤ layout.address left := by
  simp only [Block.Apart] at hapart
  simp only [addressStop, address, pageAddress, pageSize]
  omega

theorem slot_bounds {layer : ℕ} (hlayer : layer ≤ layout.depth) :
    layout.alloc + sizeofBuddyAlloc ≤ layout.slot layer ∧
      layout.slot layer + 8 ≤ layout.bitmap := by
  have := layout.header_le
  have := layout.freelist_le
  simp only [slot]
  omega

end Layout

/-- The free blocks of one layer, in list order. -/
def freeAt (free : List Block) (layer : ℕ) : List Block :=
  free.filter fun block => block.layer = layer

theorem mem_freeAt {free : List Block} {layer : ℕ} {block : Block} :
    block ∈ freeAt free layer ↔ block ∈ free ∧ block.layer = layer := by
  simp [freeAt]

theorem freeAt_cons_same (free : List Block) (block : Block) :
    freeAt (block :: free) block.layer = block :: freeAt free block.layer := by
  simp [freeAt]

theorem freeAt_cons_of_ne {free : List Block} {block : Block} {layer : ℕ}
    (hne : block.layer ≠ layer) : freeAt (block :: free) layer = freeAt free layer := by
  simp [freeAt, hne]

theorem freeAt_erase (free : List Block) (block : Block) (layer : ℕ) :
    freeAt (free.erase block) layer = (freeAt free layer).erase block := by
  simp [freeAt, List.erase_filter]

/-- The words of the `buddy_alloc_t`. -/
structure Header (layout : Layout) (memory : Memory) : Prop where
  bitmap_eq : bitmap memory layout.alloc = layout.bitmap
  freelist_eq : freelist memory layout.alloc = layout.freelist
  layers_eq : buddyLayers memory layout.alloc = layout.depth + 1
  root_eq : rootBlockSize memory layout.alloc = 2 ^ layout.depth
  begin_eq : poolBegin memory layout.alloc = layout.begin_

/-- The memory holds a buddy allocator with these free and live blocks. -/
structure Represents (layout : Layout) (memory : Memory) (free live : List Block) : Prop
    extends Header layout memory where
  lists : ∀ layer ≤ layout.depth, IsStack memory (readWord memory (layout.slot layer))
    ((freeAt free layer).map layout.address)
  tiling : Tiling layout.depth (live ++ free)
  odd_bit : ∀ node : Block, node.Valid layout.depth → node.index % 2 = 1 →
    nodeBit memory layout.bitmap node = true
  even_bit : ∀ block ∈ live ++ free, block.index % 2 = 0 →
    nodeBit memory layout.bitmap block = false
  below_bit : ∀ block ∈ live ++ free, ∀ node : Block, node.Valid layout.depth →
    Block.Below layout.depth block node → nodeBit memory layout.bitmap node = true

theorem Header.slot_eq {layout : Layout} {memory : Memory} (hheader : Header layout memory)
    (layer : ℕ) : freelistSlot memory layout.alloc layer = layout.slot layer := by
  simp only [freelistSlot, Layout.slot, hheader.freelist_eq]

theorem Header.frame {layout : Layout} {memory memory' : Memory}
    (hheader : Header layout memory)
    (hagree : AgreeOn memory memory' layout.alloc (layout.alloc + sizeofBuddyAlloc)) :
    Header layout memory' := by
  have hfield : ∀ offset, offset + 8 ≤ sizeofBuddyAlloc →
      readWord memory' (layout.alloc + offset) = readWord memory (layout.alloc + offset) :=
    fun offset hoffset => readWord_congr (hagree.mono (by omega) (by omega))
  simp only [sizeofBuddyAlloc] at hfield
  exact
    { bitmap_eq := (hfield 0 (by omega)).trans hheader.bitmap_eq
      freelist_eq := (hfield 8 (by omega)).trans hheader.freelist_eq
      layers_eq := (hfield 16 (by omega)).trans hheader.layers_eq
      root_eq := (hfield 32 (by omega)).trans hheader.root_eq
      begin_eq := (hfield 40 (by omega)).trans hheader.begin_eq }

/-- Free lists whose words and nodes are untouched are as they were. -/
theorem lists_frame {layout : Layout} {memory memory' : Memory} {free : List Block} {layer : ℕ}
    (hlist : IsStack memory (readWord memory (layout.slot layer))
      ((freeAt free layer).map layout.address))
    (hslot : AgreeOn memory memory' (layout.slot layer) (layout.slot layer + 8))
    (hnodes : ∀ block ∈ freeAt free layer,
      AgreeOn memory memory' (layout.address block) (layout.address block + 8)) :
    IsStack memory' (readWord memory' (layout.slot layer))
      ((freeAt free layer).map layout.address) := by
  rw [readWord_congr hslot]
  apply hlist.frame
  intro node hnode
  obtain ⟨block, hblock, rfl⟩ := List.mem_map.mp hnode
  exact readWord_congr (hnodes block hblock)

namespace Represents

variable {layout : Layout} {memory : Memory} {free live : List Block}

theorem valid (hrep : Represents layout memory free live) {block : Block}
    (hmem : block ∈ live ++ free) : block.Valid layout.depth :=
  hrep.tiling.valid block hmem

theorem valid_free (hrep : Represents layout memory free live) {block : Block}
    (hmem : block ∈ free) : block.Valid layout.depth :=
  hrep.valid (List.mem_append_right _ hmem)

/-- The order in which the live blocks are listed does not matter. -/
theorem perm_live (hrep : Represents layout memory free live) {live' : List Block}
    (hperm : live.Perm live') : Represents layout memory free live' :=
  { hrep with
    tiling := hrep.tiling.perm (hperm.append_right free)
    even_bit := fun block hmem =>
      hrep.even_bit block ((hperm.append_right free).mem_iff.mpr hmem)
    below_bit := fun block hmem =>
      hrep.below_bit block ((hperm.append_right free).mem_iff.mpr hmem) }

/-- A byte of a live block is neither metadata nor in a free block. -/
theorem live_byte (hrep : Represents layout memory free live) {block : Block}
    (hmem : block ∈ live) {query : ℕ} (hquery : layout.InBlock block query) :
    ¬ layout.IsMetadata query ∧ ∀ other ∈ free, ¬ layout.InBlock other query := by
  have hbegin := layout.begin_le_address block
  obtain ⟨hlower, hupper⟩ := hquery
  refine ⟨fun hmeta => ?_, fun other hother hinside => ?_⟩
  · have := hmeta.2
    omega
  · have hperm := (List.perm_cons_erase hmem).append_right free
    have hapart := (hrep.tiling.perm hperm).apart (List.mem_append_right _ hother)
    have := layout.addressStop_le_of_apart hapart
    have := hinside.1
    have := hinside.2
    omega

/-- A change that spares the metadata and the free blocks goes unnoticed. -/
theorem frame (hrep : Represents layout memory free live) {memory' : Memory}
    (hchange : UnchangedOutside memory memory' fun query =>
      ¬ layout.IsMetadata query ∧ ∀ block ∈ free, ¬ layout.InBlock block query) :
    Represents layout memory' free live := by
  have hmeta : AgreeOn memory memory' layout.alloc layout.begin_ :=
    hchange.agreeOn fun query hlower hupper hregion => hregion.1 ⟨hlower, hupper⟩
  have hheader := layout.header_le
  have hlist := layout.freelist_le
  have hbits := layout.bitmap_le
  have hnodeBit : ∀ node : Block, node.Valid layout.depth →
      nodeBit memory' layout.bitmap node = nodeBit memory layout.bitmap node :=
    fun node hvalid => nodeBit_congr hvalid layout.capacity (hmeta.mono (by omega) (by omega))
  refine
    { hrep.toHeader.frame (hmeta.mono le_rfl (by omega)) with
      lists := ?_
      tiling := hrep.tiling
      odd_bit := fun node hvalid hodd =>
        (hnodeBit node hvalid).trans (hrep.odd_bit node hvalid hodd)
      even_bit := fun block hmem heven =>
        (hnodeBit block (hrep.valid hmem)).trans (hrep.even_bit block hmem heven)
      below_bit := fun block hmem node hvalid hbelow =>
        (hnodeBit node hvalid).trans (hrep.below_bit block hmem node hvalid hbelow) }
  intro layer hlayer
  have hslot := layout.slot_bounds hlayer
  apply lists_frame (hrep.lists layer hlayer) (hmeta.mono (by omega) (by omega))
  intro block hblock
  have hfree := (mem_freeAt.mp hblock).1
  have hpage := layout.address_add_le block
  apply hchange.agreeOn
  intro query hlower hupper hregion
  simp only [pageSize] at hpage
  exact hregion.2 block hfree ⟨hlower, by omega⟩

end Represents

end DoomsdayModules.BuddyInvariant
