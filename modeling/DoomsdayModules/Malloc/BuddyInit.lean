import DoomsdayModules.Malloc.BuddyMoves

/-!
# A fresh buddy allocator

`buddy_init` computes the number of layers and the size of the root block
twice, before and after it places its metadata, and reserves the free-list
heads and the bitmap from the first computation but uses them by the second.
`WellSized` says that the entries in use exist and are initialised; a fresh
allocator that is well sized represents one free root block.
-/

namespace DoomsdayModules.BuddyInit

open DoomsdayModules.ByteMemory DoomsdayModules.Util DoomsdayModules.BuddyUtil
open DoomsdayModules.IntrusiveStack DoomsdayModules.Freelist
open DoomsdayModules.DyadicBlocks DoomsdayModules.Buddy DoomsdayModules.BuddyInvariant

/-- Every layer has an initialised free list and every node an initialised bit. -/
def WellSized (memory : Memory) (alloc : ℕ) : Prop :=
  ∃ depth, rootBlockSize memory alloc = 2 ^ depth ∧ depth < buddyLayers memory alloc ∧
    2 ^ (depth + 1) ≤ 8 * buddyBitmapSize (blocksCount memory alloc)

/-- What `buddy_update_params` leaves in the header. -/
structure Params (memory : Memory) (alloc count : ℕ) : Prop where
  count_eq : blocksCount memory alloc = count
  root_eq : maxLowerPowerOf2 count = some (rootBlockSize memory alloc)
  layers_eq : log2Upper count = some (buddyLayers memory alloc)

theorem log2Upper_lt {size layers : ℕ} (hresult : log2Upper size = some layers)
    (hsize : size < 2 ^ 63) : layers < 64 := by
  rw [log2Upper_eq_clog hsize.le] at hresult
  have := Nat.clog_le_of_le_pow (b := 2) hsize.le
  simp only [Option.some.injEq] at hresult
  omega

theorem buddyUpdateParams_spec {memory memory' : Memory} {alloc begin_ end_ : ℕ}
    (hupdate : buddyUpdateParams memory alloc begin_ end_ = some memory') :
    Params memory' alloc (pagesCount begin_ end_) ∧ pagesCount begin_ end_ < 2 ^ 63 ∧
      UnchangedOutside memory memory' fun query => alloc + 16 ≤ query ∧ query < alloc + 40 := by
  have hcountLt := pagesCount_lt begin_ end_
  have hcount : blocksCount (writeWord memory (alloc + 24) (pagesCount begin_ end_)) alloc =
      pagesCount begin_ end_ := readWord_writeWord_same hcountLt
  simp only [buddyUpdateParams, hcount, Option.bind_eq_bind, Option.bind_eq_some_iff] at hupdate
  obtain ⟨root, hroot, layers, hlayers, hresult⟩ := hupdate
  have hcount' : blocksCount (writeWord (writeWord memory (alloc + 24) (pagesCount begin_ end_))
      (alloc + 32) root) alloc = pagesCount begin_ end_ :=
    (readWord_writeWord_of_disjoint (.inl (by omega))).trans hcount
  rw [hcount'] at hlayers
  obtain ⟨exponent, hexponent, rfl, hupper, -⟩ := maxLowerPowerOf2_spec hroot
  have hsmall : pagesCount begin_ end_ < 2 ^ 63 :=
    hupper.trans_le (Nat.pow_le_pow_right (by norm_num) hexponent)
  have hlayersLt := log2Upper_lt hlayers hsmall
  have hrootLt : 2 ^ exponent < 2 ^ 64 := Nat.pow_lt_pow_right (by norm_num) (by omega)
  simp only [Option.pure_def, Option.some.injEq] at hresult
  subst hresult
  refine ⟨⟨?_, ?_, ?_⟩, hsmall, ?_⟩
  · exact (readWord_writeWord_of_disjoint (.inr (by omega))).trans hcount'
  · rw [hroot]
    exact congrArg some ((readWord_writeWord_of_disjoint (.inr (by omega))).trans
      (readWord_writeWord_same hrootLt)).symm
  · rw [hlayers]
    exact congrArg some (readWord_writeWord_same (by omega)).symm
  · intro query houtside
    rw [writeWord_of_outside (by omega), writeWord_of_outside (by omega),
      writeWord_of_outside (by omega)]

/-- Whether the parameters can be computed depends on the addresses only. -/
theorem buddyUpdateParams_defined {memory memory' : Memory} {alloc begin_ end_ : ℕ}
    (hupdate : buddyUpdateParams memory alloc begin_ end_ = some memory') (other : Memory) :
    ∃ other', buddyUpdateParams other alloc begin_ end_ = some other' := by
  obtain ⟨hparams, -, -⟩ := buddyUpdateParams_spec hupdate
  have hcount : blocksCount (writeWord other (alloc + 24) (pagesCount begin_ end_)) alloc =
      pagesCount begin_ end_ := readWord_writeWord_same (pagesCount_lt begin_ end_)
  have hcount' : ∀ root, blocksCount (writeWord (writeWord other (alloc + 24)
      (pagesCount begin_ end_)) (alloc + 32) root) alloc = pagesCount begin_ end_ := fun root =>
    (readWord_writeWord_of_disjoint (.inl (by omega))).trans hcount
  simp only [buddyUpdateParams, hcount, hparams.root_eq, hcount', hparams.layers_eq,
    Option.bind_eq_bind, Option.bind_some]
  exact ⟨_, rfl⟩

/-! ## Placement -/

/-- Fewer pages need no more layers. -/
theorem log2Upper_mono {small large few many : ℕ} (hle : small ≤ large)
    (hfew : log2Upper small = some few) (hmany : log2Upper large = some many) : few ≤ many := by
  by_contra hgt
  have hupper := (log2Upper_spec hmany).1
  have hlower := (log2Upper_spec hfew).2 many (by omega)
  omega

theorem buddyBitmapSize_mono {small large : ℕ} (hle : small ≤ large) :
    buddyBitmapSize small ≤ buddyBitmapSize large := by
  simp only [buddyBitmapSize]
  omega

/-- The second page count, made for what the metadata of the first one leaves
of the pool, is no larger than the first, and its pages lie in the pool. -/
theorem placement {alloc end_ layers count count' : ℕ} (horder : alloc ≤ end_)
    (hend : end_ < wordSize) (hlayers : layers < 64)
    (hcount : pagesCount (alloc + sizeofBuddyAlloc) end_ = count) (hsmall : count < 2 ^ 63)
    (hcount' : pagesCount (alignAddrToPageSizeUp
      (alloc + sizeofBuddyAlloc + layers * 8 + buddyBitmapSize count))
      (alignAddrToPageSizeDown end_) = count') (hsmall' : count' < 2 ^ 63) :
    alloc + sizeofBuddyAlloc + layers * 8 + buddyBitmapSize count ≤
        alignAddrToPageSizeUp (alloc + sizeofBuddyAlloc + layers * 8 + buddyBitmapSize count) ∧
      alignAddrToPageSizeUp (alloc + sizeofBuddyAlloc + layers * 8 + buddyBitmapSize count) +
        count' * pageSize ≤ end_ ∧
      count' ≤ count := by
  subst hcount hcount'
  obtain ⟨hup, hle, hdiff⟩ := pagesCount_spec
    (by simp only [sizeofBuddyAlloc]; omega) hend hsmall
  have hmul := pagesCount_mul_of_le hle hdiff
  have hdown := alignAddrToPageSizeDown_le end_
  have hdownUp : end_ < alignAddrToPageSizeDown end_ + pageSize := by
    simp only [alignAddrToPageSizeDown, pageSize]
    omega
  have hbits : buddyBitmapSize (pagesCount (alloc + sizeofBuddyAlloc) end_) ≤
      pagesCount (alloc + sizeofBuddyAlloc) end_ + 1 := by
    simp only [buddyBitmapSize]
    omega
  generalize buddyBitmapSize (pagesCount (alloc + sizeofBuddyAlloc) end_) = bytes at *
  generalize pagesCount (alloc + sizeofBuddyAlloc) end_ = count at *
  have hstart : alignAddrToPageSizeUp (alloc + sizeofBuddyAlloc + layers * 8 + bytes) < wordSize ∧
      (alloc + sizeofBuddyAlloc + layers * 8 + bytes <
          alignAddrToPageSizeUp (alloc + sizeofBuddyAlloc + layers * 8 + bytes) ∧
        alignAddrToPageSizeUp (alloc + sizeofBuddyAlloc + layers * 8 + bytes) ≤
          alloc + sizeofBuddyAlloc + layers * 8 + bytes + pageSize ∨
        alignAddrToPageSizeUp (alloc + sizeofBuddyAlloc + layers * 8 + bytes) + wordSize ≤
          alloc + sizeofBuddyAlloc + layers * 8 + bytes + pageSize) := by
    simp only [alignAddrToPageSizeUp, pageSize, wordSize, sizeofBuddyAlloc] at *
    omega
  have hpad : alignAddrToPageSizeUp (alloc + sizeofBuddyAlloc) ≤
      alloc + sizeofBuddyAlloc + pageSize := by
    omega
  have hfirst := alignAddrToPageSizeUp_mod (alloc + sizeofBuddyAlloc)
  have hsecond := alignAddrToPageSizeUp_mod (alloc + sizeofBuddyAlloc + layers * 8 + bytes)
  generalize alignAddrToPageSizeUp (alloc + sizeofBuddyAlloc + layers * 8 + bytes) = start at *
  have horder' : start ≤ alignAddrToPageSizeDown end_ + 2 ^ 62 := by
    simp only [sizeofBuddyAlloc, pageSize, wordSize] at *
    omega
  obtain ⟨hup', hle', hdiff'⟩ := pagesCount_spec horder' (by omega) hsmall'
  have hmul' := pagesCount_mul_of_le hle' hdiff'
  have hdown' : alignAddrToPageSizeDown (alignAddrToPageSizeDown end_) =
      alignAddrToPageSizeDown end_ := by
    simp only [alignAddrToPageSizeDown, pageSize]
    omega
  rw [hdown'] at hmul' hle' hdiff'
  generalize alignAddrToPageSizeDown end_ = stop at *
  generalize pagesCount start stop = count' at *
  generalize alignAddrToPageSizeUp start = first' at *
  generalize alignAddrToPageSizeUp (alloc + sizeofBuddyAlloc) = first at *
  simp only [sizeofBuddyAlloc, pageSize, wordSize] at *
  omega

/-- Pages that are counted before the metadata is placed. -/
def firstCount (begin_ end_ : ℕ) : ℕ := pagesCount (begin_ + sizeofBuddyAlloc) end_

/-- Where the bitmap is, behind the header and the free-list heads. -/
def bitmapBegin (begin_ end_ : ℕ) : ℕ :=
  begin_ + sizeofBuddyAlloc + Nat.clog 2 (firstCount begin_ end_) * 8

/-- First address past the metadata. -/
def metadataEnd (begin_ end_ : ℕ) : ℕ :=
  bitmapBegin begin_ end_ + buddyBitmapSize (firstCount begin_ end_)

/-- Address of the first managed page. -/
def managedBegin (begin_ end_ : ℕ) : ℕ := alignAddrToPageSizeUp (metadataEnd begin_ end_)

/-- Pages that are counted behind the metadata. -/
def managedPages (begin_ end_ : ℕ) : ℕ :=
  pagesCount (managedBegin begin_ end_) (alignAddrToPageSizeDown end_)

/-- The header before the lists are initialised. -/
structure Placed (begin_ end_ : ℕ) (memory : Memory) : Prop where
  params : Params memory begin_ (managedPages begin_ end_)
  freelist_eq : freelist memory begin_ = begin_ + sizeofBuddyAlloc
  bitmap_eq : bitmap memory begin_ = bitmapBegin begin_ end_

/-- The metadata and the managed pages lie in the pool, one behind the other. -/
structure PoolCut (begin_ end_ : ℕ) : Prop where
  enough : 16 ≤ pagesCount begin_ end_
  first_lt : firstCount begin_ end_ < 2 ^ 63
  managed_lt : managedPages begin_ end_ < 2 ^ 63
  metadata_le : metadataEnd begin_ end_ ≤ managedBegin begin_ end_
  pool_le : managedBegin begin_ end_ + managedPages begin_ end_ * pageSize ≤ end_
  fewer : managedPages begin_ end_ ≤ firstCount begin_ end_

/-- A pool that `buddy_init` accepts, and the memory it initialises the lists in. -/
theorem buddyInit_placed {memory memory' : Memory} {begin_ end_ alloc : ℕ}
    (horder : begin_ ≤ end_) (hend : end_ < wordSize)
    (hinit : buddyInit memory begin_ end_ = some (alloc, memory')) (halloc : alloc ≠ 0) :
    alloc = begin_ ∧ PoolCut begin_ end_ ∧ ∃ placed, Placed begin_ end_ placed ∧
      memory' = buddyInitLists placed begin_ (managedBegin begin_ end_) ∧
      UnchangedOutside memory placed fun query =>
        begin_ ≤ query ∧ query < begin_ + sizeofBuddyAlloc := by
  rw [buddyInit] at hinit
  split_ifs at hinit with hfew
  · simp only [Option.some.injEq, Prod.mk.injEq] at hinit
    exact absurd hinit.1.symm halloc
  simp only [Option.bind_eq_bind, Option.bind_eq_some_iff, Option.pure_def, Option.some.injEq,
    Prod.mk.injEq] at hinit
  obtain ⟨memory₁, hupdate₁, memory₂, hupdate₂, rfl, rfl⟩ := hinit
  obtain ⟨hparams₁, hsmall₁, houtside₁⟩ := buddyUpdateParams_spec hupdate₁
  have hlayersEq : buddyLayers memory₁ begin_ = Nat.clog 2 (firstCount begin_ end_) := by
    have hlayers := hparams₁.layers_eq
    rw [log2Upper_eq_clog hsmall₁.le] at hlayers
    exact (Option.some.inj hlayers).symm
  have hlayers : ∀ value, buddyLayers (writeWord memory₁ (begin_ + 8) value) begin_ =
      Nat.clog 2 (firstCount begin_ end_) := fun _ =>
    (readWord_writeWord_of_disjoint (.inr (by omega))).trans hlayersEq
  have hcount : ∀ value value', blocksCount (writeWord (writeWord memory₁ (begin_ + 8) value)
      begin_ value') begin_ = firstCount begin_ end_ := fun _ _ =>
    (readWord_writeWord_of_disjoint (.inr (by omega))).trans
      ((readWord_writeWord_of_disjoint (.inr (by omega))).trans hparams₁.count_eq)
  refine ⟨rfl, ?_⟩
  simp only [hlayers, hcount] at hupdate₂ ⊢
  have hlayersLt := hlayersEq ▸ log2Upper_lt hparams₁.layers_eq hsmall₁
  obtain ⟨hparams₂, hsmall₂, houtside₂⟩ := buddyUpdateParams_spec hupdate₂
  obtain ⟨hup, hpool, hfewer⟩ := placement horder hend hlayersLt rfl hsmall₁ rfl hsmall₂
  have hcut : PoolCut begin_ end_ := ⟨by omega, hsmall₁, hsmall₂, hup, hpool, hfewer⟩
  have hroom : bitmapBegin begin_ end_ < wordSize := by
    have hmetadata := hcut.metadata_le
    have hpages := hcut.pool_le
    simp only [metadataEnd] at hmetadata
    omega
  have hfreelist : freelist memory₂ begin_ = begin_ + sizeofBuddyAlloc :=
    (readWord_congr (houtside₂.agreeOn fun query hlower hupper => by omega)).trans
      ((readWord_writeWord_of_disjoint (.inr (by omega))).trans
        (readWord_writeWord_same ((Nat.le_add_right _ _).trans_lt hroom)))
  have hbitmap : bitmap memory₂ begin_ = bitmapBegin begin_ end_ :=
    (readWord_congr (houtside₂.agreeOn fun query hlower hupper => by omega)).trans
      (readWord_writeWord_same hroom)
  refine ⟨hcut, memory₂, ⟨hparams₂, hfreelist, hbitmap⟩, rfl, ?_⟩
  intro query houtside
  simp only [sizeofBuddyAlloc] at houtside
  rw [houtside₂ query (by omega), writeWord_of_outside (by omega),
    writeWord_of_outside (by omega), houtside₁ query (by omega)]

/-! ## The fresh lists -/

/-- The header fields that are settled before the lists are initialised. -/
structure Settled (layout : Layout) (memory : Memory) : Prop where
  bitmap_eq : bitmap memory layout.alloc = layout.bitmap
  freelist_eq : freelist memory layout.alloc = layout.freelist
  layers_eq : buddyLayers memory layout.alloc = layout.depth + 1
  bytes_eq : buddyBitmapSize (blocksCount memory layout.alloc) = layout.bitmapBytes
  root_eq : rootBlockSize memory layout.alloc = 2 ^ layout.depth

theorem Settled.frame {layout : Layout} {memory memory' : Memory}
    (hsettled : Settled layout memory)
    (hagree : AgreeOn memory memory' layout.alloc (layout.alloc + 40)) :
    Settled layout memory' := by
  have hfield : ∀ offset, offset + 8 ≤ 40 →
      readWord memory' (layout.alloc + offset) = readWord memory (layout.alloc + offset) :=
    fun offset hoffset => readWord_congr (hagree.mono (by omega) (by omega))
  exact
    { bitmap_eq := (hfield 0 (by omega)).trans hsettled.bitmap_eq
      freelist_eq := (hfield 8 (by omega)).trans hsettled.freelist_eq
      layers_eq := (hfield 16 (by omega)).trans hsettled.layers_eq
      bytes_eq := (congrArg buddyBitmapSize (hfield 24 (by omega))).trans hsettled.bytes_eq
      root_eq := (hfield 32 (by omega)).trans hsettled.root_eq }

/-- Free-list heads all zero and bits all one. -/
def blank (layout : Layout) (memory : Memory) : Memory :=
  fill (fill memory layout.freelist 0 ((layout.depth + 1) * 8)) layout.bitmap 0xFF
    layout.bitmapBytes

theorem blank_unchangedOutside (layout : Layout) (memory : Memory) :
    UnchangedOutside memory (blank layout memory) fun query =>
      layout.freelist ≤ query ∧ query < layout.begin_ := by
  intro query houtside
  have := layout.freelist_le
  have := layout.bitmap_le
  rw [blank, fill_of_outside (by omega), fill_of_outside (by omega)]

def rootBlock : Block := ⟨0, 0⟩

theorem rootBlock_valid (depth : ℕ) : rootBlock.Valid depth := by
  simp [rootBlock, Block.Valid]

theorem address_rootBlock (layout : Layout) : layout.address rootBlock = layout.begin_ := by
  simp [Layout.address, rootBlock, Block.start, pageAddress]

/-- Initialising the lists reads header fields that it does not write. -/
theorem buddyInitLists_eq {memory : Memory} {alloc begin_ : ℕ}
    (hfreelist : alloc + 48 ≤ freelist memory alloc)
    (hbitmap : alloc + 48 ≤ bitmap memory alloc) (hbegin : alloc + 48 ≤ begin_) :
    buddyInitLists memory alloc begin_ =
      writeWord
        (buddyUnset
          (freelistPush
            (fill (fill memory (freelist memory alloc) 0 (buddyLayers memory alloc * 8))
              (bitmap memory alloc) 0xFF (buddyBitmapSize (blocksCount memory alloc)))
            (freelist memory alloc) begin_)
          (bitmap memory alloc) 0 0)
        (alloc + 40) begin_ := by
  generalize hheads : fill memory (freelist memory alloc) 0 (buddyLayers memory alloc * 8) = heads
  have hheadsField : ∀ offset, offset + 8 ≤ 40 →
      readWord heads (alloc + offset) = readWord memory (alloc + offset) := by
    intro offset hoffset
    rw [← hheads]
    exact readWord_fill_of_disjoint (.inl (by omega))
  generalize hbits : fill heads (bitmap memory alloc) 0xFF
    (buddyBitmapSize (blocksCount memory alloc)) = bits
  have hbitsField : ∀ offset, offset + 8 ≤ 40 →
      readWord bits (alloc + offset) = readWord memory (alloc + offset) := by
    intro offset hoffset
    rw [← hbits, readWord_fill_of_disjoint (.inl (by omega))]
    exact hheadsField offset hoffset
  have hpushed : readWord (freelistPush bits (freelist memory alloc) begin_) alloc =
      readWord memory alloc := by
    rw [readWord_congr ((freelistPush_unchangedOutside _ _ _).agreeOn
      fun query hlower hupper => by omega)]
    exact hbitsField 0 (by omega)
  have hheadsBitmap : bitmap heads alloc = bitmap memory alloc := hheadsField 0 (by omega)
  have hheadsCount : blocksCount heads alloc = blocksCount memory alloc :=
    hheadsField 24 (by omega)
  have hbitsFreelist : freelist bits alloc = freelist memory alloc := hbitsField 8 (by omega)
  have hpushedBitmap : bitmap (freelistPush bits (freelist memory alloc) begin_) alloc =
      bitmap memory alloc := hpushed
  simp only [buddyInitLists, hheads, hheadsBitmap, hheadsCount, hbits, freelistSlot,
    hbitsFreelist, Nat.mul_zero, Nat.add_zero, hpushedBitmap]

theorem Settled.initLists_eq {layout : Layout} {memory : Memory}
    (hsettled : Settled layout memory) :
    buddyInitLists memory layout.alloc layout.begin_ =
      writeWord
        (buddyUnset (freelistPush (blank layout memory) (layout.slot 0) layout.begin_)
          layout.bitmap rootBlock.layer rootBlock.index)
        (layout.alloc + 40) layout.begin_ := by
  have hheader := layout.header_le
  have hheads := layout.freelist_le
  have hbits := layout.bitmap_le
  simp only [sizeofBuddyAlloc] at hheader
  have hfreelist := hsettled.freelist_eq
  have hbitmap := hsettled.bitmap_eq
  rw [buddyInitLists_eq (by omega) (by omega) (by omega), hfreelist, hbitmap,
    hsettled.layers_eq, hsettled.bytes_eq]
  rfl

theorem nodeBit_blank {layout : Layout} {memory : Memory} {node : Block}
    (hvalid : node.Valid layout.depth) :
    nodeBit (blank layout memory) layout.bitmap node = true := by
  have hmask := maskIndex_lt hvalid layout.capacity
  have hbit := (maskIndex_bitIndex hvalid.2).2
  rw [nodeBit_eq_testBit hvalid, blank, fill_of_inside (by omega) (by omega)]
  generalize bitIndex node.layer node.index = bit at hbit
  interval_cases bit <;> rfl

theorem readWord_slot_blank {layout : Layout} {memory : Memory} {layer : ℕ}
    (hlayer : layer ≤ layout.depth) :
    readWord (blank layout memory) (layout.slot layer) = 0 := by
  have := layout.freelist_le
  simp only [Layout.slot]
  rw [blank, readWord_fill_of_disjoint (.inl (by omega)),
    readWord_fill_zero (by omega) (by omega)]

/-- The lists and bits as `buddy_init` leaves them: one free root block. -/
theorem buddyInitLists_represents {layout : Layout} {memory : Memory}
    (hsettled : Settled layout memory) :
    Represents layout (buddyInitLists memory layout.alloc layout.begin_) [rootBlock] [] := by
  have hheader := layout.header_le
  have hheads := layout.freelist_le
  have hbits := layout.bitmap_le
  have hroot := rootBlock_valid layout.depth
  simp only [sizeofBuddyAlloc] at hheader
  rw [hsettled.initLists_eq]
  have hslot : readWord (blank layout memory) (layout.slot 0) = 0 :=
    readWord_slot_blank (Nat.zero_le _)
  have hpush := freelistPush_isStack (IsStack.nil_iff.mpr hslot) (by simp only [Layout.slot]; omega) (by omega)
    (address_rootBlock layout ▸ layout.address_lt hroot)
    (by simp only [Layout.slot, WordsApart]; omega) (by simp) (by simp)
  have hpushOutside := freelistPush_unchangedOutside (blank layout memory) (layout.slot 0)
    layout.begin_
  generalize freelistPush (blank layout memory) (layout.slot 0) layout.begin_ = pushed at *
  have hunsetOutside := buddyUnset_unchangedOutside pushed layout.bitmap hroot layout.capacity
  have hbit : ∀ node : Block, node.Valid layout.depth →
      nodeBit (writeWord (buddyUnset pushed layout.bitmap rootBlock.layer rootBlock.index)
        (layout.alloc + 40) layout.begin_) layout.bitmap node = !decide (rootBlock = node) := by
    intro node hnode
    rw [nodeBit_congr hnode layout.capacity ((writeWord_unchangedOutside _ _ _).agreeOn
        fun query hlower hupper => by omega),
      nodeBit_buddyUnset hroot hnode,
      nodeBit_congr hnode layout.capacity (hpushOutside.agreeOn
        fun query hlower hupper => by simp only [Layout.slot]; omega),
      nodeBit_blank hnode, Bool.true_and]
  have hlate : UnchangedOutside pushed
      (writeWord (buddyUnset pushed layout.bitmap rootBlock.layer rootBlock.index)
        (layout.alloc + 40) layout.begin_) fun query =>
      (layout.alloc + 40 ≤ query ∧ query < layout.alloc + 48) ∨
        (layout.bitmap ≤ query ∧ query < layout.bitmap + layout.bitmapBytes) :=
    (hunsetOutside.mono fun _ hinside => .inr hinside).trans
      ((writeWord_unchangedOutside _ _ _).mono fun _ hinside => .inl ⟨by omega, by omega⟩)
  have hfields := hsettled.frame
    ((((blank_unchangedOutside layout memory).agreeOn
        fun query hlower hupper => by omega).trans
      (hpushOutside.agreeOn fun query hlower hupper => by simp only [Layout.slot]; omega)).trans
      (hlate.agreeOn fun query hlower hupper => by omega))
  refine
    { hfields with
      begin_eq := ?_
      lists := ?_
      tiling := tiling_root layout.depth
      odd_bit := ?_
      even_bit := ?_
      below_bit := ?_ }
  · exact readWord_writeWord_same (address_rootBlock layout ▸ layout.address_lt hroot)
  · intro layer hlayer
    have hbounds := layout.slot_bounds hlayer
    simp only [sizeofBuddyAlloc] at hbounds
    rw [readWord_congr (hlate.agreeOn fun query hlower hupper => by omega)]
    rcases Nat.eq_zero_or_pos layer with rfl | hpos
    · rw [show freeAt [rootBlock] 0 = [rootBlock] from rfl, List.map_singleton,
        address_rootBlock]
      apply hpush.frame
      intro node hnode
      obtain rfl := List.mem_singleton.mp hnode
      exact readWord_congr (hlate.agreeOn fun query hlower hupper => by omega)
    · rw [freeAt_cons_of_ne (Nat.ne_of_lt hpos), freeAt, List.filter_nil, List.map_nil,
        IsStack.nil_iff, readWord_congr (hpushOutside.agreeOn fun query hlower hupper => by
          simp only [Layout.slot] at hlower hupper ⊢; omega)]
      exact readWord_slot_blank hlayer
  · intro node hnode hodd
    rw [hbit node hnode]
    have hne : rootBlock ≠ node := by
      rintro rfl
      simp [rootBlock] at hodd
    simp [hne]
  · intro block hmem _
    obtain rfl := List.mem_singleton.mp hmem
    simp [hbit rootBlock hroot]
  · intro block hmem node hnode hbelow
    obtain rfl := List.mem_singleton.mp hmem
    rw [hbit node hnode]
    have hne : rootBlock ≠ node := by
      rintro rfl
      exact absurd hbelow.1 (lt_irrefl _)
    simp [hne]

/-! ## The fresh allocator -/

/-- Initialising the lists leaves the settled fields of the header alone. -/
theorem buddyInitLists_agreeOn {memory : Memory} {alloc begin_ : ℕ}
    (hfreelist : alloc + 48 ≤ freelist memory alloc)
    (hbitmap : alloc + 48 ≤ bitmap memory alloc) (hbegin : alloc + 48 ≤ begin_) :
    AgreeOn memory (buddyInitLists memory alloc begin_) alloc (alloc + 40) := by
  rw [buddyInitLists_eq hfreelist hbitmap hbegin]
  intro query hlower hupper
  simp only [buddyUnset, maskIndex]
  rw [writeWord_of_outside (by omega), writeByte_of_ne (by omega),
    freelistPush_unchangedOutside _ _ _ _ (by omega), fill_of_outside (by omega),
    fill_of_outside (by omega)]

theorem WellSized.congr {memory memory' : Memory} {alloc : ℕ} (hsized : WellSized memory' alloc)
    (hagree : AgreeOn memory memory' alloc (alloc + 40)) : WellSized memory alloc := by
  obtain ⟨depth, hroot, hlayers, hbits⟩ := hsized
  have hroot' : rootBlockSize memory' alloc = rootBlockSize memory alloc :=
    readWord_congr (hagree.mono (by omega) (by omega))
  have hlayers' : buddyLayers memory' alloc = buddyLayers memory alloc :=
    readWord_congr (hagree.mono (by omega) (by omega))
  have hcount' : blocksCount memory' alloc = blocksCount memory alloc :=
    readWord_congr (hagree.mono (by omega) (by omega))
  exact ⟨depth, hroot' ▸ hroot, hlayers' ▸ hlayers, hcount' ▸ hbits⟩

/-- A well-sized allocator has one layer for each power of two up to its root,
and the root block is one of its pages' power-of-two runs. -/
theorem WellSized.depth_spec {memory : Memory} {alloc count : ℕ} (hsized : WellSized memory alloc)
    (hparams : Params memory alloc count) :
    ∃ depth, rootBlockSize memory alloc = 2 ^ depth ∧ buddyLayers memory alloc = depth + 1 ∧
      2 ^ depth ≤ count ∧ 2 ^ (depth + 1) ≤ 8 * buddyBitmapSize count := by
  obtain ⟨depth, hroot, hlayers, hbits⟩ := hsized
  obtain ⟨exponent, -, hexponent, hupper, -⟩ := maxLowerPowerOf2_spec hparams.root_eq
  obtain rfl : depth = exponent := Nat.pow_right_injective le_rfl (hroot.symm.trans hexponent)
  have hbelow := (log2Upper_spec hparams.layers_eq).2
  refine ⟨depth, hroot, ?_, (hbelow depth hlayers).le, hparams.count_eq ▸ hbits⟩
  by_contra hne
  have := hbelow (depth + 1) (by omega)
  omega

/-- A pool that `buddy_init` accepts and whose metadata is well sized is an
allocator with the root block free and nothing live. -/
theorem buddyInit_represents {memory memory' : Memory} {begin_ end_ alloc : ℕ}
    (horder : begin_ ≤ end_) (hend : end_ < wordSize)
    (hinit : buddyInit memory begin_ end_ = some (alloc, memory')) (halloc : alloc ≠ 0)
    (hsized : WellSized memory' alloc) :
    ∃ layout : Layout, layout.alloc = alloc ∧ layout.alloc = begin_ ∧
      pageAddress layout.begin_ (2 ^ layout.depth) ≤ end_ ∧
      Represents layout memory' [rootBlock] [] := by
  obtain ⟨rfl, hcut, placed, hplaced, rfl, -⟩ := buddyInit_placed horder hend hinit halloc
  have hmetadata := hcut.metadata_le
  have hbytes := buddyBitmapSize_mono hcut.fewer
  have hfirst := log2Upper_eq_clog hcut.first_lt.le
  have hlayersLe := log2Upper_mono hcut.fewer hplaced.params.layers_eq hfirst
  simp only [metadataEnd, bitmapBegin] at hmetadata
  have hagree : AgreeOn placed (buddyInitLists placed alloc (managedBegin alloc end_)) alloc
      (alloc + 40) := by
    apply buddyInitLists_agreeOn
    · exact hplaced.freelist_eq.ge
    · rw [hplaced.bitmap_eq, bitmapBegin]
      simp only [sizeofBuddyAlloc]
      omega
    · simp only [sizeofBuddyAlloc] at hmetadata
      omega
  obtain ⟨depth, hroot, hdepth, hrootLe, hcapacity⟩ :=
    (hsized.congr hagree).depth_spec hplaced.params
  have hpages : pageAddress (managedBegin alloc end_) (2 ^ depth) ≤ end_ :=
    le_trans (Nat.add_le_add_left (Nat.mul_le_mul_right _ hrootLe) _) hcut.pool_le
  let layout : Layout :=
    { alloc := alloc
      freelist := alloc + sizeofBuddyAlloc
      bitmap := bitmapBegin alloc end_
      bitmapBytes := buddyBitmapSize (managedPages alloc end_)
      begin_ := managedBegin alloc end_
      depth := depth
      alloc_pos := Nat.pos_of_ne_zero halloc
      header_le := le_rfl
      freelist_le := by
        simp only [bitmapBegin]
        omega
      bitmap_le := by
        simp only [bitmapBegin]
        omega
      capacity := hcapacity
      room := hpages.trans_lt hend }
  have hsettled : Settled layout placed :=
    { bitmap_eq := hplaced.bitmap_eq
      freelist_eq := hplaced.freelist_eq
      layers_eq := hdepth
      bytes_eq := congrArg buddyBitmapSize hplaced.params.count_eq
      root_eq := hroot }
  exact ⟨layout, rfl, rfl, hpages, buddyInitLists_represents hsettled⟩

end DoomsdayModules.BuddyInit
