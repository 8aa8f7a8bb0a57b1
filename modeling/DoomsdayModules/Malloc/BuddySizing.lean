import DoomsdayModules.Malloc.BuddyRuns

/-!
# The tables of a buddy allocator

`buddy_init` reserves the free-list heads and the bitmap by the pages it counts
first, initialises them by the pages it counts behind them, and addresses them
by the tree over the power of two below that count.  A tree over `2 ^ depth`
pages has `depth + 1` layers and `2 ^ (depth + 1)` bits: there is one layer too
few for a count that is itself a power of two, and the bitmap is too short for
every count that is not just below the next one.
-/

namespace DoomsdayModules.BuddySizing

open DoomsdayModules.ByteMemory DoomsdayModules.Util DoomsdayModules.BuddyUtil
open DoomsdayModules.IntrusiveStack DoomsdayModules.Freelist DoomsdayModules.DyadicBlocks
open DoomsdayModules.Buddy DoomsdayModules.BuddyInit

variable {begin_ end_ : ℕ} {memory memory₀ : Memory} {alloc : ℕ}

/-! ## The page counts -/

/-- The metadata of an accepted pool costs it few pages. -/
theorem eight_le_managedPages (hcut : PoolCut begin_ end_) (horder : begin_ ≤ end_)
    (hend : end_ < wordSize) : 8 ≤ managedPages begin_ end_ := by
  have hpool := hcut.pool_le
  have henough := hcut.enough
  obtain ⟨hlater, hnear, hfirst⟩ := pagesCount_eq_of_lt
    (by simp only [sizeofBuddyAlloc]; omega) hend hcut.first_lt
  have hdown : alignAddrToPageSizeDown end_ / pageSize = end_ / pageSize ∧
      alignAddrToPageSizeDown end_ ≤ end_ ∧ end_ < alignAddrToPageSizeDown end_ + pageSize := by
    simp only [alignAddrToPageSizeDown, pageSize]
    omega
  obtain ⟨-, -, hmanaged⟩ := pagesCount_eq_of_lt
    (by simp only [pageSize] at *; omega) (hdown.2.1.trans_lt hend) hcut.managed_lt
  have hclog : Nat.clog 2 (firstCount begin_ end_) ≤ 63 :=
    Nat.clog_le_of_le_pow hcut.first_lt.le
  have hup : managedBegin begin_ end_ ≤ metadataEnd begin_ end_ + pageSize := by
    simp only [managedBegin, alignAddrToPageSizeUp, pageSize, wordSize]
    omega
  have hmetadata : metadataEnd begin_ end_ ≤
      begin_ + sizeofBuddyAlloc + 504 + buddyBitmapSize (firstCount begin_ end_) := by
    simp only [metadataEnd, bitmapBegin]
    omega
  have hmany : 15 ≤ firstCount begin_ end_ := by
    simp only [firstCount] at hfirst ⊢
    rw [hfirst]
    rcases Nat.lt_or_ge (begin_ / pageSize) (end_ / pageSize) with hbelow | hsame
    · by_cases hclose : end_ / pageSize ≤ begin_ / pageSize + 2 ^ 51
      · rw [pagesCount_of_later hbelow hclose hend] at henough
        simp only [sizeofBuddyAlloc, pageSize] at *
        omega
      · simp only [sizeofBuddyAlloc, pageSize] at *
        omega
    · simp only [sizeofBuddyAlloc, pageSize] at *
      omega
  change managedPages begin_ end_ = _ at hmanaged
  change firstCount begin_ end_ = _ at hfirst
  simp only [buddyBitmapSize] at hmetadata
  simp only [hdown.1] at hmanaged
  simp only [sizeofBuddyAlloc, pageSize] at *
  omega

theorem layers_eq {count : ℕ} (hparams : Params memory alloc count) (hcount : count < 2 ^ 63) :
    buddyLayers memory alloc = Nat.clog 2 count := by
  have hlayers := hparams.layers_eq
  rw [log2Upper_eq_clog hcount.le] at hlayers
  exact (Option.some.inj hlayers).symm

theorem root_eq {count : ℕ} (hparams : Params memory alloc count) (hcount : count ≠ 0) :
    rootBlockSize memory alloc = 2 ^ Nat.log 2 count := by
  obtain ⟨depth, -, hroot, hupper, hlower⟩ := maxLowerPowerOf2_spec hparams.root_eq
  rw [hroot, Nat.log_eq_of_pow_le_of_lt_pow (hlower.resolve_left hcount) hupper]

/-- The rounded-up logarithm is one more than the rounded-down one, except for
a power of two. -/
theorem log_lt_clog_iff {count : ℕ} (hcount : count ≠ 0) :
    Nat.log 2 count < Nat.clog 2 count ↔ ¬ ∃ power, count = 2 ^ power := by
  rw [Nat.lt_clog_iff_pow_lt (by norm_num)]
  have hle := Nat.pow_log_le_self 2 hcount
  constructor
  · rintro hlt ⟨power, rfl⟩
    rw [Nat.log_pow (by norm_num)] at hlt
    exact lt_irrefl _ hlt
  · exact fun hnot => hle.lt_of_ne fun heq => hnot ⟨_, heq.symm⟩

/-! ## The fresh tables -/

/-- The memory of a fresh allocator: its header, its free lists, the bytes of
its bitmap that are initialised, and what is left as it was. -/
structure Fresh (begin_ end_ : ℕ) (before memory : Memory) : Prop where
  freelist_eq : freelist memory begin_ = begin_ + sizeofBuddyAlloc
  bitmap_eq : bitmap memory begin_ = bitmapBegin begin_ end_
  layers_eq : buddyLayers memory begin_ = Nat.clog 2 (managedPages begin_ end_)
  root_eq : rootBlockSize memory begin_ = 2 ^ Nat.log 2 (managedPages begin_ end_)
  begin_eq : poolBegin memory begin_ = managedBegin begin_ end_
  lists : ∀ layer < Nat.clog 2 (managedPages begin_ end_),
    IsStack memory (readWord memory (begin_ + sizeofBuddyAlloc + 8 * layer))
      (if layer = 0 then [managedBegin begin_ end_] else [])
  bits : ∀ offset < buddyBitmapSize (managedPages begin_ end_), ∀ bit < 8,
    (memory (bitmapBegin begin_ end_ + offset)).toNat.testBit bit = decide (8 * offset + bit ≠ 1)
  rest : ∀ query, bitmapBegin begin_ end_ + buddyBitmapSize (managedPages begin_ end_) ≤ query →
    ¬ (managedBegin begin_ end_ ≤ query ∧ query < managedBegin begin_ end_ + 8) →
    memory query = before query
  node : ∀ query, managedBegin begin_ end_ ≤ query → query < managedBegin begin_ end_ + 8 →
    memory query = 0

/-- The bits of a byte that was set to `0xFF` and had bit one of the first byte cleared. -/
theorem initialised_bit {offset bit : ℕ} (hbit : bit < 8) :
    (if offset = 0 then (0xFF : UInt8) &&& ~~~ bitMask (bitIndex 0 0)
      else 0xFF).toNat.testBit bit = decide (8 * offset + bit ≠ 1) := by
  by_cases hoffset : offset = 0
  · subst hoffset
    interval_cases bit <;> rfl
  · rw [if_neg hoffset, decide_eq_true (by omega)]
    interval_cases bit <;> rfl

/-- Once the pool is pushed the first list holds it and the others are empty,
whatever is written in front of the heads or to the first byte of the bitmap. -/
theorem lists_of_push {cleared final : Memory} {heads bits first layers : ℕ}
    (hheads : heads ≠ 0) (hbits : heads + 8 * layers ≤ bits) (hfirst : bits < first)
    (hword : first < 2 ^ 64)
    (hempty : ∀ layer < layers, readWord cleared (heads + 8 * layer) = 0)
    (hlate : UnchangedOutside (freelistPush cleared heads first) final fun query =>
      query < heads ∨ query = bits) {layer : ℕ} (hlayer : layer < layers) :
    IsStack final (readWord final (heads + 8 * layer)) (if layer = 0 then [first] else []) := by
  have hpushed := freelistPush_unchangedOutside cleared heads first
  rw [readWord_congr (hlate.agreeOn fun query hlower hupper => by omega)]
  split_ifs with hzero
  · subst hzero
    have hstack := freelistPush_isStack (IsStack.nil_iff.mpr (hempty 0 hlayer)) hheads
      (Nat.ne_of_gt (Nat.zero_lt_of_lt hfirst)) hword (.inl (by omega)) (by simp) (by simp)
    apply hstack.frame
    intro node hnode
    obtain rfl := List.mem_singleton.mp hnode
    exact readWord_congr (hlate.agreeOn fun query hlower hupper => by omega)
  · rw [IsStack.nil_iff, readWord_congr (hpushed.agreeOn fun query hlower hupper => by omega)]
    exact hempty layer hlayer

/-- Of a bitmap of ones only bit one is cleared when the pool is pushed. -/
theorem bits_of_push {cleared : Memory} {heads bits first bytes : ℕ} (hheads : heads + 8 ≤ bits)
    (hfirst : bits + bytes ≤ first) (hones : ∀ offset < bytes, cleared (bits + offset) = 0xFF)
    {offset bit : ℕ} (hoffset : offset < bytes) (hbit : bit < 8) :
    (buddyUnset (freelistPush cleared heads first) bits 0 0 (bits + offset)).toNat.testBit bit =
      decide (8 * offset + bit ≠ 1) := by
  have hmask : maskIndex 0 0 = 0 := rfl
  have hpushed : freelistPush cleared heads first (bits + offset) = 0xFF := by
    rw [freelistPush_unchangedOutside _ _ _ _ (by omega), hones offset hoffset]
  rw [← initialised_bit hbit]
  simp only [buddyUnset, hmask, Nat.add_zero]
  split_ifs with hzero
  · subst hzero
    rw [Nat.add_zero] at hpushed ⊢
    rw [writeByte_same, hpushed]
  · rw [writeByte_of_ne (by omega), hpushed]

theorem buddyInit_fresh (horder : begin_ ≤ end_) (hend : end_ < wordSize)
    (hinit : buddyInit memory begin_ end_ = some (alloc, memory₀)) (halloc : alloc ≠ 0) :
    alloc = begin_ ∧ PoolCut begin_ end_ ∧ Fresh begin_ end_ memory memory₀ := by
  obtain ⟨rfl, hcut, placed, hplaced, rfl, houtside⟩ :=
    buddyInit_placed horder hend hinit halloc
  have hmany := eight_le_managedPages hcut horder hend
  have hlayers := layers_eq hplaced.params hcut.managed_lt
  have hroot := root_eq hplaced.params (by omega)
  have hbytes := buddyBitmapSize_mono hcut.fewer
  have hmetadata := hcut.metadata_le
  have hpool := hcut.pool_le
  have hclog : Nat.clog 2 (managedPages alloc end_) ≤ Nat.clog 2 (firstCount alloc end_) :=
    Nat.clog_mono_right 2 hcut.fewer
  have hbitmapBegin : bitmapBegin alloc end_ =
      alloc + sizeofBuddyAlloc + Nat.clog 2 (firstCount alloc end_) * 8 := rfl
  have hmetadataEnd : metadataEnd alloc end_ =
      bitmapBegin alloc end_ + buddyBitmapSize (firstCount alloc end_) := rfl
  refine ⟨rfl, hcut, ?_⟩
  have hfreelist := hplaced.freelist_eq
  have hbitmap := hplaced.bitmap_eq
  have hcount := hplaced.params.count_eq
  simp only [sizeofBuddyAlloc] at *
  have hagree := @buddyInitLists_agreeOn placed alloc (managedBegin alloc end_)
    (by omega) (by omega) (by omega)
  have hfield : ∀ offset, offset + 8 ≤ 40 →
      readWord (buddyInitLists placed alloc (managedBegin alloc end_)) (alloc + offset) =
        readWord placed (alloc + offset) := fun offset hoffset =>
    readWord_congr (hagree.mono (by omega) (by omega))
  have hlists := @buddyInitLists_eq placed alloc (managedBegin alloc end_)
    (by omega) (by omega) (by omega)
  rw [hfreelist, hlayers, hbitmap, hcount] at hlists
  generalize hheads : fill placed (alloc + 48) 0 (Nat.clog 2 (managedPages alloc end_) * 8) = heads
    at hlists
  generalize hcleared : fill heads (bitmapBegin alloc end_) 0xFF
    (buddyBitmapSize (managedPages alloc end_)) = cleared at hlists
  have hempty : ∀ layer < Nat.clog 2 (managedPages alloc end_),
      readWord cleared (alloc + 48 + 8 * layer) = 0 := by
    intro layer hlayer
    rw [← hcleared, ← hheads, readWord_fill_of_disjoint (.inl (by omega)),
      readWord_fill_zero (by omega) (by omega)]
  have hsome : 0 < Nat.clog 2 (managedPages alloc end_) :=
    Nat.clog_pos (by norm_num) (by omega)
  have hfirstLt : managedBegin alloc end_ < 2 ^ 64 := by
    simp only [wordSize] at hend
    omega
  have hbytesPos : 0 < buddyBitmapSize (managedPages alloc end_) := by
    simp only [buddyBitmapSize]
    omega
  have hpushed := freelistPush_unchangedOutside cleared (alloc + 48) (managedBegin alloc end_)
  have hlate : UnchangedOutside (freelistPush cleared (alloc + 48) (managedBegin alloc end_))
      (buddyInitLists placed alloc (managedBegin alloc end_)) fun query =>
      (alloc + 40 ≤ query ∧ query < alloc + 48) ∨ query = bitmapBegin alloc end_ := by
    intro query hquery
    have hmask : maskIndex 0 0 = 0 := rfl
    rw [hlists, writeWord_of_outside (by omega)]
    exact writeByte_of_ne (by rw [hmask]; omega)
  exact
    { freelist_eq := (hfield 8 (by omega)).trans hfreelist
      bitmap_eq := (hfield 0 (by omega)).trans hbitmap
      layers_eq := (hfield 16 (by omega)).trans hlayers
      root_eq := (hfield 32 (by omega)).trans hroot
      begin_eq := by
        rw [hlists]
        exact readWord_writeWord_same hfirstLt
      lists := by
        intro layer hlayer
        have hlate' := hlate.mono fun query hquery =>
          show query < alloc + 48 ∨ query = bitmapBegin alloc end_ by omega
        exact lists_of_push (by omega) (by omega) (by omega) hfirstLt hempty hlate' hlayer
      bits := by
        intro offset hoffset bit hbit
        have hones : ∀ offset < buddyBitmapSize (managedPages alloc end_),
            cleared (bitmapBegin alloc end_ + offset) = 0xFF := by
          intro offset hoffset
          rw [← hcleared, fill_of_inside (by omega) (by omega)]
        rw [hlists, writeWord_of_outside (by omega)]
        exact bits_of_push (by omega) (by omega) hones hoffset hbit
      rest := by
        intro query hquery hnode
        rw [hlate query (by omega), hpushed query (by omega), ← hcleared,
          fill_of_outside (by omega), ← hheads, fill_of_outside (by omega)]
        exact houtside query (by omega)
      node := by
        intro query hlower hupper
        rw [hlate query (by omega)]
        simp only [freelistPush, freelistSetNext]
        rw [if_neg (by omega), if_neg (by omega), writeWord_of_outside (by omega)]
        have hhead : readWord cleared (alloc + 48) = 0 := hempty 0 hsome
        simp only [hhead, writeWord, writeLE]
        rw [if_pos ⟨hlower, hupper⟩, Nat.zero_div]
        rfl }

/-- Whether a pool is accepted does not depend on what is in it. -/
theorem buddyInit_defined (hinit : buddyInit memory begin_ end_ = some (alloc, memory₀))
    (other : Memory) : ∃ other₀, buddyInit other begin_ end_ = some (alloc, other₀) := by
  rw [buddyInit] at hinit ⊢
  split_ifs at hinit ⊢ with hfew
  · simp only [Option.some.injEq, Prod.mk.injEq] at hinit
    exact ⟨other, by rw [hinit.1]⟩
  simp only [Option.bind_eq_bind, Option.bind_eq_some_iff, Option.pure_def, Option.some.injEq,
    Prod.mk.injEq] at hinit
  obtain ⟨memory₁, hupdate₁, memory₂, hupdate₂, rfl, -⟩ := hinit
  obtain ⟨hparams, hsmall, -⟩ := buddyUpdateParams_spec hupdate₁
  obtain ⟨other₁, hother₁⟩ := buddyUpdateParams_defined hupdate₁ other
  obtain ⟨hotherParams, -, -⟩ := buddyUpdateParams_spec hother₁
  have hfields : ∀ {written : Memory}, Params written begin_ (firstCount begin_ end_) →
      (∀ value, buddyLayers (writeWord written (begin_ + 8) value) begin_ =
        Nat.clog 2 (firstCount begin_ end_)) ∧
      ∀ value value', blocksCount (writeWord (writeWord written (begin_ + 8) value)
        begin_ value') begin_ = firstCount begin_ end_ := fun hwritten =>
    ⟨fun _ => (readWord_writeWord_of_disjoint (.inr (by omega))).trans (layers_eq hwritten hsmall),
      fun _ _ => (readWord_writeWord_of_disjoint (.inr (by omega))).trans
        ((readWord_writeWord_of_disjoint (.inr (by omega))).trans hwritten.count_eq)⟩
  simp only [(hfields hparams).1, (hfields hparams).2] at hupdate₂
  obtain ⟨other₂, hother₂⟩ := buddyUpdateParams_defined hupdate₂
    (writeWord (writeWord other₁ (begin_ + 8) (begin_ + sizeofBuddyAlloc)) begin_
      (begin_ + sizeofBuddyAlloc + Nat.clog 2 (firstCount begin_ end_) * 8))
  simp only [hother₁, Option.bind_eq_bind, Option.bind_some, (hfields hotherParams).1,
    (hfields hotherParams).2, hother₂]
  exact ⟨_, rfl⟩

/-! ## Layers -/

/-- The list of a layer has an entry of its own that was null before the root
block was put on list 0. -/
structure ListReady (memory : Memory) (alloc layer : ℕ) : Prop where
  behind : alloc + sizeofBuddyAlloc ≤ freelistSlot memory alloc layer
  before : freelistSlot memory alloc layer + 8 ≤ bitmap memory alloc
  initialised : IsStack memory (readWord memory (freelistSlot memory alloc layer))
    (if layer = 0 then [poolBegin memory alloc] else [])

/-- Every layer that can serve a request exists, and the blocks of the deepest
layer are pages. -/
structure LayersFit (memory : Memory) (alloc : ℕ) : Prop where
  served : ∀ pages layer, 1 ≤ pages → pages ≤ rootBlockSize memory alloc →
    bestFitLayer pages (rootBlockSize memory alloc) = some layer →
    layer < buddyLayers memory alloc ∧ ListReady memory alloc layer
  leaf : blockSize (buddyLayers memory alloc - 1) (rootBlockSize memory alloc) = 1

theorem Fresh.listReady (hfresh : Fresh begin_ end_ memory memory₀)
    (hcut : PoolCut begin_ end_) {layer : ℕ}
    (hlayer : layer < Nat.clog 2 (managedPages begin_ end_)) :
    ListReady memory₀ begin_ layer := by
  have hslot : freelistSlot memory₀ begin_ layer = begin_ + sizeofBuddyAlloc + 8 * layer := by
    rw [freelistSlot, hfresh.freelist_eq]
  have hclog : Nat.clog 2 (managedPages begin_ end_) ≤ Nat.clog 2 (firstCount begin_ end_) :=
    Nat.clog_mono_right 2 hcut.fewer
  refine ⟨?_, ?_, ?_⟩
  · omega
  · rw [hfresh.bitmap_eq, bitmapBegin]
    omega
  · rw [hslot, hfresh.begin_eq]
    exact hfresh.lists layer hlayer

/-- The layers fit the pool unless the number of managed pages is a power of
two: then the layer of single pages is missing. -/
theorem layersFit_iff (horder : begin_ ≤ end_) (hend : end_ < wordSize)
    (hinit : buddyInit memory begin_ end_ = some (alloc, memory₀)) (halloc : alloc ≠ 0) :
    LayersFit memory₀ alloc ↔ ¬ ∃ power, managedPages begin_ end_ = 2 ^ power := by
  obtain ⟨rfl, hcut, hfresh⟩ := buddyInit_fresh horder hend hinit halloc
  have hmany := eight_le_managedPages hcut horder hend
  have hroot := hfresh.root_eq
  have hlayers := hfresh.layers_eq
  have hlog : Nat.log 2 (managedPages alloc end_) < 64 :=
    Nat.log_lt_of_lt_pow (by omega) (hcut.managed_lt.trans (by norm_num))
  rw [← log_lt_clog_iff (by omega)]
  constructor
  · intro hfit
    have hleaf := bestFitLayer_eq_clog le_rfl hlog
    rw [Nat.div_one, Nat.clog_pow 2 _ (by norm_num)] at hleaf
    have hserved := hfit.served 1 _ le_rfl (hroot ▸ Nat.one_le_two_pow) (hroot ▸ hleaf)
    exact hlayers ▸ hserved.1
  · intro hdeep
    refine ⟨?_, ?_⟩
    · intro pages layer hpages _ hserves
      rw [hroot, bestFitLayer_eq_clog hpages hlog, Option.some.injEq] at hserves
      have hlt : layer < Nat.clog 2 (managedPages alloc end_) :=
        (hserves ▸ clog_div_le _ pages).trans_lt hdeep
      exact ⟨hlayers ▸ hlt, hfresh.listReady hcut hlt⟩
    · have hupper : Nat.clog 2 (managedPages alloc end_) ≤
          Nat.log 2 (managedPages alloc end_) + 1 :=
        Nat.clog_le_of_le_pow (Nat.lt_pow_succ_log_self (by norm_num) _).le
      have hlast : Nat.clog 2 (managedPages alloc end_) - 1 =
          Nat.log 2 (managedPages alloc end_) := by omega
      rw [hlayers, hroot, hlast, blockSize, Nat.shiftRight_eq_div_pow,
        Nat.div_self (Nat.two_pow_pos _)]

theorem layersFit_smallPool : LayersFit BuddyRuns.smallPool 4096 := by
  apply (layersFit_iff (by decide) (by decide) BuddyRuns.buddyInit_smallPool (by decide)).mpr
  rintro ⟨power, hpower⟩
  have hmanaged : managedPages 4096 139264 = 31 := by decide +kernel
  rw [hmanaged] at hpower
  rcases Nat.lt_or_ge power 5 with hlow | hhigh
  · interval_cases power <;> omega
  · have := Nat.pow_le_pow_right (show 0 < 2 by norm_num) hhigh
    omega

/-- Sixteen managed pages have four layers, and a page is on a fifth. -/
theorem not_layersFit_sixteen :
    ¬ ∀ (memory memory₀ : Memory) (begin_ end_ alloc : ℕ), begin_ ≤ end_ → end_ < wordSize →
      buddyInit memory begin_ end_ = some (alloc, memory₀) → alloc ≠ 0 →
      LayersFit memory₀ alloc := by
  intro hclaim
  have hparams : (buddyInit (fun _ => 0) 4096 77824).map (fun result => (result.1,
      rootBlockSize result.2 result.1, buddyLayers result.2 result.1)) = some (4096, 16, 4) := by
    decide +kernel
  obtain ⟨⟨alloc, memory₀⟩, hinit, hfields⟩ := Option.map_eq_some_iff.mp hparams
  simp only [Prod.mk.injEq] at hfields
  obtain ⟨rfl, hroot, hlayers⟩ := hfields
  have hfit := hclaim _ _ _ _ _ (by decide) (by decide) hinit (by decide)
  have hleaf := (hfit.served 1 4 le_rfl (by omega) (hroot ▸ by decide +kernel)).1
  omega

/-! ## Bits -/

/-- The bit of every node of the tree is in the reserved part of the bitmap and
has its initial value. -/
def BitmapCovers (begin_ end_ : ℕ) (memory : Memory) (alloc : ℕ) : Prop :=
  ∀ layer index, layer ≤ Nat.log 2 (rootBlockSize memory alloc) → index < 2 ^ layer →
    maskIndex layer index < buddyBitmapSize (firstCount begin_ end_) ∧
      bitmap memory alloc + maskIndex layer index < poolBegin memory alloc ∧
      buddyGet memory (bitmap memory alloc) layer index = decide (layer ≠ 0)

/-- The bits are initialised whatever the pool held before. -/
def BitsInitialised (begin_ end_ : ℕ) : Prop :=
  ∀ memory memory₀ alloc, buddyInit memory begin_ end_ = some (alloc, memory₀) → alloc ≠ 0 →
    BitmapCovers begin_ end_ memory₀ alloc

theorem buddyGet_eq_testBit (memory : Memory) (bitmap : ℕ) {layer index : ℕ}
    (hindex : index < 2 ^ layer) :
    buddyGet memory bitmap layer index =
      (memory (bitmap + maskIndex layer index)).toNat.testBit (bitIndex layer index) :=
  and_bitMask_bne_zero (maskIndex_bitIndex hindex).2

/-- The tree's bits fit the bytes that are initialised. -/
theorem Fresh.bitmapCovers (hfresh : Fresh begin_ end_ memory memory₀)
    (hcut : PoolCut begin_ end_)
    (hbits : 2 ^ (Nat.log 2 (managedPages begin_ end_) + 1) ≤
      8 * buddyBitmapSize (managedPages begin_ end_)) :
    BitmapCovers begin_ end_ memory₀ begin_ := by
  have hbytes := buddyBitmapSize_mono hcut.fewer
  have hmetadata := hcut.metadata_le
  intro layer index hlayer hindex
  rw [hfresh.root_eq, Nat.log_pow (by norm_num)] at hlayer
  obtain ⟨hposition, hbit⟩ := maskIndex_bitIndex hindex
  have hpow : 2 ^ (layer + 1) ≤ 2 ^ (Nat.log 2 (managedPages begin_ end_) + 1) :=
    Nat.pow_le_pow_right (by norm_num) (by omega)
  rw [pow_succ] at hpow
  have hmask : maskIndex layer index < buddyBitmapSize (managedPages begin_ end_) := by omega
  refine ⟨by omega, ?_, ?_⟩
  · rw [hfresh.bitmap_eq, hfresh.begin_eq]
    simp only [metadataEnd] at hmetadata
    omega
  · rw [buddyGet_eq_testBit _ _ hindex, hfresh.bitmap_eq, hfresh.bits _ hmask _ hbit, hposition,
      decide_eq_decide]
    rcases Nat.eq_zero_or_pos layer with rfl | hpos
    · simp only [pow_zero, Nat.lt_one_iff] at hindex
      simp [hindex]
    · have htwo : 2 ^ 1 ≤ 2 ^ layer := Nat.pow_le_pow_right (by norm_num) hpos
      omega

/-- A byte behind the initialised part of the bitmap of a pool of zeros is zero. -/
theorem Fresh.byte_eq_zero (hfresh : Fresh begin_ end_ (fun _ => 0) memory₀) {query : ℕ}
    (hquery : bitmapBegin begin_ end_ + buddyBitmapSize (managedPages begin_ end_) ≤ query) :
    memory₀ query = 0 := by
  by_cases hnode : managedBegin begin_ end_ ≤ query ∧ query < managedBegin begin_ end_ + 8
  · exact hfresh.node query hnode.1 hnode.2
  · exact hfresh.rest query hquery hnode

/-- The bitmap covers the tree exactly if the number of managed pages is one to
seven below a power of two. -/
theorem bitsInitialised_iff (horder : begin_ ≤ end_) (hend : end_ < wordSize)
    (hinit : buddyInit memory begin_ end_ = some (alloc, memory₀)) (halloc : alloc ≠ 0) :
    BitsInitialised begin_ end_ ↔
      ∃ power, managedPages begin_ end_ < 2 ^ power ∧ 2 ^ power ≤ managedPages begin_ end_ + 7 := by
  obtain ⟨rfl, hcut, -⟩ := buddyInit_fresh horder hend hinit halloc
  have hmany := eight_le_managedPages hcut horder hend
  have hlower := Nat.pow_log_le_self 2 (show managedPages alloc end_ ≠ 0 by omega)
  have hupper := Nat.lt_pow_succ_log_self (show 1 < 2 by norm_num) (managedPages alloc end_)
  have hdepth : 3 ≤ Nat.log 2 (managedPages alloc end_) :=
    Nat.le_log_of_pow_le (by norm_num) hmany
  constructor
  · intro hcovers
    obtain ⟨zeroed, hzeroed⟩ := buddyInit_defined hinit fun _ => 0
    obtain ⟨-, -, hfresh⟩ := buddyInit_fresh horder hend hzeroed halloc
    -- the last leaf's bit is the last one of the tree
    have hlast : 2 ^ Nat.log 2 (managedPages alloc end_) - 1 <
        2 ^ Nat.log 2 (managedPages alloc end_) := by omega
    obtain ⟨-, -, hset⟩ := hcovers _ _ _ hzeroed halloc _ _
      (by rw [hfresh.root_eq, Nat.log_pow (by norm_num)]) hlast
    obtain ⟨hposition, hbit⟩ := maskIndex_bitIndex hlast
    rw [buddyGet_eq_testBit _ _ hlast, hfresh.bitmap_eq,
      decide_eq_true (show Nat.log 2 (managedPages alloc end_) ≠ 0 by omega)] at hset
    have hmask : maskIndex (Nat.log 2 (managedPages alloc end_))
        (2 ^ Nat.log 2 (managedPages alloc end_) - 1) <
          buddyBitmapSize (managedPages alloc end_) := by
      by_contra hbeyond
      rw [hfresh.byte_eq_zero (by omega)] at hset
      simp at hset
    refine ⟨_, hupper, ?_⟩
    simp only [buddyBitmapSize] at hmask
    rw [Nat.succ_eq_add_one, pow_succ]
    omega
  · rintro ⟨power, habove, hnear⟩
    have hpower : power = Nat.log 2 (managedPages alloc end_) + 1 := by
      have hgt : Nat.log 2 (managedPages alloc end_) < power :=
        (Nat.pow_lt_pow_iff_right (by norm_num)).mp (hlower.trans_lt habove)
      by_contra hne
      have hpow : 2 ^ (Nat.log 2 (managedPages alloc end_) + 1 + 1) ≤ 2 ^ power :=
        Nat.pow_le_pow_right (by norm_num) (by omega)
      rw [pow_succ] at hpow
      simp only [Nat.succ_eq_add_one] at hupper
      omega
    have height : 2 ^ power = 8 * 2 ^ (power - 3) := by
      rw [show (8 : ℕ) = 2 ^ 3 by norm_num, ← pow_add]
      congr 1
      omega
    intro other other₀ _ hother hne
    obtain ⟨rfl, -, hfresh⟩ := buddyInit_fresh horder hend hother hne
    apply hfresh.bitmapCovers hcut
    rw [← hpower]
    simp only [buddyBitmapSize]
    omega

theorem bitsInitialised_smallPool : BitsInitialised 4096 139264 :=
  (bitsInitialised_iff (by decide) (by decide) BuddyRuns.buddyInit_smallPool (by decide)).mpr
    ⟨5, by decide +kernel, by decide +kernel⟩

/-- Of the bitmap of 98 pages thirteen bytes are initialised and sixteen used. -/
theorem not_bitsInitialised_hundred_pages :
    ¬ ∀ (memory memory₀ : Memory) (begin_ end_ alloc : ℕ), begin_ ≤ end_ → end_ < wordSize →
      buddyInit memory begin_ end_ = some (alloc, memory₀) → alloc ≠ 0 →
      BitsInitialised begin_ end_ := by
  intro hclaim
  have hparams : (buddyInit (fun _ => 0) 4096 413696).map (fun result => (result.1,
      rootBlockSize result.2 result.1)) = some (4096, 64) := by decide +kernel
  obtain ⟨⟨alloc, memory₀⟩, hinit, hfields⟩ := Option.map_eq_some_iff.mp hparams
  simp only [Prod.mk.injEq] at hfields
  obtain ⟨rfl, hroot⟩ := hfields
  have hbits := hclaim _ _ _ _ _ (by decide) (by decide) hinit (by decide)
  have hreserved := (hbits _ _ _ hinit (by decide) 6 63
    (by rw [hroot, show 64 = 2 ^ 6 by norm_num, Nat.log_pow (by norm_num)]) (by norm_num)).1
  exact absurd hreserved (by decide +kernel)

end DoomsdayModules.BuddySizing
