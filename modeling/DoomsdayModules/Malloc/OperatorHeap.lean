import DoomsdayModules.Malloc.BuddySizing
import DoomsdayModules.Malloc.Operators

/-!
# The heap of the operators

The 128 MiB that are mapped for the operators have a page count for which the tables
of the buddy allocator are large enough.  The root block is the first half of them.
-/

namespace DoomsdayModules.OperatorHeap

open DoomsdayModules.ByteMemory DoomsdayModules.Util DoomsdayModules.BuddyUtil
open DoomsdayModules.Buddy DoomsdayModules.BuddyInvariant DoomsdayModules.BuddyInit
open DoomsdayModules.BuddySizing (layers_eq root_eq)
open DoomsdayModules.Operators

/-- What `mmap` returns: whole pages in the address space, and not at zero. -/
structure Mapped (base : ℕ) : Prop where
  pos : 0 < base
  aligned : base % pageSize = 0
  room : base + heapSize < wordSize

variable {base : ℕ} {memory memory₀ : Memory} {alloc : ℕ}

/-! ## The page counts -/

theorem pagesCount_heap (hmapped : Mapped base) (offset page : ℕ)
    (hpage : offset / pageSize = page) (hinside : page < 2 ^ 15) :
    pagesCount (base + offset) (base + heapSize) = 2 ^ 15 - page - 1 := by
  obtain ⟨hpos, haligned, hroom⟩ := hmapped
  rw [pagesCount_of_later _ _ hroom]
  all_goals
    simp only [heapSize, pageSize] at *
    omega

theorem firstCount_heap (hmapped : Mapped base) : firstCount base (base + heapSize) = 32767 :=
  pagesCount_heap hmapped sizeofBuddyAlloc 0 rfl (by norm_num)

theorem managedBegin_heap (hmapped : Mapped base) :
    managedBegin base (base + heapSize) = base + 8192 := by
  have hlayers : Nat.clog 2 32767 = 15 := by norm_num
  have hmetadata : metadataEnd base (base + heapSize) = base + 4264 := by
    rw [metadataEnd, bitmapBegin, firstCount_heap hmapped, hlayers]
    rfl
  obtain ⟨hpos, haligned, hroom⟩ := hmapped
  rw [managedBegin, hmetadata]
  simp only [alignAddrToPageSizeUp, heapSize, pageSize, wordSize] at *
  omega

theorem managedPages_heap (hmapped : Mapped base) :
    managedPages base (base + heapSize) = 32765 := by
  have hdown : alignAddrToPageSizeDown (base + heapSize) = base + heapSize := by
    have haligned := hmapped.aligned
    simp only [alignAddrToPageSizeDown, heapSize, pageSize] at *
    omega
  rw [managedPages, hdown, managedBegin_heap hmapped]
  exact pagesCount_heap hmapped 8192 2 rfl (by norm_num)

/-! ## Initialisation -/

/-- The parameters can be computed for a page count with both logarithms. -/
theorem exists_updateParams {begin_ end_ root layers : ℕ}
    (hroot : maxLowerPowerOf2 (pagesCount begin_ end_) = some root)
    (hlayers : log2Upper (pagesCount begin_ end_) = some layers) (memory : Memory) (alloc : ℕ) :
    ∃ updated, buddyUpdateParams memory alloc begin_ end_ = some updated := by
  have hcount : blocksCount (writeWord memory (alloc + 24) (pagesCount begin_ end_)) alloc =
      pagesCount begin_ end_ := readWord_writeWord_same (pagesCount_lt begin_ end_)
  have hcount' : blocksCount (writeWord (writeWord memory (alloc + 24)
      (pagesCount begin_ end_)) (alloc + 32) root) alloc = pagesCount begin_ end_ :=
    (readWord_writeWord_of_disjoint (.inl (by omega))).trans hcount
  simp only [buddyUpdateParams, hcount, hroot, hcount', hlayers, Option.bind_eq_bind,
    Option.bind_some]
  exact ⟨_, rfl⟩

theorem buddyInit_heap (hmapped : Mapped base) (memory : Memory) :
    ∃ memory₀, buddyInit memory base (base + heapSize) = some (base, memory₀) := by
  have hpages : pagesCount base (base + heapSize) = 2 ^ 15 - 0 - 1 :=
    pagesCount_heap hmapped 0 0 rfl (by norm_num)
  have hfirst := firstCount_heap hmapped
  have hmanaged := managedPages_heap hmapped
  rw [firstCount] at hfirst
  rw [managedPages] at hmanaged
  obtain ⟨updated, hupdated⟩ := exists_updateParams (hfirst ▸ (by decide +kernel :
    maxLowerPowerOf2 32767 = some 16384)) (hfirst ▸ (by decide +kernel :
    log2Upper 32767 = some 15)) memory base
  obtain ⟨hparams, hsmall, -⟩ := buddyUpdateParams_spec hupdated
  have hlayers : ∀ value, buddyLayers (writeWord updated (base + 8) value) base =
      Nat.clog 2 (firstCount base (base + heapSize)) := fun _ =>
    (readWord_writeWord_of_disjoint (.inr (by omega))).trans (layers_eq hparams hsmall)
  have hcount : ∀ value value', blocksCount (writeWord (writeWord updated (base + 8) value)
      base value') base = firstCount base (base + heapSize) := fun _ _ =>
    (readWord_writeWord_of_disjoint (.inr (by omega))).trans
      ((readWord_writeWord_of_disjoint (.inr (by omega))).trans hparams.count_eq)
  obtain ⟨ready, hready⟩ := exists_updateParams (hmanaged ▸ (by decide +kernel :
    maxLowerPowerOf2 32765 = some 16384)) (hmanaged ▸ (by decide +kernel :
    log2Upper 32765 = some 15)) (writeWord (writeWord updated (base + 8)
      (base + sizeofBuddyAlloc)) base (bitmapBegin base (base + heapSize))) base
  rw [managedBegin, metadataEnd, bitmapBegin] at hready
  refine ⟨buddyInitLists ready base (managedBegin base (base + heapSize)), ?_⟩
  rw [buddyInit, if_neg (by rw [hpages]; norm_num)]
  simp only [hupdated, hlayers, hcount, hready, Option.bind_eq_bind, Option.bind_some]
  rfl

theorem wellSized_heap (hmapped : Mapped base)
    (hinit : buddyInit memory base (base + heapSize) = some (base, memory₀)) :
    WellSized memory₀ base ∧ rootBlockSize memory₀ base = 2 ^ 14 := by
  have hpages := managedPages_heap hmapped
  obtain ⟨-, hcut, placed, hplaced, rfl, -⟩ :=
    buddyInit_placed (Nat.le_add_right _ _) hmapped.room hinit hmapped.pos.ne'
  have hmetadata := hcut.metadata_le
  simp only [metadataEnd, bitmapBegin, sizeofBuddyAlloc] at hmetadata
  have hagree := @buddyInitLists_agreeOn placed base (managedBegin base (base + heapSize))
    hplaced.freelist_eq.ge (by rw [hplaced.bitmap_eq, bitmapBegin, sizeofBuddyAlloc]; omega)
    (by omega)
  have hfield : ∀ offset, offset + 8 ≤ 40 →
      readWord (buddyInitLists placed base (managedBegin base (base + heapSize)))
        (base + offset) = readWord placed (base + offset) := fun offset hoffset =>
    readWord_congr (hagree.mono (by omega) (by omega))
  have hroot : rootBlockSize placed base = 2 ^ 14 := by
    rw [root_eq hplaced.params (by omega), hpages]
    norm_num
  have hlayers : buddyLayers placed base = 15 := by
    rw [layers_eq hplaced.params hcut.managed_lt, hpages]
    norm_num
  have hroot' := (hfield 32 (by omega)).trans hroot
  have hlayers' := (hfield 16 (by omega)).trans hlayers
  have hcount' := (hfield 24 (by omega)).trans (hplaced.params.count_eq.trans hpages)
  refine ⟨⟨14, hroot', ?_, ?_⟩, hroot'⟩
  · rw [buddyLayers, hlayers']
    norm_num
  · rw [blocksCount, hcount']
    norm_num [buddyBitmapSize]

end DoomsdayModules.OperatorHeap
