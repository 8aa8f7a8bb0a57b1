import DoomsdayModules.Malloc.BuddySizing
import DoomsdayModules.Malloc.PenguinRuns
import DoomsdayModules.Malloc.SlabTermination

/-!
# The alignment of what `penguin_malloc` returns

Blocks of the buddy allocator start at a page.  A first cache of a slab starts
48 bytes behind one, its slots 72 bytes further, and the two headers in front
of the client's memory take 16 bytes more.  The slots of a class are an odd
multiple of 8 bytes long, so that every other slot ends up at a multiple of 16,
and memory straight from the buddy allocator never does.
-/

namespace DoomsdayModules.PenguinAlignment

open DoomsdayModules.ByteMemory DoomsdayModules.Runs DoomsdayModules.Util
open DoomsdayModules.DyadicBlocks DoomsdayModules.Freelist DoomsdayModules.IntrusiveStack
open DoomsdayModules.BuddyUtil DoomsdayModules.Buddy DoomsdayModules.BuddyInvariant
open DoomsdayModules.BuddyInit
open DoomsdayModules.Slab DoomsdayModules.SlabInvariant DoomsdayModules.SlabMoves
open DoomsdayModules.SlabGrowth DoomsdayModules.SlabOps DoomsdayModules.SlabOnBuddy
open DoomsdayModules.SlabRelink DoomsdayModules.SlabTermination
open DoomsdayModules.PenguinMalloc DoomsdayModules.RequestSize DoomsdayModules.PenguinOrigin
open DoomsdayModules.PenguinHeap DoomsdayModules.PenguinRuns

/-! ## Which slot comes next -/

/-- The slot that `slab_cache_alloc` takes from the cache next. -/
def nextSlot (memory : Memory) (cache : ℕ) : ℕ :=
  if readWord memory (cache + 40) = 0 then unmanagedBegin memory cache
  else readWord memory (cache + 40)

/-- Its number among the slots of the cache. -/
def nextSlotNumber (memory : Memory) (slab cache : ℕ) : ℕ :=
  (nextSlot memory cache - (cache + sizeofSlabCacheHeader)) / objsize memory slab

/-- The slab has a cache with room, and the slot it takes there next has an odd number. -/
def OddSlotNext (memory : Memory) (slab : ℕ) : Prop :=
  firstFreeCache memory slab ≠ 0 ∧
    allocatedObjects memory (firstFreeCache memory slab) ≠
      maxObjects memory (firstFreeCache memory slab) ∧
    nextSlotNumber memory slab (firstFreeCache memory slab) % 2 = 1

/-- The request goes to a class whose slab has an odd slot for it. -/
def TakesOddSlot (globals : Globals) (memory : Memory) (size : ℕ) : Prop :=
  bestFitSlabIndex (withHeader size) ≠ buddyIndex ∧
    OddSlotNext memory (globals.slabs (bestFitSlabIndex (withHeader size)))

instance (memory : Memory) (slab : ℕ) : Decidable (OddSlotNext memory slab) :=
  inferInstanceAs (Decidable (_ ∧ _ ∧ _))

instance (globals : Globals) (memory : Memory) (size : ℕ) :
    Decidable (TakesOddSlot globals memory size) :=
  inferInstanceAs (Decidable (_ ∧ _))

variable {shape : Shape} {memory memory' : Memory} {before : List Cache} {cache : Cache}
  {slab addr fuel ptr : ℕ} {buddy : BuddyOps}

theorem takeSlot_fst (memory : Memory) (slab addr : ℕ) :
    (takeSlot memory slab addr).1 = nextSlot memory addr := by
  have hlist : addr + 40 ≠ 0 := by omega
  by_cases hempty : readWord memory (addr + 40) = 0
  · simp only [takeSlot, freelistPop, nextSlot, if_neg hlist, hempty, if_pos]
  · simp only [takeSlot, freelistPop, nextSlot, if_neg hlist, hempty, if_false]

/-- A slot of a cache with room: the pointer names it, and is not null. -/
theorem slabCacheAlloc_fst
    (hroom : allocatedObjects memory addr ≠ maxObjects memory addr)
    (halloc : slabCacheAlloc fuel memory slab addr = some (ptr, memory')) :
    ∃ skipped, skipFullCaches slab fuel (settleUp (countObject memory addr) slab addr) =
        some skipped ∧ ptr = nextSlot skipped addr + sizeofSlabAllocatedObjectHeader := by
  rw [slabCacheAlloc_of_room hroom, Option.map_eq_some_iff] at halloc
  obtain ⟨skipped, hskip, hresult⟩ := halloc
  rw [takeSlot_fst] at hresult
  exact ⟨skipped, hskip, (Prod.mk.inj hresult).1.symm⟩

/-- Counting an object and moving its cache up changes the counter and the links. -/
theorem settleUp_unchangedOutside (hready : Ready shape memory before cache) :
    UnchangedOutside memory
      (settleUp (countObject memory (shape.addr cache.base)) shape.slab (shape.addr cache.base))
      fun query => shape.CounterByte cache.base query ∨
        ∃ other ∈ before ++ [cache], shape.LinkByte other.base query := by
  have hcounted := (countObject_spares hready).2
  have hcount := countObject_unchangedOutside memory shape cache.base
  obtain ⟨hcore, -, -⟩ := hready
  have hmem : cache ∈ before ++ [cache] := by simp
  generalize countObject memory (shape.addr cache.base) = counted at *
  refine (hcount.mono fun _ => Or.inl).trans ?_
  rw [settleUp]
  split_ifs with hmoves
  · rcases List.eq_nil_or_concat' before with rfl | ⟨front, prev, rfl⟩
    · have hroot : cache.base = shape.slab := Option.some.inj hcore.head_eq
      refine absurd ?_ hmoves.1
      rw [(hcounted cache hmem).2, hroot]
      exact hcore.head_prev
    · have hprevMem : prev ∈ front ++ [prev] ++ [cache] := by simp
      obtain ⟨hprev, hne⟩ := last_links hcore
      have happart := hcore.headers_apart hmem hprevMem hne
      rw [slabCacheMoveUp_eq ((hcounted cache hmem).2.trans hprev) (hcore.addr_pos hprevMem).ne'
        (addr_lt (hcore.stop_lt hmem)) (.inr happart)]
      apply (relinkUp_unchangedOutside counted _ _).mono
      rintro query (hlink | hlink)
      · exact .inr ⟨cache, hmem, hlink⟩
      · exact .inr ⟨prev, hprevMem, hlink⟩
  · exact unchangedOutside_refl _ _

/-- The slot is the one that was next before the object was counted. -/
theorem slabCacheAlloc_nextSlot (hready : Ready shape memory before cache)
    (hroom : allocatedObjects memory (shape.addr cache.base) ≠
      maxObjects memory (shape.addr cache.base))
    (halloc : slabCacheAlloc fuel memory shape.slab (shape.addr cache.base) =
      some (ptr, memory')) :
    ptr = nextSlot memory (shape.addr cache.base) + sizeofSlabAllocatedObjectHeader := by
  obtain ⟨skipped, hskip, rfl⟩ := slabCacheAlloc_fst hroom halloc
  have hcore := hready.core
  have hmem : cache ∈ before ++ [cache] := by simp
  have hstop := shape.header_le_stop cache.base
  have hsettled := settleUp_unchangedOutside hready
  have hskipped := skipFullCaches_unchangedOutside hskip
  have hword : ∀ offset, offset = 16 ∨ offset = 40 →
      readWord skipped (shape.addr cache.base + offset) =
        readWord memory (shape.addr cache.base + offset) := by
    intro offset hoffset
    apply readWord_congr
    intro query hlower hupper
    have hcontent : shape.Content cache.base query := by
      refine ⟨by omega, by omega, fun hlink => ?_⟩
      rw [Shape.LinkByte] at hlink
      omega
    have hfirst : ¬ (shape.slab + 16 ≤ query ∧ query < shape.slab + 24) := fun hfirst =>
      hcore.content_not_slab hmem hcontent (Shape.FirstFreeByte.slabByte hfirst)
    refine (hskipped query hfirst).trans (hsettled query ?_)
    rintro (hcounter | ⟨other, hother, hlink⟩)
    · rw [Shape.CounterByte] at hcounter
      omega
    · exact hcore.content_not_link hmem hother hcontent hlink
  have hlist := hword 40 (.inr rfl)
  have hunmanaged : unmanagedBegin skipped (shape.addr cache.base) =
      unmanagedBegin memory (shape.addr cache.base) := hword 16 (.inl rfl)
  simp only [nextSlot, hlist, hunmanaged]

/-- The first free slot of a cache, or else the first never used. -/
def nextIndex (cache : Cache) : ℕ := cache.free.headD cache.used

theorem nextSlot_eq (hslots : Slots shape memory cache) :
    nextSlot memory (shape.addr cache.base) = shape.slot cache.base (nextIndex cache) := by
  cases hfree : cache.free with
  | nil =>
      have hempty := hslots.freelist
      rw [hfree] at hempty
      rw [nextIndex, hfree]
      exact (if_pos hempty).trans hslots.unmanaged_eq
  | cons index rest =>
      have hstack := hslots.freelist
      rw [hfree] at hstack
      obtain ⟨hhead, -⟩ := hstack
      rw [nextIndex, hfree]
      exact (if_neg (hhead ▸ slot_ne_zero index)).trans hhead

theorem nextSlotNumber_eq (hslots : Slots shape memory cache)
    (hsize : objsize memory slab = shape.slotBytes) :
    nextSlotNumber memory slab (shape.addr cache.base) = nextIndex cache := by
  have hpos := shape.slotBytes_bounds.1
  rw [nextSlotNumber, nextSlot_eq hslots, hsize, Shape.slot, Nat.add_sub_cancel_left,
    Nat.mul_div_cancel_left _ (by omega)]

/-! ## Where a slot lies -/

/-- Every block of the buddy allocator starts at a page. -/
theorem address_mod {layout : Layout} (hbegin : layout.begin_ % pageSize = 0) (block : Block) :
    layout.address block % pageSize = 0 := by
  rw [Layout.address, pageAddress, Nat.add_mul_mod_self_right, hbegin]

/-- Behind both headers of a slot the memory is aligned if the slot's number is odd. -/
theorem slot_aligned {base : ℕ} (hbase : base % pageSize = 0) (hsize : shape.size % 16 = 0)
    (index : ℕ) :
    (shape.slot base index + sizeofSlabAllocatedObjectHeader + sizeofPenguinMallocHeader) % 16 =
      0 ↔ index % 2 = 1 := by
  have haddr : shape.addr base % 16 = 0 := by
    rw [Shape.addr]
    simp only [pageSize, sizeofSlabAlloc] at *
    split_ifs <;> omega
  obtain ⟨units, hunits⟩ := Nat.dvd_of_mod_eq_zero hsize
  have hslot : shape.slot base index =
      shape.addr base + 72 + (16 * (units * index) + 8 * index) := by
    simp only [Shape.slot, Shape.slotBytes, hunits, sizeofSlabCacheHeader,
      sizeofSlabAllocatedObjectHeader]
    ring
  rw [hslot]
  simp only [sizeofSlabAllocatedObjectHeader, sizeofPenguinMallocHeader]
  omega

/-- The regions of a slab start at pages. -/
theorem base_mod {layout : Layout} {free regions others : List Block} {caches : List Cache}
    (honBuddy : OnBuddy layout shape memory free regions others caches)
    (hbegin : layout.begin_ % pageSize = 0) (hcache : cache ∈ caches) :
    cache.base % pageSize = 0 := by
  obtain ⟨block, -, hbase, -⟩ := honBuddy.regions.exists_block hcache
  rw [← hbase]
  exact address_mod hbegin block

/-! ## What the allocators return -/

/-- An object of the slab is aligned behind its headers if an odd slot was next. -/
theorem slabAlloc_aligned {layout : Layout} {free regions others : List Block}
    {caches : List Cache} (honBuddy : OnBuddy layout shape memory free regions others caches)
    (hbegin : layout.begin_ % pageSize = 0) (hsize : shape.size % 16 = 0)
    (halloc : slabAlloc fuel realBuddy memory shape.slab = some (ptr, memory'))
    (hptr : ptr ≠ 0) :
    (ptr + sizeofPenguinMallocHeader) % 16 = 0 ↔ OddSlotNext memory shape.slab := by
  obtain ⟨taken, replied, hask, hsound, -, hblock⟩ := honBuddy.askBuddy_spec
  simp only [slabAlloc, if_neg shape.slab_pos.ne', Option.bind_eq_bind] at halloc
  rcases growSlab_spec honBuddy.settled hask hsound with ⟨hgrow, -⟩ |
    ⟨before, last, grown, hgrow, hready, hcaches, -⟩
  · simp only [hgrow, Option.bind_some, if_pos, Option.some.injEq, Prod.mk.injEq] at halloc
    exact absurd halloc.1.symm hptr
  have hlastMem : last ∈ before ++ [last] := by simp
  have haddr := (hready.core.addr_pos hlastMem).ne'
  simp only [hgrow, Option.bind_some, if_neg haddr] at halloc
  have hroom : allocatedObjects grown (shape.addr last.base) ≠
      maxObjects grown (shape.addr last.base) := by
    intro hfull
    rw [slabCacheAlloc, if_pos hfull, Option.some.injEq, Prod.mk.injEq] at halloc
    exact hptr halloc.1.symm
  have hslots := (hready.core.contents last hlastMem).toSlots
  obtain rfl := slabCacheAlloc_nextSlot hready hroom halloc
  have hbase : last.base % pageSize = 0 := by
    rw [hcaches, grownCaches] at hlastMem
    split_ifs at hlastMem with htaken
    · exact base_mod honBuddy hbegin hlastMem
    · rcases List.mem_append.mp hlastMem with hold | hnew
      · exact base_mod honBuddy hbegin hold
      · obtain ⟨block, -, hblock, -⟩ := (hblock.resolve_left fun hnull => htaken hnull.1)
        rw [List.mem_singleton.mp hnew, emptyCache, hblock]
        exact address_mod hbegin block
  rw [nextSlot_eq hslots, slot_aligned hbase hsize]
  by_cases hfirst : firstFreeCache memory shape.slab = 0
  · -- a new cache, whose first slot has the number zero
    have htaken : taken ≠ 0 := by
      rintro rfl
      rw [askBuddy, if_pos hfirst] at hask
      simp only [growSlab, if_pos hfirst, hask, Option.bind_eq_bind, Option.bind_some, if_pos,
        Option.some.injEq, Prod.mk.injEq] at hgrow
      exact haddr hgrow.1.symm
    rw [grownCaches, if_neg htaken] at hcaches
    obtain rfl := List.singleton_inj.mp (List.append_inj' hcaches rfl).2
    exact iff_of_false (by simp [nextIndex, emptyCache, Cache.used]) fun hodd => hodd.1 hfirst
  · obtain ⟨hcache, rfl⟩ : firstFreeCache memory shape.slab = shape.addr last.base ∧
        memory = grown := by
      simpa only [growSlab, if_neg hfirst, Option.some.injEq, Prod.mk.injEq] using hgrow
    have hnumber := nextSlotNumber_eq hslots hready.core.objsize_eq
    rw [OddSlotNext, hcache, hnumber]
    exact ⟨fun hodd => ⟨haddr, hroom, hodd⟩, fun hodd => hodd.2.2⟩

/-- A slab that finds a cache with room does not return null. -/
theorem slabAlloc_ne_null {reply : ℕ × Memory} (hslab : slab ≠ 0)
    (hgrow : growSlab buddy memory slab = some reply) (hcache : reply.1 ≠ 0)
    (hroom : allocatedObjects reply.2 reply.1 ≠ maxObjects reply.2 reply.1)
    (halloc : slabAlloc fuel buddy memory slab = some (ptr, memory')) : ptr ≠ 0 := by
  simp only [slabAlloc, if_neg hslab, hgrow, Option.bind_eq_bind, Option.bind_some,
    if_neg hcache] at halloc
  obtain ⟨skipped, -, rfl⟩ := slabCacheAlloc_fst hroom halloc
  simp [sizeofSlabAllocatedObjectHeader]

theorem not_movesUp_of_null (hslab : slab ≠ 0)
    (halloc : slabAlloc fuel buddy memory slab = some (0, memory')) :
    ¬ MovesUp buddy memory slab := by
  rintro ⟨reply, hgrow, hcache, hroom, -⟩
  exact slabAlloc_ne_null hslab hgrow hcache hroom halloc rfl

theorem not_oddSlotNext_of_null (hslab : slab ≠ 0)
    (halloc : slabAlloc fuel buddy memory slab = some (0, memory')) :
    ¬ OddSlotNext memory slab := by
  rintro ⟨hcache, hroom, -⟩
  have hgrow : growSlab buddy memory slab = some (firstFreeCache memory slab, memory) :=
    if_neg hcache
  exact slabAlloc_ne_null hslab hgrow hcache hroom halloc rfl

/-- Memory straight from the buddy allocator is not aligned behind its header. -/
theorem buddyAlloc_misaligned {layout : Layout} {free live : List Block} {pages : ℕ}
    (hrep : Represents layout memory free live) (hbegin : layout.begin_ % pageSize = 0)
    (halloc : buddyAlloc memory layout.alloc pages = some (ptr, memory')) (hptr : ptr ≠ 0) :
    (ptr + sizeofPenguinMallocHeader) % 16 ≠ 0 := by
  have hpages : 1 ≤ pages := by
    refine Nat.one_le_iff_ne_zero.mpr ?_
    rintro rfl
    rw [buddyAlloc, if_neg layout.alloc_pos.ne'] at halloc
    simp [bestFitLayer] at halloc
  rcases buddyAlloc_spec hrep hpages with hnone | ⟨block, free', replied, hsome, -⟩
  · rw [halloc, Option.some.injEq, Prod.mk.injEq] at hnone
    exact absurd hnone.1 hptr
  · rw [halloc, Option.some.injEq, Prod.mk.injEq] at hsome
    have hmod := address_mod hbegin block
    rw [hsome.1]
    simp only [pageSize, sizeofPenguinMallocHeader] at *
    omega

/-! ## The general allocator -/

variable {layout : Layout} {globals : Globals} {free : List Block} {classes : List SlabClass}
  {live : List Entry} {size : ℕ}

theorem slabSizeByIndex_mod (index : ℕ) : slabSizeByIndex index % 16 = 0 := by
  rw [slabSizeByIndex, penguinMallocMinSlabSize, Nat.shiftLeft_eq]
  exact Nat.mul_mod_right 16 _

theorem penguinMalloc_ptr {allocators : Allocators}
    (hmalloc : penguinMalloc allocators globals memory size = some (ptr, memory'))
    (hptr : ptr ≠ 0) :
    ∃ taken, penguinTake allocators globals memory size = some taken ∧ taken.mem ≠ 0 ∧
      ptr = taken.mem + sizeofPenguinMallocHeader := by
  simp only [penguinMalloc, Option.bind_eq_bind, Option.bind_eq_some_iff] at hmalloc
  obtain ⟨taken, htake, hresult⟩ := hmalloc
  by_cases hnull : taken.mem = 0
  · rw [if_pos hnull] at hresult
    exact absurd (Prod.mk.inj (Option.some.inj hresult)).1.symm hptr
  · rw [if_neg hnull] at hresult
    exact ⟨taken, htake, hnull, (Prod.mk.inj (Option.some.inj hresult)).1.symm⟩

/-- A pointer that `penguin_malloc` returns from an intact heap. -/
theorem penguinMalloc_aligned (hfuel : 2 ≤ fuel)
    (hheap : Heap layout globals free classes memory live)
    (hbegin : layout.begin_ % pageSize = 0)
    (hmalloc : penguinMalloc (realAllocators fuel) globals memory size = some (ptr, memory'))
    (hptr : ptr ≠ 0) : ptr % 16 = 0 ↔ TakesOddSlot globals memory size := by
  obtain ⟨taken, htake, hmem, rfl⟩ := penguinMalloc_ptr hmalloc hptr
  have hslabOf {mem replied} (halloc : slabAlloc fuel realBuddy memory
      (globals.slabs (bestFitSlabIndex (withHeader size))) = some (mem, replied)) :
      globals.slabs (bestFitSlabIndex (withHeader size)) ≠ 0 := by
    intro hnone
    rw [slabAlloc, if_pos hnone] at halloc
    exact absurd halloc (by simp)
  rcases penguinTake_cases htake with ⟨hclass, hindex, -, halloc, -⟩ |
    ⟨replied, hturn, -, hbuddy, -⟩
  · rw [TakesOddSlot, and_iff_right hclass]
    have halloc' : slabAlloc fuel realBuddy memory
        (globals.slabs (bestFitSlabIndex (withHeader size))) = some (taken.mem, taken.memory) :=
      hindex ▸ halloc
    obtain ⟨before, slabClass, after, rfl, hsame⟩ := hheap.split_class (hslabOf halloc')
    have hintact := hheap.intact slabClass (by simp)
    rw [← hsame, hintact.slab_eq] at halloc' ⊢
    exact slabAlloc_aligned hheap.onBuddy hbegin (hintact.size_eq ▸ slabSizeByIndex_mod _) halloc'
      hmem
  by_cases hclass : bestFitSlabIndex (withHeader size) = buddyIndex
  · -- a large request
    rw [takeSlab, if_neg (not_not.mpr hclass), Option.some.injEq, Prod.mk.injEq] at hturn
    obtain ⟨-, rfl⟩ := hturn
    have hbuddy' : buddyAlloc memory layout.alloc (toPagesCount (withHeader size)) =
        some (taken.mem, taken.memory) := hheap.buddy_eq ▸ hbuddy
    exact iff_of_false (buddyAlloc_misaligned hheap.represents hbegin hbuddy' hmem)
      fun hodd => hodd.1 hclass
  · -- the slab of the class has nothing
    rw [takeSlab, if_pos hclass] at hturn
    have hslab := hslabOf hturn
    obtain ⟨mem, replied', free', classes', halloc, -, hheap'⟩ :=
      hheap.slabAlloc_heap hfuel hslab (not_movesUp_of_null hslab hturn) size
    obtain ⟨rfl, rfl⟩ : 0 = mem ∧ replied = replied' := by
      simpa using hturn.symm.trans halloc
    have hbuddy' : buddyAlloc replied layout.alloc (toPagesCount (withHeader size)) =
        some (taken.mem, taken.memory) := hheap.buddy_eq ▸ hbuddy
    rw [TakesOddSlot, and_iff_right hclass]
    exact iff_of_false (buddyAlloc_misaligned hheap'.represents hbegin hbuddy' hmem)
      (not_oddSlotNext_of_null hslab hturn)

/-- A request that meets the conditions gets an answer. -/
theorem penguinMalloc_returns (hfuel : 2 ≤ fuel)
    (hheap : Heap layout globals free classes memory live)
    (htame : TameMalloc globals memory size) :
    ∃ result, penguinMalloc (realAllocators fuel) globals memory size = some result := by
  obtain ⟨taken, -, -, -, htake, -⟩ := penguinTake_heap hfuel hheap htame
  simp only [penguinMalloc, htake, Option.bind_eq_bind, Option.bind_some]
  split_ifs
  · exact ⟨_, rfl⟩
  · exact ⟨_, rfl⟩

/-! ## Runs -/

/-- The first page of a pool that `buddy_init` accepts. -/
theorem layout_begin_mod {begin_ end_ alloc : ℕ} {blocks : List Block} (horder : begin_ ≤ end_)
    (hend : end_ < wordSize)
    (hinit : buddyInit memory begin_ end_ = some (alloc, memory')) (halloc : alloc ≠ 0)
    (hlayout : layout.alloc = alloc) (hrep : Represents layout memory' free blocks) :
    layout.begin_ % pageSize = 0 := by
  obtain ⟨rfl, -, hfresh⟩ := BuddySizing.buddyInit_fresh horder hend hinit halloc
  rw [← hrep.begin_eq, hlayout, hfresh.begin_eq, managedBegin]
  exact alignAddrToPageSizeUp_mod _

/-- From every state of a run that keeps the heap intact, the pointers that
`penguin_malloc` returns are aligned exactly if they are odd slots. -/
theorem aligned_iff_takesOddSlot {memory memory₀ memory₁ : Memory} {begin_ end_ alloc fuel : ℕ}
    {globals : Globals} (hfuel : 2 ≤ fuel) (horder : begin_ ≤ end_) (hend : end_ < wordSize)
    (hinit : buddyInit memory begin_ end_ = some (alloc, memory₀)) (halloc : alloc ≠ 0)
    (hsized : WellSized memory₀ alloc) (hroot : 64 ≤ rootBlockSize memory₀ alloc)
    (hpenguin : penguinMallocInit realBuddy memory₀ alloc = some (globals, memory₁))
    {ops : List Op} (hrun : AllSteps (step (realAllocators fuel) globals)
      (fun client op => Legal client op ∧ Tame globals client op) ⟨memory₁, []⟩ ops) :
    ∀ done, done <+: ops → ∃ client,
      run (step (realAllocators fuel) globals) ⟨memory₁, []⟩ done = some client ∧
      ∀ size, (TameMalloc globals client.memory size → ∃ result,
          penguinMalloc (realAllocators fuel) globals client.memory size = some result) ∧
        ∀ ptr memory', penguinMalloc (realAllocators fuel) globals client.memory size =
            some (ptr, memory') → ptr ≠ 0 →
          (ptr % 16 = 0 ↔ TakesOddSlot globals client.memory size) := by
  obtain ⟨layout, hlayout, -, -, hrep⟩ := buddyInit_represents horder hend hinit halloc hsized
  have hbegin := layout_begin_mod horder hend hinit halloc hlayout hrep
  subst hlayout
  rw [hrep.root_eq] at hroot
  obtain ⟨globals', memory', hready, hsound⟩ := penguinMallocInit_sound hroot hrep
  obtain ⟨rfl, rfl⟩ : globals' = globals ∧ memory' = memory₁ := by
    simpa using hready.symm.trans hpenguin
  intro done hdone
  obtain ⟨client, hreached, hclient⟩ := run_preserves_throughout
    (Sound layout globals') (fun _ _ hinv hstep => step_sound hfuel hinv hstep.1 hstep.2)
    hsound hrun done hdone
  obtain ⟨free, classes, hheap⟩ := hclient.heap
  exact ⟨client, hreached, fun size => ⟨penguinMalloc_returns hfuel hheap,
    fun ptr memory' => penguinMalloc_aligned hfuel hheap hbegin⟩⟩

theorem aligned_wideMemory :
    ∃ client ptr memory', run (step (realAllocators 2) wideGlobals) ⟨wideMemory, []⟩
        [.malloc 20, .malloc 5000, .write 2105360 7] = some client ∧
      penguinMalloc (realAllocators 2) wideGlobals client.memory 20 = some (ptr, memory') ∧
      ptr = 8368 ∧ ptr % 16 = 0 := by
  obtain ⟨client, hrun, hanswers⟩ := aligned_iff_takesOddSlot le_rfl (by decide) (by decide)
    buddyInit_widePool (by decide) widePool_wellSized rootBlockSize_widePool
    penguinMallocInit_widePool
    (show AllSteps (step (realAllocators 2) wideGlobals)
      (fun client op => Legal client op ∧ Tame wideGlobals client op) ⟨wideMemory, []⟩
      [.malloc 20, .malloc 5000, .write 2105360 7] by decide +kernel) _ (List.prefix_refl _)
  have hnext : (run (step (realAllocators 2) wideGlobals) ⟨wideMemory, []⟩
      [.malloc 20, .malloc 5000, .write 2105360 7]).map (fun client =>
        ((penguinMalloc (realAllocators 2) wideGlobals client.memory 20).map Prod.fst,
          decide (TakesOddSlot wideGlobals client.memory 20))) = some (some 8368, true) := by
    decide +kernel
  rw [hrun, Option.map_some, Option.some.injEq, Prod.mk.injEq, Option.map_eq_some_iff] at hnext
  obtain ⟨⟨⟨ptr, memory'⟩, hmalloc, hptr⟩, hodd⟩ := hnext
  obtain rfl : ptr = 8368 := hptr
  exact ⟨client, 8368, memory', hrun, hmalloc, rfl,
    ((hanswers 20).2 8368 memory' hmalloc (by decide)).mpr (of_decide_eq_true hodd)⟩

/-- The first slot of a fresh slab is not aligned. -/
theorem not_aligned_fresh :
    ¬ ∀ (memory memory₀ memory₁ : Memory) (begin_ end_ alloc fuel : ℕ) (globals : Globals)
      (ops : List Op), 2 ≤ fuel → begin_ ≤ end_ → end_ < wordSize →
      buddyInit memory begin_ end_ = some (alloc, memory₀) → alloc ≠ 0 →
      WellSized memory₀ alloc → 64 ≤ rootBlockSize memory₀ alloc →
      penguinMallocInit realBuddy memory₀ alloc = some (globals, memory₁) →
      AllSteps (step (realAllocators fuel) globals) Legal ⟨memory₁, []⟩ ops →
      ∀ done, done <+: ops → ∀ client,
        run (step (realAllocators fuel) globals) ⟨memory₁, []⟩ done = some client →
        ∀ size ptr memory', size < wordSize →
          penguinMalloc (realAllocators fuel) globals client.memory size =
            some (ptr, memory') → ptr ≠ 0 → ptr % 16 = 0 := by
  intro hclaim
  have hfirst : (penguinMalloc (realAllocators 2) wideGlobals wideMemory 20).map Prod.fst =
      some 8328 := by decide +kernel
  obtain ⟨⟨ptr, memory'⟩, hmalloc, hptr⟩ := Option.map_eq_some_iff.mp hfirst
  obtain rfl : ptr = 8328 := hptr
  have haligned := hclaim (fun _ => 0) widePool wideMemory 4096 8392704 4096 2 wideGlobals []
    le_rfl (by decide) (by decide) buddyInit_widePool (by decide) widePool_wellSized
    rootBlockSize_widePool penguinMallocInit_widePool trivial [] (List.prefix_refl _)
    ⟨wideMemory, []⟩ rfl 20 8328 memory' (by decide)
  dsimp only at haligned
  exact absurd (haligned hmalloc (by decide)) (by decide)

end DoomsdayModules.PenguinAlignment
