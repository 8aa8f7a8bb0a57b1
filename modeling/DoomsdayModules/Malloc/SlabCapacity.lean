import DoomsdayModules.Malloc.SlabMoves
import DoomsdayModules.Malloc.SlabGrowth

/-!
# How many objects a cache holds

`slab_cache_pages` compares bytes with a number of pages, so that every slab
whose slot size does not wrap around gets regions of 64 pages, whatever the
size of its objects.  A root cache of 64 pages has 262024 bytes for slots: it
holds eight of at most 32753 bytes, and fewer of anything larger.
-/

namespace DoomsdayModules.SlabCapacity

open DoomsdayModules.ByteMemory DoomsdayModules.Util DoomsdayModules.Freelist
open DoomsdayModules.Slab DoomsdayModules.SlabInvariant DoomsdayModules.SlabMoves
open DoomsdayModules.SlabGrowth

/-! ## The claim -/

/-- The slot size that `slab_init` computes. -/
def slotSize (size : ℕ) : ℕ := (size + sizeofSlabAllocatedObjectHeader) % wordSize

/-- The buddy allocator answers with a region of that many pages. -/
structure Serves (buddy : BuddyOps) (memory : Memory) (buddyPtr pages mem : ℕ)
    (served : Memory) : Prop where
  answer : buddy.alloc memory buddyPtr pages = some (mem, served)
  pos : 0 < mem
  stop_lt : mem + pages * pageSize < wordSize

/-- A buddy allocator no call of which has a result. -/
def silentBuddy : BuddyOps := ⟨fun _ _ _ => none, fun _ _ _ => none⟩

/-- Calls of `slab_alloc` in a row, as long as they return objects. -/
def slabAllocs (fuel : ℕ) (buddy : BuddyOps) (slab : ℕ) : ℕ → Memory → Option Memory
  | 0, memory => some memory
  | calls + 1, memory => do
      let (ptr, memory) ← slabAlloc fuel buddy memory slab
      if ptr = 0 then none else slabAllocs fuel buddy slab calls memory

/-- `cache` is apart from the `slab_alloc_t` and from the header of its last cache. -/
def ApartFromSlab (memory : Memory) (slab cache : ℕ) : Prop :=
  (slab + sizeofSlabAlloc ≤ cache ∨ cache + sizeofSlabCacheHeader ≤ slab) ∧
    (lastCache memory slab + sizeofSlabCacheHeader ≤ cache ∨
      cache + sizeofSlabCacheHeader ≤ lastCache memory slab)

/-- The caches of a slab for objects of `size` bytes have at least the minimal
number of pages and hold at least the minimal number of objects, the root cache
as well as every later one, and as many allocations need no other cache. -/
structure HoldsMinimum (size : ℕ) : Prop where
  root : ∀ buddy memory buddyPtr mem served,
    Serves buddy memory buddyPtr (slabCachePages (slotSize size)) mem served →
    ∃ memory', slabInit buddy memory buddyPtr size = some (mem, memory') ∧
      objsize memory' mem = slotSize size ∧
      cachesize memory' mem = slabCachePages (slotSize size) ∧
      slabMinCachePages ≤ cachesize memory' mem ∧
      slabMinCacheObjects ≤ maxObjects memory' (firstCache memory' mem) ∧
      ∀ fuel, 2 ≤ fuel → (slabAllocs fuel silentBuddy mem slabMinCacheObjects memory').isSome
  later : ∀ memory memory' slab cache, objsize memory slab = slotSize size →
    cachesize memory slab = slabCachePages (slotSize size) →
    cache + cachesize memory slab * pageSize < wordSize → ApartFromSlab memory slab cache →
    slabCacheInit memory slab cache (cache + cachesize memory slab * pageSize) = some memory' →
    slabMinCacheObjects ≤ maxObjects memory' cache

/-! ## A new slab -/

/-- The words of a slab whose only cache has handed out its first `taken` slots. -/
structure Filling (slab objsize max taken : ℕ) (memory : Memory) : Prop where
  first_eq : firstCache memory slab = slab + 48
  first_free : firstFreeCache memory slab = slab + 48
  objsize_eq : Slab.objsize memory slab = objsize
  unmanaged_eq : unmanagedBegin memory (slab + 48) = slab + 120 + objsize * taken
  prev_eq : prevCache memory (slab + 48) = 0
  next_eq : nextCache memory (slab + 48) = 0
  freelist_eq : readWord memory (slab + 48 + 40) = 0
  allocated_eq : allocatedObjects memory (slab + 48) = taken
  max_eq : maxObjects memory (slab + 48) = max

variable {slab objsize pages max taken : ℕ} {memory : Memory}

/-- The `slab_alloc_t` that `slab_init` writes. -/
def slabHeader (memory : Memory) (slab buddyPtr objsize pages : ℕ) : Memory :=
  writeWord (writeWord (writeWord (writeWord (writeWord (writeWord memory slab buddyPtr)
    (slab + 8) 0) (slab + 16) 0) (slab + 24) 0) (slab + 32) objsize) (slab + 40) pages

theorem slabHeader_words (memory : Memory) (slab buddyPtr : ℕ) (hobjsize : objsize < wordSize)
    (hpages : pages < wordSize) :
    firstCache (slabHeader memory slab buddyPtr objsize pages) slab = 0 ∧
      firstFreeCache (slabHeader memory slab buddyPtr objsize pages) slab = 0 ∧
      Slab.objsize (slabHeader memory slab buddyPtr objsize pages) slab = objsize ∧
      cachesize (slabHeader memory slab buddyPtr objsize pages) slab = pages := by
  refine ⟨?_, ?_, ?_, readWord_writeWord_same hpages⟩
  · iterate 4 refine (readWord_writeWord_of_disjoint (by omega)).trans ?_
    exact readWord_writeWord_same (by norm_num)
  · iterate 3 refine (readWord_writeWord_of_disjoint (by omega)).trans ?_
    exact readWord_writeWord_same (by norm_num)
  · refine (readWord_writeWord_of_disjoint (by omega)).trans ?_
    exact readWord_writeWord_same hobjsize

/-- A new slab has handed out nothing. -/
theorem slabInitAt_filling (memory : Memory) {buddyPtr : ℕ} (hpos : objsize ≠ 0)
    (hobjsize : objsize < wordSize) (hpages : pages ≠ 0)
    (hstop : slab + pages * pageSize < wordSize) :
    ∃ memory', slabInitAt memory slab buddyPtr objsize pages = some memory' ∧
      cachesize memory' slab = pages ∧
      Filling slab objsize ((pages * pageSize - 120) / objsize) 0 memory' := by
  have hpagesLt : pages < wordSize := by
    simp only [pageSize] at hstop
    omega
  obtain ⟨hfirst, hfirstFree, hobjsizeEq, hcachesize⟩ :=
    slabHeader_words memory slab buddyPtr hobjsize hpagesLt
  have hroom : slab + 48 + 72 ≤ slab + pages * pageSize := by
    simp only [pageSize]
    omega
  have hbytes : slab + pages * pageSize - (slab + 48) - 72 = pages * pageSize - 120 := by
    generalize pages * pageSize = bytes
    omega
  have hinit := @slabCacheInit_root _ _ (slab + pages * pageSize) hfirst hfirstFree
    (ne_of_eq_of_ne hobjsizeEq hpos)
  rw [hobjsizeEq] at hinit
  refine ⟨_, hinit, ?_⟩
  generalize slabHeader memory slab buddyPtr objsize pages = header at *
  obtain ⟨hunmanaged, hprev, hnext, hfreelist, hallocated, hmax⟩ :=
    slabCacheFields_words header objsize hroom hstop
  have hfields := slabCacheFields_unchangedOutside header (slab + 48) (slab + pages * pageSize)
    objsize
  generalize slabCacheFields header (slab + 48) (slab + pages * pageSize) objsize = fields at *
  obtain ⟨hwrites, hfirstCache, -, hfirstFreeCache, -⟩ :=
    rootWrites_words fields (show slab + 48 < wordSize by omega)
  generalize rootWrites fields slab (slab + 48) = final at *
  have hslabWord : ∀ offset, 32 ≤ offset → offset + 8 ≤ 48 →
      readWord final (slab + offset) = readWord header (slab + offset) :=
    fun offset hlower hupper =>
      (readWord_congr (hwrites.agreeOn fun query hlower hupper => by omega)).trans
        (readWord_congr (hfields.agreeOn fun query hlower hupper => by omega))
  have hcacheWord : ∀ offset, offset + 8 ≤ 64 →
      readWord final (slab + 48 + offset) = readWord fields (slab + 48 + offset) :=
    fun offset hoffset => readWord_congr (hwrites.agreeOn fun query hlower hupper => by omega)
  refine ⟨(hslabWord 40 (by omega) le_rfl).trans hcachesize, ?_⟩
  exact
    { first_eq := hfirstCache
      first_free := hfirstFreeCache
      objsize_eq := (hslabWord 32 le_rfl (by omega)).trans hobjsizeEq
      unmanaged_eq := by
        refine (hcacheWord 16 (by omega)).trans (hunmanaged.trans ?_)
        omega
      prev_eq := (hcacheWord 24 (by omega)).trans hprev
      next_eq := (hcacheWord 32 (by omega)).trans hnext
      freelist_eq := (hcacheWord 40 (by omega)).trans hfreelist
      allocated_eq := (hcacheWord 48 (by omega)).trans hallocated
      max_eq := by rw [← hbytes]; exact (hcacheWord 56 (by omega)).trans hmax }

/-! ## The allocations that follow -/

/-- The words that counting an object and skipping full caches leave alone. -/
theorem skipped_word {memory' : Memory} {address : ℕ}
    (hchange : UnchangedOutside (countObject memory (slab + 48)) memory' fun query =>
      slab + 16 ≤ query ∧ query < slab + 24)
    (hfirst : address + 8 ≤ slab + 16 ∨ slab + 24 ≤ address)
    (hcount : address + 8 ≤ slab + 96 ∨ slab + 104 ≤ address) :
    readWord memory' address = readWord memory address := by
  refine (readWord_congr (hchange.agreeOn fun query hlower hupper => by omega)).trans ?_
  exact readWord_writeWord_of_disjoint (by omega)

/-- The memory after a fresh slot is handed out. -/
def handOut (memory : Memory) (slab objsize taken : ℕ) : Memory :=
  writeWord (writeWord memory (slab + 48 + 16) (slab + 120 + objsize * taken + objsize))
    (slab + 120 + objsize * taken) (slab + 48)

theorem takeSlot_fresh (hunmanaged : unmanagedBegin memory (slab + 48) = slab + 120 + objsize * taken)
    (hfreelist : readWord memory (slab + 48 + 40) = 0)
    (hobjsize : Slab.objsize memory slab = objsize) :
    writeWord (takeSlot memory slab (slab + 48)).2 (takeSlot memory slab (slab + 48)).1
        (slab + 48) = handOut memory slab objsize taken ∧
      (takeSlot memory slab (slab + 48)).1 = slab + 120 + objsize * taken := by
  have hpop : freelistPop memory (slab + 48 + 40) = (0, memory) := freelistPop_nil hfreelist
  simp only [takeSlot, hpop, if_pos, hunmanaged, hobjsize, handOut, and_self]

theorem handOut_word {address : ℕ} (haddress : address + 8 ≤ slab + 64 ∨ slab + 72 ≤ address)
    (hheader : address + 8 ≤ slab + 120) :
    readWord (handOut memory slab objsize taken) address = readWord memory address :=
  (readWord_writeWord_of_disjoint (by omega)).trans (readWord_writeWord_of_disjoint (by omega))

theorem countObject_word {address : ℕ}
    (haddress : address + 8 ≤ slab + 96 ∨ slab + 104 ≤ address) :
    readWord (countObject memory (slab + 48)) address = readWord memory address :=
  readWord_writeWord_of_disjoint (by omega)

theorem Filling.counted (hfill : Filling slab objsize max taken memory)
    (htaken : taken + 1 < wordSize) :
    allocatedObjects (countObject memory (slab + 48)) (slab + 48) = taken + 1 := by
  rw [countObject, hfill.allocated_eq]
  exact readWord_writeWord_same htaken

/-- Counting an object and handing out the next slot keeps the rest. -/
theorem Filling.after_handOut (hfill : Filling slab objsize max taken memory)
    (htaken : taken + 1 < wordSize)
    (hroom : slab + 120 + (objsize * taken + objsize) < wordSize) :
    Filling slab objsize max (taken + 1)
      (handOut (countObject memory (slab + 48)) slab objsize taken) := by
  have hrest : ∀ address, address + 8 ≤ slab + 64 ∨ slab + 72 ≤ address →
      address + 8 ≤ slab + 120 →
      address + 8 ≤ slab + 96 ∨ slab + 104 ≤ address →
      readWord (handOut (countObject memory (slab + 48)) slab objsize taken) address =
        readWord memory address :=
    fun address hunmanaged hheader hcount =>
      (handOut_word hunmanaged hheader).trans (countObject_word hcount)
  exact
    { first_eq := (hrest _ (by omega) (by omega) (by omega)).trans hfill.first_eq
      first_free := (hrest _ (by omega) (by omega) (by omega)).trans hfill.first_free
      objsize_eq := (hrest _ (by omega) (by omega) (by omega)).trans hfill.objsize_eq
      unmanaged_eq := by
        refine (readWord_writeWord_of_disjoint (by omega)).trans ?_
        rw [Nat.mul_succ, ← Nat.add_assoc]
        exact readWord_writeWord_same (by simp only [wordSize] at hroom; omega)
      prev_eq := (hrest _ (by omega) (by omega) (by omega)).trans hfill.prev_eq
      next_eq := (hrest _ (by omega) (by omega) (by omega)).trans hfill.next_eq
      freelist_eq := (hrest _ (by omega) (by omega) (by omega)).trans hfill.freelist_eq
      allocated_eq := (handOut_word (by omega) (by omega)).trans (hfill.counted htaken)
      max_eq := (hrest _ (by omega) (by omega) (by omega)).trans hfill.max_eq }

/-- The next slot of a cache that has room is handed out. -/
theorem Filling.alloc (hfill : Filling slab objsize max taken memory) (hslab : 0 < slab)
    (hpos : objsize ≠ 0) (htaken : taken < max) (hroom : slab + 120 + objsize * max < wordSize)
    {fuel : ℕ} (hfuel : 2 ≤ fuel) (buddy : BuddyOps) :
    ∃ memory', slabAlloc fuel buddy memory slab =
        some (slab + 120 + objsize * taken + 8, memory') ∧
      (taken + 1 < max → Filling slab objsize max (taken + 1) memory') := by
  have hmax : max ≤ objsize * max := Nat.le_mul_of_pos_left _ (Nat.pos_of_ne_zero hpos)
  have hslot : objsize * taken + objsize ≤ objsize * max := by
    rw [← Nat.mul_succ]
    exact Nat.mul_le_mul_left _ htaken
  have hcounted := hfill.counted (by omega)
  have hstays : ¬ overtakesPrev (countObject memory (slab + 48)) (slab + 48) :=
    fun hovertakes => hovertakes.1 ((countObject_word (by omega)).trans hfill.prev_eq)
  have hfirst : firstFreeCache (countObject memory (slab + 48)) slab = slab + 48 :=
    (countObject_word (by omega)).trans hfill.first_free
  have hnext : nextCache (countObject memory (slab + 48)) (slab + 48) = 0 :=
    (countObject_word (by omega)).trans hfill.next_eq
  have hmaxEq : maxObjects (countObject memory (slab + 48)) (slab + 48) = max :=
    (countObject_word (by omega)).trans hfill.max_eq
  obtain ⟨skipped, hskip, hchange, hends⟩ :=
    @skipFullCaches_spec ⟨slab, 0, 0, hslab, by decide, by decide⟩ _ _ _ hfuel hfirst hnext
  have hword : ∀ address, address + 8 ≤ slab + 16 ∨ slab + 24 ≤ address →
      address + 8 ≤ slab + 96 ∨ slab + 104 ≤ address →
      readWord skipped address = readWord memory address :=
    fun address hbefore hafter => skipped_word hchange hbefore hafter
  obtain ⟨hhand, hslotEq⟩ := takeSlot_fresh ((hword _ (by omega) (by omega)).trans hfill.unmanaged_eq)
    ((hword _ (by omega) (by omega)).trans hfill.freelist_eq)
    ((hword _ (by omega) (by omega)).trans hfill.objsize_eq)
  refine ⟨handOut skipped slab objsize taken, ?_, fun hmore => ?_⟩
  · have hnotFull : allocatedObjects memory (slab + 48) ≠ maxObjects memory (slab + 48) := by
      rw [hfill.allocated_eq, hfill.max_eq]
      exact htaken.ne
    have hcache : slab + 48 ≠ 0 := by omega
    simp only [slabAlloc, if_neg hslab.ne', growSlab, hfill.first_free, if_neg hcache,
      Option.bind_eq_bind, Option.bind_some, slabCacheAlloc, if_neg hnotFull, if_neg hstays]
    change (skipFullCaches slab fuel (countObject memory (slab + 48))).bind _ = _
    rw [hskip]
    simp only [Option.bind_some, Option.pure_def, hhand]
    rw [hslotEq, sizeofSlabAllocatedObjectHeader]
  · obtain rfl : skipped = countObject memory (slab + 48) := by
      rcases hends with ⟨-, hfull⟩ | ⟨hsame, -⟩
      · have hlast := hfull (by omega)
        rw [hcounted, hmaxEq] at hlast
        exact absurd hlast hmore.ne
      · exact hsame
    exact hfill.after_handOut (by omega) (by omega)

/-- As long as there is room, calls in a row need no other cache. -/
theorem Filling.allocs (hfill : Filling slab objsize max taken memory) (hslab : 0 < slab)
    (hpos : objsize ≠ 0) (hroom : slab + 120 + objsize * max < wordSize) {fuel : ℕ}
    (hfuel : 2 ≤ fuel) (buddy : BuddyOps) (calls : ℕ) (hcalls : taken + calls ≤ max) :
    (slabAllocs fuel buddy slab calls memory).isSome := by
  induction calls generalizing taken memory with
  | zero => rfl
  | succ calls ih =>
      obtain ⟨memory', halloc, hnext⟩ := hfill.alloc hslab hpos (by omega) hroom hfuel buddy
      have hptr : slab + 120 + objsize * taken + 8 ≠ 0 := by omega
      simp only [slabAllocs, halloc, Option.bind_eq_bind, Option.bind_some, if_neg hptr]
      rcases Nat.eq_zero_or_pos calls with rfl | hmore
      · rfl
      · exact ih (hnext (by omega)) (by omega)

/-! ## Later caches -/

/-- A cache that is initialised apart from the slab holds as many objects as
fit behind its header. -/
theorem slabCacheInit_maxObjects {memory' : Memory} {cache end_ : ℕ}
    (hroom : cache + 72 ≤ end_) (hend : end_ < wordSize) (hapart : ApartFromSlab memory slab cache)
    (hinit : slabCacheInit memory slab cache end_ = some memory') :
    maxObjects memory' cache = (end_ - cache - 72) / Slab.objsize memory slab := by
  obtain ⟨hslab, hlast⟩ := hapart
  simp only [sizeofSlabAlloc, sizeofSlabCacheHeader] at hslab hlast
  have hfields := slabCacheFields_unchangedOutside memory cache end_ (Slab.objsize memory slab)
  obtain ⟨-, -, -, -, -, hmax⟩ := slabCacheFields_words memory (Slab.objsize memory slab) hroom hend
  rw [slabCacheInit] at hinit
  split_ifs at hinit with hzero
  have hlastCache : lastCache (slabCacheFields memory cache end_ (Slab.objsize memory slab)) slab =
      lastCache memory slab :=
    readWord_congr (hfields.agreeOn fun query hlower hupper => by omega)
  generalize slabCacheFields memory cache end_ (Slab.objsize memory slab) = fields at *
  obtain ⟨appended, happend, hinit⟩ := Option.bind_eq_some_iff.mp hinit
  have happended : maxObjects appended cache = maxObjects fields cache := by
    rw [slabCacheAppend] at happend
    split_ifs at happend with hfirst hnull
    · obtain rfl := Option.some.inj happend
      refine (readWord_writeWord_of_disjoint (by omega)).trans ?_
      refine (readWord_writeWord_of_disjoint (by omega)).trans ?_
      exact readWord_writeByte_of_disjoint (by omega)
    · obtain rfl := Option.some.inj happend
      refine (readWord_writeWord_of_disjoint (by omega)).trans ?_
      refine (readWord_writeWord_of_disjoint (by omega)).trans ?_
      exact readWord_writeWord_of_disjoint (by omega)
  have hfinal : maxObjects memory' cache = maxObjects appended cache := by
    obtain rfl := Option.some.inj hinit
    split_ifs
    · exact readWord_writeWord_of_disjoint (by omega)
    · rfl
  rw [hfinal, happended]
  exact hmax

/-! ## The sizes that fit -/

theorem slotSize_lt (size : ℕ) : slotSize size < wordSize := Nat.mod_lt _ (by norm_num)

theorem slabCachePages_eq (objsize : ℕ) :
    slabCachePages objsize = 8 ∨ slabCachePages objsize = 64 := by
  rw [slabCachePages]
  split_ifs
  · exact .inl rfl
  · exact .inr rfl

/-- Small slots get 64 pages: the comparison is with bytes. -/
theorem slabCachePages_of_small (hpos : objsize ≠ 0) (hsmall : objsize ≤ 32753) :
    slabCachePages objsize = 64 := by
  rw [slabCachePages, Nat.mod_eq_of_lt (by simp only [slabMinCacheObjects, wordSize]; omega)]
  simp only [slabMinCacheObjects, slabMinCachePages]
  exact if_neg (by omega)

theorem slabInit_of_serves {buddy : BuddyOps} {size buddyPtr mem : ℕ} {served : Memory}
    (hserves : Serves buddy memory buddyPtr (slabCachePages (slotSize size)) mem served) :
    slabInit buddy memory buddyPtr size =
      (slabInitAt served mem buddyPtr (slotSize size) (slabCachePages (slotSize size))).map
        fun memory => (mem, memory) := by
  have hanswer := hserves.answer
  simp only [slotSize] at hanswer ⊢
  simp only [slabInit, hanswer, Option.bind_eq_bind, Option.bind_some, if_neg hserves.pos.ne']

theorem slabInitAt_eq_none (served : Memory) (mem buddyPtr : ℕ) (hpages : pages < wordSize) :
    slabInitAt served mem buddyPtr 0 pages = none := by
  obtain ⟨-, -, hobjsize, -⟩ :=
    @slabHeader_words 0 pages served mem buddyPtr (by norm_num) hpages
  change slabCacheInit (slabHeader served mem buddyPtr 0 pages) mem _ _ = none
  rw [slabCacheInit, if_pos hobjsize]

/-- A buddy allocator that always answers with the same region. -/
def constantBuddy : BuddyOps := ⟨fun memory _ _ => some (4096, memory), fun memory _ _ => some memory⟩

theorem constantBuddy_serves (buddyPtr size : ℕ) : Serves constantBuddy memory buddyPtr
    (slabCachePages (slotSize size)) 4096 memory where
  answer := rfl
  pos := by norm_num
  stop_lt := by
    have hpages := slabCachePages_eq (slotSize size)
    simp only [pageSize, wordSize]
    omega

/-- The slot size of a slab whose root cache holds eight objects. -/
theorem slotSize_of_holdsMinimum {size : ℕ} (hholds : HoldsMinimum size) :
    1 ≤ slotSize size ∧ slotSize size ≤ 32753 := by
  have hserves := @constantBuddy_serves (fun _ => 0) 0 size
  have hpages := slabCachePages_eq (slotSize size)
  obtain ⟨memory', hinit, -, -, -, hmax, -⟩ := hholds.root _ _ _ _ _ hserves
  rw [slabInit_of_serves hserves] at hinit
  rcases Nat.eq_zero_or_pos (slotSize size) with hzero | hpos
  · rw [hzero, slabInitAt_eq_none _ _ _ (by
      rw [← hzero]
      simp only [wordSize]
      omega)] at hinit
    simp at hinit
  · obtain ⟨made, hmade, -, hfill⟩ := @slabInitAt_filling 4096 _ _ (fun _ => 0) 0 hpos.ne'
      (slotSize_lt size) (by omega) hserves.stop_lt
    rw [hmade, Option.map_some, Option.some.injEq, Prod.mk.injEq] at hinit
    obtain ⟨-, rfl⟩ := hinit
    rw [hfill.first_eq, hfill.max_eq, Nat.le_div_iff_mul_le hpos] at hmax
    simp only [slabMinCacheObjects, pageSize] at hmax
    exact ⟨hpos, by omega⟩

theorem holdsMinimum_of_slotSize {size : ℕ} (hpos : 1 ≤ slotSize size)
    (hsmall : slotSize size ≤ 32753) : HoldsMinimum size where
  root := by
    intro buddy memory buddyPtr mem served hserves
    have hpages := slabCachePages_of_small (by omega) hsmall
    have hstop := hserves.stop_lt
    obtain ⟨memory', hmade, hcachesize, hfill⟩ := @slabInitAt_filling mem _ _ served buddyPtr
      (by omega) (slotSize_lt size) (by omega) hstop
    rw [hpages] at hfill hcachesize hstop
    have hmax : slabMinCacheObjects ≤ (64 * pageSize - 120) / slotSize size := by
      rw [Nat.le_div_iff_mul_le hpos]
      simp only [slabMinCacheObjects, pageSize]
      omega
    have hbytes := Nat.mul_div_le (64 * pageSize - 120) (slotSize size)
    refine ⟨memory', ?_, hfill.objsize_eq, hpages ▸ hcachesize, ?_, ?_, fun fuel hfuel => ?_⟩
    · rw [slabInit_of_serves hserves, hmade, Option.map_some]
    · rw [hcachesize, slabMinCachePages]
      norm_num
    · rw [hfill.first_eq, hfill.max_eq]
      exact hmax
    · apply hfill.allocs hserves.pos (by omega) _ hfuel silentBuddy _ (by omega)
      simp only [pageSize] at hbytes hstop ⊢
      omega
  later := by
    intro memory memory' slab cache hobjsize hcachesize hstop hapart hinit
    rw [hcachesize, slabCachePages_of_small (by omega) hsmall] at hstop hinit
    rw [slabCacheInit_maxObjects (by simp only [pageSize]; omega) hstop hapart hinit, hobjsize,
      Nat.le_div_iff_mul_le hpos]
    simp only [slabMinCacheObjects, pageSize]
    omega

/-- The caches of a slab hold eight objects exactly for the slot sizes, as
`slab_init` computes them, from 1 to 32753. -/
theorem holdsMinimum_iff (size : ℕ) :
    HoldsMinimum size ↔ 1 ≤ slotSize size ∧ slotSize size ≤ 32753 :=
  ⟨slotSize_of_holdsMinimum, fun hsize => holdsMinimum_of_slotSize hsize.1 hsize.2⟩

/-- Objects of eight pages: the root cache holds seven of them. -/
theorem not_holdsMinimum_eight_pages : ¬ ∀ size < wordSize, HoldsMinimum size := by
  intro hclaim
  have hsize := (slotSize_of_holdsMinimum (hclaim (8 * pageSize) (by decide))).2
  exact absurd hsize (by decide)

end DoomsdayModules.SlabCapacity
