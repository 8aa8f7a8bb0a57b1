import DoomsdayModules.Malloc.SlabRelink
import DoomsdayModules.Malloc.SlabRuns

/-!
# The accounts of one cache

Allocating from one cache, freeing its objects and writing into them, from its
initialisation on.  The counter, the first slot never used and the free list
agree with the objects that are live, whatever becomes of the links to the
neighbouring cache: a move rewrites links, and links only.
-/

namespace DoomsdayModules.SlabAccounting

open DoomsdayModules.ByteMemory DoomsdayModules.Util DoomsdayModules.IntrusiveStack
open DoomsdayModules.Runs DoomsdayModules.Slab DoomsdayModules.SlabInvariant
open DoomsdayModules.SlabMoves DoomsdayModules.SlabGrowth DoomsdayModules.SlabOps
open DoomsdayModules.SlabRelink
open DoomsdayModules.SlabRuns (Setting Op)

/-! ## The client of one cache -/

/-- The memory and the live objects of the cache. -/
structure Client where
  memory : Memory
  live : List ℕ

/-- Calls on the cache at the address `cache`.  The cache is no more when its
last object is freed, unless it is the root cache. -/
def step (setting : Setting) (cache : ℕ) (client : Client) : Op → Option Client
  | .alloc => (slabCacheAlloc setting.fuel client.memory setting.slab cache).map
      fun (ptr, memory) =>
        { memory := memory, live := if ptr = 0 then client.live else ptr :: client.live }
  | .free ptr =>
      if Destroys client.memory setting.slab ptr then none
      else (slabFree setting.buddy client.memory setting.slab ptr).map fun memory =>
        { memory := memory, live := client.live.erase ptr }
  | .write address byte => some { client with memory := writeByte client.memory address byte }

/-- The client frees live objects and writes into live objects. -/
def Legal (size : ℕ) (client : Client) : Op → Prop
  | .alloc => True
  | .free ptr => ptr ∈ client.live
  | .write address _ => ∃ ptr ∈ client.live, ptr ≤ address ∧ address < ptr + size

instance (size : ℕ) (client : Client) : ∀ op, Decidable (Legal size client op)
  | .alloc => isTrue trivial
  | .free _ => inferInstanceAs (Decidable (_ ∈ _))
  | .write _ _ => inferInstanceAs (Decidable (∃ ptr ∈ client.live, _))

/-- `slab_cache_init` makes a cache in the region at `base`: the first region
starts with the `slab_alloc_t`, and any other one shares nothing with it or
with the header of the cache that is the last one so far. -/
structure SetsUp (setting : Setting) (base : ℕ) (before memory : Memory) : Prop where
  init : slabCacheInit before setting.slab (setting.cacheAt base) (setting.stop base) = some memory
  objsize_eq : objsize before setting.slab =
    (setting.size + sizeofSlabAllocatedObjectHeader) % wordSize
  slab_pos : 0 < setting.slab
  base_pos : 0 < base
  stop_lt : setting.stop base < wordSize
  first_iff : firstCache before setting.slab = 0 ↔ base = setting.slab
  slab_apart : base ≠ setting.slab →
    setting.slab + sizeofSlabAlloc ≤ base ∨ setting.stop base ≤ setting.slab
  last_apart : base ≠ setting.slab →
    (lastCache before setting.slab + sizeofSlabCacheHeader ≤ base ∨
      setting.stop base ≤ lastCache before setting.slab) ∧
    (lastCache before setting.slab + sizeofSlabCacheHeader ≤ setting.slab ∨
      setting.slab + sizeofSlabAlloc ≤ lastCache before setting.slab)

/-- The address of the slot behind the first `index` slots of a cache. -/
def slotAt (memory : Memory) (slab cache index : ℕ) : ℕ :=
  cache + sizeofSlabCacheHeader + objsize memory slab * index

/-- The counter counts the live objects, at most as many as fit; the live slots
and the slots on the free list are those below the first one never used, each
once and each inside the region; and the live objects name their cache. -/
structure Accounted (setting : Setting) (base : ℕ) (client : Client) : Prop where
  counted : allocatedObjects client.memory (setting.cacheAt base) = client.live.length
  bounded : allocatedObjects client.memory (setting.cacheAt base) ≤
    maxObjects client.memory (setting.cacheAt base)
  slots : ∃ free : List ℕ,
    IsStack client.memory (readWord client.memory (setting.cacheAt base + 40)) free ∧
    unmanagedBegin client.memory (setting.cacheAt base) =
      slotAt client.memory setting.slab (setting.cacheAt base)
        (allocatedObjects client.memory (setting.cacheAt base) + free.length) ∧
    (client.live.map (· - sizeofSlabAllocatedObjectHeader) ++ free).Nodup ∧
    (client.live.map (· - sizeofSlabAllocatedObjectHeader) ++ free).Perm
      ((List.range (allocatedObjects client.memory (setting.cacheAt base) + free.length)).map
        (slotAt client.memory setting.slab (setting.cacheAt base))) ∧
    ∀ slot ∈ client.live.map (· - sizeofSlabAllocatedObjectHeader) ++ free,
      slot + objsize client.memory setting.slab ≤ setting.stop base
  headers : ∀ ptr ∈ client.live, objectCache client.memory ptr = setting.cacheAt base

/-! ## A cache and one neighbour -/

/-- Where the cache is, and the cache that was the last one before it. -/
structure Ground (shape : Shape) (base other : ℕ) : Prop where
  base_pos : 0 < base
  stop_lt : shape.stop base < wordSize
  slab_apart : base = shape.slab ∨ shape.slab + 48 ≤ base ∨ shape.stop base ≤ shape.slab
  other_apart : other = 0 ∨ (other + 72 ≤ base ∨ shape.stop base ≤ other) ∧
    (other + 72 ≤ shape.slab ∨ shape.slab + 48 ≤ other)

/-- The links of the cache lead nowhere, to the other cache or to itself. -/
def Neighbour (shape : Shape) (base other ptr : ℕ) : Prop :=
  ptr = 0 ∨ ptr = other ∨ ptr = shape.addr base

/-- A byte of the links of the two caches. -/
def TwoLinks (shape : Shape) (base other query : ℕ) : Prop :=
  shape.LinkByte base query ∨ other ≠ 0 ∧ other + 24 ≤ query ∧ query < other + 40

/-- What the memory holds of the cache. -/
structure Alone (shape : Shape) (base other : ℕ) (memory : Memory) (cache : Cache) : Prop where
  base_eq : cache.base = base
  holds : CacheHolds shape memory cache
  objsize_eq : objsize memory shape.slab = shape.slotBytes
  prev : Neighbour shape base other (prevCache memory (shape.addr base))
  next : Neighbour shape base other (nextCache memory (shape.addr base))

variable {shape : Shape} {base other : ℕ} {memory memory' : Memory} {cache : Cache}

namespace Ground

variable (hground : Ground shape base other)

include hground

theorem addr_ne_zero : shape.addr base ≠ 0 := by
  have hpos := hground.base_pos
  have haddr := (shape.base_le_addr base).1
  omega

theorem addr_lt : shape.addr base < 2 ^ 64 := SlabMoves.addr_lt hground.stop_lt

/-- The cache, its header included, is apart from the `slab_alloc_t`. -/
theorem not_slab {query : ℕ} (hlower : shape.addr base ≤ query) (hupper : query < shape.stop base) :
    ¬ shape.SlabByte query := by
  rintro ⟨hlower', hupper'⟩
  have haddr := shape.base_le_addr base
  simp only [sizeofSlabAlloc] at hupper'
  rcases hground.slab_apart with rfl | hbefore | hafter
  · rw [shape.addr_slab] at hlower
    omega
  · omega
  · omega

theorem headersApart {ptr : ℕ} (hptr : Neighbour shape base other ptr) (hne : ptr ≠ 0) :
    HeadersApart (shape.addr base) ptr := by
  have haddr := shape.base_le_addr base
  have hstop := shape.header_le_stop base
  simp only [sizeofSlabCacheHeader] at hstop
  rcases hptr with rfl | rfl | rfl
  · exact absurd rfl hne
  · obtain ⟨hapart, -⟩ := hground.other_apart.resolve_left hne
    refine .inr ?_
    simp only [sizeofSlabCacheHeader]
    omega
  · exact .inl rfl

theorem linkOf_twoLinks {ptr query : ℕ} (hptr : Neighbour shape base other ptr) (hne : ptr ≠ 0)
    (hquery : LinkOf (shape.addr base) ptr query) : TwoLinks shape base other query := by
  rcases hquery with hquery | hquery
  · exact .inl hquery
  · rcases hptr with rfl | rfl | rfl
    · exact absurd rfl hne
    · exact .inr ⟨hne, hquery⟩
    · exact .inl hquery

theorem content_not_twoLinks {query : ℕ} (hcontent : shape.Content base query) :
    ¬ TwoLinks shape base other query := by
  obtain ⟨hlower, hupper, hlink⟩ := hcontent
  rintro (hlink' | ⟨hne, hlower', hupper'⟩)
  · exact hlink hlink'
  · have haddr := shape.base_le_addr base
    obtain ⟨hapart, -⟩ := hground.other_apart.resolve_left hne
    omega

theorem twoLinks_not_slab {query : ℕ} (hquery : TwoLinks shape base other query) :
    ¬ shape.SlabByte query := by
  have hstop := shape.header_le_stop base
  simp only [sizeofSlabCacheHeader] at hstop
  rcases hquery with ⟨hlower, hupper⟩ | ⟨hne, hlower, hupper⟩
  · exact hground.not_slab (by omega) (by omega)
  · obtain ⟨-, hapart⟩ := hground.other_apart.resolve_left hne
    rintro ⟨hlower', hupper'⟩
    simp only [sizeofSlabAlloc] at hupper'
    omega

end Ground

/-! ## Moves -/

/-- Whether or not the cache moves up, the change is one of links. -/
theorem settleUp_spec (hground : Ground shape base other)
    (hprev : Neighbour shape base other (prevCache memory (shape.addr base)))
    (hnext : Neighbour shape base other (nextCache memory (shape.addr base))) :
    UnchangedOutside memory (settleUp memory shape.slab (shape.addr base))
        (TwoLinks shape base other) ∧
      Neighbour shape base other
        (prevCache (settleUp memory shape.slab (shape.addr base)) (shape.addr base)) ∧
      Neighbour shape base other
        (nextCache (settleUp memory shape.slab (shape.addr base)) (shape.addr base)) := by
  rw [settleUp]
  split_ifs with hmoves
  · have hne := hmoves.1
    rw [slabCacheMoveUp_eq rfl hne hground.addr_lt (hground.headersApart hprev hne)]
    obtain ⟨hself, hneighbour⟩ :=
      relinkUp_links memory hground.addr_lt (readWord_lt memory (shape.addr base + 24))
    refine ⟨(relinkUp_unchangedOutside memory _ _).mono fun query hquery =>
      hground.linkOf_twoLinks hprev hne hquery, .inr (.inr hself), ?_⟩
    exact hneighbour ▸ hprev
  · exact ⟨unchangedOutside_refl _ _, hprev, hnext⟩

/-- Whether or not the cache moves down, the change is one of links. -/
theorem settleDown_spec (hground : Ground shape base other)
    (hprev : Neighbour shape base other (prevCache memory (shape.addr base)))
    (hnext : Neighbour shape base other (nextCache memory (shape.addr base))) :
    UnchangedOutside memory (settleDown memory shape.slab (shape.addr base))
        (TwoLinks shape base other) ∧
      Neighbour shape base other
        (prevCache (settleDown memory shape.slab (shape.addr base)) (shape.addr base)) ∧
      Neighbour shape base other
        (nextCache (settleDown memory shape.slab (shape.addr base)) (shape.addr base)) := by
  rw [settleDown]
  split_ifs with hmoves
  · have hne := hmoves.1
    rw [slabCacheMoveDown_eq rfl hne hground.addr_lt (hground.headersApart hnext hne)]
    obtain ⟨hneighbour, hself⟩ :=
      relinkDown_links memory hground.addr_lt (readWord_lt memory (shape.addr base + 32))
    refine ⟨(relinkDown_unchangedOutside memory _ _).mono fun query hquery =>
      hground.linkOf_twoLinks hnext hne hquery, ?_, .inr (.inr hself)⟩
    exact hneighbour ▸ hnext
  · exact ⟨unchangedOutside_refl _ _, hprev, hnext⟩

/-! ## The words an operation spares -/

/-- A change of the contents spares the links. -/
theorem links_of_content (hchange : UnchangedOutside memory memory' (shape.Content base)) :
    prevCache memory' (shape.addr base) = prevCache memory (shape.addr base) ∧
      nextCache memory' (shape.addr base) = nextCache memory (shape.addr base) :=
  (Core.link_words fun query hlink => hchange query fun hcontent => hcontent.2.2 hlink).symm

theorem links_of_firstFree (hground : Ground shape base other)
    (hchange : UnchangedOutside memory memory' shape.FirstFreeByte) :
    prevCache memory' (shape.addr base) = prevCache memory (shape.addr base) ∧
      nextCache memory' (shape.addr base) = nextCache memory (shape.addr base) :=
  (Core.link_words fun _ hlink => hchange _ fun hfirst =>
    hground.twoLinks_not_slab (.inl hlink) hfirst.slabByte).symm

theorem objsize_of_slabByte {region : ℕ → Prop} (hchange : UnchangedOutside memory memory' region)
    (hregion : ∀ query, region query → shape.SlabByte query → shape.FirstFreeByte query) :
    objsize memory' shape.slab = objsize memory shape.slab := by
  apply readWord_congr
  apply hchange.agreeOn
  intro query hlower hupper hquery
  have hfirst := hregion query hquery ⟨by omega, by simp only [sizeofSlabAlloc]; omega⟩
  have := hfirst.2
  omega

theorem content_not_slab (hground : Ground shape base other) {query : ℕ}
    (hcontent : shape.Content base query) : ¬ shape.SlabByte query :=
  hground.not_slab (by have := hcontent.1; omega) hcontent.2.1

/-! ## Allocations and frees -/

/-- A cache whose counter is ahead by one object, ready for a slot to be taken. -/
structure Counted (shape : Shape) (base other : ℕ) (memory : Memory) (cache : Cache) : Prop where
  base_eq : cache.base = base
  slots : Slots shape memory cache
  counter : allocatedObjects memory (shape.addr base) = cache.live.length + 1
  objsize_eq : objsize memory shape.slab = shape.slotBytes
  prev : Neighbour shape base other (prevCache memory (shape.addr base))
  next : Neighbour shape base other (nextCache memory (shape.addr base))

theorem countObject_counted (hground : Ground shape base other)
    (halone : Alone shape base other memory cache)
    (hroom : cache.live.length < shape.capacity base) :
    Counted shape base other (countObject memory (shape.addr base)) cache := by
  obtain ⟨rfl, hholds, hobjsize, hprev, hnext⟩ := halone
  have hcount := countObject_unchangedOutside memory shape cache.base
  have hcontent : UnchangedOutside memory (countObject memory (shape.addr cache.base))
      (shape.Content cache.base) := hcount.mono fun _ => counter_content
  obtain ⟨hprevEq, hnextEq⟩ := links_of_content hcontent
  refine
    { base_eq := rfl
      slots := hholds.toSlots.frame fun query _ hnotCounter _ => hcount query hnotCounter
      counter := ?_
      objsize_eq := (objsize_of_slabByte hcontent fun query hquery hslab =>
        absurd hslab (content_not_slab hground hquery)).trans hobjsize
      prev := by rw [hprevEq]; exact hprev
      next := by rw [hnextEq]; exact hnext }
  rw [countObject, hholds.allocated_eq]
  exact readWord_writeWord_same
    (lt_of_le_of_lt (Nat.succ_le_of_lt hroom) (capacity_lt hground.stop_lt))

/-- A change of links and of `first_free_cache` goes unnoticed. -/
theorem Counted.relinked (hcounted : Counted shape base other memory cache)
    (hground : Ground shape base other)
    (hchange : UnchangedOutside memory memory' fun query =>
      TwoLinks shape base other query ∨ shape.FirstFreeByte query)
    (hprev : Neighbour shape base other (prevCache memory' (shape.addr base)))
    (hnext : Neighbour shape base other (nextCache memory' (shape.addr base))) :
    Counted shape base other memory' cache := by
  obtain ⟨rfl, hslots, hcounter, hobjsize, -, -⟩ := hcounted
  have hcontent : ∀ query, shape.Content cache.base query → memory' query = memory query := by
    intro query hquery
    apply hchange
    rintro (hlinks | hfirst)
    · exact hground.content_not_twoLinks hquery hlinks
    · exact content_not_slab hground hquery hfirst.slabByte
  refine
    { base_eq := rfl
      slots := hslots.frame fun query hquery _ _ => hcontent query hquery
      counter := ?_
      objsize_eq := ?_
      prev := hprev
      next := hnext }
  · rw [← hcounter]
    exact readWord_congr fun query hlower hupper =>
      hcontent query (counter_content ⟨hlower, by omega⟩)
  · refine (objsize_of_slabByte hchange fun query hquery hslab => ?_).trans hobjsize
    exact hquery.resolve_left fun hlinks => hground.twoLinks_not_slab hlinks hslab

/-- An allocation from the cache takes one slot or finds the cache full. -/
theorem slabCacheAlloc_alone (hground : Ground shape base other)
    (halone : Alone shape base other memory cache) {fuel ptr : ℕ}
    (halloc : slabCacheAlloc fuel memory shape.slab (shape.addr base) = some (ptr, memory')) :
    (ptr = 0 ∧ memory' = memory) ∨ ∃ index free',
      ptr = shape.slot base index + sizeofSlabAllocatedObjectHeader ∧
      Alone shape base other memory' ⟨base, index :: cache.live, free'⟩ := by
  by_cases hfull : allocatedObjects memory (shape.addr base) = maxObjects memory (shape.addr base)
  · left
    rw [slabCacheAlloc, if_pos hfull, Option.some.injEq, Prod.mk.injEq] at halloc
    exact ⟨halloc.1.symm, halloc.2.symm⟩
  right
  have hroom : cache.live.length < shape.capacity base := by
    have hholds := halone.holds
    have hused := hholds.used_le
    have hallocated := hholds.allocated_eq
    have hmax := hholds.max_eq
    rw [halone.base_eq] at hused hallocated hmax
    rw [hallocated, hmax] at hfull
    simp only [Cache.used] at hused
    omega
  have hcounted := countObject_counted hground halone hroom
  obtain ⟨hmoved, hprev, hnext⟩ := settleUp_spec hground hcounted.prev hcounted.next
  rw [slabCacheAlloc_of_room hfull, Option.map_eq_some_iff] at halloc
  obtain ⟨skipped, hskip, hresult⟩ := halloc
  have hskipOutside : UnchangedOutside (settleUp (countObject memory (shape.addr base))
      shape.slab (shape.addr base)) skipped shape.FirstFreeByte :=
    skipFullCaches_unchangedOutside hskip
  generalize settleUp (countObject memory (shape.addr base)) shape.slab (shape.addr base) =
    moved at *
  obtain ⟨hprevEq, hnextEq⟩ := links_of_firstFree hground hskipOutside
  have hready := hcounted.relinked hground
    ((hmoved.mono fun _ => .inl).trans (hskipOutside.mono fun _ => .inr))
    (by rw [hprevEq]; exact hprev) (by rw [hnextEq]; exact hnext)
  obtain ⟨rfl, hslots, hcounter, hobjsize, hprev', hnext'⟩ := hready
  obtain ⟨index, free', hindex, hslot, hholds, htake⟩ :=
    take_holds hslots hground.stop_lt hroom hobjsize hcounter
  rw [hslot, Prod.mk.injEq] at hresult
  obtain ⟨rfl, rfl⟩ := hresult
  have hcontent := htake.mono fun _ hbyte => (hbyte.content hindex).1
  obtain ⟨hprevTake, hnextTake⟩ := links_of_content hcontent
  refine ⟨index, free', rfl, rfl, hholds, ?_, ?_, ?_⟩
  · exact (objsize_of_slabByte hcontent fun query hquery hslab =>
      absurd hslab (content_not_slab hground hquery)).trans hobjsize
  · rw [hprevTake]
    exact hprev'
  · rw [hnextTake]
    exact hnext'

/-- A free that spares the cache puts one slot on its free list. -/
theorem slabFree_alone (hground : Ground shape base other)
    (halone : Alone shape base other memory cache) (buddy : BuddyOps) {index ptr : ℕ}
    (hlive : index ∈ cache.live)
    (hptr : ptr = shape.slot base index + sizeofSlabAllocatedObjectHeader)
    (hspares : ¬ Destroys memory shape.slab ptr) :
    ∃ memory', slabFree buddy memory shape.slab ptr = some memory' ∧
      Alone shape base other memory' (cache.release index) := by
  obtain ⟨rfl, hholds, hobjsize, hprev, hnext⟩ := halone
  have hcache : objectCache memory ptr = shape.addr cache.base := by
    rw [hptr, objectCache, Nat.add_sub_cancel]
    exact hholds.headers index hlive
  obtain ⟨hreleased, hchange⟩ := releaseSlot_holds hholds hground.stop_lt hlive
  have hcontent := hchange.mono fun _ hquery => hquery.1
  obtain ⟨hprevEq, hnextEq⟩ := links_of_content hcontent
  have hfreed : freed memory shape.slab ptr = settleDown (releaseSlot memory
      (shape.addr cache.base) (shape.slot cache.base index)) shape.slab
      (shape.addr cache.base) := by
    rw [freed, hcache, hptr, Nat.add_sub_cancel, slabCacheFree_eq]
  have hobjsize' := (objsize_of_slabByte hcontent fun query hquery hslab =>
    absurd hslab (content_not_slab hground hquery)).trans hobjsize
  obtain ⟨hmoved, hprev', hnext'⟩ := settleDown_spec hground
    (show Neighbour shape cache.base other _ by rw [hprevEq]; exact hprev)
    (show Neighbour shape cache.base other _ by rw [hnextEq]; exact hnext)
  refine ⟨_, slabFree_of_kept buddy shape.slab_pos.ne' (hcache ▸ hground.addr_ne_zero) hspares, ?_⟩
  rw [hfreed]
  generalize releaseSlot memory (shape.addr cache.base) (shape.slot cache.base index) =
    released at *
  refine ⟨rfl, hreleased.frame fun query hquery _ => ?_, ?_, hprev', hnext'⟩
  · exact hmoved query (hground.content_not_twoLinks hquery)
  · refine (objsize_of_slabByte hmoved fun query hquery hslab => ?_).trans hobjsize'
    exact absurd hslab (hground.twoLinks_not_slab hquery)

/-- A client's write is outside what the cache's accounts are kept in. -/
theorem write_alone (hground : Ground shape base other)
    (halone : Alone shape base other memory cache) {address : ℕ} (byte : UInt8)
    (haddress : cache.ClientByte shape address) :
    Alone shape base other (writeByte memory address byte) cache := by
  obtain ⟨rfl, hholds, hobjsize, hprev, hnext⟩ := halone
  have hchange : UnchangedOutside memory (writeByte memory address byte)
      (fun query => cache.ClientByte shape query) := by
    intro query hquery
    exact writeByte_of_ne fun hsame => hquery (hsame ▸ haddress)
  have hcontent : UnchangedOutside memory (writeByte memory address byte)
      (shape.Content cache.base) := by
    apply hchange.mono
    rintro query ⟨index, hlive, hlower, hupper⟩
    have hindex := hholds.index_lt (List.mem_append_left _ hlive)
    have hbegin := shape.header_le_slot cache.base index
    have hstop := shape.slot_add_le_stop hindex
    simp only [sizeofSlabCacheHeader] at hbegin
    refine ⟨by omega, by omega, ?_⟩
    rintro ⟨-, hlink⟩
    omega
  obtain ⟨hprevEq, hnextEq⟩ := links_of_content hcontent
  refine ⟨rfl, hholds.frame fun query _ hclient => hchange query hclient, ?_, ?_, ?_⟩
  · exact (objsize_of_slabByte hcontent fun query hquery hslab =>
      absurd hslab (content_not_slab hground hquery)).trans hobjsize
  · rw [hprevEq]
    exact hprev
  · rw [hnextEq]
    exact hnext

/-! ## A fresh cache -/

/-- The shape of a setting whose slot size does not wrap around. -/
def shapeOf (setting : Setting) (hslab : 0 < setting.slab)
    (hsize : setting.size + sizeofSlabAllocatedObjectHeader < wordSize) : Shape :=
  ⟨setting.slab, 0, setting.size, hslab, by norm_num, hsize⟩

variable {setting : Setting} {before : Memory}

theorem shapeOf_stop (hslab : 0 < setting.slab)
    (hsize : setting.size + sizeofSlabAllocatedObjectHeader < wordSize) (base : ℕ) :
    (shapeOf setting hslab hsize).stop base = setting.stop base := by
  rw [Setting.stop, Nat.mod_eq_of_lt hsize]
  rfl

/-- The writes behind the fields of a fresh cache. -/
structure Joins (shape : Shape) (base other : ℕ) (fields memory : Memory) : Prop where
  change : UnchangedOutside fields memory fun query =>
    (shape.slab + 8 ≤ query ∧ query < shape.slab + 32) ∨
      (shape.addr base + 24 ≤ query ∧ query < shape.addr base + 32) ∨
      (other ≠ 0 ∧ other + 32 ≤ query ∧ query < other + 40) ∨
      (base = shape.slab ∧ query = shape.addr base + 64)
  prev : Neighbour shape base other (prevCache memory (shape.addr base))
  flag : base = shape.slab → memory (shape.addr base + 64) = 1

/-- The previous last cache, or none for the first one. -/
def otherOf (shape : Shape) (base : ℕ) (memory : Memory) : ℕ :=
  if base = shape.slab then 0 else lastCache memory shape.slab

theorem slabCacheAppend_joins {fields appended : Memory}
    (hground : Ground shape base (otherOf shape base fields))
    (hfirst : firstCache fields shape.slab = 0 ↔ base = shape.slab)
    (hprev : prevCache fields (shape.addr base) = 0)
    (happend : slabCacheAppend fields shape.slab (shape.addr base) = some appended) :
    Joins shape base (otherOf shape base fields) fields appended := by
  have haddr := shape.base_le_addr base
  have haddrLt := hground.addr_lt
  rw [slabCacheAppend] at happend
  by_cases hroot : base = shape.slab
  · rw [if_pos (hfirst.mpr hroot), Option.some.injEq] at happend
    subst hroot happend
    have haddrSlab := shape.addr_slab
    refine ⟨?_, .inl ?_, fun _ => ?_⟩
    · intro query hquery
      rw [writeWord_of_outside (by omega), writeWord_of_outside (by omega),
        writeByte_of_ne (by rintro rfl; exact hquery (.inr (.inr (.inr ⟨rfl, rfl⟩))))]
    · refine Eq.trans ?_ hprev
      refine (readWord_writeWord_of_disjoint (by omega)).trans ?_
      refine (readWord_writeWord_of_disjoint (by omega)).trans ?_
      exact readWord_writeByte_of_disjoint (by omega)
    · rw [writeWord_of_outside (by omega), writeWord_of_outside (by omega)]
      exact writeByte_same _ _ _
  · rw [if_neg (fun hnull => hroot (hfirst.mp hnull))] at happend
    split_ifs at happend with hlast
    obtain rfl := Option.some.inj happend
    have hother : otherOf shape base fields = lastCache fields shape.slab := if_neg hroot
    have haddrEq := shape.addr_of_ne hroot
    have hslab := hground.slab_apart.resolve_left hroot
    have hstop := shape.header_le_stop base
    simp only [sizeofSlabCacheHeader] at hstop
    refine ⟨?_, .inr (.inl ?_), fun hsame => absurd hsame hroot⟩
    · intro query hquery
      rw [hother] at hquery
      rw [writeWord_of_outside (by omega), writeWord_of_outside (by omega),
        writeWord_of_outside (by omega)]
    · have hlastEq : lastCache (writeWord fields (lastCache fields shape.slab + 32)
          (shape.addr base)) shape.slab = lastCache fields shape.slab := by
        obtain ⟨-, hapart⟩ := (hother ▸ hground.other_apart).resolve_left hlast
        exact readWord_writeWord_of_disjoint (by omega)
      have hlastLt : lastCache fields shape.slab < 2 ^ 64 := readWord_lt _ _
      rw [hother, hlastEq]
      refine (readWord_writeWord_of_disjoint (by omega)).trans ?_
      exact readWord_writeWord_same hlastLt

/-- A change that joins a cache to the slab leaves its other fields alone. -/
theorem Joins.word {fields : Memory} (hjoins : Joins shape base other fields memory)
    (hground : Ground shape base other) {offset : ℕ}
    (hoffset : 16 ≤ offset ∧ offset + 8 ≤ 24 ∨ 32 ≤ offset ∧ offset + 8 ≤ 64) :
    readWord memory (shape.addr base + offset) = readWord fields (shape.addr base + offset) := by
  have haddr := shape.base_le_addr base
  have hstop := shape.header_le_stop base
  simp only [sizeofSlabCacheHeader] at hstop
  apply readWord_congr
  apply hjoins.change.agreeOn
  rintro query hlower hupper (hslab | hprev | ⟨hne, hother⟩ | ⟨-, hflag⟩)
  · have hbyte : shape.SlabByte query := ⟨by omega, by simp only [sizeofSlabAlloc]; omega⟩
    exact hground.not_slab (by omega) (by omega) hbyte
  · omega
  · obtain ⟨hapart, -⟩ := hground.other_apart.resolve_left hne
    omega
  · omega

/-- A cache as `slab_cache_init` leaves it holds no object. -/
theorem Joins.alone {fields : Memory} (hground : Ground shape base other)
    (hjoins : Joins shape base other (slabCacheFields fields (shape.addr base) (shape.stop base)
      shape.slotBytes) memory)
    (hobjsize : objsize fields shape.slab = shape.slotBytes) :
    Alone shape base other memory (emptyCache base) := by
  have hstop := shape.header_le_stop base
  have haddr := shape.base_le_addr base
  simp only [sizeofSlabCacheHeader] at hstop
  have hfields := slabCacheFields_unchangedOutside fields (shape.addr base) (shape.stop base)
    shape.slotBytes
  obtain ⟨hunmanaged, -, hnext, hfreelist, hallocated, hmax⟩ := slabCacheFields_words fields
    shape.slotBytes (show shape.addr base + 72 ≤ shape.stop base by omega) hground.stop_lt
  have hzero : slabCacheFields fields (shape.addr base) (shape.stop base) shape.slotBytes
      (shape.addr base + 64) = 0 := writeByte_same _ _ _
  generalize slabCacheFields fields (shape.addr base) (shape.stop base) shape.slotBytes =
    fresh at *
  refine ⟨rfl, emptyCache_holds ?_ ?_ ?_ ?_ ?_, ?_, hjoins.prev, .inl ?_⟩
  · exact (hjoins.word hground (by omega)).trans hunmanaged
  · exact (hjoins.word hground (by omega)).trans hfreelist
  · exact (hjoins.word hground (by omega)).trans hallocated
  · exact (hjoins.word hground (by omega)).trans hmax
  · split_ifs with hroot
    · exact hjoins.flag hroot
    · refine Eq.trans (hjoins.change _ ?_) hzero
      rintro (hslab | hprev | ⟨hne, hother⟩ | ⟨hroot', -⟩)
      · have hbyte : shape.SlabByte (shape.addr base + 64) :=
          ⟨by omega, by simp only [sizeofSlabAlloc]; omega⟩
        exact hground.not_slab (by omega) (by omega) hbyte
      · omega
      · obtain ⟨hapart, -⟩ := hground.other_apart.resolve_left hne
        omega
      · exact hroot hroot'
  · have hnotSlab : ∀ query, shape.addr base ≤ query → query < shape.stop base →
        ¬ (shape.slab ≤ query ∧ query < shape.slab + 48) :=
      fun query hlower hupper => hground.not_slab hlower hupper
    have hfresh : objsize fresh shape.slab = objsize fields shape.slab := by
      apply readWord_congr
      apply hfields.agreeOn
      intro query hlower hupper hquery
      exact hnotSlab query hquery.1 (by omega) ⟨by omega, by omega⟩
    refine Eq.trans (readWord_congr (hjoins.change.agreeOn ?_)) (hfresh.trans hobjsize)
    rintro query hlower hupper (hslab | hprev | ⟨hne, hother⟩ | ⟨-, hflag⟩)
    · omega
    · exact hnotSlab query (by omega) (by omega) ⟨by omega, by omega⟩
    · obtain ⟨-, hapart⟩ := hground.other_apart.resolve_left hne
      omega
    · exact hnotSlab query (by omega) (by omega) ⟨by omega, by omega⟩
  · exact (hjoins.word hground (by omega)).trans hnext

/-! ## Runs -/

theorem ground_of_setsUp (hsets : SetsUp setting base before memory)
    (hsize : setting.size + sizeofSlabAllocatedObjectHeader < wordSize) :
    Ground (shapeOf setting hsets.slab_pos hsize) base
      (otherOf (shapeOf setting hsets.slab_pos hsize) base before) where
  base_pos := hsets.base_pos
  stop_lt := by
    rw [shapeOf_stop]
    exact hsets.stop_lt
  slab_apart := by
    rw [shapeOf_stop]
    exact or_iff_not_imp_left.mpr hsets.slab_apart
  other_apart := by
    rw [shapeOf_stop]
    by_cases hroot : base = setting.slab
    · exact .inl (if_pos hroot)
    · have hother : otherOf (shapeOf setting hsets.slab_pos hsize) base before =
          lastCache before setting.slab := if_neg hroot
      rw [hother]
      exact .inr (hsets.last_apart hroot)

/-- The fields of a fresh cache are no part of the `slab_alloc_t`. -/
theorem fields_slab_word (hground : Ground shape base other) (before : Memory) {offset : ℕ}
    (hoffset : offset + 8 ≤ 48) :
    readWord (slabCacheFields before (shape.addr base) (shape.stop base) shape.slotBytes)
        (shape.slab + offset) = readWord before (shape.slab + offset) := by
  have hstop := shape.header_le_stop base
  simp only [sizeofSlabCacheHeader] at hstop
  apply readWord_congr
  apply (slabCacheFields_unchangedOutside _ _ _ _).agreeOn
  intro query hlower hupper hquery
  exact hground.not_slab hquery.1 (by omega)
    ⟨by omega, by simp only [sizeofSlabAlloc]; omega⟩

/-- What the end of `slab_cache_init` does to `first_free_cache` joins the cache as well. -/
theorem Joins.first_free {fields appended : Memory} (hground : Ground shape base other)
    (hjoins : Joins shape base other fields appended) :
    Joins shape base other fields
      (if firstFreeCache appended shape.slab = 0 then
        writeWord appended (shape.slab + 16) (shape.addr base) else appended) := by
  split_ifs
  · have hstop := shape.header_le_stop base
    simp only [sizeofSlabCacheHeader] at hstop
    have hwrite := writeWord_unchangedOutside appended (shape.slab + 16) (shape.addr base)
    have hapart : ∀ query, shape.addr base ≤ query → query < shape.addr base + 72 →
        writeWord appended (shape.slab + 16) (shape.addr base) query = appended query :=
      fun query hlower hupper => hwrite query fun hquery =>
        hground.not_slab hlower (by omega)
          (Shape.FirstFreeByte.slabByte ⟨hquery.1, by have := hquery.2; omega⟩)
    refine ⟨hjoins.change.trans (hwrite.mono fun query hquery => .inl ⟨by omega, by omega⟩), ?_, ?_⟩
    · have hsame : prevCache (writeWord appended (shape.slab + 16) (shape.addr base))
          (shape.addr base) = prevCache appended (shape.addr base) :=
        readWord_congr fun query hlower hupper => hapart query (by omega) (by omega)
      rw [hsame]
      exact hjoins.prev
    · intro hroot
      rw [hapart _ (by omega) (by omega)]
      exact hjoins.flag hroot
  · exact hjoins

/-- `slab_cache_init` leaves an empty cache, wherever the region is. -/
theorem slabCacheInit_alone (hground : Ground shape base (otherOf shape base before))
    (hfirst : firstCache before shape.slab = 0 ↔ base = shape.slab)
    (hobjsize : objsize before shape.slab = shape.slotBytes)
    (hinit : slabCacheInit before shape.slab (shape.addr base) (shape.stop base) = some memory) :
    Alone shape base (otherOf shape base before) memory (emptyCache base) := by
  have hstop := shape.header_le_stop base
  simp only [sizeofSlabCacheHeader] at hstop
  obtain ⟨-, hprev, -⟩ := slabCacheFields_words before shape.slotBytes
    (show shape.addr base + 72 ≤ shape.stop base by omega) hground.stop_lt
  have hsizePos : shape.slotBytes ≠ 0 := by
    have := shape.slotBytes_bounds.1
    omega
  have hfirst' : firstCache (slabCacheFields before (shape.addr base) (shape.stop base)
      shape.slotBytes) shape.slab = firstCache before shape.slab :=
    fields_slab_word hground before (by omega)
  have hlast : lastCache (slabCacheFields before (shape.addr base) (shape.stop base)
      shape.slotBytes) shape.slab = lastCache before shape.slab :=
    fields_slab_word hground before (by omega)
  rw [slabCacheInit, hobjsize, if_neg hsizePos] at hinit
  simp only [Option.bind_eq_bind, Option.bind_eq_some_iff, Option.pure_def,
    Option.some.injEq] at hinit
  obtain ⟨appended, happend, rfl⟩ := hinit
  refine Joins.alone hground (Joins.first_free hground ?_) hobjsize
  have hother : otherOf shape base (slabCacheFields before (shape.addr base) (shape.stop base)
      shape.slotBytes) = otherOf shape base before := by
    rw [otherOf, otherOf, hlast]
  generalize slabCacheFields before (shape.addr base) (shape.stop base) shape.slotBytes =
    fields at *
  rw [← hother] at hground ⊢
  exact slabCacheAppend_joins hground (hfirst' ▸ hfirst) hprev happend

/-! ## Runs -/

variable {client next : Client}

/-- The memory holds the cache, and its live slots are the client's objects. -/
structure Tracks (shape : Shape) (base other : ℕ) (client : Client) (cache : Cache) : Prop where
  alone : Alone shape base other client.memory cache
  live : client.live.Perm (cacheObjects shape cache)

theorem tracks_of_setsUp (hsets : SetsUp setting base before memory)
    (hsize : setting.size + sizeofSlabAllocatedObjectHeader < wordSize) :
    Tracks (shapeOf setting hsets.slab_pos hsize) base
      (otherOf (shapeOf setting hsets.slab_pos hsize) base before) ⟨memory, []⟩
      (emptyCache base) where
  alone := by
    refine slabCacheInit_alone (ground_of_setsUp hsets hsize) hsets.first_iff ?_ ?_
    · have hobjsize := hsets.objsize_eq
      rw [Nat.mod_eq_of_lt hsize] at hobjsize
      exact hobjsize
    · rw [shapeOf_stop]
      exact hsets.init
  live := List.Perm.refl _

/-- The slots of a cache are at different addresses. -/
theorem slot_injective (shape : Shape) (base : ℕ) : Function.Injective (shape.slot base) := by
  intro index other hsame
  by_contra hne
  have hapart : Freelist.WordsApart (shape.slot base index) (shape.slot base other) :=
    shape.slots_wordsApart hne
  rw [hsame] at hapart
  rcases hapart with hapart | hapart <;> omega

/-- Where a slot is, read from the memory. -/
theorem slotAt_eq (hobjsize : objsize memory shape.slab = shape.slotBytes) (index : ℕ) :
    slotAt memory shape.slab (shape.addr base) index = shape.slot base index := by
  rw [slotAt, hobjsize, Shape.slot]

theorem accounted_of_tracks (hslab : 0 < setting.slab)
    (hsize : setting.size + sizeofSlabAllocatedObjectHeader < wordSize)
    (htracks : Tracks (shapeOf setting hslab hsize) base other client cache) :
    Accounted setting base client := by
  obtain ⟨⟨rfl, hholds, hobjsize, -, -⟩, hlive⟩ := htracks
  have hstop := shapeOf_stop hslab hsize cache.base
  have hslot : ∀ index, slotAt client.memory setting.slab (setting.cacheAt cache.base) index =
      (shapeOf setting hslab hsize).slot cache.base index := slotAt_eq hobjsize
  have hobjsize' : objsize client.memory setting.slab = (shapeOf setting hslab hsize).slotBytes :=
    hobjsize
  have hlength : client.live.length = cache.live.length := by
    rw [hlive.length_eq, cacheObjects, List.length_map]
  have hallocated : allocatedObjects client.memory (setting.cacheAt cache.base) =
      cache.live.length := hholds.allocated_eq
  have hslots : (client.live.map (· - sizeofSlabAllocatedObjectHeader) ++
      cache.free.map ((shapeOf setting hslab hsize).slot cache.base)).Perm
        ((cache.live ++ cache.free).map ((shapeOf setting hslab hsize).slot cache.base)) := by
    have hmap := hlive.map (· - sizeofSlabAllocatedObjectHeader)
    rw [cacheObjects, List.map_map] at hmap
    rw [List.map_append]
    refine List.Perm.append_right _ (hmap.trans (List.Perm.of_eq ?_))
    exact List.map_congr_left fun index _ => Nat.add_sub_cancel _ _
  refine
    { counted := by rw [hallocated, hlength]
      bounded := ?_
      slots := ⟨cache.free.map ((shapeOf setting hslab hsize).slot cache.base),
        hholds.freelist, ?_, ?_, ?_, ?_⟩
      headers := ?_ }
  · rw [hallocated]
    exact (Nat.le_add_right _ _).trans (hholds.used_le.trans hholds.max_eq.ge)
  · rw [hallocated, List.length_map, hslot]
    exact hholds.unmanaged_eq
  · rw [hslots.nodup_iff]
    exact hholds.nodup.map (slot_injective _ _)
  · rw [hallocated, List.length_map, List.map_congr_left fun index _ => hslot index]
    exact hslots.trans (hholds.slots.map _)
  · intro slot hmem
    obtain ⟨index, hindex, rfl⟩ := List.mem_map.mp (hslots.mem_iff.mp hmem)
    rw [hobjsize', ← hstop]
    exact Shape.slot_add_le_stop _ (hholds.index_lt hindex)
  · intro ptr hptr
    obtain ⟨index, hindex, rfl⟩ := List.mem_map.mp (hlive.mem_iff.mp hptr)
    rw [objectCache, Nat.add_sub_cancel]
    exact hholds.headers index hindex

/-- What one operation does to a cache that is tracked. -/
theorem step_tracks (hground : Ground shape base other) (hslab : shape.slab = setting.slab)
    (hsize : shape.size = setting.size) (htracks : Tracks shape base other client cache) {op : Op}
    (hlegal : Legal setting.size client op)
    (hstep : step setting (shape.addr base) client op = some next) :
    ∃ cache', Tracks shape base other next cache' := by
  obtain ⟨halone, hlive⟩ := htracks
  have hbase := halone.base_eq
  cases op with
  | alloc =>
      simp only [step, Option.map_eq_some_iff, ← hslab] at hstep
      obtain ⟨⟨ptr, memory'⟩, halloc, rfl⟩ := hstep
      rcases slabCacheAlloc_alone hground halone halloc with
        ⟨rfl, rfl⟩ | ⟨index, free', rfl, halone'⟩
      · exact ⟨cache, halone, hlive⟩
      · refine ⟨_, halone', ?_⟩
        have hne : shape.slot base index + sizeofSlabAllocatedObjectHeader ≠ 0 := by
          simp only [sizeofSlabAllocatedObjectHeader]
          omega
        simp only [if_neg hne]
        subst hbase
        exact hlive.cons _
  | free ptr =>
      simp only [step, ← hslab] at hstep
      split_ifs at hstep with hdestroys
      obtain ⟨index, hindex, rfl⟩ := List.mem_map.mp (hlive.mem_iff.mp hlegal)
      rw [hbase] at hstep hdestroys
      obtain ⟨memory', hfree, halone'⟩ :=
        slabFree_alone hground halone setting.buddy hindex rfl hdestroys
      rw [hfree, Option.map_some, Option.some.injEq] at hstep
      refine ⟨cache.release index, ?_⟩
      rw [← hstep]
      refine ⟨halone', ?_⟩
      have herased : (client.live.erase
          (shape.slot base index + sizeofSlabAllocatedObjectHeader)).Perm
            ((cacheObjects shape cache).erase
              (shape.slot base index + sizeofSlabAllocatedObjectHeader)) := hlive.erase _
      have hobjects : (cacheObjects shape cache).Perm
          ((shape.slot base index + sizeofSlabAllocatedObjectHeader) ::
            cacheObjects shape (cache.release index)) := by
        subst hbase
        exact (List.perm_cons_erase hindex).map _
      refine herased.trans ((hobjects.erase _).trans ?_)
      rw [List.erase_cons_head]
  | write address byte =>
      obtain rfl := Option.some.inj hstep
      obtain ⟨ptr, hptr, hlower, hupper⟩ := hlegal
      obtain ⟨index, hindex, rfl⟩ := List.mem_map.mp (hlive.mem_iff.mp hptr)
      refine ⟨cache, write_alone hground halone byte ⟨index, hindex, hlower, ?_⟩, hlive⟩
      simp only [Shape.slotBytes]
      omega

/-- The accounts of a cache whose slot size does not wrap around hold at every
point of every run. -/
theorem accounted_of_no_wrap {setting : Setting} {base : ℕ} {before memory : Memory}
    (hsets : SetsUp setting base before memory)
    (hsize : setting.size + sizeofSlabAllocatedObjectHeader < wordSize) {ops : List Op}
    (hlegal : AllSteps (step setting (setting.cacheAt base)) (Legal setting.size)
      ⟨memory, []⟩ ops) :
    ∀ done, done <+: ops → ∀ client,
      run (step setting (setting.cacheAt base)) ⟨memory, []⟩ done = some client →
      Accounted setting base client := by
  intro done hdone client hrun
  have hground := ground_of_setsUp hsets hsize
  obtain ⟨cache, htracks⟩ := run_invariant
    (fun client => ∃ cache, Tracks (shapeOf setting hsets.slab_pos hsize) base
      (otherOf (shapeOf setting hsets.slab_pos hsize) base before) client cache)
    (fun client op next ⟨cache, htracks⟩ hop hstep =>
      step_tracks hground rfl rfl htracks hop hstep)
    ⟨_, tracks_of_setsUp hsets hsize⟩ (hlegal.of_prefix hdone) hrun
  exact accounted_of_tracks hsets.slab_pos hsize htracks

/-! ## A slab without neighbours -/

/-- A slab for objects of `size` bytes at the address 4096. -/
def lonelySetting (size : ℕ) : Setting := ⟨⟨fun _ _ _ => none, fun _ _ _ => none⟩, 2, 4096, size⟩

/-- The `slab_alloc_t` before there is a cache. -/
def lonelySlab (size : ℕ) : Memory :=
  writeWord (fun _ => 0) 4128 ((size + sizeofSlabAllocatedObjectHeader) % wordSize)

/-- The slab with its first cache. -/
def lonelyCache (size : ℕ) : Memory :=
  (slabCacheInit (lonelySlab size) 4096 4144 ((lonelySetting size).stop 4096)).getD (lonelySlab size)

theorem lonely_setsUp {size : ℕ}
    (hinit : (slabCacheInit (lonelySlab size) 4096 4144 ((lonelySetting size).stop 4096)).isSome)
    (hstop : (lonelySetting size).stop 4096 < wordSize) :
    SetsUp (lonelySetting size) 4096 (lonelySlab size) (lonelyCache size) where
  init := by
    obtain ⟨made, hmade⟩ := Option.isSome_iff_exists.mp hinit
    have hcache : lonelyCache size = made := by rw [lonelyCache, hmade, Option.getD_some]
    rw [hcache]
    exact hmade
  objsize_eq := readWord_writeWord_same (Nat.mod_lt _ (by norm_num))
  slab_pos := Nat.succ_pos _
  base_pos := Nat.succ_pos _
  stop_lt := hstop
  first_iff := by
    have hempty : readWord (fun _ => 0) (4096 + 8) = 0 := by decide
    exact iff_of_true ((readWord_writeWord_of_disjoint (.inl (Nat.le_add_right _ 16))).trans
      hempty) rfl
  slab_apart := fun hne => absurd rfl hne
  last_apart := fun hne => absurd rfl hne

theorem accounted_lonelyCache :
    ∃ client, run (step (lonelySetting 24) 4144) ⟨lonelyCache 24, []⟩
        [.alloc, .alloc, .write 4279 7, .free 4224, .alloc] = some client ∧
      Accounted (lonelySetting 24) 4096 client := by
  have hdefined : (run (step (lonelySetting 24) 4144) ⟨lonelyCache 24, []⟩
      [.alloc, .alloc, .write 4279 7, .free 4224, .alloc]).isSome := by decide +kernel
  obtain ⟨client, hrun⟩ := Option.isSome_iff_exists.mp hdefined
  exact ⟨client, hrun, accounted_of_no_wrap
    (lonely_setsUp (by decide +kernel) (by decide)) (by decide) (by decide +kernel)
    _ (List.prefix_refl _) client hrun⟩

/-- The slots of 2^64 - 1 bytes and a header are seven bytes apart: the header of
the second object overwrites a byte of the first one's. -/
theorem not_accounted_wrapped :
    ¬ ∀ (setting : Setting) (base : ℕ) (before memory : Memory) (ops : List Op),
      SetsUp setting base before memory →
      AllSteps (step setting (setting.cacheAt base)) (Legal setting.size) ⟨memory, []⟩ ops →
      ∀ done, done <+: ops → ∀ client,
        run (step setting (setting.cacheAt base)) ⟨memory, []⟩ done = some client →
        Accounted setting base client := by
  intro hclaim
  have hdefined : (run (step (lonelySetting (wordSize - 1)) 4144)
      ⟨lonelyCache (wordSize - 1), []⟩ [.alloc, .alloc]).isSome := by decide +kernel
  obtain ⟨client, hrun⟩ := Option.isSome_iff_exists.mp hdefined
  have haccounted := hclaim (lonelySetting (wordSize - 1)) 4096 _ _ [.alloc, .alloc]
    (lonely_setsUp (by decide +kernel) (by decide))
    ⟨trivial, fun _ _ => ⟨trivial, fun _ _ => trivial⟩⟩ _ (List.prefix_refl _) client hrun
  have hclient : client = (run (step (lonelySetting (wordSize - 1)) 4144)
      ⟨lonelyCache (wordSize - 1), []⟩ [.alloc, .alloc]).getD ⟨lonelyCache (wordSize - 1), []⟩ := by
    rw [hrun, Option.getD_some]
  have hlive : 4224 ∈ client.live := by
    rw [hclient]
    decide +kernel
  have hheader : objectCache client.memory 4224 ≠ 4144 := by
    rw [hclient]
    decide +kernel
  exact hheader (haccounted.headers 4224 hlive)

end DoomsdayModules.SlabAccounting
