import DoomsdayModules.Core.DoublyLinked
import DoomsdayModules.Malloc.Slab

/-!
# What a slab's memory represents

The abstract state of a slab is the list of its caches in list order, each
with the region it was built in, its live slots and its free slots.  `Core`
says that a memory holds such a state: the header of the slab, the doubly
linked list, and for every cache its counters, its free list and the headers
of its live objects.  `next_cache` of the last cache is left open, because
destroying the last cache leaves it dangling; `Settled` adds that
`first_free_cache` is null or the last cache with nothing behind it.

The bytes of live objects behind their headers belong to the clients, and
nothing here reads them.
-/

namespace DoomsdayModules.SlabInvariant

open DoomsdayModules.ByteMemory DoomsdayModules.Util DoomsdayModules.IntrusiveStack
open DoomsdayModules.DoublyLinked DoomsdayModules.Freelist DoomsdayModules.Slab

/-- A slab for objects of `size` bytes whose slot size does not overflow. -/
structure Shape where
  slab : ℕ
  buddy : ℕ
  size : ℕ
  slab_pos : 0 < slab
  buddy_lt : buddy < wordSize
  size_lt : size + sizeofSlabAllocatedObjectHeader < wordSize

namespace Shape

variable (shape : Shape)

/-- Bytes of a slot: the object header and the object. -/
def slotBytes : ℕ := shape.size + sizeofSlabAllocatedObjectHeader

/-- Pages of a region. -/
def pages : ℕ := slabCachePages shape.slotBytes

/-- First address past a region. -/
def stop (base : ℕ) : ℕ := base + shape.pages * pageSize

/-- The cache header of a region; the first region starts with the slab. -/
def addr (base : ℕ) : ℕ := if base = shape.slab then base + sizeofSlabAlloc else base

def slot (base index : ℕ) : ℕ :=
  shape.addr base + sizeofSlabCacheHeader + shape.slotBytes * index

/-- Slots of a region. -/
def capacity (base : ℕ) : ℕ :=
  (shape.stop base - shape.addr base - sizeofSlabCacheHeader) / shape.slotBytes

/-- Two regions share no byte. -/
def RegionsApart (base other : ℕ) : Prop := shape.stop base ≤ other ∨ shape.stop other ≤ base

instance : Std.Symm shape.RegionsApart := ⟨fun _ _ hapart => Or.symm hapart⟩

def InRegion (base query : ℕ) : Prop := base ≤ query ∧ query < shape.stop base

/-- A byte of `prev_cache` or `next_cache`. -/
def LinkByte (base query : ℕ) : Prop :=
  shape.addr base + 24 ≤ query ∧ query < shape.addr base + 40

/-- A byte of `allocated_objects`. -/
def CounterByte (base query : ℕ) : Prop :=
  shape.addr base + 48 ≤ query ∧ query < shape.addr base + 56

/-- A byte of the counters, the free list or the slots. -/
def Content (base query : ℕ) : Prop :=
  shape.addr base + 16 ≤ query ∧ query < shape.stop base ∧ ¬ shape.LinkByte base query

/-- A byte of the `slab_alloc_t`. -/
def SlabByte (query : ℕ) : Prop := shape.slab ≤ query ∧ query < shape.slab + sizeofSlabAlloc

/-- A byte of `first_free_cache`. -/
def FirstFreeByte (query : ℕ) : Prop := shape.slab + 16 ≤ query ∧ query < shape.slab + 24

/-- A byte that an operation on one cache may change without relinking it. -/
def UpdateByte (base query : ℕ) : Prop := shape.Content base query ∨ shape.FirstFreeByte query

variable {shape} in
theorem FirstFreeByte.slabByte {query : ℕ} (hquery : shape.FirstFreeByte query) :
    shape.SlabByte query :=
  ⟨by have := hquery.1; omega, by have := hquery.2; simp only [sizeofSlabAlloc]; omega⟩

theorem pages_bounds : 8 ≤ shape.pages ∧ shape.pages ≤ 64 := by
  have hpages : shape.pages = 8 ∨ shape.pages = 64 := by
    rw [pages, slabCachePages]
    split_ifs
    · exact .inl rfl
    · exact .inr rfl
  omega

theorem slotBytes_bounds : 8 ≤ shape.slotBytes ∧ shape.slotBytes < wordSize :=
  ⟨Nat.le_add_left _ _, shape.size_lt⟩

theorem base_le_addr (base : ℕ) : base ≤ shape.addr base ∧ shape.addr base ≤ base + 48 := by
  simp only [addr, sizeofSlabAlloc]
  split_ifs <;> omega

theorem addr_slab : shape.addr shape.slab = shape.slab + 48 := if_pos rfl

theorem addr_of_ne {base : ℕ} (hne : base ≠ shape.slab) : shape.addr base = base := if_neg hne

/-- The headers and more fit in a region. -/
theorem header_le_stop (base : ℕ) :
    shape.addr base + sizeofSlabCacheHeader + 4096 ≤ shape.stop base := by
  have := (shape.base_le_addr base).2
  have := shape.pages_bounds.1
  simp only [stop, pageSize, sizeofSlabCacheHeader]
  omega

theorem header_le_slot (base index : ℕ) :
    shape.addr base + sizeofSlabCacheHeader ≤ shape.slot base index := Nat.le_add_right _ _

/-- Slots follow each other. -/
theorem slot_add_le {index later : ℕ} (base : ℕ) (hlt : index < later) :
    shape.slot base index + shape.slotBytes ≤ shape.slot base later := by
  have hmul := Nat.mul_le_mul_left shape.slotBytes (Nat.succ_le_of_lt hlt)
  rw [Nat.succ_eq_add_one, Nat.mul_add, Nat.mul_one] at hmul
  simp only [slot]
  omega

theorem slot_add_le_stop {base index : ℕ} (hindex : index < shape.capacity base) :
    shape.slot base index + shape.slotBytes ≤ shape.stop base := by
  have hheader := shape.header_le_stop base
  have hmul : shape.slotBytes * (index + 1) ≤
      shape.stop base - shape.addr base - sizeofSlabCacheHeader :=
    (Nat.mul_le_mul_left _ (Nat.succ_le_of_lt hindex)).trans (Nat.mul_div_le _ _)
  rw [Nat.mul_add, Nat.mul_one] at hmul
  simp only [slot]
  omega

theorem slot_succ (base index : ℕ) :
    shape.slot base (index + 1) = shape.slot base index + shape.slotBytes := by
  simp only [slot, Nat.mul_add, Nat.mul_one, Nat.add_assoc]

/-- The first words of two slots share no byte. -/
theorem slots_wordsApart {base index other : ℕ} (hne : index ≠ other) :
    WordsApart (shape.slot base index) (shape.slot base other) := by
  have hbytes := shape.slotBytes_bounds.1
  rcases Nat.lt_or_gt_of_ne hne with hlt | hlt
  · have := shape.slot_add_le base hlt
    exact .inl (by omega)
  · have := shape.slot_add_le base hlt
    exact .inr (by omega)

end Shape

/-! ## One cache -/

/-- A region with its live and its free slots, the free ones in list order. -/
structure Cache where
  base : ℕ
  live : List ℕ
  free : List ℕ

namespace Cache

/-- Slots handed out at least once. -/
def used (cache : Cache) : ℕ := cache.live.length + cache.free.length

/-- The cache with a live slot freed. -/
def release (cache : Cache) (index : ℕ) : Cache :=
  ⟨cache.base, cache.live.erase index, index :: cache.free⟩

/-- A byte that belongs to the client of a live object. -/
def ClientByte (shape : Shape) (cache : Cache) (query : ℕ) : Prop :=
  ∃ index ∈ cache.live, shape.slot cache.base index + sizeofSlabAllocatedObjectHeader ≤ query ∧
    query < shape.slot cache.base index + shape.slotBytes

end Cache

/-- The slots of a cache: which are live, which are free, and where the free
list and the first slot never used are kept. -/
structure Slots (shape : Shape) (memory : Memory) (cache : Cache) : Prop where
  unmanaged_eq : unmanagedBegin memory (shape.addr cache.base) = shape.slot cache.base cache.used
  freelist : IsStack memory (readWord memory (shape.addr cache.base + 40))
    (cache.free.map (shape.slot cache.base))
  max_eq : maxObjects memory (shape.addr cache.base) = shape.capacity cache.base
  root_eq : rootCache memory (shape.addr cache.base) = decide (cache.base = shape.slab)
  slots : (cache.live ++ cache.free).Perm (List.range cache.used)
  used_le : cache.used ≤ shape.capacity cache.base
  headers : ∀ index ∈ cache.live,
    readWord memory (shape.slot cache.base index) = shape.addr cache.base

/-- The memory holds this cache, its place in the list of caches apart. -/
structure CacheHolds (shape : Shape) (memory : Memory) (cache : Cache) : Prop
    extends Slots shape memory cache where
  allocated_eq : allocatedObjects memory (shape.addr cache.base) = cache.live.length

namespace Slots

variable {shape : Shape} {memory : Memory} {cache : Cache}

theorem mem_slots (hslots : Slots shape memory cache) {index : ℕ} :
    index ∈ cache.live ++ cache.free ↔ index < cache.used := by
  rw [hslots.slots.mem_iff, List.mem_range]

theorem index_lt (hslots : Slots shape memory cache) {index : ℕ}
    (hmem : index ∈ cache.live ++ cache.free) : index < shape.capacity cache.base :=
  (hslots.mem_slots.mp hmem).trans_le hslots.used_le

theorem nodup (hslots : Slots shape memory cache) : (cache.live ++ cache.free).Nodup :=
  hslots.slots.nodup_iff.mpr List.nodup_range

/-- The first word of a slot is part of the contents. -/
theorem slot_content {index query : ℕ} (hindex : index < shape.capacity cache.base)
    (hlower : shape.slot cache.base index ≤ query)
    (hupper : query < shape.slot cache.base index + 8) : shape.Content cache.base query := by
  have hend := shape.slot_add_le_stop hindex
  have hbegin := shape.header_le_slot cache.base index
  have hbytes := shape.slotBytes_bounds.1
  simp only [sizeofSlabCacheHeader] at hbegin
  refine ⟨by omega, by omega, ?_⟩
  rintro ⟨-, hlink⟩
  omega

/-- The first word of a slot is not a client's. -/
theorem slot_not_client {index query : ℕ} (hlower : shape.slot cache.base index ≤ query)
    (hupper : query < shape.slot cache.base index + 8) : ¬ cache.ClientByte shape query := by
  rintro ⟨other, -, hother, hother'⟩
  simp only [sizeofSlabAllocatedObjectHeader] at hother
  rcases Nat.lt_trichotomy index other with hlt | rfl | hlt
  · have := shape.slot_add_le cache.base hlt
    have := shape.slotBytes_bounds.1
    omega
  · omega
  · have := shape.slot_add_le cache.base hlt
    omega

/-- Neither are the headers in front of the slots. -/
theorem header_not_client {query : ℕ}
    (hupper : query < shape.addr cache.base + sizeofSlabCacheHeader) :
    ¬ cache.ClientByte shape query := by
  rintro ⟨index, -, hlower, -⟩
  have := shape.header_le_slot cache.base index
  omega

/-- The slots depend on the contents, without the counter and the clients' bytes. -/
theorem frame (hslots : Slots shape memory cache) {memory' : Memory}
    (hagree : ∀ query, shape.Content cache.base query → ¬ shape.CounterByte cache.base query →
      ¬ cache.ClientByte shape query → memory' query = memory query) :
    Slots shape memory' cache := by
  have hstop := shape.header_le_stop cache.base
  simp only [sizeofSlabCacheHeader] at hstop
  have hheader : ∀ query, shape.addr cache.base + 16 ≤ query →
      query < shape.addr cache.base + 72 → ¬ shape.LinkByte cache.base query →
      ¬ shape.CounterByte cache.base query →
      memory' query = memory query := fun query hlower hupper hlink hcounter =>
    hagree query ⟨hlower, by omega, hlink⟩ hcounter (header_not_client hupper)
  simp only [Shape.LinkByte, Shape.CounterByte] at hheader
  have hword : ∀ offset, offset = 16 ∨ offset = 40 ∨ offset = 56 →
      readWord memory' (shape.addr cache.base + offset) =
        readWord memory (shape.addr cache.base + offset) := fun offset hoffset =>
    readWord_congr fun query hlower hupper =>
      hheader query (by omega) (by omega) (by omega) (by omega)
  have hslot : ∀ index ∈ cache.live ++ cache.free, readWord memory' (shape.slot cache.base index) =
      readWord memory (shape.slot cache.base index) := by
    intro index hindex
    have hbegin := shape.header_le_slot cache.base index
    simp only [sizeofSlabCacheHeader] at hbegin
    exact readWord_congr fun query hlower hupper =>
      hagree query (slot_content (hslots.index_lt hindex) hlower hupper)
        (fun hcounter => by have := hcounter.2; omega) (slot_not_client hlower hupper)
  exact
    { unmanaged_eq := (hword 16 (by omega)).trans hslots.unmanaged_eq
      freelist := by
        rw [hword 40 (by omega)]
        apply hslots.freelist.frame
        intro node hnode
        obtain ⟨index, hindex, rfl⟩ := List.mem_map.mp hnode
        exact hslot index (List.mem_append_right _ hindex)
      max_eq := (hword 56 (by omega)).trans hslots.max_eq
      root_eq := by
        rw [← hslots.root_eq, rootCache,
          hheader _ (by omega) (by omega) (by omega) (by omega), rootCache]
      slots := hslots.slots
      used_le := hslots.used_le
      headers := fun index hindex =>
        (hslot index (List.mem_append_left _ hindex)).trans (hslots.headers index hindex) }

end Slots

/-- A cache depends on the bytes of its contents that are not the clients'. -/
theorem CacheHolds.frame {shape : Shape} {memory memory' : Memory} {cache : Cache}
    (hholds : CacheHolds shape memory cache)
    (hagree : ∀ query, shape.Content cache.base query → ¬ cache.ClientByte shape query →
      memory' query = memory query) : CacheHolds shape memory' cache := by
  refine
    { hholds.toSlots.frame fun query hcontent _ hclient => hagree query hcontent hclient with
      allocated_eq := ?_ }
  have hstop := shape.header_le_stop cache.base
  simp only [sizeofSlabCacheHeader] at hstop
  rw [← hholds.allocated_eq]
  apply readWord_congr
  intro query hlower hupper
  refine hagree query ⟨by omega, by omega, ?_⟩
    (Slots.header_not_client (by simp only [sizeofSlabCacheHeader]; omega))
  rintro ⟨-, hlink⟩
  omega

/-! ## The list of caches -/

/-- Where the regions start, in list order. -/
def bases (caches : List Cache) : List ℕ := caches.map Cache.base

/-- Where the cache headers are, in list order. -/
def addrs (shape : Shape) (caches : List Cache) : List ℕ := (bases caches).map shape.addr

theorem mem_addrs {shape : Shape} {caches : List Cache} {addr : ℕ} :
    addr ∈ addrs shape caches ↔ ∃ cache ∈ caches, shape.addr cache.base = addr := by
  simp [addrs, bases]

/-- The memory holds a slab with these caches; where `first_free_cache` points
and what follows the last cache is left open. -/
structure Core (shape : Shape) (memory : Memory) (caches : List Cache) : Prop where
  buddy_eq : buddyOf memory shape.slab = shape.buddy
  objsize_eq : objsize memory shape.slab = shape.slotBytes
  cachesize_eq : cachesize memory shape.slab = shape.pages
  head_eq : (bases caches).head? = some shape.slab
  first_eq : firstCache memory shape.slab = shape.addr shape.slab
  last_eq : (addrs shape caches).getLast? = some (lastCache memory shape.slab)
  linked : Links (nextCache memory) (prevCache memory) (addrs shape caches)
  head_prev : prevCache memory (shape.addr shape.slab) = 0
  contents : ∀ cache ∈ caches, CacheHolds shape memory cache
  placed : ∀ base ∈ bases caches, 0 < base ∧ shape.stop base < wordSize
  apart : (bases caches).Pairwise shape.RegionsApart

/-- Nothing is behind the last cache. -/
def Closed (shape : Shape) (memory : Memory) : Prop :=
  nextCache memory (lastCache memory shape.slab) = 0

/-- In addition, objects are taken from the last cache or from no cache. -/
structure Settled (shape : Shape) (memory : Memory) (caches : List Cache) : Prop
    extends Core shape memory caches where
  first_free : firstFreeCache memory shape.slab = 0 ∨
    firstFreeCache memory shape.slab = lastCache memory shape.slab ∧ Closed shape memory

/-- Objects are taken from the last cache, and nothing is behind it. -/
structure Ready (shape : Shape) (memory : Memory) (before : List Cache) (last : Cache) :
    Prop where
  core : Core shape memory (before ++ [last])
  first : firstFreeCache memory shape.slab = shape.addr last.base
  next : nextCache memory (shape.addr last.base) = 0

/-- A byte of the slab that is not a client's. -/
def OwnByte (shape : Shape) (caches : List Cache) (query : ℕ) : Prop :=
  ∃ cache ∈ caches, shape.InRegion cache.base query ∧ ¬ cache.ClientByte shape query

namespace Core

variable {shape : Shape} {memory memory' : Memory} {caches before after : List Cache}
  {cache cache' other : Cache}

theorem apart_of_ne (hcore : Core shape memory caches) (hcache : cache ∈ caches)
    (hother : other ∈ caches) (hne : cache.base ≠ other.base) :
    shape.RegionsApart cache.base other.base :=
  hcore.apart.forall (List.mem_map_of_mem hcache) (List.mem_map_of_mem hother) hne

theorem root_mem (hcore : Core shape memory caches) :
    ∃ root ∈ caches, root.base = shape.slab := by
  obtain ⟨root, hroot, hbase⟩ := List.mem_map.mp (List.mem_of_head? hcore.head_eq)
  exact ⟨root, hroot, hbase⟩

theorem inRegion_unique (hcore : Core shape memory caches) (hcache : cache ∈ caches)
    (hother : other ∈ caches) {query : ℕ} (hquery : shape.InRegion cache.base query)
    (hquery' : shape.InRegion other.base query) : cache.base = other.base := by
  by_contra hne
  have := hcore.apart_of_ne hcache hother hne
  simp only [Shape.RegionsApart, Shape.InRegion] at *
  omega

/-- Contents are no part of the slab's header. -/
theorem content_not_slab (hcore : Core shape memory caches) (hcache : cache ∈ caches)
    {query : ℕ} (hcontent : shape.Content cache.base query) : ¬ shape.SlabByte query := by
  intro hslab
  obtain ⟨root, hroot, hbase⟩ := hcore.root_mem
  have haddr := shape.base_le_addr cache.base
  have hstop := shape.header_le_stop shape.slab
  have haddrSlab := shape.addr_slab
  obtain ⟨hlower, hupper, -⟩ := hcontent
  obtain ⟨hlower', hupper'⟩ := hslab
  simp only [sizeofSlabAlloc, sizeofSlabCacheHeader] at *
  have hinside : shape.InRegion root.base query := ⟨by omega, by rw [hbase]; omega⟩
  have hsame := hcore.inRegion_unique hcache hroot ⟨by omega, hupper⟩ hinside
  rw [hsame, hbase] at hlower
  omega

/-- Contents are no part of the links of any cache. -/
theorem content_not_link (hcore : Core shape memory caches) (hcache : cache ∈ caches)
    (hother : other ∈ caches) {query : ℕ} (hcontent : shape.Content cache.base query) :
    ¬ shape.LinkByte other.base query := by
  intro hlink
  have haddr := shape.base_le_addr cache.base
  have haddr' := shape.base_le_addr other.base
  have hstop := shape.header_le_stop other.base
  simp only [sizeofSlabCacheHeader] at hstop
  have hsame : cache.base = other.base :=
    hcore.inRegion_unique hcache hother
      ⟨by have := hcontent.1; omega, hcontent.2.1⟩
      ⟨by have := hlink.1; omega, by have := hlink.2; omega⟩
  exact hcontent.2.2 (hsame ▸ hlink)

/-- The links of a cache are no part of the slab's header. -/
theorem link_not_slab (hcore : Core shape memory caches) (hcache : cache ∈ caches)
    {query : ℕ} (hlink : shape.LinkByte cache.base query) : ¬ shape.SlabByte query := by
  intro hslab
  obtain ⟨root, hroot, hbase⟩ := hcore.root_mem
  have haddr := shape.base_le_addr cache.base
  have hstop := shape.header_le_stop shape.slab
  have hstop' := shape.header_le_stop cache.base
  have haddrSlab := shape.addr_slab
  obtain ⟨hlower, hupper⟩ := hlink
  obtain ⟨hlower', hupper'⟩ := hslab
  simp only [sizeofSlabAlloc, sizeofSlabCacheHeader] at *
  have hinside : shape.InRegion cache.base query := ⟨by omega, by omega⟩
  have hinside' : shape.InRegion root.base query := ⟨by omega, by rw [hbase]; omega⟩
  have hsame := hcore.inRegion_unique hcache hroot hinside hinside'
  rw [hsame, hbase] at hlower
  omega

/-- A byte of the slab's header that is not part of `first_free_cache`. -/
theorem slab_words (offset : ℕ) (hoffset : offset + 8 ≤ 16 ∨ 24 ≤ offset ∧ offset + 8 ≤ 48)
    (hslab : ∀ query, shape.SlabByte query →
      ¬ shape.FirstFreeByte query → memory' query = memory query) :
    readWord memory' (shape.slab + offset) = readWord memory (shape.slab + offset) := by
  apply readWord_congr
  intro query hlower hupper
  refine hslab query ⟨by omega, by simp only [sizeofSlabAlloc]; omega⟩ ?_
  rintro ⟨hlower', hupper'⟩
  omega

theorem link_words {base : ℕ}
    (hlink : ∀ query, shape.LinkByte base query → memory' query = memory query) :
    nextCache memory' (shape.addr base) = nextCache memory (shape.addr base) ∧
      prevCache memory' (shape.addr base) = prevCache memory (shape.addr base) :=
  ⟨readWord_congr fun query hlower hupper => hlink query ⟨by omega, by omega⟩,
    readWord_congr fun query hlower hupper => hlink query ⟨by omega, by omega⟩⟩

/-- A change that spares the slab's header and the links, and leaves caches
with the same regions. -/
theorem congr {caches' : List Cache} (hcore : Core shape memory caches)
    (hbases : bases caches' = bases caches)
    (hslab : ∀ query, shape.SlabByte query →
      ¬ shape.FirstFreeByte query → memory' query = memory query)
    (hlink : ∀ cache ∈ caches, ∀ query, shape.LinkByte cache.base query →
      memory' query = memory query)
    (hcontents : ∀ cache ∈ caches', CacheHolds shape memory' cache) :
    Core shape memory' caches' := by
  have haddrs : addrs shape caches' = addrs shape caches := congrArg (List.map shape.addr) hbases
  have hlinks : ∀ addr ∈ addrs shape caches, nextCache memory' addr = nextCache memory addr ∧
      prevCache memory' addr = prevCache memory addr := by
    intro addr haddr
    obtain ⟨cache, hcache, rfl⟩ := mem_addrs.mp haddr
    exact link_words (hlink cache hcache)
  obtain ⟨root, hroot, hrootBase⟩ := hcore.root_mem
  exact
    { buddy_eq := (slab_words 0 (by omega) hslab).trans hcore.buddy_eq
      objsize_eq := (slab_words _ (by omega) hslab).trans hcore.objsize_eq
      cachesize_eq := (slab_words _ (by omega) hslab).trans hcore.cachesize_eq
      head_eq := hbases ▸ hcore.head_eq
      first_eq := (slab_words _ (by omega) hslab).trans hcore.first_eq
      last_eq := by
        have hlast : lastCache memory' shape.slab = lastCache memory shape.slab :=
          slab_words _ (by omega) hslab
        rw [haddrs, hcore.last_eq, hlast]
      linked := by
        rw [haddrs]
        exact hcore.linked.congr (fun addr haddr => (hlinks addr (List.mem_of_mem_dropLast haddr)).1)
          fun addr haddr => (hlinks addr (List.mem_of_mem_tail haddr)).2
      head_prev := by
        rw [← hrootBase, (link_words (hlink root hroot)).2, hrootBase]
        exact hcore.head_prev
      contents := hcontents
      placed := hbases ▸ hcore.placed
      apart := hbases ▸ hcore.apart }

/-- The slab's header is its own. -/
theorem slab_own (hcore : Core shape memory caches) {query : ℕ} (hquery : shape.SlabByte query) :
    OwnByte shape caches query := by
  obtain ⟨root, hroot, hbase⟩ := hcore.root_mem
  obtain ⟨hlower, hupper⟩ := hquery
  have haddr := shape.addr_slab
  have hstop := shape.header_le_stop shape.slab
  simp only [sizeofSlabAlloc, sizeofSlabCacheHeader] at hupper hstop
  refine ⟨root, hroot, ?_, Slots.header_not_client ?_⟩
  · rw [hbase]
    exact ⟨hlower, by omega⟩
  · simp only [hbase, sizeofSlabCacheHeader]
    omega

/-- So are the links of its caches. -/
theorem link_own (hcache : cache ∈ caches) {query : ℕ}
    (hlink : shape.LinkByte cache.base query) : OwnByte shape caches query := by
  obtain ⟨hlower, hupper⟩ := hlink
  have haddr := shape.base_le_addr cache.base
  have hstop := shape.header_le_stop cache.base
  simp only [sizeofSlabCacheHeader] at hstop
  exact ⟨cache, hcache, ⟨by omega, by omega⟩,
    Slots.header_not_client (by simp only [sizeofSlabCacheHeader]; omega)⟩

/-- The slab depends on its own bytes only. -/
theorem frame (hcore : Core shape memory caches)
    (hagree : ∀ query, OwnByte shape caches query → memory' query = memory query) :
    Core shape memory' caches := by
  refine hcore.congr rfl (fun query hslab _ => hagree query (hcore.slab_own hslab))
    (fun cache hcache query hlink => hagree query (link_own hcache hlink)) ?_
  intro cache hcache
  apply (hcore.contents cache hcache).frame
  rintro query ⟨hlower, hupper, -⟩ hclient
  have haddr := shape.base_le_addr cache.base
  exact hagree query ⟨cache, hcache, ⟨by omega, hupper⟩, hclient⟩

/-- The other caches are in other regions. -/
theorem apart_others (hcore : Core shape memory (before ++ cache :: after))
    (hother : other ∈ before ++ after) : shape.RegionsApart other.base cache.base := by
  have hapart := hcore.apart
  simp only [bases, List.map_append, List.map_cons, List.pairwise_append, List.pairwise_cons]
    at hapart
  rcases List.mem_append.mp hother with hbefore | hafter
  · exact hapart.2.2 _ (List.mem_map_of_mem hbefore) _ List.mem_cons_self
  · exact (hapart.2.1.1 _ (List.mem_map_of_mem hafter)).symm

theorem update_slab (hcore : Core shape memory caches) (hmem : cache ∈ caches)
    (hchange : UnchangedOutside memory memory' (shape.UpdateByte cache.base)) {query : ℕ}
    (hquery : shape.SlabByte query) (hfirst : ¬ shape.FirstFreeByte query) :
    memory' query = memory query := by
  apply hchange
  rintro (hcontent | hquery')
  · exact hcore.content_not_slab hmem hcontent hquery
  · exact hfirst hquery'

theorem update_link (hcore : Core shape memory caches) (hmem : cache ∈ caches)
    (hchange : UnchangedOutside memory memory' (shape.UpdateByte cache.base))
    (hother : other ∈ caches) {query : ℕ} (hlink : shape.LinkByte other.base query) :
    memory' query = memory query := by
  apply hchange
  rintro (hcontent | hquery)
  · exact hcore.content_not_link hmem hother hcontent hlink
  · exact hcore.link_not_slab hother hlink hquery.slabByte

/-- An update that spares the clients of the cache changes bytes of the slab. -/
theorem update_own (hcore : Core shape memory caches) (hmem : cache ∈ caches) {query : ℕ}
    (hupdate : shape.UpdateByte cache.base query) (hclient : ¬ cache.ClientByte shape query) :
    OwnByte shape caches query := by
  rcases hupdate with hcontent | hfirst
  · have haddr := shape.base_le_addr cache.base
    exact ⟨cache, hmem, ⟨by have := hcontent.1; omega, hcontent.2.1⟩, hclient⟩
  · exact hcore.slab_own hfirst.slabByte

/-- An update of the contents of one cache, and of `first_free_cache`. -/
theorem update (hcore : Core shape memory (before ++ cache :: after))
    (hbase : cache'.base = cache.base)
    (hchange : UnchangedOutside memory memory' (shape.UpdateByte cache.base))
    (hholds : CacheHolds shape memory' cache') :
    Core shape memory' (before ++ cache' :: after) := by
  have hmem : cache ∈ before ++ cache :: after := by simp
  apply hcore.congr
  · simp only [bases, List.map_append, List.map_cons, hbase]
  · exact fun query hquery hfirst => hcore.update_slab hmem hchange hquery hfirst
  · exact fun other hother query hlink => hcore.update_link hmem hchange hother hlink
  · intro other hother
    rcases mem_middle.mp hother with rfl | hrest
    · exact hholds
    · have hother' : other ∈ before ++ cache :: after := mem_middle.mpr (.inr hrest)
      have hapart := hcore.apart_others hrest
      have haddr := shape.base_le_addr cache.base
      have haddr' := shape.base_le_addr other.base
      apply (hcore.contents other hother').frame
      intro query hcontent _
      apply hchange
      rintro (hcontent' | hquery)
      · simp only [Shape.RegionsApart, Shape.Content] at hapart hcontent hcontent'
        omega
      · exact hcore.content_not_slab hother' hcontent hquery.slabByte

/-- The headers of two caches share no byte. -/
theorem headers_apart (hcore : Core shape memory caches) (hcache : cache ∈ caches)
    (hother : other ∈ caches) (hne : shape.addr cache.base ≠ shape.addr other.base) :
    shape.addr cache.base + 72 ≤ shape.addr other.base ∨
      shape.addr other.base + 72 ≤ shape.addr cache.base := by
  have hapart := hcore.apart_of_ne hcache hother fun hsame => hne (congrArg shape.addr hsame)
  have haddr := shape.base_le_addr cache.base
  have haddr' := shape.base_le_addr other.base
  have hstop := shape.header_le_stop cache.base
  have hstop' := shape.header_le_stop other.base
  simp only [Shape.RegionsApart, sizeofSlabCacheHeader] at *
  omega

theorem addrs_nodup (hcore : Core shape memory caches) : (addrs shape caches).Nodup := by
  apply List.pairwise_map.mpr
  apply hcore.apart.imp
  intro base other hapart hsame
  have haddr := shape.base_le_addr base
  have haddr' := shape.base_le_addr other
  have hstop := shape.header_le_stop base
  have hstop' := shape.header_le_stop other
  simp only [Shape.RegionsApart, sizeofSlabCacheHeader] at *
  omega

theorem last_eq_addr (hcore : Core shape memory (before ++ [cache])) :
    lastCache memory shape.slab = shape.addr cache.base := by
  have hlast := hcore.last_eq
  simp only [addrs, bases, List.map_append, List.map_cons, List.map_nil,
    List.getLast?_concat, Option.some.injEq] at hlast
  exact hlast.symm

theorem stop_lt (hcore : Core shape memory caches) (hmem : cache ∈ caches) :
    shape.stop cache.base < wordSize :=
  (hcore.placed _ (List.mem_map_of_mem hmem)).2

theorem addr_pos (hcore : Core shape memory caches) (hmem : cache ∈ caches) :
    0 < shape.addr cache.base :=
  (hcore.placed _ (List.mem_map_of_mem hmem)).1.trans_le (shape.base_le_addr _).1

end Core

theorem Ready.closed {shape : Shape} {memory : Memory} {before : List Cache} {last : Cache}
    (hready : Ready shape memory before last) : Closed shape memory := by
  rw [Closed, hready.core.last_eq_addr]
  exact hready.next

theorem Ready.settled {shape : Shape} {memory : Memory} {before : List Cache} {last : Cache}
    (hready : Ready shape memory before last) : Settled shape memory (before ++ [last]) where
  toCore := hready.core
  first_free := .inr ⟨hready.first.trans hready.core.last_eq_addr.symm, hready.closed⟩

end DoomsdayModules.SlabInvariant
