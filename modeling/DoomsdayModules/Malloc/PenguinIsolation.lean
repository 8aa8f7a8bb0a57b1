import DoomsdayModules.Malloc.PenguinRuns

/-!
# Isolation of live blocks

What the allocators keep for themselves lies in the memory they hand out from:
the header, the free-list heads and the bitmap of the buddy allocator, the first
words of free blocks and free slots, the headers of slabs and caches, and the
words in front of live blocks.  Over every run that keeps the heap intact, the
clients' regions share no byte with any of it, nor with each other.
-/

namespace DoomsdayModules.PenguinIsolation

open DoomsdayModules.ByteMemory DoomsdayModules.Runs DoomsdayModules.Util
open DoomsdayModules.IntrusiveStack DoomsdayModules.DoublyLinked DoomsdayModules.DyadicBlocks
open DoomsdayModules.BuddyUtil DoomsdayModules.Buddy DoomsdayModules.BuddyInvariant
open DoomsdayModules.BuddyInit DoomsdayModules.Slab DoomsdayModules.SlabInvariant
open DoomsdayModules.SlabOps DoomsdayModules.SlabOnBuddy DoomsdayModules.PenguinMalloc
open DoomsdayModules.PenguinOrigin DoomsdayModules.PenguinHeap DoomsdayModules.PenguinRuns

/-! ## What the allocators keep -/

/-- A node of the list that starts at `first`. -/
inductive OnList (memory : Memory) : ℕ → ℕ → Prop
  | head {first : ℕ} : first ≠ 0 → OnList memory first first
  | next {first node : ℕ} : first ≠ 0 → OnList memory (readWord memory first) node →
      OnList memory first node

/-- A cache of the slab, from `first_cache` along `next_cache` to `last_cache`. -/
inductive Cached (memory : Memory) (slab : ℕ) : ℕ → Prop
  | first : Cached memory slab (firstCache memory slab)
  | next {cache : ℕ} : Cached memory slab cache → cache ≠ lastCache memory slab →
      Cached memory slab (nextCache memory cache)

/-- A byte that an allocator uses for itself. -/
inductive AllocatorByte (globals : Globals) (client : Client) (query : ℕ) : Prop
  | header : globals.buddy ≤ query → query < globals.buddy + sizeofBuddyAlloc →
      AllocatorByte globals client query
  | freeList (layer : ℕ) : layer < buddyLayers client.memory globals.buddy →
      freelistSlot client.memory globals.buddy layer ≤ query →
      query < freelistSlot client.memory globals.buddy layer + 8 →
      AllocatorByte globals client query
  | bitmap (layer index : ℕ) : layer < buddyLayers client.memory globals.buddy →
      index < 2 ^ layer → query = bitmap client.memory globals.buddy + maskIndex layer index →
      AllocatorByte globals client query
  | freeBlock (layer node : ℕ) : layer < buddyLayers client.memory globals.buddy →
      OnList client.memory
        (readWord client.memory (freelistSlot client.memory globals.buddy layer)) node →
      node ≤ query → query < node + 8 → AllocatorByte globals client query
  | slab (index : ℕ) : globals.slabs index ≠ 0 → globals.slabs index ≤ query →
      query < globals.slabs index + sizeofSlabAlloc → AllocatorByte globals client query
  | cache (index cache : ℕ) : globals.slabs index ≠ 0 →
      Cached client.memory (globals.slabs index) cache → cache ≤ query →
      query < cache + sizeofSlabCacheHeader → AllocatorByte globals client query
  | freeSlot (index cache slot : ℕ) : globals.slabs index ≠ 0 →
      Cached client.memory (globals.slabs index) cache →
      OnList client.memory (readWord client.memory (cache + 40)) slot → slot ≤ query →
      query < slot + 8 → AllocatorByte globals client query
  | objectHeader (entry : Entry) (index : ℕ) : entry ∈ client.live →
      entry.request = .slab index → entry.mem - sizeofSlabAllocatedObjectHeader ≤ query →
      query < entry.mem → AllocatorByte globals client query
  | blockHeader (entry : Entry) : entry ∈ client.live → entry.mem ≤ query →
      query < entry.mem + sizeofPenguinMallocHeader → AllocatorByte globals client query

/-- Two clients' regions share no byte. -/
def LiveApart (entry other : Entry) : Prop :=
  entry.ptr + entry.size ≤ other.ptr ∨ other.ptr + other.size ≤ entry.ptr

/-- The live regions are apart from each other, inside the pool, and free of
bytes that an allocator uses. -/
structure Isolated (globals : Globals) (poolBegin poolEnd : ℕ) (client : Client) : Prop where
  apart : client.live.Pairwise LiveApart
  inside : ∀ entry ∈ client.live, poolBegin ≤ entry.ptr ∧ entry.ptr + entry.size ≤ poolEnd
  clients : ∀ entry ∈ client.live, ∀ query, entry.ptr ≤ query → query < entry.ptr + entry.size →
    ¬ AllocatorByte globals client query

/-! ## The lists of an intact heap -/

theorem mem_of_onList {memory : Memory} {first node : ℕ} (hnode : OnList memory first node) :
    ∀ {nodes : List ℕ}, IsStack memory first nodes → node ∈ nodes := by
  induction hnode with
  | head hne =>
      intro nodes hstack
      cases nodes with
      | nil => exact absurd hstack hne
      | cons node rest => exact hstack.1 ▸ List.mem_cons_self
  | next hne _ ih =>
      intro nodes hstack
      cases nodes with
      | nil => exact absurd hstack hne
      | cons node rest =>
          obtain ⟨rfl, -, hrest⟩ := hstack
          exact List.mem_cons_of_mem _ (ih hrest)

variable {layout : Layout} {globals : Globals} {free : List Block} {classes : List SlabClass}
  {slabClass : SlabClass} {client : Client} {entry : Entry} {query : ℕ}

theorem exists_cache_of_cached {shape : Shape} {memory : Memory} {caches : List Cache} {addr : ℕ}
    (hcore : Core shape memory caches) (hcached : Cached memory shape.slab addr) :
    ∃ cache ∈ caches, shape.addr cache.base = addr := by
  induction hcached with
  | first =>
      obtain ⟨root, hroot, hbase⟩ := hcore.root_mem
      exact ⟨root, hroot, by rw [hcore.first_eq, hbase]⟩
  | next _ hlast ih =>
      obtain ⟨cache, hcache, rfl⟩ := ih
      obtain ⟨front, back, hsplit⟩ := List.append_of_mem (mem_addrs.mpr ⟨cache, hcache, rfl⟩)
      cases back with
      | nil =>
          have hlastEq := hcore.last_eq
          rw [hsplit, List.getLast?_append, List.getLast?_singleton] at hlastEq
          exact absurd (by simpa using hlastEq) hlast
      | cons successor back =>
          have hlinked := hcore.linked
          rw [hsplit] at hlinked
          rw [hlinked.adjacent.1]
          apply mem_addrs.mp
          rw [hsplit]
          simp

/-! ## Live regions are clear of it -/

/-- A byte of the slab's headers and free slots. -/
theorem header_own {shape : Shape} {caches : List Cache} {cache : Cache}
    (hcache : cache ∈ caches) (hlower : shape.addr cache.base ≤ query)
    (hupper : query < shape.addr cache.base + sizeofSlabCacheHeader) :
    OwnByte shape caches query := by
  have haddr := (shape.base_le_addr cache.base).1
  have hstop := shape.header_le_stop cache.base
  exact ⟨cache, hcache, ⟨by omega, by omega⟩, Slots.header_not_client hupper⟩

theorem slot_own {shape : Shape} {memory : Memory} {caches : List Cache} {cache : Cache}
    {index : ℕ} (hcore : Core shape memory caches) (hcache : cache ∈ caches)
    (hslot : index ∈ cache.live ++ cache.free) (hlower : shape.slot cache.base index ≤ query)
    (hupper : query < shape.slot cache.base index + 8) : OwnByte shape caches query := by
  have haddr := (shape.base_le_addr cache.base).1
  have hbegin := shape.header_le_slot cache.base index
  have hindex := (hcore.contents cache hcache).index_lt hslot
  have hend := shape.slot_add_le_stop hindex
  have hbytes := shape.slotBytes_bounds.1
  exact ⟨cache, hcache, ⟨by omega, by omega⟩, Slots.slot_not_client hlower hupper⟩

/-- What a byte of the buddy allocator is. -/
theorem buddy_byte (hrep : Represents layout client.memory free live)
    (hbuddy : globals.buddy = layout.alloc) {layer : ℕ}
    (hlayer : layer < buddyLayers client.memory globals.buddy) :
    layer ≤ layout.depth ∧
      freelistSlot client.memory globals.buddy layer = layout.slot layer ∧
      bitmap client.memory globals.buddy = layout.bitmap := by
  rw [hbuddy] at hlayer ⊢
  rw [hrep.layers_eq] at hlayer
  exact ⟨by omega, hrep.slot_eq layer, hrep.bitmap_eq⟩

/-- A byte behind the header of a live block is no allocator's. -/
theorem not_allocatorByte (hheap : Heap layout globals free classes client.memory client.live)
    (hrecorded : Recorded client) (hentry : entry ∈ client.live)
    (hlower : entry.mem + sizeofPenguinMallocHeader ≤ query)
    (hupper : query < entry.mem + entry.request.room) : ¬ AllocatorByte globals client query := by
  have hrep := hheap.represents
  obtain ⟨block, hblock, hbegin, hend⟩ := hheap.inBlock hentry
  have hmem : entry.mem ≤ query := (Nat.le_add_right _ _).trans hlower
  obtain ⟨hmeta, hfree⟩ := hrep.live_byte hblock ⟨hbegin.trans hmem, hupper.trans_le hend⟩
  have hheader := layout.header_le
  have hlists := layout.freelist_le
  have hbits := layout.bitmap_le
  have hown : ∀ slabClass ∈ classes, ¬ OwnByte slabClass.shape slabClass.caches query :=
    fun slabClass hclass => hheap.region_not_own hclass hentry hmem hupper
  have hclassOf : ∀ index, globals.slabs index ≠ 0 → ∃ slabClass ∈ classes,
      slabClass.Intact layout globals client.memory ∧
        globals.slabs index = slabClass.shape.slab := by
    intro index hslab
    obtain ⟨slabClass, hclass, rfl⟩ := hheap.covers index hslab
    have hintact := hheap.intact slabClass hclass
    exact ⟨slabClass, hclass, hintact, hintact.slab_eq⟩
  intro hbyte
  cases hbyte with
  | header hfirst hlast =>
      rw [hheap.buddy_eq] at hfirst hlast
      exact hmeta ⟨hfirst, by omega⟩
  | freeList layer hlayer hfirst hlast =>
      obtain ⟨hdepth, hslot, -⟩ := buddy_byte hrep hheap.buddy_eq hlayer
      rw [hslot] at hfirst hlast
      have hbounds := layout.slot_bounds hdepth
      exact hmeta ⟨by omega, by omega⟩
  | bitmap layer index hlayer hindex hquery =>
      obtain ⟨hdepth, -, hbitmap⟩ := buddy_byte hrep hheap.buddy_eq hlayer
      have hvalid : (Block.mk layer index).Valid layout.depth := ⟨hdepth, hindex⟩
      have hmask := maskIndex_lt hvalid layout.capacity
      rw [hbitmap] at hquery
      exact hmeta ⟨by omega, by dsimp only at hmask; omega⟩
  | freeBlock layer node hlayer hnode hfirst hlast =>
      obtain ⟨hdepth, hslot, -⟩ := buddy_byte hrep hheap.buddy_eq hlayer
      rw [hslot] at hnode
      obtain ⟨other, hother, rfl⟩ := List.mem_map.mp
        (mem_of_onList hnode (hrep.lists layer hdepth))
      have hpage := layout.address_add_le other
      simp only [pageSize] at hpage
      exact hfree other (mem_freeAt.mp hother).1 ⟨hfirst, by omega⟩
  | slab index hslab hfirst hlast =>
      obtain ⟨slabClass, hclass, hintact, hslabEq⟩ := hclassOf index hslab
      rw [hslabEq] at hfirst hlast
      exact hown slabClass hclass (hintact.settled.toCore.slab_own ⟨hfirst, hlast⟩)
  | cache index cache hslab hcached hfirst hlast =>
      obtain ⟨slabClass, hclass, hintact, hslabEq⟩ := hclassOf index hslab
      rw [hslabEq] at hcached
      obtain ⟨cache, hcache, rfl⟩ := exists_cache_of_cached hintact.settled.toCore hcached
      exact hown slabClass hclass (header_own hcache hfirst hlast)
  | freeSlot index cache slot hslab hcached hslot hfirst hlast =>
      obtain ⟨slabClass, hclass, hintact, hslabEq⟩ := hclassOf index hslab
      have hcore := hintact.settled.toCore
      rw [hslabEq] at hcached
      obtain ⟨cache, hcache, rfl⟩ := exists_cache_of_cached hcore hcached
      obtain ⟨free, hfreeSlot, rfl⟩ := List.mem_map.mp
        (mem_of_onList hslot (hcore.contents cache hcache).freelist)
      exact hown slabClass hclass
        (slot_own hcore hcache (List.mem_append_right _ hfreeSlot) hfirst hlast)
  | objectHeader other index hother hrequest hfirst hlast =>
      obtain ⟨slabClass, hclass, rfl⟩ := hheap.owned other hother index hrequest
      have hcore := (hheap.intact slabClass hclass).settled.toCore
      obtain ⟨cache, hcache, hobject⟩ := List.mem_flatMap.mp
        (hheap.mem_objects hclass hother hrequest)
      obtain ⟨slot, hlive, hslot⟩ := List.mem_map.mp hobject
      rw [← hslot, Nat.add_sub_cancel] at hfirst
      rw [← hslot] at hlast
      exact hown slabClass hclass
        (slot_own hcore hcache (List.mem_append_left _ hlive) hfirst hlast)
  | blockHeader other hother hfirst hlast =>
      by_cases hsame : other = entry
      · subst hsame
        omega
      · have hapart := hrecorded.apart_of_ne hother hentry hsame
        have henough := (hrecorded.entries other hother).enough
        rw [RegionsApart] at hapart
        omega

/-- The live regions of a sound heap are isolated. -/
theorem isolated_of_sound {poolEnd : ℕ} (hsound : Sound layout globals client)
    (hpool : pageAddress layout.begin_ (2 ^ layout.depth) ≤ poolEnd) :
    Isolated globals layout.alloc poolEnd client := by
  obtain ⟨free, classes, hheap⟩ := hsound.heap
  have hrecorded := hsound.recorded
  refine ⟨?_, ?_, ?_⟩
  · apply List.Pairwise.imp_of_mem _ hrecorded.apart
    intro entry other hentry hother hapart
    have hentry' := hrecorded.entries entry hentry
    have hother' := hrecorded.entries other hother
    have hptr := hentry'.ptr_eq
    have hptr' := hother'.ptr_eq
    have henough := hentry'.enough
    have henough' := hother'.enough
    rw [RegionsApart] at hapart
    rw [LiveApart]
    omega
  · intro entry hentry
    have hptr := (hrecorded.entries entry hentry).ptr_eq
    have henough := (hrecorded.entries entry hentry).enough
    obtain ⟨block, hblock, hbegin, hend⟩ := hheap.inBlock hentry
    have hvalid := hheap.represents.valid (List.mem_append_left free hblock)
    have hstart := layout.begin_le_address block
    have hstop : layout.addressStop block ≤ pageAddress layout.begin_ (2 ^ layout.depth) :=
      Nat.add_le_add_left (Nat.mul_le_mul_right pageSize (Block.stop_le hvalid)) _
    have := layout.header_le
    have := layout.freelist_le
    have := layout.bitmap_le
    omega
  · intro entry hentry query hlower hupper
    have hptr := (hrecorded.entries entry hentry).ptr_eq
    have henough := (hrecorded.entries entry hentry).enough
    exact not_allocatorByte hheap hrecorded hentry (by omega) (by omega)

/-! ## Isolation over runs -/

/-- In every run whose steps all meet the conditions, the live regions are
isolated at every point. -/
theorem live_isolated_of_tame {memory memory₀ memory₁ : Memory} {begin_ end_ alloc fuel : ℕ}
    {globals : Globals} (hfuel : 2 ≤ fuel) (horder : begin_ ≤ end_) (hend : end_ < wordSize)
    (hinit : buddyInit memory begin_ end_ = some (alloc, memory₀)) (halloc : alloc ≠ 0)
    (hsized : WellSized memory₀ alloc) (hroot : 64 ≤ rootBlockSize memory₀ alloc)
    (hpenguin : penguinMallocInit realBuddy memory₀ alloc = some (globals, memory₁))
    {ops : List Op} (hrun : AllSteps (step (realAllocators fuel) globals)
      (fun client op => Legal client op ∧ Tame globals client op) ⟨memory₁, []⟩ ops) :
    ∀ done, done <+: ops → ∃ client,
      run (step (realAllocators fuel) globals) ⟨memory₁, []⟩ done = some client ∧
        Isolated globals begin_ end_ client := by
  obtain ⟨layout, rfl, hbegin, hpool, hrep⟩ :=
    buddyInit_represents horder hend hinit halloc hsized
  rw [hrep.root_eq] at hroot
  obtain ⟨globals', memory', hready, hsound⟩ := penguinMallocInit_sound hroot hrep
  obtain ⟨rfl, rfl⟩ : globals' = globals ∧ memory' = memory₁ := by
    simpa using hready.symm.trans hpenguin
  intro done hdone
  obtain ⟨client, hreached, hclient⟩ := run_preserves_throughout
    (Sound layout globals') (fun _ _ hinv hstep => step_sound hfuel hinv hstep.1 hstep.2)
    hsound hrun done hdone
  exact ⟨client, hreached, hbegin ▸ isolated_of_sound hclient hpool⟩

theorem live_isolated_wideMemory :
    ∃ client, run (step (realAllocators 2) wideGlobals) ⟨wideMemory, []⟩
        [.malloc 20, .malloc 5000, .malloc 5000000, .write 2105360 7, .malloc 100, .free 8328,
          .free 2105352, .malloc 1] = some client ∧ Isolated wideGlobals 4096 8392704 client :=
  live_isolated_of_tame le_rfl (by decide) (by decide) buddyInit_widePool (by decide)
    widePool_wellSized rootBlockSize_widePool penguinMallocInit_widePool (by decide +kernel) _
    (List.prefix_refl _)

/-- Two requests for three pages get blocks of two pages side by side. -/
theorem live_not_isolated_after_large :
    ¬ ∀ (memory memory₀ memory₁ : Memory) (begin_ end_ alloc fuel : ℕ) (globals : Globals)
      (ops : List Op), 2 ≤ fuel → begin_ ≤ end_ → end_ < wordSize →
      buddyInit memory begin_ end_ = some (alloc, memory₀) → alloc ≠ 0 →
      WellSized memory₀ alloc → 64 ≤ rootBlockSize memory₀ alloc →
      penguinMallocInit realBuddy memory₀ alloc = some (globals, memory₁) →
      AllSteps (step (realAllocators fuel) globals) Legal ⟨memory₁, []⟩ ops →
      ∀ done, done <+: ops → ∃ client,
        run (step (realAllocators fuel) globals) ⟨memory₁, []⟩ done = some client ∧
          Isolated globals begin_ end_ client := by
  intro hclaim
  obtain ⟨client, hclient, hisolated⟩ := hclaim _ _ _ _ _ _ _ _ [.malloc 12000, .malloc 12000]
    le_rfl (by decide) (by decide) buddyInit_widePool (by decide) widePool_wellSized
    rootBlockSize_widePool penguinMallocInit_widePool (by decide +kernel) _ (List.prefix_refl _)
  have hlive : (run (step (realAllocators 2) wideGlobals) ⟨wideMemory, []⟩
      [.malloc 12000, .malloc 12000]).map (fun client => client.live.map fun entry =>
        (entry.ptr, entry.size)) = some [(2113544, 12000), (2105352, 12000)] := by decide +kernel
  rw [hclient, Option.map_some, Option.some.injEq] at hlive
  obtain ⟨second, rest, hsplit, hsecond, hrest⟩ := List.map_eq_cons_iff.mp hlive
  obtain ⟨first, last, rfl, hfirst, -⟩ := List.map_eq_cons_iff.mp hrest
  have hapart := hisolated.apart
  rw [hsplit] at hapart
  have hpair := (List.pairwise_cons.mp hapart).1 first List.mem_cons_self
  simp only [Prod.mk.injEq] at hsecond hfirst
  rw [LiveApart] at hpair
  omega

end DoomsdayModules.PenguinIsolation
