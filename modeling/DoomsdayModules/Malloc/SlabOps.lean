import DoomsdayModules.Malloc.SlabGrowth

/-!
# `slab_alloc` and `slab_free`

What a whole call does to the abstract state, for any buddy allocator whose
answer to this call is sound: an allocation adds a live slot to the last cache,
after adding a cache if none was known to have room, and a free turns a live
slot into a free one and drops a cache that became empty.  The two conditions
on the list are that no cache changes places with a neighbour, and that the
last cache is not destroyed while its `next_cache` dangles.
-/

namespace DoomsdayModules.SlabOps

open DoomsdayModules.ByteMemory DoomsdayModules.Util DoomsdayModules.DoublyLinked
open DoomsdayModules.Slab
open DoomsdayModules.SlabInvariant DoomsdayModules.SlabMoves DoomsdayModules.SlabGrowth

variable {shape : Shape} {memory memory' replied : Memory} {buddy : BuddyOps}
  {caches before after : List Cache} {cache : Cache} {taken index : ℕ}

/-- The pointers handed out for the live slots of a cache. -/
def cacheObjects (shape : Shape) (cache : Cache) : List ℕ :=
  cache.live.map fun index => shape.slot cache.base index + sizeofSlabAllocatedObjectHeader

def objects (shape : Shape) (caches : List Cache) : List ℕ := caches.flatMap (cacheObjects shape)

/-- An object is a live slot of one of the caches. -/
theorem mem_objects {ptr : ℕ} (hptr : ptr ∈ objects shape caches) :
    ∃ before cache after index, caches = before ++ cache :: after ∧ index ∈ cache.live ∧
      ptr = shape.slot cache.base index + sizeofSlabAllocatedObjectHeader := by
  obtain ⟨cache, hcache, hmem⟩ := List.mem_flatMap.mp hptr
  obtain ⟨index, hlive, rfl⟩ := List.mem_map.mp hmem
  obtain ⟨before, after, rfl⟩ := List.append_of_mem hcache
  exact ⟨before, cache, after, index, rfl, hlive, rfl⟩

/-- Releasing an object takes it off the list of objects. -/
theorem objects_release {before after : List Cache} {cache : Cache} {index : ℕ}
    (hlive : index ∈ cache.live) :
    (objects shape (before ++ cache :: after)).Perm
      ((shape.slot cache.base index + sizeofSlabAllocatedObjectHeader) ::
        objects shape (before ++ cache.release index :: after)) := by
  have hcache : (cacheObjects shape cache).Perm
      ((shape.slot cache.base index + sizeofSlabAllocatedObjectHeader) ::
        cacheObjects shape (cache.release index)) :=
    (List.perm_cons_erase hlive).map _
  simp only [objects, List.flatMap_append, List.flatMap_cons]
  refine List.Perm.trans ?_ List.perm_middle
  rw [← List.cons_append]
  exact (hcache.append_right _).append_left _

theorem objects_drop {before after : List Cache} {cache : Cache} {index : ℕ}
    (hlive : cache.live = [index]) :
    (objects shape (before ++ cache :: after)).Perm
      ((shape.slot cache.base index + sizeofSlabAllocatedObjectHeader) ::
        objects shape (before ++ after)) := by
  simp only [objects, List.flatMap_append, List.flatMap_cons, cacheObjects, hlive, List.map_cons,
    List.map_nil, List.singleton_append]
  exact List.perm_middle

/-- An object's bytes are not the slab's own. -/
theorem object_not_own {memory : Memory} (hcore : Core shape memory caches) {ptr query : ℕ}
    (hptr : ptr ∈ objects shape caches) (hlower : ptr ≤ query)
    (hupper : query < ptr + shape.size) : ¬ OwnByte shape caches query := by
  obtain ⟨cache, hcache, hmem⟩ := List.mem_flatMap.mp hptr
  obtain ⟨index, hlive, rfl⟩ := List.mem_map.mp hmem
  rintro ⟨other, hother, hinside, hclient⟩
  have hindex := (hcore.contents cache hcache).index_lt (List.mem_append_left _ hlive)
  have hstop := shape.slot_add_le_stop hindex
  have hbegin := shape.header_le_slot cache.base index
  have haddr := shape.base_le_addr cache.base
  have hquery : cache.ClientByte shape query :=
    ⟨index, hlive, hlower, by simp only [Shape.slotBytes]; omega⟩
  have hinside' : shape.InRegion cache.base query :=
    ⟨by omega, by simp only [Shape.slotBytes] at hstop; omega⟩
  have hsame := hcore.inRegion_unique hother hcache hinside hinside'
  have hnodup : (bases caches).Nodup := hcore.apart.imp fun {base other} hapart hsame => by
    have := shape.header_le_stop base
    have := shape.base_le_addr base
    simp only [Shape.RegionsApart, hsame] at *
    omega
  exact hclient (List.inj_on_of_nodup_map hnodup hother hcache hsame ▸ hquery)

/-- The bytes of the objects are the same. -/
def SparesObjects (shape : Shape) (caches : List Cache) (memory memory' : Memory) : Prop :=
  ∀ ptr ∈ objects shape caches, ∀ query, ptr ≤ query → query < ptr + shape.size →
    memory' query = memory query

/-! ## `slab_alloc` -/

/-- The region that `slab_alloc` gets from the buddy allocator, if it asks for
one, and the memory in which it goes on. -/
def askBuddy (buddy : BuddyOps) (memory : Memory) (slab : ℕ) : Option (ℕ × Memory) :=
  if firstFreeCache memory slab = 0 then
    buddy.alloc memory (buddyOf memory slab) (cachesize memory slab)
  else some (0, memory)

/-- The reply leaves the slab's bytes alone, and a region it hands out shares
nothing with the slab. -/
structure SoundReply (shape : Shape) (memory : Memory) (caches : List Cache) (taken : ℕ)
    (replied : Memory) : Prop where
  spared : ∀ query, OwnByte shape caches query → replied query = memory query
  fresh : taken ≠ 0 → Fresh shape caches taken

/-- The call runs into `slab_cache_move_up`. -/
def MovesUp (buddy : BuddyOps) (memory : Memory) (slab : ℕ) : Prop :=
  ∃ reply ∈ growSlab buddy memory slab, reply.1 ≠ 0 ∧
    allocatedObjects reply.2 reply.1 ≠ maxObjects reply.2 reply.1 ∧
    overtakesPrev (countObject reply.2 reply.1) reply.1

instance (buddy : BuddyOps) (memory : Memory) (slab : ℕ) :
    Decidable (MovesUp buddy memory slab) :=
  inferInstanceAs (Decidable (∃ reply ∈ growSlab buddy memory slab, _))

theorem ready_of_settled (hsettled : Settled shape memory caches)
    (hfirst : firstFreeCache memory shape.slab ≠ 0) :
    ∃ before last, caches = before ++ [last] ∧ Ready shape memory before last := by
  obtain ⟨before, last, rfl⟩ := exists_last hsettled.toCore
  obtain ⟨hsame, hclosed⟩ := hsettled.first_free.resolve_left hfirst
  rw [hsettled.last_eq_addr] at hsame
  rw [Closed, hsettled.last_eq_addr] at hclosed
  exact ⟨before, last, rfl, hsettled.toCore, hsame, hclosed⟩

/-- A word of the slab's header that is the slab's own. -/
theorem header_word_eq (hcore : Core shape memory caches)
    (hspared : ∀ query, OwnByte shape caches query → memory' query = memory query)
    {offset : ℕ} (hoffset : offset + 8 ≤ 48) :
    readWord memory' (shape.slab + offset) = readWord memory (shape.slab + offset) := by
  apply readWord_congr
  intro query hlower hupper
  exact hspared query (hcore.slab_own ⟨by omega, by simp only [sizeofSlabAlloc]; omega⟩)

/-- A memory that agrees on the slab's own bytes closes the list as well. -/
theorem closed_congr (hcore : Core shape memory caches)
    (hspared : ∀ query, OwnByte shape caches query → memory' query = memory query)
    (hclosed : Closed shape memory) : Closed shape memory' := by
  obtain ⟨before, last, rfl⟩ := exists_last hcore
  have hlast := hcore.last_eq_addr
  have hlast' := (hcore.frame hspared).last_eq_addr
  rw [Closed, hlast] at hclosed
  rw [Closed, hlast', ← hclosed]
  exact (Core.link_words fun query hlink =>
    hspared query (Core.link_own (by simp) hlink)).1

/-- A slab depends on its own bytes only. -/
theorem settled_congr (hsettled : Settled shape memory caches)
    (hspared : ∀ query, OwnByte shape caches query → memory' query = memory query) :
    Settled shape memory' caches := by
  have hcore := hsettled.toCore
  have hfirst : firstFreeCache memory' shape.slab = firstFreeCache memory shape.slab :=
    header_word_eq hcore hspared (by omega)
  have hlast : lastCache memory' shape.slab = lastCache memory shape.slab :=
    header_word_eq hcore hspared (by omega)
  refine { hcore.frame hspared with first_free := ?_ }
  rw [hfirst, hlast]
  exact hsettled.first_free.imp_right fun hready =>
    ⟨hready.1, closed_congr hcore hspared hready.2⟩

/-- The caches a slab allocates from: those it has, with the region it took. -/
structure Grown (shape : Shape) (caches caches' : List Cache) (taken : ℕ) : Prop where
  bases_eq : bases caches' = if taken = 0 then bases caches else bases caches ++ [taken]
  objects_eq : objects shape caches' = objects shape caches
  own : ∀ query, OwnByte shape caches' query →
    OwnByte shape caches query ∨ taken ≠ 0 ∧ shape.InRegion taken query

theorem grown_refl (shape : Shape) (caches : List Cache) : Grown shape caches caches 0 where
  bases_eq := (if_pos rfl).symm
  objects_eq := rfl
  own := fun _ hquery => .inl hquery

theorem grown_append (shape : Shape) (caches : List Cache) (htaken : taken ≠ 0) :
    Grown shape caches (caches ++ [emptyCache taken]) taken where
  bases_eq := by rw [if_neg htaken, bases, List.map_append]; rfl
  objects_eq := by simp [objects, cacheObjects, emptyCache]
  own := by
    rintro query ⟨cache, hcache, hinside, hclient⟩
    rcases List.mem_append.mp hcache with hold | hnew
    · exact .inl ⟨cache, hold, hinside, hclient⟩
    · obtain rfl := List.mem_singleton.mp hnew
      exact .inr ⟨htaken, hinside⟩

/-- Taking a slot of the last cache adds one object. -/
theorem Grown.take {before : List Cache} {last : Cache} {free' : List ℕ}
    (hgrown : Grown shape caches (before ++ [last]) taken) (index : ℕ) :
    bases (before ++ [⟨last.base, index :: last.live, free'⟩]) =
        (if taken = 0 then bases caches else bases caches ++ [taken]) ∧
      (objects shape (before ++ [⟨last.base, index :: last.live, free'⟩])).Perm
        (if shape.slot last.base index + sizeofSlabAllocatedObjectHeader = 0 then
          objects shape caches
        else (shape.slot last.base index + sizeofSlabAllocatedObjectHeader) ::
          objects shape caches) := by
  constructor
  · rw [← hgrown.bases_eq]
    simp only [bases, List.map_append, List.map_cons, List.map_nil]
  · rw [if_neg (by simp only [sizeofSlabAllocatedObjectHeader]; omega), ← hgrown.objects_eq]
    simp only [objects, cacheObjects, List.flatMap_append, List.flatMap_cons,
      List.flatMap_nil, List.append_nil, List.map_cons]
    exact List.perm_middle

/-- The caches with the region the slab took. -/
def grownCaches (caches : List Cache) (taken : ℕ) : List Cache :=
  if taken = 0 then caches else caches ++ [emptyCache taken]

/-- Either there is a last cache to allocate from, or the buddy allocator had
no region for a new one. -/
theorem growSlab_spec (hsettled : Settled shape memory caches)
    (hask : askBuddy buddy memory shape.slab = some (taken, replied))
    (hsound : SoundReply shape memory caches taken replied) :
    (growSlab buddy memory shape.slab = some (0, replied) ∧ taken = 0 ∧
      Settled shape replied caches ∧ firstFreeCache replied shape.slab = 0) ∨
    ∃ before last grown, growSlab buddy memory shape.slab =
        some (shape.addr last.base, grown) ∧ Ready shape grown before last ∧
      before ++ [last] = grownCaches caches taken ∧
      Grown shape caches (before ++ [last]) taken ∧
      UnchangedOutside replied grown fun query =>
        OwnByte shape caches query ∨ taken ≠ 0 ∧ shape.InRegion taken query := by
  by_cases hfirst : firstFreeCache memory shape.slab = 0
  · have hcore := hsettled.frame hsound.spared
    have hfirst' : firstFreeCache replied shape.slab = 0 :=
      (header_word_eq hsettled.toCore hsound.spared (by omega)).trans hfirst
    rw [askBuddy, if_pos hfirst] at hask
    simp only [growSlab, if_pos hfirst, hask, Option.bind_eq_bind, Option.bind_some]
    by_cases htaken : taken = 0
    · left
      exact ⟨if_pos htaken ▸ rfl, htaken, { hcore with first_free := .inl hfirst' }, hfirst'⟩
    · right
      have hfresh := hsound.fresh htaken
      obtain ⟨before, last, rfl⟩ := exists_last hcore
      have haddr := shape.addr_of_ne (hfresh.ne_slab hcore)
      obtain ⟨hready, hchange⟩ := append_ready hcore hfresh
      have hinit := slabCacheInit_eq hcore hfresh hfirst'
      have hstop : taken + cachesize replied shape.slab * pageSize = shape.stop taken := by
        rw [hcore.cachesize_eq]
        rfl
      refine ⟨before ++ [last], emptyCache taken, _, ?_, hready, (if_neg htaken).symm,
        grown_append shape _ htaken,
        hchange.mono fun query => Or.imp_right fun hquery => ⟨htaken, hquery⟩⟩
      simp only [if_neg htaken, growAt, hstop, hinit, Option.map_some, hready.first]
  · right
    rw [askBuddy, if_neg hfirst, Option.some.injEq, Prod.mk.injEq] at hask
    obtain ⟨rfl, rfl⟩ := hask
    obtain ⟨before, last, rfl, hready⟩ := ready_of_settled hsettled hfirst
    refine ⟨before, last, memory, ?_, hready, (if_pos rfl).symm, grown_refl shape _,
      unchangedOutside_refl _ _⟩
    rw [growSlab, if_neg hfirst, hready.first]

/-- An allocation that moves no cache has no cache to allocate from, finds the
last one full, or takes a slot of it. -/
theorem slabAlloc_cases {fuel : ℕ} (hfuel : 2 ≤ fuel) (hsettled : Settled shape memory caches)
    (hask : askBuddy buddy memory shape.slab = some (taken, replied))
    (hsound : SoundReply shape memory caches taken replied)
    (hstays : ¬ MovesUp buddy memory shape.slab) :
    (slabAlloc fuel buddy memory shape.slab = some (0, replied) ∧ taken = 0 ∧
      Settled shape replied caches ∧ firstFreeCache replied shape.slab = 0) ∨
    ∃ before last grown, Ready shape grown before last ∧
      before ++ [last] = grownCaches caches taken ∧ Grown shape caches (before ++ [last]) taken ∧
      UnchangedOutside replied grown (fun query =>
        OwnByte shape caches query ∨ taken ≠ 0 ∧ shape.InRegion taken query) ∧
      ((slabAlloc fuel buddy memory shape.slab = some (0, grown) ∧
          last.live.length = shape.capacity last.base) ∨
        ∃ index free' memory', slabAlloc fuel buddy memory shape.slab =
            some (shape.slot last.base index + sizeofSlabAllocatedObjectHeader, memory') ∧
          Settled shape memory' (before ++ [⟨last.base, index :: last.live, free'⟩]) ∧
          Closed shape memory' ∧
          UnchangedOutside grown memory' (OwnByte shape (before ++ [last])) ∧
          last.live.length < shape.capacity last.base ∧
          (firstFreeCache memory' shape.slab = 0 ↔
            last.live.length + 1 = shape.capacity last.base) ∧
          ¬ overtakesPrev (countObject grown (shape.addr last.base)) (shape.addr last.base)) := by
  simp only [slabAlloc, if_neg shape.slab_pos.ne', Option.bind_eq_bind]
  rcases growSlab_spec hsettled hask hsound with ⟨hgrow, rfl, hreplied⟩ |
    ⟨before, last, grown, hgrow, hready, hcaches, hgrown, hchange⟩
  · left
    exact ⟨by simp only [hgrow, Option.bind_some, if_pos], rfl, hreplied⟩
  · right
    have hlastMem : last ∈ before ++ [last] := by simp
    have haddr := (hready.core.addr_pos hlastMem).ne'
    have hstays' : allocatedObjects grown (shape.addr last.base) ≠
        maxObjects grown (shape.addr last.base) →
        ¬ overtakesPrev (countObject grown (shape.addr last.base)) (shape.addr last.base) :=
      fun hroom hovertakes => hstays ⟨_, hgrow, haddr, hroom, hovertakes⟩
    refine ⟨before, last, grown, hready, hcaches, hgrown, hchange, ?_⟩
    simp only [hgrow, Option.bind_some, if_neg haddr]
    rcases slabCacheAlloc_spec hfuel hready hstays' with hfull |
      ⟨index, free', memory', halloc, hsettled', hclosed', hchange', hroom, hfirst⟩
    · exact .inl hfull
    · refine .inr ⟨index, free', memory', halloc, hsettled', hclosed', hchange', hroom, hfirst,
        hstays' ?_⟩
      have hholds := hready.core.contents last hlastMem
      rw [hholds.allocated_eq, hholds.max_eq]
      exact hroom.ne

/-- An allocation that moves no cache adds at most one cache at the end of the
list and at most one live object. -/
theorem slabAlloc_spec {fuel : ℕ} (hfuel : 2 ≤ fuel) (hsettled : Settled shape memory caches)
    (hask : askBuddy buddy memory shape.slab = some (taken, replied))
    (hsound : SoundReply shape memory caches taken replied)
    (hstays : ¬ MovesUp buddy memory shape.slab) :
    ∃ ptr memory' caches', slabAlloc fuel buddy memory shape.slab = some (ptr, memory') ∧
      Settled shape memory' caches' ∧ (Closed shape memory → Closed shape memory') ∧
      bases caches' = (if taken = 0 then bases caches else bases caches ++ [taken]) ∧
      (objects shape caches').Perm
        (if ptr = 0 then objects shape caches else ptr :: objects shape caches) ∧
      UnchangedOutside replied memory' fun query =>
        OwnByte shape caches query ∨ taken ≠ 0 ∧ shape.InRegion taken query := by
  rcases slabAlloc_cases hfuel hsettled hask hsound hstays with ⟨halloc, rfl, hreplied, -⟩ |
    ⟨before, last, grown, hready, -, hgrown, hchange, ⟨halloc, -⟩ |
      ⟨index, free', memory', halloc, hsettled', hclosed', hchange', -⟩⟩
  · exact ⟨0, replied, caches, halloc, hreplied, closed_congr hsettled.toCore hsound.spared,
      (if_pos rfl).symm, by rw [if_pos rfl], unchangedOutside_refl _ _⟩
  · refine ⟨0, grown, before ++ [last], halloc, hready.settled, fun _ => hready.closed,
      hgrown.bases_eq, ?_, hchange⟩
    rw [if_pos rfl, hgrown.objects_eq]
  · obtain ⟨hbases, hobjects⟩ := @Grown.take _ _ _ _ _ free' hgrown index
    exact ⟨_, memory', before ++ [⟨last.base, index :: last.live, free'⟩], halloc, hsettled',
      fun _ => hclosed', hbases, hobjects, hchange.trans (hchange'.mono hgrown.own)⟩

/-! ## `slab_free` -/

/-- The memory after the object is back on its cache's free list. -/
def released (memory : Memory) (ptr : ℕ) : Memory :=
  releaseSlot memory (objectCache memory ptr) (ptr - sizeofSlabAllocatedObjectHeader)

/-- The call runs into `slab_cache_move_down`. -/
def MovesDown (memory : Memory) (ptr : ℕ) : Prop :=
  fallsBehindNext (released memory ptr) (objectCache memory ptr)

/-- The memory in which `slab_free` decides whether to destroy the cache. -/
def freed (memory : Memory) (slab ptr : ℕ) : Memory :=
  slabCacheFree memory slab (objectCache memory ptr) (ptr - sizeofSlabAllocatedObjectHeader)

/-- The call runs into `slab_cache_destroy`. -/
def Destroys (memory : Memory) (slab ptr : ℕ) : Prop :=
  emptied (freed memory slab ptr) (objectCache memory ptr)

instance (memory : Memory) (ptr : ℕ) : Decidable (MovesDown memory ptr) :=
  inferInstanceAs (Decidable (fallsBehindNext _ _))

instance (memory : Memory) (slab ptr : ℕ) : Decidable (Destroys memory slab ptr) :=
  inferInstanceAs (Decidable (emptied _ _))

/-- The memory in which `buddy_free` gets the region of a destroyed cache. -/
def unlinked (memory : Memory) (slab ptr : ℕ) : Memory :=
  slabCacheUnlink (freed memory slab ptr) slab (objectCache memory ptr)

theorem freed_eq {slab ptr : ℕ} (hstays : ¬ MovesDown memory ptr) :
    freed memory slab ptr = released memory ptr := by
  rw [MovesDown, released] at hstays
  simp only [freed, released, slabCacheFree, if_neg hstays]

theorem objectCache_eq (hcore : Core shape memory caches) (hmem : cache ∈ caches)
    (hlive : index ∈ cache.live) :
    objectCache memory (shape.slot cache.base index + sizeofSlabAllocatedObjectHeader) =
      shape.addr cache.base := by
  rw [objectCache, Nat.add_sub_cancel]
  exact (hcore.contents cache hmem).headers index hlive

/-- Releasing an object: the new state, and when its cache is empty. -/
theorem released_spec (hcore : Core shape memory (before ++ cache :: after))
    (hlive : index ∈ cache.live) {ptr : ℕ}
    (hptr : ptr = shape.slot cache.base index + sizeofSlabAllocatedObjectHeader) :
    objectCache memory ptr = shape.addr cache.base ∧
      Core shape (released memory ptr) (before ++ cache.release index :: after) ∧
      UnchangedOutside memory (released memory ptr)
        (fun query => shape.Content cache.base query ∧ ¬ cache.ClientByte shape query) ∧
      (emptied (released memory ptr) (objectCache memory ptr) ↔
        cache.live.length = 1 ∧ cache.base ≠ shape.slab) := by
  have hcacheMem : cache ∈ before ++ cache :: after := by simp
  have hcache := objectCache_eq hcore hcacheMem hlive
  obtain ⟨hcore', hchange⟩ := releaseSlot_spec hcore hlive
  subst hptr
  have hreleased : released memory (shape.slot cache.base index +
      sizeofSlabAllocatedObjectHeader) =
      releaseSlot memory (shape.addr cache.base) (shape.slot cache.base index) := by
    rw [released, hcache, Nat.add_sub_cancel]
  rw [hreleased, hcache]
  refine ⟨rfl, hcore', hchange, ?_⟩
  have hholds := hcore'.contents (cache.release index) (by simp)
  have hallocated : allocatedObjects (releaseSlot memory (shape.addr cache.base)
      (shape.slot cache.base index)) (shape.addr cache.base) = (cache.live.erase index).length :=
    hholds.allocated_eq
  have hroot : rootCache (releaseSlot memory (shape.addr cache.base)
      (shape.slot cache.base index)) (shape.addr cache.base) =
        decide (cache.base = shape.slab) := hholds.root_eq
  have hpositive := List.length_pos_of_mem hlive
  rw [emptied, hallocated, hroot, List.length_erase_of_mem hlive, decide_eq_false_iff_not]
  exact and_congr_left fun _ => by omega

/-- A release changes bytes of the slab, and none of the list. -/
theorem released_frame (hcore : Core shape memory (before ++ cache :: after))
    (hchange : UnchangedOutside memory memory'
      (fun query => shape.Content cache.base query ∧ ¬ cache.ClientByte shape query)) :
    UnchangedOutside memory memory' (OwnByte shape (before ++ cache :: after)) ∧
      firstFreeCache memory' shape.slab = firstFreeCache memory shape.slab ∧
      lastCache memory' shape.slab = lastCache memory shape.slab ∧
      ∀ other ∈ before ++ cache :: after, nextCache memory' (shape.addr other.base) =
        nextCache memory (shape.addr other.base) := by
  have hmem : cache ∈ before ++ cache :: after := by simp
  have hcontent : UnchangedOutside memory memory' (shape.Content cache.base) :=
    hchange.mono fun _ hquery => hquery.1
  obtain ⟨hfirst, hlast⟩ := ends_unchanged hcore hmem hcontent
  refine ⟨hchange.mono fun _ hquery => hcore.update_own hmem (.inl hquery.1) hquery.2,
    hfirst, hlast, ?_⟩
  intro other hother
  exact (Core.link_words fun query hlink => hcontent query fun hquery =>
    hcore.content_not_link hmem hother hquery hlink).1

/-- A free that destroys no cache. -/
theorem slabFree_of_kept (buddy : BuddyOps) {slab ptr : ℕ} (hslab : slab ≠ 0)
    (hcache : objectCache memory ptr ≠ 0) (hkept : ¬ Destroys memory slab ptr) :
    slabFree buddy memory slab ptr = some (freed memory slab ptr) := by
  simp only [slabFree, hslab, hcache, or_self, if_false]
  exact if_neg hkept

/-- A free that leaves its cache where it is. -/
theorem slabFree_stays (buddy : BuddyOps)
    (hsettled : Settled shape memory (before ++ cache :: after))
    (hlive : index ∈ cache.live) {ptr : ℕ}
    (hptr : ptr = shape.slot cache.base index + sizeofSlabAllocatedObjectHeader)
    (hstays : ¬ MovesDown memory ptr) (hkept : ¬ Destroys memory shape.slab ptr) :
    slabFree buddy memory shape.slab ptr = some (released memory ptr) ∧
      Settled shape (released memory ptr) (before ++ cache.release index :: after) ∧
      (Closed shape memory → Closed shape (released memory ptr)) ∧
      UnchangedOutside memory (released memory ptr)
        (OwnByte shape (before ++ cache :: after)) := by
  have hcore := hsettled.toCore
  obtain ⟨hcache, hcore', hchange, -⟩ := released_spec hcore hlive hptr
  obtain ⟨hown, hfirst, hlast, hnext⟩ := released_frame hcore hchange
  have hclosed : Closed shape memory → Closed shape (released memory ptr) := by
    intro hclosed
    obtain ⟨front, last, hcaches⟩ := exists_last hcore
    have hlastAddr := (hcaches ▸ hcore : Core shape memory (front ++ [last])).last_eq_addr
    rw [Closed, hlastAddr] at hclosed
    rw [Closed, hlast, hlastAddr, hnext last (hcaches ▸ by simp), hclosed]
  refine ⟨?_, { hcore' with first_free := ?_ }, hclosed, hown⟩
  · have hcacheMem : cache ∈ before ++ cache :: after := by simp
    have haddr := (hcore.addr_pos hcacheMem).ne'
    rw [← hcache] at haddr
    rw [slabFree_of_kept buddy shape.slab_pos.ne' haddr hkept, freed_eq hstays]
  · rw [hfirst, hlast]
    exact hsettled.first_free.imp_right fun hready => ⟨hready.1, hclosed hready.2⟩

/-- A byte that unlinking a cache may change: `last_cache`, or a link of a
cache that stays. -/
def RelinkByte (shape : Shape) (caches : List Cache) (query : ℕ) : Prop :=
  LastByte shape query ∨ ∃ cache ∈ caches, shape.LinkByte cache.base query

/-- Unlinking a cache that is not the first, and has nothing behind it if it is
the last. -/
theorem unlink_spec (hcore : Core shape memory (before ++ cache :: after))
    (hroot : cache.base ≠ shape.slab)
    (hnext : after = [] → nextCache memory (shape.addr cache.base) = 0) :
    Core shape (slabCacheUnlink memory shape.slab (shape.addr cache.base)) (before ++ after) ∧
      UnchangedOutside memory (slabCacheUnlink memory shape.slab (shape.addr cache.base))
        (RelinkByte shape (before ++ after)) ∧
      ∀ other ∈ after, nextCache (slabCacheUnlink memory shape.slab (shape.addr cache.base))
        (shape.addr other.base) = nextCache memory (shape.addr other.base) := by
  rcases List.eq_nil_or_concat' before with rfl | ⟨front, prev, rfl⟩
  · exact absurd (Option.some.inj hcore.head_eq) hroot
  rw [List.append_assoc, List.singleton_append] at hcore ⊢
  cases after with
  | nil =>
      obtain ⟨hcore', hchange⟩ := unlink_tail hcore (hnext rfl)
      exact ⟨hcore', hchange.mono fun _ hquery => .inl hquery, by simp⟩
  | cons next after =>
      obtain ⟨hcore', hlater, hchange⟩ := unlink_middle hcore
      refine ⟨hcore', hchange.mono ?_, hlater⟩
      rintro query (hlink | hlink)
      · exact .inr ⟨prev, by simp, hlink⟩
      · exact .inr ⟨next, by simp, hlink⟩

/-- Unlinking changes bytes of the caches that stay, and neither
`first_free_cache` nor the contents of a cache. -/
theorem relinkByte_own (hcore : Core shape memory caches) {query : ℕ}
    (hquery : RelinkByte shape caches query) :
    OwnByte shape caches query ∧ ¬ shape.FirstFreeByte query := by
  rcases hquery with hlast | ⟨cache, hcache, hlink⟩
  · refine ⟨hcore.slab_own hlast.slabByte, fun hfirst => ?_⟩
    have := hlast.1
    have := hfirst.2
    omega
  · exact ⟨Core.link_own hcache hlink, fun hfirst =>
      hcore.link_not_slab hcache hlink hfirst.slabByte⟩

/-- `first_free_cache` is reset. -/
theorem clear_first (hcore : Core shape memory caches) :
    Settled shape (writeWord memory (shape.slab + 16) 0) caches ∧
      UnchangedOutside memory (writeWord memory (shape.slab + 16) 0)
        (OwnByte shape caches) ∧
      (Closed shape memory → Closed shape (writeWord memory (shape.slab + 16) 0)) := by
  have hchange : UnchangedOutside memory (writeWord memory (shape.slab + 16) 0)
      shape.FirstFreeByte := writeWord_unchangedOutside _ _ _
  have hzero : firstFreeCache (writeWord memory (shape.slab + 16) 0) shape.slab = 0 :=
    readWord_writeWord_same (by norm_num)
  have hlink : ∀ cache ∈ caches, ∀ query, shape.LinkByte cache.base query →
      writeWord memory (shape.slab + 16) 0 query = memory query := fun cache hcache query hlink =>
    hchange query fun hfirst => hcore.link_not_slab hcache hlink hfirst.slabByte
  generalize writeWord memory (shape.slab + 16) 0 = cleared at *
  have hcore' : Core shape cleared caches := by
    refine hcore.congr rfl (fun query _ hfirst => hchange query hfirst) hlink ?_
    intro cache hcache
    apply (hcore.contents cache hcache).frame
    intro query hcontent _
    exact hchange query fun hfirst => hcore.content_not_slab hcache hcontent hfirst.slabByte
  refine ⟨{ hcore' with first_free := .inl hzero },
    hchange.mono fun _ hquery => hcore.slab_own hquery.slabByte, ?_⟩
  intro hclosed
  obtain ⟨before, last, rfl⟩ := exists_last hcore
  rw [Closed, hcore.last_eq_addr] at hclosed
  rw [Closed, hcore'.last_eq_addr, ← hclosed]
  exact (Core.link_words (hlink last (by simp))).1

/-- Dropping a cache with others behind it leaves the last one in place. -/
theorem last_stays (hcore : Core shape memory (before ++ cache :: after))
    (hcore' : Core shape memory' (before ++ after)) (hafter : after ≠ []) :
    ∃ last ∈ after, lastCache memory shape.slab = shape.addr last.base ∧
      lastCache memory' shape.slab = shape.addr last.base := by
  obtain ⟨front, last, rfl⟩ := (List.eq_nil_or_concat' after).resolve_left hafter
  rw [← List.cons_append, ← List.append_assoc] at hcore
  rw [← List.append_assoc] at hcore'
  exact ⟨last, by simp, hcore.last_eq_addr, hcore'.last_eq_addr⟩

/-- Unlinking does not touch the flag of the cache that goes. -/
theorem rootCache_unlinked (hcore : Core shape memory (before ++ cache :: after))
    (hrelink : UnchangedOutside memory memory' (RelinkByte shape (before ++ after))) :
    rootCache memory' (shape.addr cache.base) = rootCache memory (shape.addr cache.base) := by
  have hmem : cache ∈ before ++ cache :: after := by simp
  have hstop := shape.header_le_stop cache.base
  simp only [sizeofSlabCacheHeader] at hstop
  have hcontent : shape.Content cache.base (shape.addr cache.base + 64) :=
    ⟨by omega, by omega, fun hlink => by have := hlink.2; omega⟩
  rw [rootCache, rootCache, hrelink]
  rintro (hlast | ⟨other, hother, hlink⟩)
  · exact hcore.content_not_slab hmem hcontent hlast.slabByte
  · have hother' : other ∈ before ++ cache :: after := mem_middle.mpr (.inr hother)
    exact hcore.content_not_link hmem hother' hcontent hlink

theorem ownByte_of_remaining {query : ℕ} (hquery : OwnByte shape (before ++ after) query) :
    OwnByte shape (before ++ cache :: after) query := by
  obtain ⟨other, hother, hinside⟩ := hquery
  exact ⟨other, mem_middle.mpr (.inr hother), hinside⟩

/-- A free that destroys its cache, up to the call of `buddy_free`. -/
theorem unlinked_spec (hsettled : Settled shape memory (before ++ cache :: after))
    (hlive : index ∈ cache.live) {ptr : ℕ}
    (hptr : ptr = shape.slot cache.base index + sizeofSlabAllocatedObjectHeader)
    (hstays : ¬ MovesDown memory ptr) (hdestroys : Destroys memory shape.slab ptr)
    (hnext : after = [] → nextCache memory (shape.addr cache.base) = 0) :
    cache.live = [index] ∧ objectCache memory ptr = cache.base ∧
      cacheMem (unlinked memory shape.slab ptr) cache.base = cache.base ∧
      Core shape (unlinked memory shape.slab ptr) (before ++ after) ∧
      firstFreeCache (unlinked memory shape.slab ptr) shape.slab =
        firstFreeCache memory shape.slab ∧
      (after ≠ [] → Closed shape memory → Closed shape (unlinked memory shape.slab ptr)) ∧
      UnchangedOutside memory (unlinked memory shape.slab ptr)
        (OwnByte shape (before ++ cache :: after)) := by
  have hcore := hsettled.toCore
  obtain ⟨hcache, hcore₁, hchange, hiff⟩ := released_spec hcore hlive hptr
  obtain ⟨hown, hfirst, hlast, hnextAddr⟩ := released_frame hcore hchange
  rw [Destroys, freed_eq hstays] at hdestroys
  obtain ⟨hone, hroot⟩ := hiff.mp hdestroys
  have haddr := shape.addr_of_ne hroot
  obtain ⟨hcore₂, hrelink, hlater⟩ := unlink_spec hcore₁ hroot
    fun hnil => (hnextAddr cache (by simp)).trans (hnext hnil)
  have hflag : rootCache (slabCacheUnlink (released memory ptr) shape.slab
      (shape.addr cache.base)) (shape.addr cache.base) = false := by
    rw [← decide_eq_false hroot]
    exact (rootCache_unlinked hcore₁ hrelink).trans
      (hcore₁.contents (cache.release index) (by simp)).root_eq
  rw [unlinked, freed_eq hstays, hcache]
  simp only [Cache.release, haddr] at hrelink hlater hflag hcore₂ ⊢
  generalize slabCacheUnlink (released memory ptr) shape.slab cache.base = destroyed at *
  refine ⟨?_, trivial, ?_, hcore₂, ?_, ?_, ?_⟩
  · obtain ⟨only, honly⟩ := List.length_eq_one_iff.mp hone
    rw [honly, List.mem_singleton] at hlive
    rw [honly, hlive]
  · rw [cacheMem, hflag, if_neg Bool.false_ne_true]
  · rw [← hfirst]
    exact readWord_congr fun query hlower hupper => hrelink query fun hquery =>
      (relinkByte_own hcore₂ hquery).2 ⟨hlower, by omega⟩
  · intro hafter hclosed
    obtain ⟨last, hmem, hlastAddr, hlastAddr'⟩ := last_stays hcore hcore₂ hafter
    rw [Closed, hlastAddr] at hclosed
    rw [Closed, hlastAddr', hlater last hmem, hnextAddr last (by simp [hmem]), hclosed]
  · exact hown.trans (hrelink.mono fun _ hquery =>
      ownByte_of_remaining (relinkByte_own hcore₂ hquery).1)

/-- A free that destroys its cache, once `buddy_free` has spared the others. -/
theorem slabFree_destroys (hsettled : Settled shape memory (before ++ cache :: after))
    (hlive : index ∈ cache.live) {ptr : ℕ}
    (hptr : ptr = shape.slot cache.base index + sizeofSlabAllocatedObjectHeader)
    (hstays : ¬ MovesDown memory ptr) (hdestroys : Destroys memory shape.slab ptr)
    (hnext : after = [] → nextCache memory (shape.addr cache.base) = 0)
    (hfree : buddy.free (unlinked memory shape.slab ptr) shape.buddy cache.base = some replied)
    (hspared : ∀ query, OwnByte shape (before ++ after) query →
      replied query = unlinked memory shape.slab ptr query) :
    ∃ memory', slabFree buddy memory shape.slab ptr = some memory' ∧
      Settled shape memory' (before ++ after) ∧
      (after ≠ [] → Closed shape memory → Closed shape memory') ∧
      UnchangedOutside replied memory' (OwnByte shape (before ++ after)) ∧
      firstFreeCache memory' shape.slab =
        if cache.base = firstFreeCache memory shape.slab then 0
        else firstFreeCache memory shape.slab := by
  obtain ⟨-, hcache, hmem, hcore', hfirst, hclosed, -⟩ :=
    unlinked_spec hsettled hlive hptr hstays hdestroys hnext
  have hcore'' := hcore'.frame hspared
  have hfirst' : firstFreeCache replied shape.slab = firstFreeCache memory shape.slab :=
    (header_word_eq hcore' hspared (by omega)).trans hfirst
  have hclosed' : after ≠ [] → Closed shape memory → Closed shape replied := fun hafter hold =>
    closed_congr hcore' hspared (hclosed hafter hold)
  have hbase : cache.base ≠ 0 :=
    (hsettled.toCore.placed _ (List.mem_map_of_mem (by simp))).1.ne'
  have hresult : slabFree buddy memory shape.slab ptr = some
      (if cache.base = firstFreeCache replied shape.slab then writeWord replied (shape.slab + 16) 0
        else replied) := by
    rw [unlinked, freed_eq hstays] at hfree hmem hcore'
    rw [Destroys, freed_eq hstays] at hdestroys
    rw [MovesDown] at hstays
    rw [released] at hstays hdestroys hfree hmem hcore'
    rw [hcache] at hstays hdestroys hfree hmem hcore'
    simp only [slabFree, slabCacheFree, hcache, shape.slab_pos.ne', hbase, or_self, if_false,
      if_neg hstays, if_pos hdestroys, slabCacheDestroy, hcore'.buddy_eq, hmem, hfree,
      Option.bind_eq_bind, Option.bind_some, Option.pure_def]
  rw [hresult]
  refine ⟨_, rfl, ?_⟩
  by_cases hsame : cache.base = firstFreeCache replied shape.slab
  · rw [if_pos hsame]
    obtain ⟨hcleared, hown, hkeep⟩ := clear_first hcore''
    refine ⟨hcleared, fun hafter hold => hkeep (hclosed' hafter hold), hown, ?_⟩
    rw [if_pos (hsame.trans hfirst')]
    exact readWord_writeWord_same (by norm_num)
  · rw [if_neg hsame]
    refine ⟨{ hcore'' with first_free := ?_ }, hclosed', unchangedOutside_refl _ _,
      by rw [if_neg fun heq => hsame (heq.trans hfirst'.symm), hfirst']⟩
    rcases hsettled.first_free with hzero | ⟨hlast, hclosedOld⟩
    · exact .inl (hfirst'.trans hzero)
    -- the last cache is another one, and stays the last
    right
    have hafter : after ≠ [] := by
      rintro rfl
      have hlastAddr := hsettled.toCore.last_eq_addr
      rw [Destroys, freed_eq hstays] at hdestroys
      have hroot := ((released_spec hsettled.toCore hlive hptr).2.2.2.mp hdestroys).2
      rw [shape.addr_of_ne hroot] at hlastAddr
      exact hsame (by rw [hfirst', hlast, hlastAddr])
    refine ⟨?_, hclosed' hafter hclosedOld⟩
    obtain ⟨last, -, hlastAddr, hlastAddr'⟩ := last_stays hsettled.toCore hcore'' hafter
    rw [hfirst', hlast, hlastAddr, hlastAddr']

end DoomsdayModules.SlabOps
