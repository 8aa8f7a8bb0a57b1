import DoomsdayModules.Malloc.SlabAccounting
import DoomsdayModules.Malloc.SlabIsolation
import DoomsdayModules.Malloc.SlabTermination

/-!
# Reuse before growth

Objects are taken from the cache that `first_free_cache` names, and a new cache
is made when it names none.  It is a good summary of the list as long as the
caches are filled in list order: then the last cache is the one with room, or
no cache has any.  Nothing sets it back when an object of a full slab is freed.
-/

namespace DoomsdayModules.SlabReuse

open DoomsdayModules.ByteMemory DoomsdayModules.Runs DoomsdayModules.Util
open DoomsdayModules.DoublyLinked DoomsdayModules.Slab DoomsdayModules.SlabInvariant
open DoomsdayModules.SlabMoves DoomsdayModules.SlabGrowth DoomsdayModules.SlabOps
open DoomsdayModules.SlabRelink DoomsdayModules.SlabRuns DoomsdayModules.SlabHosted
open DoomsdayModules.SlabAccounting (Ground Alone slabCacheAlloc_alone)
open DoomsdayModules.SlabTermination
open DoomsdayModules.SlabIsolation (object_inside)

/-! ## What a client sees -/

/-- The live objects in the region at `base`; an empty one may be at its end. -/
def liveIn (setting : Setting) (client : Client) (base : ℕ) : ℕ :=
  client.live.countP fun ptr => base < ptr ∧ ptr ≤ setting.stop base

/-- As long as a held cache has fewer live objects than fit, `slab_alloc`
returns an object in a held cache, whatever the buddy allocator would answer;
so it returns `NULL` only when every held cache is full. -/
structure Reuses (setting : Setting) (client : Client) : Prop where
  reuse : (∃ base ∈ client.held, liveIn setting client base <
      maxObjects client.memory (setting.cacheAt base)) → ∀ fuel, 3 ≤ fuel →
    ∃ ptr memory', ptr ≠ 0 ∧
      (∃ base ∈ client.held, base < ptr ∧ ptr + setting.size ≤ setting.stop base) ∧
      ∀ buddy, slabAlloc fuel buddy client.memory setting.slab = some (ptr, memory')
  exhausted : ∀ fuel buddy memory', 3 ≤ fuel →
    slabAlloc fuel buddy client.memory setting.slab = some (0, memory') →
    ∀ base ∈ client.held, liveIn setting client base =
      maxObjects client.memory (setting.cacheAt base)

/-- An object is freed while no cache is known to have room only if its cache
goes with it, and the cache known to have room goes only while the others are full. -/
def KeepsHint (setting : Setting) (client : Client) : Op → Prop
  | .free ptr => (firstFreeCache client.memory setting.slab = 0 →
        Destroys client.memory setting.slab ptr) ∧
      (Destroys client.memory setting.slab ptr →
        objectCache client.memory ptr = firstFreeCache client.memory setting.slab →
        ∀ base ∈ client.held, setting.cacheAt base ≠ objectCache client.memory ptr →
          allocatedObjects client.memory (setting.cacheAt base) =
            maxObjects client.memory (setting.cacheAt base))
  | _ => True

instance (setting : Setting) (client : Client) : ∀ op, Decidable (KeepsHint setting client op)
  | .alloc => isTrue trivial
  | .free _ => inferInstanceAs (Decidable ((_ → _) ∧ (_ → _ → ∀ base ∈ client.held, _)))
  | .write _ _ => isTrue trivial

variable {shape : Shape} {memory memory' : Memory} {before after caches : List Cache}
  {last cache : Cache}

/-! ## Capacities -/

/-- No cache has more slots than one that is not the root cache. -/
theorem capacity_le {base : ℕ} (hne : base ≠ shape.slab) (other : ℕ) :
    shape.capacity other ≤ shape.capacity base := by
  have haddr := shape.base_le_addr other
  rw [Shape.capacity, Shape.capacity, shape.addr_of_ne hne, Shape.stop, Shape.stop]
  exact Nat.div_le_div_right (by omega)

/-- Every slot of the cache is live. -/
def Full (shape : Shape) (cache : Cache) : Prop := cache.live.length = shape.capacity cache.base

theorem live_le_capacity (hholds : CacheHolds shape memory cache) :
    cache.live.length ≤ shape.capacity cache.base :=
  (Nat.le_add_right _ _).trans hholds.used_le

/-- Earlier caches have at least as many live objects as later ones. -/
def Descending (caches : List Cache) : Prop :=
  caches.Pairwise fun earlier later => later.live.length ≤ earlier.live.length

/-- A cache behind others is not the root cache. -/
theorem last_ne_root (hcore : Core shape memory (before ++ [last])) (hcache : cache ∈ before) :
    last.base ≠ shape.slab := by
  intro hroot
  obtain ⟨root, before, rfl⟩ := List.exists_cons_of_ne_nil (List.ne_nil_of_mem hcache)
  have hhead : root.base = shape.slab := Option.some.inj hcore.head_eq
  have hnodup := hcore.addrs_nodup
  simp only [addrs, bases, List.cons_append, List.map_cons, List.map_append, List.map_nil,
    List.nodup_cons, hhead, hroot] at hnodup
  exact hnodup.1 (by simp)

/-- If the last cache is full, every cache is. -/
theorem full_of_last_full (hcore : Core shape memory (before ++ [last]))
    (hdescending : Descending (before ++ [last])) (hfull : Full shape last) :
    ∀ cache ∈ before ++ [last], Full shape cache := by
  intro cache hmem
  rcases List.mem_append.mp hmem with hbefore | hlast
  · have hmore : last.live.length ≤ cache.live.length :=
      (List.pairwise_append.mp hdescending).2.2 cache hbefore last (by simp)
    have hcapacity := capacity_le (last_ne_root hcore hbefore) cache.base
    have hlive := live_le_capacity (hcore.contents cache hmem)
    simp only [Full] at *
    omega
  · exact List.mem_singleton.mp hlast ▸ hfull

/-- The caches are filled in order, and if one has room then the last one has
room and `first_free_cache` is not null. -/
structure Hinted (shape : Shape) (memory : Memory) (caches : List Cache) : Prop where
  descending : Descending caches
  room : (∀ cache ∈ caches, Full shape cache) ∨ firstFreeCache memory shape.slab ≠ 0 ∧
    ∃ before last, caches = before ++ [last] ∧ last.live.length < shape.capacity last.base

/-! ## Allocations -/

/-- A cache that does not overtake its predecessor has fewer objects than all before it. -/
theorem live_lt_of_not_overtakes (hready : Ready shape memory before last)
    (hdescending : Descending (before ++ [last]))
    (hstays : ¬ overtakesPrev (countObject memory (shape.addr last.base)) (shape.addr last.base))
    (hroom : last.live.length < shape.capacity last.base) :
    ∀ cache ∈ before, last.live.length < cache.live.length := by
  rcases List.eq_nil_or_concat' before with rfl | ⟨front, prev, rfl⟩
  · simp
  have hcore := hready.core
  have hlastMem : last ∈ front ++ [prev] ++ [last] := by simp
  have hprevMem : prev ∈ front ++ [prev] ++ [last] := by simp
  obtain ⟨-, hlinks⟩ := countObject_spares hready
  obtain ⟨hprevLast, hne⟩ := last_links hcore
  have hprev : prevCache (countObject memory (shape.addr last.base)) (shape.addr last.base) =
      shape.addr prev.base := (hlinks last hlastMem).2.trans hprevLast
  have happart := hcore.headers_apart hlastMem hprevMem hne
  have hcounter : allocatedObjects (countObject memory (shape.addr last.base))
      (shape.addr last.base) = last.live.length + 1 := by
    rw [countObject, (hcore.contents last hlastMem).allocated_eq]
    exact readWord_writeWord_same
      (lt_of_le_of_lt (Nat.succ_le_of_lt hroom) (capacity_lt (hcore.stop_lt hlastMem)))
  have hprevCounter : allocatedObjects (countObject memory (shape.addr last.base))
      (shape.addr prev.base) = prev.live.length :=
    (readWord_writeWord_of_disjoint (by omega)).trans
      (hcore.contents prev hprevMem).allocated_eq
  rw [overtakesPrev, hprev, hcounter, hprevCounter] at hstays
  have hmore : last.live.length < prev.live.length := by
    by_contra hless
    exact hstays ⟨(hcore.addr_pos hprevMem).ne', by omega⟩
  intro cache hcache
  rcases List.mem_append.mp hcache with hfront | hprev
  · have hle := (List.pairwise_append.mp
      (List.pairwise_append.mp hdescending).1).2.2 cache hfront prev (by simp)
    omega
  · exact List.mem_singleton.mp hprev ▸ hmore

theorem descending_append (hdescending : Descending before)
    (hless : ∀ cache ∈ before, last.live.length ≤ cache.live.length) :
    Descending (before ++ [last]) :=
  List.pairwise_append.mpr ⟨hdescending, List.pairwise_singleton _ _,
    fun cache hcache _ hother => List.mem_singleton.mp hother ▸ hless cache hcache⟩

theorem descending_grown (hdescending : Descending caches) (taken : ℕ) :
    Descending (grownCaches caches taken) := by
  rw [grownCaches]
  split_ifs
  · exact hdescending
  · exact descending_append hdescending fun _ _ => Nat.zero_le _

theorem hinted_congr (hhinted : Hinted shape memory caches)
    (hfirst : firstFreeCache memory' shape.slab = firstFreeCache memory shape.slab) :
    Hinted shape memory' caches where
  descending := hhinted.descending
  room := hhinted.room.imp_right fun hroom => ⟨hfirst ▸ hroom.1, hroom.2⟩

/-- An allocation that moves no cache keeps the summary. -/
theorem slabAlloc_hinted {buddy : BuddyOps} {fuel taken : ℕ} {replied : Memory} (hfuel : 2 ≤ fuel)
    (hsettled : Settled shape memory caches) (hhinted : Hinted shape memory caches)
    (hask : askBuddy buddy memory shape.slab = some (taken, replied))
    (hsound : SoundReply shape memory caches taken replied)
    (hstays : ¬ MovesUp buddy memory shape.slab) :
    ∃ ptr memory' caches', slabAlloc fuel buddy memory shape.slab = some (ptr, memory') ∧
      Settled shape memory' caches' ∧ Hinted shape memory' caches' ∧
      bases caches' = (if taken = 0 then bases caches else bases caches ++ [taken]) ∧
      (objects shape caches').Perm
        (if ptr = 0 then objects shape caches else ptr :: objects shape caches) := by
  rcases slabAlloc_cases hfuel hsettled hask hsound hstays with
    ⟨halloc, rfl, hreplied, -⟩ | ⟨before, last, grown, hready, hcaches, hgrown, -,
      ⟨halloc, hfull⟩ | ⟨index, free', memory', halloc, hsettled', -, -, hroom, hfirst, hkeeps⟩⟩
  · have hfirst : firstFreeCache replied shape.slab = firstFreeCache memory shape.slab :=
      header_word_eq hsettled.toCore hsound.spared (by omega)
    exact ⟨0, replied, caches, halloc, hreplied, hinted_congr hhinted hfirst, (if_pos rfl).symm,
      by rw [if_pos rfl]⟩
  · have hdescending : Descending (before ++ [last]) :=
      hcaches ▸ descending_grown hhinted.descending taken
    refine ⟨0, grown, before ++ [last], halloc, hready.settled,
      ⟨hdescending, .inl (full_of_last_full hready.core hdescending hfull)⟩, hgrown.bases_eq, ?_⟩
    rw [if_pos rfl, hgrown.objects_eq]
  · have hfilling : Descending (before ++ [last]) :=
      hcaches ▸ descending_grown hhinted.descending taken
    have hless := live_lt_of_not_overtakes hready hfilling hkeeps hroom
    have hdescending : Descending (before ++ [⟨last.base, index :: last.live, free'⟩]) :=
      descending_append (List.pairwise_append.mp hfilling).1 hless
    obtain ⟨hbases, hobjects⟩ := @Grown.take _ _ _ _ _ free' hgrown index
    refine ⟨_, memory', _, halloc, hsettled', ⟨hdescending, ?_⟩, hbases, hobjects⟩
    by_cases hfilled : last.live.length + 1 = shape.capacity last.base
    · exact .inl (full_of_last_full hsettled'.toCore hdescending hfilled)
    · refine .inr ⟨fun hzero => hfilled (hfirst.mp hzero), before, _, rfl, ?_⟩
      simp only [List.length_cons]
      omega

variable {buddy : BuddyOps} {fuel : ℕ} {client : Client}

theorem alloc_hinted (hfuel : 2 ≤ fuel) (hholds : Holds shape caches client)
    (hhinted : Hinted shape client.memory caches)
    (hlegal : Legal (settingOf shape buddy fuel) client .alloc)
    (hkeeps : KeepsOrder (settingOf shape buddy fuel) client .alloc) :
    ∃ next caches', step (settingOf shape buddy fuel) client .alloc = some next ∧
      Holds shape caches' next ∧ Hinted shape next.memory caches' := by
  obtain ⟨taken, replied, hask, hspares, hfresh⟩ := hlegal
  obtain ⟨ptr, memory', caches', halloc, hsettled', hhinted', hbases, hobjects⟩ :=
    slabAlloc_hinted hfuel hholds.settled hhinted hask (soundReply_of_legal hholds hspares hfresh)
      hkeeps
  obtain ⟨hheld, hlive⟩ :=
    grownClient_perm memory' hholds.held_perm hholds.live_perm hbases hobjects
  exact ⟨_, caches', step_alloc hask halloc, ⟨hsettled', hheld, hlive⟩, hhinted'⟩

/-! ## Frees -/

/-- A cache that does not fall behind its successor has at least as many objects
as all behind it. -/
theorem later_le_released {index ptr : ℕ} (hcore : Core shape memory (before ++ cache :: after))
    (hdescending : Descending (before ++ cache :: after)) (hlive : index ∈ cache.live)
    (hslot : ptr = shape.slot cache.base index + sizeofSlabAllocatedObjectHeader)
    (hstays : ¬ MovesDown memory ptr) :
    ∀ later ∈ after, later.live.length ≤ (cache.release index).live.length := by
  cases after with
  | nil => simp
  | cons next rest =>
      obtain ⟨hcache, hcore', -, -⟩ := released_spec hcore hlive hslot
      have hlinked := hcore'.linked
      simp only [addrs, bases, List.map_append, List.map_cons] at hlinked
      have hnext : nextCache (released memory ptr) (shape.addr cache.base) =
          shape.addr next.base := hlinked.adjacent.1
      have hallocated : allocatedObjects (released memory ptr) (shape.addr cache.base) =
          (cache.release index).live.length :=
        (hcore'.contents (cache.release index) (by simp)).allocated_eq
      have hnextAllocated : allocatedObjects (released memory ptr) (shape.addr next.base) =
          next.live.length := (hcore'.contents next (by simp)).allocated_eq
      have hpos : shape.addr next.base ≠ 0 := (hcore'.addr_pos (by simp)).ne'
      rw [MovesDown, fallsBehindNext, hcache, hnext, hallocated, hnextAllocated] at hstays
      have hle : next.live.length ≤ (cache.release index).live.length := by
        by_contra hless
        exact hstays ⟨hpos, by omega⟩
      intro later hlater
      rcases List.mem_cons.mp hlater with rfl | hrest
      · exact hle
      · have hbehind := (List.pairwise_cons.mp (List.pairwise_cons.mp
          (List.pairwise_append.mp hdescending).2.1).2).1 later hrest
        omega

/-- After a free that keeps its cache the last cache has room. -/
theorem last_has_room {index : ℕ} (hcore : Core shape memory (before ++ cache :: after))
    (hlive : index ∈ cache.live)
    (hlater : ∀ later ∈ after, later.live.length ≤ (cache.release index).live.length) :
    ∃ front last, before ++ cache.release index :: after = front ++ [last] ∧
      last.live.length < shape.capacity last.base := by
  have hcapacity := live_le_capacity (hcore.contents cache (by simp))
  have hpositive := List.length_pos_of_mem hlive
  have hlength : (cache.release index).live.length = cache.live.length - 1 :=
    List.length_erase_of_mem hlive
  rcases List.eq_nil_or_concat' after with rfl | ⟨middle, last, rfl⟩
  · refine ⟨before, cache.release index, rfl, ?_⟩
    rw [hlength]
    exact lt_of_lt_of_le (by omega) hcapacity
  · refine ⟨before ++ cache.release index :: middle, last, by simp, ?_⟩
    have hlast := hlater last (by simp)
    have hcore' : Core shape memory ((before ++ cache :: middle) ++ [last]) := by simpa using hcore
    have hmore := capacity_le (last_ne_root hcore' (show cache ∈ before ++ cache :: middle by simp))
      cache.base
    omega

theorem descending_release {index : ℕ} (hdescending : Descending (before ++ cache :: after))
    (hlater : ∀ later ∈ after, later.live.length ≤ (cache.release index).live.length) :
    Descending (before ++ cache.release index :: after) := by
  obtain ⟨hbefore, hrest, hacross⟩ := List.pairwise_append.mp hdescending
  refine List.pairwise_append.mpr ⟨hbefore, List.pairwise_cons.mpr
    ⟨hlater, (List.pairwise_cons.mp hrest).2⟩, ?_⟩
  intro earlier hearlier later hmem
  rcases List.mem_cons.mp hmem with rfl | hafter
  · have hle := hacross earlier hearlier cache (by simp)
    have herase : (cache.release index).live.length ≤ cache.live.length :=
      List.length_erase_le
    omega
  · exact hacross earlier hearlier later (List.mem_cons_of_mem _ hafter)

/-- A free that destroys its cache keeps the summary. -/
theorem destroyed_room {ptr : ℕ} (hholds : Holds shape (before ++ cache :: after) client)
    (hhinted : Hinted shape client.memory (before ++ cache :: after))
    (hobject : objectCache client.memory ptr = shape.addr cache.base)
    (hothers : objectCache client.memory ptr = firstFreeCache client.memory shape.slab →
      ∀ other ∈ before ++ after, Full shape other)
    (hfirst : firstFreeCache memory' shape.slab =
      if objectCache client.memory ptr = firstFreeCache client.memory shape.slab then 0
      else firstFreeCache client.memory shape.slab) :
    Hinted shape memory' (before ++ after) := by
  have hsublist : (before ++ after).Sublist (before ++ cache :: after) := by simp
  refine ⟨hhinted.descending.sublist hsublist, ?_⟩
  rcases hhinted.room with hfull | ⟨hne, front, last, hsplit, hroom⟩
  · exact .inl fun other hother => hfull other (hsublist.subset hother)
  by_cases hsame : objectCache client.memory ptr = firstFreeCache client.memory shape.slab
  · exact .inl (hothers hsame)
  · have hlast := (hholds.settled.first_free.resolve_left hne).1
    right
    rw [hfirst, if_neg hsame]
    refine ⟨hne, ?_⟩
    rcases List.eq_nil_or_concat' after with rfl | ⟨middle, final, rfl⟩
    · exact absurd (hobject.trans (hholds.settled.toCore.last_eq_addr.symm.trans hlast.symm)) hsame
    · have hfinal : final = last := by
        have hend : (before ++ cache :: middle ++ [final]).getLast? = (front ++ [last]).getLast? := by
          rw [← hsplit, List.append_assoc, List.cons_append]
        rw [List.getLast?_concat, List.getLast?_concat] at hend
        exact Option.some.inj hend
      exact ⟨before ++ middle, final, by simp, hfinal ▸ hroom⟩

/-- A free whose effect on the list is the one the condition allows. -/
theorem free_hinted {ptr : ℕ} (hholds : Holds shape caches client)
    (hhinted : Hinted shape client.memory caches)
    (horderly : Orderly (settingOf shape buddy fuel) client (.free ptr))
    (hhint : KeepsHint (settingOf shape buddy fuel) client (.free ptr)) :
    ∃ next caches', step (settingOf shape buddy fuel) client (.free ptr) = some next ∧
      Holds shape caches' next ∧ Hinted shape next.memory caches' := by
  obtain ⟨hlegal, hkeeps, hstale⟩ := horderly
  obtain ⟨hnull, hothers⟩ := hhint
  obtain ⟨before, cache, after, index, rfl, hlive, hslot⟩ :=
    mem_objects (hholds.live_perm.mem_iff.mp hlegal.1)
  have hcore := hholds.settled.toCore
  by_cases hdestroys : Destroys client.memory shape.slab ptr
  · obtain ⟨-, hnext⟩ := last_of_destroyed hholds hlive hslot hdestroys hstale
    obtain ⟨next, hstep, hholds', -, hfirst⟩ :=
      free_destroys_step hholds hlive hslot hkeeps hdestroys hnext hlegal
    have hobject : objectCache client.memory ptr = shape.addr cache.base :=
      hslot ▸ objectCache_eq hcore (by simp) hlive
    refine ⟨next, before ++ after, hstep, hholds', destroyed_room hholds hhinted hobject ?_ hfirst⟩
    intro hsame other hother
    have hmem : other ∈ before ++ cache :: after := mem_middle.mpr (.inr hother)
    have hne : shape.addr other.base ≠ shape.addr cache.base := by
      have hapart := hcore.apart_others hother
      have haddr := shape.base_le_addr other.base
      have haddr' := shape.base_le_addr cache.base
      have hstop := shape.header_le_stop other.base
      have hstop' := shape.header_le_stop cache.base
      simp only [Shape.RegionsApart, sizeofSlabCacheHeader] at hapart hstop hstop'
      omega
    have hbase := hholds.held_perm.mem_iff.mpr (List.mem_map_of_mem (f := Cache.base) hmem)
    have hfull := hothers hdestroys hsame other.base hbase
      (show shape.addr other.base ≠ _ from hobject ▸ hne)
    have hcontents := hcore.contents other hmem
    exact hcontents.allocated_eq.symm.trans (hfull.trans hcontents.max_eq)
  · obtain ⟨next, hstep, hholds', -, hmemory⟩ :=
      free_kept_step hholds hlive hslot hkeeps hdestroys
    have hlater := later_le_released hcore hhinted.descending hlive hslot hkeeps
    obtain ⟨-, -, hchange, -⟩ := released_spec hcore hlive hslot
    refine ⟨next, _, hstep, hholds', descending_release hhinted.descending hlater,
      .inr ⟨?_, last_has_room hcore hlive hlater⟩⟩
    rw [hmemory, (released_frame hcore hchange).2.1]
    exact fun hzero => hdestroys (hnull hzero)

/-- Every step that meets the conditions keeps the summary. -/
theorem step_hinted (hfuel : 2 ≤ fuel) (hholds : Holds shape caches client)
    (hhinted : Hinted shape client.memory caches) {op : Op}
    (horderly : Orderly (settingOf shape buddy fuel) client op)
    (hhint : KeepsHint (settingOf shape buddy fuel) client op) :
    ∃ next caches', step (settingOf shape buddy fuel) client op = some next ∧
      Holds shape caches' next ∧ Hinted shape next.memory caches' := by
  cases op with
  | alloc => exact alloc_hinted hfuel hholds hhinted horderly.1 horderly.2.1
  | free ptr => exact free_hinted hholds hhinted horderly hhint
  | write address byte =>
      have hspared := write_spares_own hholds horderly.1
      refine ⟨_, caches, rfl, ⟨settled_congr hholds.settled hspared, hholds.held_perm,
        hholds.live_perm⟩, hinted_congr hhinted ?_⟩
      exact header_word_eq hholds.settled.toCore hspared (by omega)

/-! ## Allocations from a summarised slab -/

/-- The live objects in a region are those of its cache. -/
theorem liveIn_eq (hholds : Holds shape caches client) (hmem : cache ∈ caches) :
    liveIn (settingOf shape buddy fuel) client cache.base = cache.live.length := by
  obtain ⟨before, after, rfl⟩ := List.append_of_mem hmem
  have hcore := hholds.settled.toCore
  have hinside : ∀ ptr ∈ cacheObjects shape cache,
      cache.base < ptr ∧ ptr ≤ shape.stop cache.base := by
    intro ptr hptr
    have hobject := object_inside hcore hmem hptr
    have haddr := shape.base_le_addr cache.base
    simp only [sizeofSlabCacheHeader] at hobject
    omega
  have houtside : ∀ other ∈ before ++ after, ∀ ptr ∈ cacheObjects shape other,
      ¬ (cache.base < ptr ∧ ptr ≤ shape.stop cache.base) := by
    intro other hother ptr hptr
    have hobject := object_inside hcore (mem_middle.mpr (.inr hother)) hptr
    have hapart := hcore.apart_others hother
    have haddr := shape.base_le_addr other.base
    simp only [sizeofSlabCacheHeader, Shape.RegionsApart] at hobject hapart
    omega
  have hnone : ∀ part : List Cache, (∀ other ∈ part, other ∈ before ++ after) →
      (objects shape part).countP
        (fun ptr => decide (cache.base < ptr ∧ ptr ≤ shape.stop cache.base)) = 0 := by
    intro part hpart
    refine List.countP_eq_zero.mpr fun ptr hptr => ?_
    obtain ⟨other, hother, hmem'⟩ := List.mem_flatMap.mp hptr
    simpa using houtside other (hpart other hother) ptr hmem'
  have hcount : (cacheObjects shape cache).countP
      (fun ptr => decide (cache.base < ptr ∧ ptr ≤ shape.stop cache.base)) =
        cache.live.length := by
    have hall : (cacheObjects shape cache).countP
        (fun ptr => decide (cache.base < ptr ∧ ptr ≤ shape.stop cache.base)) =
          (cacheObjects shape cache).length :=
      List.countP_eq_length.mpr fun ptr hptr => by simpa using hinside ptr hptr
    rw [hall, cacheObjects, List.length_map]
  rw [liveIn, settingOf_stop, hholds.live_perm.countP_eq]
  have hobjects : objects shape (before ++ cache :: after) =
      objects shape before ++ (cacheObjects shape cache ++ objects shape after) := by
    simp only [objects, List.flatMap_append, List.flatMap_cons]
  rw [hobjects, List.countP_append, List.countP_append, hcount,
    hnone before fun other hother => List.mem_append_left _ hother,
    hnone after fun other hother => List.mem_append_right _ hother, Nat.zero_add, Nat.add_zero]

/-- The last cache of a slab that is ready stands for itself. -/
theorem ready_alone (hready : Ready shape memory before last) :
    ∃ other, Ground shape last.base other ∧ Alone shape last.base other memory last := by
  have hcore := hready.core
  have hmem : last ∈ before ++ [last] := by simp
  have hpos := (hcore.placed _ (List.mem_map_of_mem hmem)).1
  have hnext : nextCache memory (shape.addr last.base) = 0 := hready.next
  have hrootStop := shape.header_le_stop shape.slab
  have haddrSlab := shape.addr_slab
  simp only [sizeofSlabCacheHeader] at hrootStop
  have hnotRoot : ∀ base ∈ bases (before ++ [last]), base ≠ shape.slab →
      shape.slab + 48 ≤ base ∨ shape.stop base ≤ shape.slab := by
    intro base hbase hne
    obtain ⟨root, hroot, hrootBase⟩ := hcore.root_mem
    obtain ⟨other, hother, rfl⟩ := List.mem_map.mp hbase
    have hapart := hcore.apart_of_ne hother hroot (hrootBase ▸ hne)
    rw [hrootBase, Shape.RegionsApart] at hapart
    omega
  have hslab := hnotRoot last.base (List.mem_map_of_mem hmem)
  rcases List.eq_nil_or_concat' before with rfl | ⟨front, prev, rfl⟩
  · have hroot : last.base = shape.slab := Option.some.inj hcore.head_eq
    have hprev : prevCache memory (shape.addr last.base) = 0 := hroot ▸ hcore.head_prev
    exact ⟨0, ⟨hpos, hcore.stop_lt hmem, .inl hroot, .inl rfl⟩,
      ⟨rfl, hcore.contents last hmem, hcore.objsize_eq, .inl hprev, .inl hnext⟩⟩
  · have hprevMem : prev ∈ front ++ [prev] ++ [last] := by simp
    obtain ⟨hprev, hne⟩ := last_links hcore
    have hapart := hcore.apart_of_ne hprevMem hmem fun hsame => hne (hsame ▸ rfl)
    have haddr := shape.base_le_addr prev.base
    have hstop := shape.header_le_stop prev.base
    simp only [sizeofSlabCacheHeader, Shape.RegionsApart] at hstop hapart
    refine ⟨shape.addr prev.base, ⟨hpos, hcore.stop_lt hmem,
      or_iff_not_imp_left.mpr hslab, .inr ⟨by omega, ?_⟩⟩,
      ⟨rfl, hcore.contents last hmem, hcore.objsize_eq, .inr (.inl hprev), .inl hnext⟩⟩
    by_cases hroot : prev.base = shape.slab
    · rw [hroot, haddrSlab]
      omega
    · have hprevSlab := hnotRoot prev.base (List.mem_map_of_mem hprevMem) hroot
      omega

/-- An allocation from a last cache with room returns an object in it. -/
theorem slabCacheAlloc_of_last_room {enough : ℕ} (henough : 3 ≤ enough)
    (hready : Ready shape memory before last)
    (hroom : last.live.length < shape.capacity last.base) :
    ∃ ptr memory', slabCacheAlloc enough memory shape.slab (shape.addr last.base) =
        some (ptr, memory') ∧ last.base < ptr ∧ ptr + shape.size ≤ shape.stop last.base := by
  obtain ⟨⟨ptr, memory'⟩, halloc⟩ := slabCacheAlloc_returns henough hready
  obtain ⟨other, hground, halone⟩ := ready_alone hready
  refine ⟨ptr, memory', halloc, ?_⟩
  rcases slabCacheAlloc_alone hground halone halloc with ⟨rfl, -⟩ | ⟨index, free', rfl, halone'⟩
  · have hholds := hready.core.contents last (by simp)
    have hnotFull : allocatedObjects memory (shape.addr last.base) ≠
        maxObjects memory (shape.addr last.base) := by
      rw [hholds.allocated_eq, hholds.max_eq]
      exact hroom.ne
    rw [slabCacheAlloc_of_room hnotFull, Option.map_eq_some_iff] at halloc
    obtain ⟨skipped, -, hresult⟩ := halloc
    simp [sizeofSlabAllocatedObjectHeader] at hresult
  · have hindex := halone'.holds.index_lt (show index ∈ (index :: last.live) ++ free' by simp)
    have hbegin := shape.header_le_slot last.base index
    have hend := shape.slot_add_le_stop hindex
    have haddr := shape.base_le_addr last.base
    simp only [Shape.slotBytes, sizeofSlabCacheHeader] at hbegin hend
    simp only [sizeofSlabAllocatedObjectHeader] at hend ⊢
    omega

/-- A slab whose first free cache is known is reused before it grows. -/
theorem reuses_of_hinted (hholds : Holds shape caches client)
    (hhinted : Hinted shape client.memory caches) :
    Reuses (settingOf shape buddy fuel) client := by
  have hcore := hholds.settled.toCore
  have hmax : ∀ cache ∈ caches, maxObjects client.memory
      ((settingOf shape buddy fuel).cacheAt cache.base) = shape.capacity cache.base :=
    fun cache hcache => (hcore.contents cache hcache).max_eq
  have hreuse : (∃ base ∈ client.held, liveIn (settingOf shape buddy fuel) client base <
      maxObjects client.memory ((settingOf shape buddy fuel).cacheAt base)) →
      ∀ enough, 3 ≤ enough → ∃ ptr memory', ptr ≠ 0 ∧
        (∃ base ∈ client.held, base < ptr ∧
          ptr + shape.size ≤ (settingOf shape buddy fuel).stop base) ∧
        ∀ buddy, slabAlloc enough buddy client.memory shape.slab = some (ptr, memory') := by
    rintro ⟨base, hbase, hless⟩ enough henough
    obtain ⟨cache, hcache, rfl⟩ := List.mem_map.mp (hholds.held_perm.mem_iff.mp hbase)
    rw [liveIn_eq hholds hcache, hmax cache hcache] at hless
    rcases hhinted.room with hfull | ⟨hne, before, last, rfl, hroom⟩
    · exact absurd (hfull cache hcache) hless.ne
    · have hready : Ready shape client.memory before last := by
        obtain ⟨front, final, hsplit, hready⟩ := ready_of_settled hholds.settled hne
        obtain ⟨rfl, hlast⟩ := List.append_inj' hsplit rfl
        exact (List.singleton_inj.mp hlast) ▸ hready
      obtain ⟨ptr, memory', halloc, hlower, hupper⟩ :=
        slabCacheAlloc_of_last_room henough hready hroom
      have hlastBase := hholds.held_perm.mem_iff.mpr
        (List.mem_map_of_mem (f := Cache.base) (show last ∈ before ++ [last] by simp))
      refine ⟨ptr, memory', by omega, ⟨last.base, hlastBase, hlower, by rwa [settingOf_stop]⟩, ?_⟩
      intro buddy
      have haddr := (hcore.addr_pos (show last ∈ before ++ [last] by simp)).ne'
      simp only [slabAlloc, if_neg shape.slab_pos.ne', growSlab, hready.first,
        Option.bind_eq_bind, Option.bind_some, if_neg haddr]
      exact halloc
  refine ⟨hreuse, ?_⟩
  intro enough buddy' memory' henough hnull base hbase
  obtain ⟨cache, hcache, rfl⟩ := List.mem_map.mp (hholds.held_perm.mem_iff.mp hbase)
  by_contra hne
  have hless : liveIn (settingOf shape buddy fuel) client cache.base <
      maxObjects client.memory ((settingOf shape buddy fuel).cacheAt cache.base) := by
    refine lt_of_le_of_ne ?_ hne
    rw [liveIn_eq hholds hcache, hmax cache hcache]
    exact live_le_capacity (hcore.contents cache hcache)
  obtain ⟨ptr, memory'', hptr, -, halloc⟩ := hreuse ⟨_, hbase, hless⟩ enough henough
  have hsame : some (0, memory') = some (ptr, memory'') := hnull.symm.trans (halloc buddy')
  simp only [Option.some.injEq, Prod.mk.injEq] at hsame
  exact hptr hsame.1.symm

/-! ## Runs -/

/-- In every run in which no cache changes places with a neighbour and the
summary is not lost, objects are reused before the slab grows at every point. -/
theorem reuses_of_keepsHint {setting : Setting} {memory memory₀ : Memory} {buddyPtr : ℕ}
    (hsize : setting.size + sizeofSlabAllocatedObjectHeader < wordSize)
    (hfuel : 2 ≤ setting.fuel) (hplaced : Placed setting buddyPtr)
    (hinit : slabInit setting.buddy memory buddyPtr setting.size = some (setting.slab, memory₀))
    {ops : List Op} (hrun : AllSteps (step setting)
      (fun client op => Orderly setting client op ∧ KeepsHint setting client op)
      ⟨memory₀, [setting.slab], []⟩ ops) :
    ∀ done, done <+: ops → ∃ client,
      run (step setting) ⟨memory₀, [setting.slab], []⟩ done = some client ∧
      Reuses setting client := by
  obtain ⟨shape, hsetting, hholds, -, hfirst⟩ := slabInit_holds hsize hplaced hinit
  have hhinted : Hinted shape memory₀ [emptyCache shape.slab] := by
    refine ⟨List.pairwise_singleton _ _, ?_⟩
    rcases Nat.eq_zero_or_pos (shape.capacity shape.slab) with hnone | hsome
    · left
      intro cache hcache
      rw [List.mem_singleton.mp hcache]
      exact hnone.symm
    · exact .inr ⟨hfirst, [], _, rfl, hsome⟩
  intro done hdone
  obtain ⟨client, hreached, caches, hclient, hroom⟩ := run_preserves_throughout
    (fun client => ∃ caches, Holds shape caches client ∧ Hinted shape client.memory caches)
    (fun client op ⟨caches, hclient, hroom⟩ ⟨horderly, hhint⟩ => by
      rw [hsetting] at horderly hhint ⊢
      obtain ⟨next, caches', hnext, hholds', hhinted'⟩ :=
        step_hinted hfuel hclient hroom horderly hhint
      exact ⟨next, hnext, caches', hholds', hhinted'⟩)
    ⟨_, hholds, hhinted⟩ hrun done hdone
  refine ⟨client, hreached, ?_⟩
  rw [hsetting]
  exact reuses_of_hinted hclient hroom

theorem reuses_freshClient :
    ∃ client, run (step poolSetting) freshClient
        [.alloc, .alloc, .alloc, .write 370473 7, .free 270464] = some client ∧
      Reuses poolSetting client := by
  obtain ⟨layout, shape, others, free, regions, caches, hsetting, -, hhosted⟩ :=
    hosted_freshClient
  have htame : AllSteps (step poolSetting) (Tame poolSetting) freshClient
      [.alloc, .alloc, .alloc, .write 370473 7, .free 270464] := by decide +kernel
  have hhint : AllSteps (step poolSetting) (KeepsHint poolSetting) freshClient
      [.alloc, .alloc, .alloc, .write 370473 7, .free 270464] := by decide +kernel
  have horderly := (hhosted.run_hosted le_rfl (hsetting ▸ htame)).1
  rw [← hsetting] at horderly
  exact reuses_of_keepsHint (by decide) le_rfl ⟨by decide, by decide, by decide⟩
    slabInit_lentPool (horderly.and hhint) _ (List.prefix_refl _)

/-- With no cache known to have room the slab asks the buddy allocator. -/
theorem slabAlloc_asks {slab : ℕ} (hslab : slab ≠ 0) (hfirst : firstFreeCache memory slab = 0)
    (fuel : ℕ) : slabAlloc fuel ⟨fun _ _ _ => none, fun _ _ _ => none⟩ memory slab = none := by
  simp only [slabAlloc, if_neg hslab, growSlab, if_pos hfirst, Option.bind_eq_bind,
    Option.bind_none]

/-- An object freed after the root cache was filled is not used again. -/
theorem not_reuses_after_filling :
    ¬ ∀ (setting : Setting) (memory memory₀ : Memory) (buddyPtr : ℕ) (ops : List Op),
      2 ≤ setting.fuel → Placed setting buddyPtr →
      slabInit setting.buddy memory buddyPtr setting.size = some (setting.slab, memory₀) →
      AllSteps (step setting) (Legal setting) ⟨memory₀, [setting.slab], []⟩ ops →
      ∀ done, done <+: ops → ∀ client,
        run (step setting) ⟨memory₀, [setting.slab], []⟩ done = some client →
        Reuses setting client := by
  intro hclaim
  obtain ⟨layout, shape, others, free, regions, caches, hsetting, -, hhosted⟩ :=
    hosted_freshClient
  have htame : AllSteps (step poolSetting) (Tame poolSetting) freshClient
      [.alloc, .alloc, .free 270464] := by decide +kernel
  obtain ⟨horderly, client, -, -, -, hrun, -⟩ := hhosted.run_hosted le_rfl (hsetting ▸ htame)
  rw [← hsetting] at horderly hrun
  have hreuses := hclaim poolSetting lentPool freshSlab 4096 _ le_rfl
    ⟨by decide, by decide, by decide⟩ slabInit_lentPool (horderly.mono fun _ _ hop => hop.1) _
    (List.prefix_refl _) client hrun
  have hclient : client = (run (step poolSetting) freshClient
      [.alloc, .alloc, .free 270464]).getD freshClient := by rw [hrun, Option.getD_some]
  have hfirst : firstFreeCache client.memory poolSetting.slab = 0 := by
    rw [hclient]
    decide +kernel
  have hroom : 270336 ∈ client.held ∧ liveIn poolSetting client 270336 <
      maxObjects client.memory (poolSetting.cacheAt 270336) := by
    rw [hclient]
    decide +kernel
  obtain ⟨ptr, memory', -, -, halloc⟩ := hreuses.reuse ⟨270336, hroom⟩ 3 le_rfl
  have hnone := slabAlloc_asks (by decide) hfirst 3
  rw [halloc] at hnone
  exact absurd hnone (by simp)

end DoomsdayModules.SlabReuse
