import DoomsdayModules.Malloc.SlabHosted

/-!
# Isolation of slab objects

Every live object lies, header included, behind the headers of a region that
the slab holds, and shares no byte with another live object or with a cache
header.  This holds at every point of a run in which no cache changes places
with a neighbour and no last cache is destroyed in front of a stale
`next_cache`.  Changing places loses caches and keeps destroyed ones linked, so
that objects are handed out from memory already given back.
-/

namespace DoomsdayModules.SlabIsolation

open DoomsdayModules.ByteMemory DoomsdayModules.Runs DoomsdayModules.Util
open DoomsdayModules.Buddy DoomsdayModules.BuddyInvariant DoomsdayModules.Slab
open DoomsdayModules.SlabInvariant DoomsdayModules.SlabMoves DoomsdayModules.SlabGrowth
open DoomsdayModules.SlabOps DoomsdayModules.SlabOnBuddy DoomsdayModules.SlabRuns
open DoomsdayModules.SlabHosted

/-- Two objects with their headers share no byte. -/
def ObjectsApart (size ptr other : ℕ) : Prop :=
  ptr + size + sizeofSlabAllocatedObjectHeader ≤ other ∨
    other + size + sizeofSlabAllocatedObjectHeader ≤ ptr

/-- An object with its header lies behind the headers of the region. -/
def InsideRegion (setting : Setting) (base ptr : ℕ) : Prop :=
  setting.cacheAt base + sizeofSlabCacheHeader + sizeofSlabAllocatedObjectHeader ≤ ptr ∧
    ptr + setting.size ≤ setting.stop base

/-- An object with its header shares no byte with the headers of the region. -/
def ApartFromHeaders (setting : Setting) (base ptr : ℕ) : Prop :=
  setting.cacheAt base + sizeofSlabCacheHeader + sizeofSlabAllocatedObjectHeader ≤ ptr ∨
    ptr + setting.size ≤ base

instance (setting : Setting) (base ptr : ℕ) : Decidable (InsideRegion setting base ptr) :=
  inferInstanceAs (Decidable (_ ∧ _))

/-- The live objects are in held regions, apart from each other and from all
headers. -/
structure Isolated (setting : Setting) (client : Client) : Prop where
  inside : ∀ ptr ∈ client.live, ∃ base ∈ client.held, InsideRegion setting base ptr
  apart : client.live.Pairwise (ObjectsApart setting.size)
  headers : ∀ ptr ∈ client.live, ∀ base ∈ client.held, ApartFromHeaders setting base ptr

/-! ## The invariant isolates -/

variable {shape : Shape} {buddy : BuddyOps} {fuel : ℕ} {caches : List Cache} {client : Client}
  {memory : Memory}

theorem settingOf_cacheAt (base : ℕ) :
    (settingOf shape buddy fuel).cacheAt base = shape.addr base := rfl

theorem settingOf_size : (settingOf shape buddy fuel).size = shape.size := rfl

/-- A live slot lies behind the headers of its region. -/
theorem object_inside (hcore : Core shape memory caches) {cache : Cache} {ptr : ℕ}
    (hcache : cache ∈ caches) (hptr : ptr ∈ cacheObjects shape cache) :
    shape.addr cache.base + sizeofSlabCacheHeader + sizeofSlabAllocatedObjectHeader ≤ ptr ∧
      ptr + shape.size ≤ shape.stop cache.base := by
  obtain ⟨index, hlive, rfl⟩ := List.mem_map.mp hptr
  have hindex := (hcore.contents cache hcache).index_lt (List.mem_append_left _ hlive)
  have hbegin := shape.header_le_slot cache.base index
  have hend := shape.slot_add_le_stop hindex
  simp only [Shape.slotBytes] at hend
  omega

theorem cacheObjects_apart (hcore : Core shape memory caches) {cache : Cache}
    (hcache : cache ∈ caches) :
    (cacheObjects shape cache).Pairwise (ObjectsApart shape.size) := by
  have hnodup := (List.nodup_append.mp (hcore.contents cache hcache).nodup).1
  apply List.pairwise_map.mpr
  apply hnodup.imp
  intro index other hne
  simp only [ObjectsApart]
  rcases Nat.lt_or_gt_of_ne hne with hlt | hlt
  · have := shape.slot_add_le cache.base hlt
    simp only [Shape.slotBytes] at this
    omega
  · have := shape.slot_add_le cache.base hlt
    simp only [Shape.slotBytes] at this
    omega

/-- Objects of different caches are in different regions. -/
theorem objects_apart (hcore : Core shape memory caches) :
    (objects shape caches).Pairwise (ObjectsApart shape.size) := by
  apply List.pairwise_flatMap.mpr
  refine ⟨fun cache hcache => cacheObjects_apart hcore hcache, ?_⟩
  have hapart := List.pairwise_map.mp hcore.apart
  apply hapart.imp_of_mem
  intro cache other hcache hother hregions ptr hptr ptr' hptr'
  have hinside := object_inside hcore hcache hptr
  have hinside' := object_inside hcore hother hptr'
  have haddr := shape.base_le_addr cache.base
  have haddr' := shape.base_le_addr other.base
  simp only [sizeofSlabCacheHeader, Shape.RegionsApart, ObjectsApart] at *
  omega

/-- A client's objects are isolated as long as the slab is intact. -/
theorem isolated_of_holds (hholds : Holds shape caches client) :
    Isolated (settingOf shape buddy fuel) client := by
  have hcore := hholds.settled.toCore
  have hobject : ∀ ptr ∈ client.live, ∃ cache ∈ caches, ptr ∈ cacheObjects shape cache :=
    fun ptr hptr => List.mem_flatMap.mp (hholds.live_perm.mem_iff.mp hptr)
  refine ⟨?_, (hholds.live_perm.pairwise_iff Or.symm).mpr (objects_apart hcore), ?_⟩
  · intro ptr hptr
    obtain ⟨cache, hcache, hmem⟩ := hobject ptr hptr
    exact ⟨cache.base, hholds.held_perm.mem_iff.mpr (List.mem_map_of_mem hcache),
      by simpa only [InsideRegion, settingOf_cacheAt, settingOf_stop, settingOf_size] using
        object_inside hcore hcache hmem⟩
  · intro ptr hptr base hbase
    obtain ⟨cache, hcache, hmem⟩ := hobject ptr hptr
    obtain ⟨other, hother, rfl⟩ := List.mem_map.mp (hholds.held_perm.mem_iff.mp hbase)
    have hinside := object_inside hcore hcache hmem
    by_cases hsame : cache.base = other.base
    · exact .inl (hsame ▸ hinside.1)
    · have hapart := hcore.apart_of_ne hcache hother hsame
      have haddr := shape.base_le_addr cache.base
      have haddr' := shape.base_le_addr other.base
      have hstop := shape.header_le_stop other.base
      simp only [ApartFromHeaders, settingOf_cacheAt, settingOf_size, Shape.RegionsApart] at *
      omega

/-! ## Isolation over runs -/

/-- In every run in which no cache changes places with a neighbour and the last
cache is destroyed only while nothing is behind it, the objects are isolated at
every point. -/
theorem objects_isolated_of_keeps_order {setting : Setting} {memory memory₀ : Memory}
    {buddyPtr : ℕ} (hsize : setting.size + sizeofSlabAllocatedObjectHeader < wordSize)
    (hfuel : 2 ≤ setting.fuel) (hplaced : Placed setting buddyPtr)
    (hinit : slabInit setting.buddy memory buddyPtr setting.size = some (setting.slab, memory₀))
    {ops : List Op} (hrun : AllSteps (step setting) (fun client op => Legal setting client op ∧
      KeepsOrder setting client op ∧ SparesStaleNext setting client op)
      ⟨memory₀, [setting.slab], []⟩ ops) :
    ∀ done, done <+: ops → ∃ client,
      run (step setting) ⟨memory₀, [setting.slab], []⟩ done = some client ∧
      Isolated setting client := by
  obtain ⟨shape, hsetting, hholds, -⟩ := slabInit_holds hsize hplaced hinit
  intro done hdone
  obtain ⟨client, hreached, caches, hclient⟩ :=
    run_preserves_throughout (fun client => ∃ caches, Holds shape caches client)
      (fun client op ⟨caches, hclient⟩ horderly => by
        rw [hsetting] at horderly ⊢
        obtain ⟨next, caches', hnext, hholds', -⟩ := step_holds hfuel hclient horderly
        exact ⟨next, hnext, caches', hholds'⟩)
      ⟨_, hholds⟩ hrun done hdone
  refine ⟨client, hreached, ?_⟩
  rw [hsetting]
  exact isolated_of_holds hclient

theorem objects_isolated_freshClient :
    ∃ client, run (step poolSetting) freshClient
        [.alloc, .alloc, .write 370473 7, .alloc, .free 532560, .alloc, .free 270464] =
          some client ∧ Isolated poolSetting client := by
  obtain ⟨layout, shape, others, free, regions, caches, hsetting, -, hhosted⟩ :=
    hosted_freshClient
  have htame : AllSteps (step poolSetting) (Tame poolSetting) freshClient
      [.alloc, .alloc, .write 370473 7, .alloc, .free 532560, .alloc, .free 270464] := by
    decide +kernel
  have hrun := (hhosted.run_hosted le_rfl (hsetting ▸ htame)).1
  rw [← hsetting] at hrun
  exact objects_isolated_of_keeps_order (by decide) le_rfl ⟨by decide, by decide, by decide⟩
    slabInit_lentPool hrun _ (List.prefix_refl _)

/-! ## A cache that changes places -/

/-- Only three headers are written when a cache moves down. -/
theorem slabCacheMoveDown_unchangedOutside {memory : Memory} {cache next : ℕ} (alloc : ℕ)
    (hnext : nextCache memory cache = next) (hapart : cache + 40 ≤ next ∨ next + 40 ≤ cache) :
    UnchangedOutside memory (slabCacheMoveDown memory alloc cache) fun query =>
      (alloc + 8 ≤ query ∧ query < alloc + 16) ∨ (cache + 24 ≤ query ∧ query < cache + 40) ∨
        (next + 24 ≤ query ∧ query < next + 40) := by
  intro query houtside
  simp only [slabCacheMoveDown, hnext]
  split_ifs with hzero hfirst
  · rfl
  all_goals
    have hkeep : nextCache (writeWord memory (next + 32) cache) cache = next :=
      (readWord_writeWord_of_disjoint (by omega)).trans hnext
    simp only [hkeep]
  · rw [writeWord_of_outside (by omega), writeWord_of_outside (by omega),
      writeWord_of_outside (by omega), writeWord_of_outside (by omega),
      writeWord_of_outside (by omega)]
  · rw [writeWord_of_outside (by omega), writeWord_of_outside (by omega),
      writeWord_of_outside (by omega), writeWord_of_outside (by omega)]

/-- Only the neighbours and the end pointers are written when a cache is unlinked. -/
theorem slabCacheUnlink_unchangedOutside {memory : Memory} {cache prev next : ℕ} (alloc : ℕ)
    (hprev : prevCache memory cache = prev) (hnext : nextCache memory cache = next)
    (hprevPos : prev ≠ 0) (hnextPos : next ≠ 0)
    (hapart : cache + 40 ≤ prev ∨ prev + 40 ≤ cache) :
    UnchangedOutside memory (slabCacheUnlink memory alloc cache) fun query =>
      (prev + 32 ≤ query ∧ query < prev + 40) ∨ (next + 24 ≤ query ∧ query < next + 32) := by
  intro query houtside
  have hkeep : nextCache (writeWord memory (prev + 32) next) cache = next :=
    (readWord_writeWord_of_disjoint (by omega)).trans hnext
  simp only [slabCacheUnlink, hprev, hnext, ne_eq, hprevPos, hnextPos, not_false_eq_true,
    and_self, if_true, if_false, hkeep]
  rw [writeWord_of_outside (by omega), writeWord_of_outside (by omega)]

theorem releaseSlot_unchangedOutside (memory : Memory) (cache ptr : ℕ) :
    UnchangedOutside memory (releaseSlot memory cache ptr) fun query =>
      (cache + 40 ≤ query ∧ query < cache + 56) ∨ (ptr ≤ query ∧ query < ptr + 8) :=
  ((Freelist.freelistPush_unchangedOutside memory (cache + 40) ptr).mono fun _ hquery => by
    omega).trans ((writeWord_unchangedOutside _ _ _).mono fun _ hquery => by omega)

/-- Three caches with two, one and one live objects. -/
def crossingOps : List Op := [.alloc, .alloc, .alloc, .alloc, .alloc, .free 532560]

def crossingClient : Client := (run (step poolSetting) freshClient crossingOps).getD freshClient

/-- Freeing the last object of the middle cache moves it behind the last cache
and then destroys it. -/
theorem crossing_inside :
    UnchangedOutside crossingClient.memory (unlinked crossingClient.memory 270336 632568)
      fun query => ∃ base ∈ [270336, 532480, 794624], base ≤ query ∧ query < base + 262144 := by
  have hcache : objectCache crossingClient.memory 632568 = 532480 := by decide +kernel
  have hfalls : fallsBehindNext (releaseSlot crossingClient.memory 532480 632560) 532480 := by
    decide +kernel
  have hnext : nextCache (releaseSlot crossingClient.memory 532480 632560) 532480 = 794624 := by
    decide +kernel
  have hprev' : prevCache (slabCacheMoveDown (releaseSlot crossingClient.memory 532480 632560)
      270336 532480) 532480 = 794624 := by decide +kernel
  have hnext' : nextCache (slabCacheMoveDown (releaseSlot crossingClient.memory 532480 632560)
      270336 532480) 532480 = 532480 := by decide +kernel
  have hunlinked : unlinked crossingClient.memory 270336 632568 =
      slabCacheUnlink (slabCacheMoveDown (releaseSlot crossingClient.memory 532480 632560)
        270336 532480) 270336 532480 := by
    simp only [unlinked, freed, slabCacheFree, hcache, sizeofSlabAllocatedObjectHeader,
      Nat.reduceSub, if_pos hfalls]
  rw [hunlinked]
  have hrelease := releaseSlot_unchangedOutside crossingClient.memory 532480 632560
  have hmove := slabCacheMoveDown_unchangedOutside 270336 hnext (by decide)
  have hunlink := slabCacheUnlink_unchangedOutside 270336 hprev' hnext' (by decide) (by decide)
    (by decide)
  refine ((hrelease.mono ?_).trans (hmove.mono ?_)).trans (hunlink.mono ?_)
  · intro query hquery
    exact ⟨532480, by simp, by omega, by omega⟩
  · rintro query (hquery | hquery | hquery)
    · exact ⟨270336, by simp, by omega, by omega⟩
    · exact ⟨532480, by simp, by omega, by omega⟩
    · exact ⟨794624, by simp, by omega, by omega⟩
  · rintro query (hquery | hquery)
    · exact ⟨794624, by simp, by omega, by omega⟩
    · exact ⟨532480, by simp, by omega, by omega⟩

/-- The buddy allocator keeps its side in the run below, too. -/
theorem legal_crossing :
    AllSteps (step poolSetting) (Legal poolSetting) freshClient
      (crossingOps ++ [.free 632568, .alloc, .alloc]) := by
  obtain ⟨layout, shape, others, free, regions, caches, hsetting, halloc, hhosted⟩ :=
    hosted_freshClient
  have hslab : shape.slab = 270336 := congrArg Setting.slab hsetting.symm
  have htame : AllSteps (step poolSetting) (Tame poolSetting) freshClient crossingOps := by
    decide +kernel
  obtain ⟨horderly, final, free', regions', caches', hreached, hfinal⟩ :=
    hhosted.run_hosted le_rfl (hsetting ▸ htame)
  rw [← hsetting] at horderly hreached
  obtain rfl : crossingClient = final := by rw [crossingClient, hreached, Option.getD_some]
  refine AllSteps.append (horderly.mono fun _ _ hop => hop.1) ?_
  intro reached hrun
  obtain rfl : crossingClient = reached := Option.some.inj (hreached.symm.trans hrun)
  have hroom : AllSteps (step poolSetting) (AsksNothing poolSetting) crossingClient
      [.free 632568, .alloc, .alloc] := by decide +kernel
  refine ⟨⟨by decide +kernel, fun hdestroys => ?_⟩, fun next hnext =>
    ⟨legal_of_asksNothing (hroom.2 next hnext).1, fun next' hnext' =>
      ⟨legal_of_asksNothing ((hroom.2 next hnext).2 next' hnext').1, fun _ _ => trivial⟩⟩⟩
  have hheld : crossingClient.held = [270336, 532480, 794624] := by decide +kernel
  have hreturns : ∀ block ∈ regions',
      layout.address block = objectCache crossingClient.memory 632568 → Returns layout block := by
    apply hfinal.returns
    rw [hslab]
    decide +kernel
  have hinside : UnchangedOutside crossingClient.memory
      (unlinked crossingClient.memory shape.slab 632568)
      fun query => ∃ block ∈ regions', layout.InBlock block query := by
    rw [hslab]
    apply crossing_inside.mono
    rintro query ⟨base, hbase, hlower, hupper⟩
    obtain ⟨block, hblock, haddress, hstop⟩ := hfinal.held_block (hheld ▸ hbase)
    have hlength : shape.stop base = base + 262144 := by
      have hstop' : poolSetting.stop base = base + 262144 := rfl
      rw [← hstop', hsetting, settingOf_stop]
    exact ⟨block, hblock, haddress ▸ hlower, by rw [← hstop, hlength]; exact hupper⟩
  rw [hsetting]
  apply hfinal.destroy_replies
  · rw [hslab]
    exact hdestroys
  · rw [hslab, halloc]
    decide +kernel
  · rw [hslab]
    decide +kernel
  · decide +kernel
  · exact hreturns
  · exact hinside

/-- The second allocation after the free hands out memory given back already. -/
theorem objects_not_isolated_after_crossing :
    ¬ ∀ (setting : Setting) (memory memory₀ : Memory) (buddyPtr : ℕ) (ops : List Op),
      2 ≤ setting.fuel → Placed setting buddyPtr →
      slabInit setting.buddy memory buddyPtr setting.size = some (setting.slab, memory₀) →
      AllSteps (step setting) (Legal setting) ⟨memory₀, [setting.slab], []⟩ ops →
      ∀ done, done <+: ops → ∀ client,
        run (step setting) ⟨memory₀, [setting.slab], []⟩ done = some client →
        Isolated setting client := by
  intro hclaim
  have hdefined : (run (step poolSetting) freshClient
      (crossingOps ++ [.free 632568, .alloc, .alloc])).isSome := by decide +kernel
  obtain ⟨client, hrun⟩ := Option.isSome_iff_exists.mp hdefined
  have hisolated := hclaim poolSetting lentPool freshSlab 4096 _ le_rfl
    ⟨by decide, by decide, by decide⟩ slabInit_lentPool legal_crossing _ (List.prefix_refl _)
    client hrun
  have hclient : client = (run (step poolSetting) freshClient
      (crossingOps ++ [.free 632568, .alloc, .alloc])).getD freshClient := by
    rw [hrun, Option.getD_some]
  have hlive : 632568 ∈ client.live := by
    rw [hclient]
    decide +kernel
  have houtside : ∀ base ∈ client.held, ¬ InsideRegion poolSetting base 632568 := by
    rw [hclient]
    decide +kernel
  obtain ⟨base, hbase, hinside⟩ := hisolated.inside 632568 hlive
  exact houtside base hbase hinside

end DoomsdayModules.SlabIsolation
