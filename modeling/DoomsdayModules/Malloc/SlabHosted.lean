import DoomsdayModules.Malloc.BuddyInit
import DoomsdayModules.Malloc.SlabOnBuddy
import DoomsdayModules.Malloc.SlabRuns

/-!
# Slab clients on the real buddy allocator

With the buddy allocator of `buddy.c` behind the slab nothing has to be assumed
about its replies: they are sound as long as every region given back is a left
half, and the slab and the buddy allocator stay intact over every such run.
-/

namespace DoomsdayModules.SlabHosted

open DoomsdayModules.ByteMemory DoomsdayModules.Runs DoomsdayModules.Util
open DoomsdayModules.DyadicBlocks DoomsdayModules.Buddy DoomsdayModules.BuddyInvariant
open DoomsdayModules.Slab DoomsdayModules.SlabInvariant DoomsdayModules.SlabMoves
open DoomsdayModules.SlabGrowth DoomsdayModules.SlabOps DoomsdayModules.SlabOnBuddy
open DoomsdayModules.SlabRuns

variable {shape : Shape} {buddy : BuddyOps} {fuel : ℕ} {caches : List Cache} {client : Client}

/-- The slab and the buddy allocator under it are intact. -/
structure Hosted (layout : Layout) (shape : Shape) (others free regions : List Block)
    (caches : List Cache) (client : Client) : Prop where
  onBuddy : OnBuddy layout shape client.memory free regions others caches
  held_perm : client.held.Perm (bases caches)
  live_perm : client.live.Perm (objects shape caches)

/-- What a client of a slab on the real buddy allocator has to meet; the
replies of the buddy allocator need no mention. -/
def Tame (setting : Setting) (client : Client) : Op → Prop
  | .alloc => ¬ MovesUp setting.buddy client.memory setting.slab
  | .free ptr => ptr ∈ client.live ∧ ¬ MovesDown client.memory ptr ∧
      (Destroys client.memory setting.slab ptr →
        (lastCache client.memory setting.slab = objectCache client.memory ptr →
          nextCache client.memory (objectCache client.memory ptr) = 0) ∧
        ReturnsBlock client.memory (buddyOf client.memory setting.slab)
          (cachesize client.memory setting.slab) (objectCache client.memory ptr))
  | .write address _ => ∃ ptr ∈ client.live, ptr ≤ address ∧ address < ptr + setting.size

instance (setting : Setting) (client : Client) : ∀ op, Decidable (Tame setting client op)
  | .alloc => inferInstanceAs (Decidable (¬ _))
  | .free _ => inferInstanceAs (Decidable (_ ∧ _ ∧ (_ → _)))
  | .write _ _ => inferInstanceAs (Decidable (∃ ptr ∈ client.live, _))

namespace Hosted

variable {layout : Layout} {others free regions : List Block}

theorem held_block (hhosted : Hosted layout shape others free regions caches client) {base : ℕ}
    (hbase : base ∈ client.held) :
    ∃ block ∈ regions, layout.address block = base ∧
      shape.stop base = layout.addressStop block := by
  obtain ⟨cache, hcache, rfl⟩ := List.mem_map.mp (hhosted.held_perm.mem_iff.mp hbase)
  exact hhosted.onBuddy.regions.exists_block hcache

/-- Replies that spare live blocks spare the regions that are such blocks. -/
theorem spares_regions {memory memory' : Memory} {regions' : List Block} {caches' : List Cache}
    {held : List ℕ} (hregions : Regions layout shape regions' caches')
    (hheld : held.Perm (bases caches'))
    (hspares : Spares layout (regions' ++ others) memory memory') :
    SparesRegions (settingOf shape buddy fuel) held memory memory' := by
  intro base hbase query hlower hupper
  obtain ⟨cache, hcache, rfl⟩ := List.mem_map.mp (hheld.mem_iff.mp hbase)
  obtain ⟨block, hblock, haddress, hstop⟩ := hregions.exists_block hcache
  rw [settingOf_stop, hstop] at hupper
  exact hspares block (List.mem_append_left _ hblock) query ⟨haddress ▸ hlower, hupper⟩

theorem returns (hhosted : Hosted layout shape others free regions caches client) {ptr : ℕ}
    (hreturns : ReturnsBlock client.memory (buddyOf client.memory shape.slab)
      (cachesize client.memory shape.slab) ptr) :
    ∀ block ∈ regions, layout.address block = ptr → Returns layout block := by
  have honBuddy := hhosted.onBuddy
  rw [honBuddy.settled.toCore.buddy_eq, honBuddy.buddy_eq] at hreturns
  exact honBuddy.returns hreturns

/-- The buddy allocator takes a held region back, whatever the slab wrote in its
own regions before the call. -/
theorem destroy_replies (hhosted : Hosted layout shape others free regions caches client)
    {ptr : ℕ} (hdestroys : Destroys client.memory shape.slab ptr)
    (hbuddy : buddyOf (unlinked client.memory shape.slab ptr) shape.slab = layout.alloc)
    (hmem : cacheMem (unlinked client.memory shape.slab ptr) (objectCache client.memory ptr) =
      objectCache client.memory ptr)
    (hheld : objectCache client.memory ptr ∈ client.held)
    (hreturns : ∀ block ∈ regions, layout.address block = objectCache client.memory ptr →
      Returns layout block)
    (hinside : UnchangedOutside client.memory (unlinked client.memory shape.slab ptr)
      fun query => ∃ block ∈ regions, layout.InBlock block query) :
    ∃ replied, slabCacheDestroy realBuddy (freed client.memory shape.slab ptr) shape.slab
        (objectCache client.memory ptr) = some replied ∧
      SparesRegions (settingOf shape realBuddy fuel)
        (heldAfter (settingOf shape realBuddy fuel) client ptr)
        (unlinked client.memory shape.slab ptr) replied := by
  have honBuddy := hhosted.onBuddy
  obtain ⟨cache, hcache, hbase⟩ := List.mem_map.mp (hhosted.held_perm.mem_iff.mp hheld)
  obtain ⟨before, after, rfl⟩ := List.append_of_mem hcache
  obtain ⟨first, block, last, rfl, haddress, hregions'⟩ := honBuddy.regions.split
  have hrep : Represents layout (unlinked client.memory shape.slab ptr) free
      (first ++ block :: last ++ others) :=
    represents_of_inside honBuddy.represents (hinside.mono fun query ⟨other, hother, hquery⟩ =>
      ⟨other, List.mem_append_left _ hother, hquery⟩)
  have hperm : (first ++ block :: last ++ others).Perm (block :: (first ++ last ++ others)) := by
    rw [List.append_assoc, List.append_assoc, List.cons_append]
    exact List.perm_middle
  have hblock := hreturns block (by simp) (haddress.trans hbase)
  obtain ⟨replied, hreply, -, hspares⟩ := buddyFree_spec (hrep.perm_live hperm) hblock
  have hbases : (bases (before ++ cache :: after)).Perm
      (cacheMem (unlinked client.memory shape.slab ptr) (objectCache client.memory ptr) ::
        bases (before ++ after)) := by
    rw [hmem, ← hbase]
    exact List.perm_middle.map Cache.base
  have hheld' : (heldAfter (settingOf shape realBuddy fuel) client ptr).Perm
      (bases (before ++ after)) :=
    heldAfter_perm hhosted.held_perm (fun _ => hbases) fun hkept => absurd hdestroys hkept
  refine ⟨replied, ?_, spares_regions hregions' hheld' hspares⟩
  have hdestroy : slabCacheDestroy realBuddy (freed client.memory shape.slab ptr) shape.slab
      (objectCache client.memory ptr) = realBuddy.free (unlinked client.memory shape.slab ptr)
        (buddyOf (unlinked client.memory shape.slab ptr) shape.slab)
        (cacheMem (unlinked client.memory shape.slab ptr) (objectCache client.memory ptr)) := rfl
  rw [hdestroy, hbuddy, hmem, ← hbase, ← haddress]
  exact hreply

/-- The buddy allocator keeps its side. -/
theorem orderly (hhosted : Hosted layout shape others free regions caches client) {op : Op}
    (htame : Tame (settingOf shape realBuddy fuel) client op) :
    Orderly (settingOf shape realBuddy fuel) client op := by
  have honBuddy := hhosted.onBuddy
  cases op with
  | alloc =>
      obtain ⟨taken, replied, hask, hsound, hspares, -⟩ := honBuddy.askBuddy_spec
      refine ⟨⟨taken, replied, hask,
        spares_regions honBuddy.regions hhosted.held_perm hspares, fun htaken => ?_⟩, htame, trivial⟩
      have hfresh := hsound.fresh htaken
      refine ⟨settingOf_stop taken ▸ hfresh.stop_lt, fun base hbase => ?_⟩
      obtain ⟨cache, hcache, rfl⟩ := List.mem_map.mp (hhosted.held_perm.mem_iff.mp hbase)
      have hapart := hfresh.apart cache hcache
      simp only [Shape.RegionsApart] at hapart
      simpa only [settingOf_stop] using hapart
  | free ptr =>
      obtain ⟨hptr, hstays, hdestroy⟩ := htame
      refine ⟨⟨hptr, fun hdestroys => ?_⟩, hstays, fun hlast => (hdestroy hlast.1).1 hlast.2⟩
      obtain ⟨hstale, hreturns⟩ := hdestroy hdestroys
      obtain ⟨before, cache, after, index, rfl, hlive, hslot⟩ :=
        mem_objects (hhosted.live_perm.mem_iff.mp hptr)
      have hsettled := honBuddy.settled
      have hobject : objectCache client.memory ptr = shape.addr cache.base :=
        hslot ▸ objectCache_eq hsettled.toCore (by simp) hlive
      have hnext : after = [] → nextCache client.memory (shape.addr cache.base) = 0 := by
        rintro rfl
        rw [← hobject]
        exact hstale (hsettled.toCore.last_eq_addr.trans hobject.symm)
      obtain ⟨-, hcacheEq, hcacheMem, hcore', -, -, hchange⟩ :=
        unlinked_spec hsettled hlive hslot hstays hdestroys hnext
      have hmember : cache ∈ before ++ cache :: after := by simp
      refine hhosted.destroy_replies hdestroys (hcore'.buddy_eq.trans honBuddy.buddy_eq)
        (hcacheEq ▸ hcacheMem) ?_ (hhosted.returns hreturns) (hchange.mono ?_)
      · rw [hcacheEq]
        exact hhosted.held_perm.mem_iff.mpr (List.mem_map_of_mem hmember)
      · exact fun query hquery => honBuddy.regions.own_inBlock hquery
  | write address byte => exact ⟨htame, trivial, trivial⟩

/-- Every step of a tame client keeps the slab and the buddy allocator intact. -/
theorem step_hosted (hfuel : 2 ≤ fuel)
    (hhosted : Hosted layout shape others free regions caches client) {op : Op}
    (htame : Tame (settingOf shape realBuddy fuel) client op) :
    ∃ next free' regions' caches', step (settingOf shape realBuddy fuel) client op = some next ∧
      Hosted layout shape others free' regions' caches' next := by
  have honBuddy := hhosted.onBuddy
  cases op with
  | alloc =>
      obtain ⟨taken, replied, ptr, memory', free', regions', caches', hask, halloc, honBuddy',
        hbases, hobjects, -, -⟩ := slabAlloc_onBuddy hfuel honBuddy htame
      obtain ⟨hheld, hlive⟩ :=
        grownClient_perm memory' hhosted.held_perm hhosted.live_perm hbases hobjects
      exact ⟨_, free', regions', caches', step_alloc hask halloc, honBuddy', hheld, hlive⟩
  | free ptr =>
      obtain ⟨hptr, hstays, hdestroy⟩ := htame
      obtain ⟨memory', free', regions', caches', hfree, honBuddy', hgone, hkept, hobjects, -, -⟩ :=
        slabFree_onBuddy honBuddy (hhosted.live_perm.mem_iff.mp hptr) hstays
          (fun hdestroys => (hdestroy hdestroys).1)
          fun hdestroys => hhosted.returns (hdestroy hdestroys).2
      have hheld : (heldAfter (settingOf shape realBuddy fuel) client ptr).Perm (bases caches') :=
        heldAfter_perm hhosted.held_perm hgone hkept
      have hfreed : (client.live.erase ptr).Perm (objects shape caches') :=
        erase_perm hhosted.live_perm hobjects
      have hstep : step (settingOf shape realBuddy fuel) client (.free ptr) = some
          ⟨memory', heldAfter (settingOf shape realBuddy fuel) client ptr,
            client.live.erase ptr⟩ := step_free hfree
      exact ⟨_, free', regions', caches', hstep, honBuddy', hheld, hfreed⟩
  | write address byte =>
      obtain ⟨ptr, hptr, hlower, hupper⟩ := htame
      have hmem := hhosted.live_perm.mem_iff.mp hptr
      have hcore := honBuddy.settled.toCore
      obtain ⟨block, hblock, hbegin, hend⟩ := honBuddy.regions.object_inBlock hcore hmem
      refine ⟨⟨writeByte client.memory address byte, client.held, client.live⟩, free, regions,
        caches, rfl, honBuddy.congr ?_ ?_, hhosted.held_perm, hhosted.live_perm⟩
      · apply represents_of_inside honBuddy.represents
        intro query houtside
        apply writeByte_of_ne
        rintro rfl
        exact houtside ⟨block, List.mem_append_left _ hblock, by omega,
          lt_of_lt_of_le hupper hend⟩
      · intro query hquery
        apply writeByte_of_ne
        rintro rfl
        exact object_not_own hcore hmem hlower hupper hquery

/-- A tame run keeps everything intact, and the buddy allocator keeps its side
at every step of it. -/
theorem run_hosted (hfuel : 2 ≤ fuel)
    (hhosted : Hosted layout shape others free regions caches client) {ops : List Op}
    (hall : AllSteps (step (settingOf shape realBuddy fuel))
      (Tame (settingOf shape realBuddy fuel)) client ops) :
    AllSteps (step (settingOf shape realBuddy fuel)) (Orderly (settingOf shape realBuddy fuel))
        client ops ∧
      ∃ final free' regions' caches', run (step (settingOf shape realBuddy fuel)) client ops =
        some final ∧ Hosted layout shape others free' regions' caches' final := by
  have hinit : ∃ free regions caches, Hosted layout shape others free regions caches client :=
    ⟨free, regions, caches, hhosted⟩
  have hkeep : ∀ (client : Client) op,
      (∃ free regions caches, Hosted layout shape others free regions caches client) →
      Tame (settingOf shape realBuddy fuel) client op →
      ∃ next, step (settingOf shape realBuddy fuel) client op = some next ∧
        ∃ free regions caches, Hosted layout shape others free regions caches next := by
    rintro client op ⟨free, regions, caches, hclient⟩ htame
    obtain ⟨next, free', regions', caches', hnext, hhosted'⟩ := hclient.step_hosted hfuel htame
    exact ⟨next, hnext, free', regions', caches', hhosted'⟩
  constructor
  · apply AllSteps.of_invariant
      (fun client => ∃ free regions caches, Hosted layout shape others free regions caches client)
      _ _ hinit hall
    · intro client op next hclient htame hnext
      obtain ⟨next', hnext', hhosted'⟩ := hkeep client op hclient htame
      rw [hnext, Option.some.injEq] at hnext'
      exact hnext' ▸ hhosted'
    · rintro client op ⟨free, regions, caches, hclient⟩ htame
      exact hclient.orderly htame
  · obtain ⟨final, hrun, free', regions', caches', hfinal⟩ := run_preserves
      (fun client => ∃ free regions caches, Hosted layout shape others free regions caches client)
      hkeep hinit hall
    exact ⟨final, free', regions', caches', hrun, hfinal⟩

end Hosted

/-- A slab that `slab_init` has set up is intact, with the blocks of the others. -/
theorem hosted_of_slabInit {layout : Layout} {others free : List Block} {memory memory₀ : Memory}
    {size slab : ℕ} (fuel : ℕ) (hrep : Represents layout memory free others)
    (hsize : size + sizeofSlabAllocatedObjectHeader < wordSize)
    (hpages : slabCachePages (size + sizeofSlabAllocatedObjectHeader) ≤ 2 ^ layout.depth)
    (hinit : slabInit realBuddy memory layout.alloc size = some (slab, memory₀))
    (hslab : slab ≠ 0) :
    ∃ shape free' region, ⟨realBuddy, fuel, slab, size⟩ = settingOf shape realBuddy fuel ∧
      Hosted layout shape others free' [region] [emptyCache shape.slab] ⟨memory₀, [slab], []⟩ := by
  rcases slabInit_onBuddy hrep hsize hpages with hnone |
    ⟨shape, memory', free', region, rfl, hsome, honBuddy, -, -⟩
  · rw [hinit, Option.some.injEq, Prod.mk.injEq] at hnone
    exact absurd hnone.1 hslab
  · rw [hinit, Option.some.injEq, Prod.mk.injEq] at hsome
    obtain ⟨rfl, rfl⟩ := hsome
    exact ⟨shape, free', region, rfl, honBuddy, List.Perm.refl _, List.Perm.refl _⟩

/-! ## A pool with a slab -/

/-- A well-sized pool with a root block of 256 pages. -/
def slabPool : Memory := ((buddyInit (fun _ => 0) 4096 2105344).getD (0, fun _ => 0)).2

/-- The pool with its first 64 pages given to someone else. -/
def lentPool : Memory := ((buddyAlloc slabPool 4096 64).getD (0, slabPool)).2

/-- The pool with a slab for objects of 100000 bytes, two to a cache. -/
def freshSlab : Memory := ((slabInit realBuddy lentPool 4096 100000).getD (0, slabPool)).2

/-- The slab in it. -/
def poolSetting : Setting := ⟨realBuddy, 2, 270336, 100000⟩

def freshClient : Client := ⟨freshSlab, [270336], []⟩

theorem buddyInit_slabPool :
    buddyInit (fun _ => 0) 4096 2105344 = some (4096, slabPool) := by
  have hfst : (buddyInit (fun _ => 0) 4096 2105344).map Prod.fst = some 4096 := by decide +kernel
  obtain ⟨⟨alloc, memory⟩, hinit, rfl⟩ := Option.map_eq_some_iff.mp hfst
  rw [slabPool, hinit]
  rfl

theorem buddyAlloc_slabPool : buddyAlloc slabPool 4096 64 = some (8192, lentPool) := by
  have hfst : (buddyAlloc slabPool 4096 64).map Prod.fst = some 8192 := by decide +kernel
  obtain ⟨⟨ptr, memory⟩, halloc, rfl⟩ := Option.map_eq_some_iff.mp hfst
  rw [lentPool, halloc]
  rfl

theorem slabInit_lentPool :
    slabInit realBuddy lentPool 4096 100000 = some (270336, freshSlab) := by
  have hfst : (slabInit realBuddy lentPool 4096 100000).map Prod.fst = some 270336 := by
    decide +kernel
  obtain ⟨⟨slab, memory⟩, hinit, rfl⟩ := Option.map_eq_some_iff.mp hfst
  rw [freshSlab, hinit]
  rfl

/-- The pool with the block of its first 64 pages given out. -/
theorem represents_lentPool :
    ∃ layout block free, layout.alloc = 4096 ∧ layout.depth = 8 ∧ layout.address block = 8192 ∧
      block.layer = 2 ∧ Represents layout lentPool free [block] := by
  have hsized : BuddyInit.WellSized slabPool 4096 :=
    ⟨8, by decide +kernel, by decide +kernel, by decide +kernel⟩
  obtain ⟨layout, halloc, -, -, hrep⟩ := BuddyInit.buddyInit_represents (by decide) (by decide)
    buddyInit_slabPool (by decide) hsized
  have hroot : 2 ^ layout.depth = 256 := by
    rw [← hrep.root_eq, halloc]
    decide +kernel
  rcases buddyAlloc_spec hrep (show 1 ≤ 64 by decide) with hnone |
    ⟨block, free, replied, hsome, hfit, hrep', -⟩
  · rw [halloc, buddyAlloc_slabPool] at hnone
    simp at hnone
  rw [halloc, buddyAlloc_slabPool, Option.some.injEq, Prod.mk.injEq] at hsome
  obtain ⟨haddress, rfl⟩ := hsome
  have hlayer : some block.layer = some 2 := by
    rw [← hfit, hroot]
    decide +kernel
  exact ⟨layout, block, free, halloc, Nat.pow_right_injective le_rfl (hroot.trans (by norm_num)),
    haddress.symm, Option.some.inj hlayer, hrep'⟩

/-- The slab and the buddy allocator are intact. -/
theorem hosted_freshClient :
    ∃ layout shape others free regions caches, poolSetting = settingOf shape realBuddy 2 ∧
      layout.alloc = 4096 ∧ Hosted layout shape others free regions caches freshClient := by
  obtain ⟨layout, block, free, halloc, hdepth, -, -, hrep⟩ := represents_lentPool
  obtain ⟨shape, free', region, hsetting, hhosted⟩ := hosted_of_slabInit 2 hrep
    (show 100000 + sizeofSlabAllocatedObjectHeader < wordSize by decide)
    (by rw [hdepth]; decide) (halloc ▸ slabInit_lentPool) (by decide)
  exact ⟨layout, shape, _, free', _, _, hsetting, halloc, hhosted⟩

end DoomsdayModules.SlabHosted
