import DoomsdayModules.Malloc.SlabHosted

/-!
# The list of caches

The caches a slab holds form a doubly linked list from `first_cache` to
`last_cache`, closed at both ends, and `first_free_cache` is one of them or
null.  This holds at every point of a run in which no cache changes places with
a neighbour and the last cache is never destroyed: `slab_cache_destroy` does not
clear the `next_cache` of the cache in front of the one it drops.
-/

namespace DoomsdayModules.SlabList

open DoomsdayModules.ByteMemory DoomsdayModules.Runs DoomsdayModules.Util
open DoomsdayModules.DoublyLinked DoomsdayModules.Slab DoomsdayModules.SlabInvariant
open DoomsdayModules.SlabGrowth DoomsdayModules.SlabOps DoomsdayModules.SlabRuns
open DoomsdayModules.SlabHosted

/-- The headers of the held regions, in some order, are a list that
`next_cache` and `prev_cache` link in both directions and close at its ends. -/
structure WellLinked (setting : Setting) (client : Client) (listed : List ℕ) : Prop where
  held : listed.Perm (client.held.map setting.cacheAt)
  once : listed.Nodup
  first : listed.head? = some (firstCache client.memory setting.slab)
  last : listed.getLast? = some (lastCache client.memory setting.slab)
  linked : Links (nextCache client.memory) (prevCache client.memory) listed
  first_prev : prevCache client.memory (firstCache client.memory setting.slab) = 0
  last_next : nextCache client.memory (lastCache client.memory setting.slab) = 0
  first_free : firstFreeCache client.memory setting.slab = 0 ∨
    firstFreeCache client.memory setting.slab ∈ listed

variable {shape : Shape} {buddy : BuddyOps} {fuel : ℕ} {caches : List Cache} {client : Client}

/-- The list is well formed as long as the slab is intact and nothing is behind
its last cache. -/
theorem wellLinked_of_holds (hholds : Holds shape caches client)
    (hclosed : Closed shape client.memory) :
    WellLinked (settingOf shape buddy fuel) client (addrs shape caches) := by
  have hcore := hholds.settled.toCore
  have hfirst : firstCache client.memory shape.slab = shape.addr shape.slab := hcore.first_eq
  refine ⟨?_, hcore.addrs_nodup, ?_, hcore.last_eq, hcore.linked, ?_, hclosed, ?_⟩
  · exact (hholds.held_perm.map shape.addr).symm
  · have hhead := hcore.head_eq
    rw [settingOf, hfirst, addrs, List.head?_map, hhead, Option.map_some]
  · rw [settingOf, hfirst]
    exact hcore.head_prev
  · refine hholds.settled.first_free.imp_right fun hready => ?_
    have hlast := List.mem_of_getLast? hcore.last_eq
    rw [settingOf, hready.1]
    exact hlast

/-- In every run in which no cache changes places with a neighbour and the last
cache is not destroyed, the list of caches is well formed at every point. -/
theorem caches_wellLinked_of_keeps_last {setting : Setting} {memory memory₀ : Memory}
    {buddyPtr : ℕ} (hsize : setting.size + sizeofSlabAllocatedObjectHeader < wordSize)
    (hfuel : 2 ≤ setting.fuel) (hplaced : Placed setting buddyPtr)
    (hinit : slabInit setting.buddy memory buddyPtr setting.size = some (setting.slab, memory₀))
    {ops : List Op} (hrun : AllSteps (step setting) (fun client op => Legal setting client op ∧
      KeepsOrder setting client op ∧ ¬ DestroysLast setting client op)
      ⟨memory₀, [setting.slab], []⟩ ops) :
    ∀ done, done <+: ops → ∃ client,
      run (step setting) ⟨memory₀, [setting.slab], []⟩ done = some client ∧
      ∃ listed, WellLinked setting client listed := by
  obtain ⟨shape, hsetting, hholds, hclosed, -⟩ := slabInit_holds hsize hplaced hinit
  intro done hdone
  obtain ⟨client, hreached, caches, hclient, hclosed'⟩ :=
    run_preserves_throughout
      (fun client => ∃ caches, Holds shape caches client ∧ Closed shape client.memory)
      (fun client op ⟨caches, hclient, hclosed⟩ ⟨hlegal, hkeeps, hlast⟩ => by
        have hstale : SparesStaleNext setting client op := by
          cases op with
          | free ptr => exact fun hdestroys => absurd hdestroys hlast
          | alloc => trivial
          | write address byte => trivial
        have horderly : Orderly setting client op := ⟨hlegal, hkeeps, hstale⟩
        rw [hsetting] at horderly hlast ⊢
        obtain ⟨next, caches', hnext, hholds', hkept⟩ := step_holds hfuel hclient horderly
        exact ⟨next, hnext, caches', hholds', hkept hlast hclosed⟩)
      ⟨_, hholds, hclosed⟩ hrun done hdone
  refine ⟨client, hreached, addrs shape caches, ?_⟩
  rw [hsetting]
  exact wellLinked_of_holds hclient hclosed'

instance (setting : Setting) (client : Client) : ∀ op, Decidable (DestroysLast setting client op)
  | .alloc => isFalse id
  | .free _ => inferInstanceAs (Decidable (_ ∧ _))
  | .write _ _ => isFalse id

theorem caches_wellLinked_freshClient :
    ∃ client, run (step poolSetting) freshClient
        [.alloc, .alloc, .alloc, .write 370473 7, .free 270464] = some client ∧
      ∃ listed, WellLinked poolSetting client listed := by
  obtain ⟨layout, shape, others, free, regions, caches, hsetting, -, hhosted⟩ :=
    hosted_freshClient
  have htame : AllSteps (step poolSetting) (Tame poolSetting) freshClient
      [.alloc, .alloc, .alloc, .write 370473 7, .free 270464] := by decide +kernel
  have hkept : AllSteps (step poolSetting)
      (fun client op => ¬ DestroysLast poolSetting client op) freshClient
      [.alloc, .alloc, .alloc, .write 370473 7, .free 270464] := by decide +kernel
  have horderly := (hhosted.run_hosted le_rfl (hsetting ▸ htame)).1
  rw [← hsetting] at horderly
  exact caches_wellLinked_of_keeps_last (by decide) le_rfl ⟨by decide, by decide, by decide⟩
    slabInit_lentPool ((horderly.and hkept).mono fun _ _ hop => ⟨hop.1.1, hop.1.2.1, hop.2⟩) _
    (List.prefix_refl _)

/-- Destroying the last cache leaves the one in front of it with a stale
`next_cache`. -/
theorem caches_not_wellLinked_after_last :
    ¬ ∀ (setting : Setting) (memory memory₀ : Memory) (buddyPtr : ℕ) (ops : List Op),
      2 ≤ setting.fuel → Placed setting buddyPtr →
      slabInit setting.buddy memory buddyPtr setting.size = some (setting.slab, memory₀) →
      AllSteps (step setting) (Legal setting) ⟨memory₀, [setting.slab], []⟩ ops →
      ∀ done, done <+: ops → ∀ client,
        run (step setting) ⟨memory₀, [setting.slab], []⟩ done = some client →
        ∃ listed, WellLinked setting client listed := by
  intro hclaim
  obtain ⟨layout, shape, others, free, regions, caches, hsetting, -, hhosted⟩ :=
    hosted_freshClient
  have htame : AllSteps (step poolSetting) (Tame poolSetting) freshClient
      [.alloc, .alloc, .alloc, .free 532560] := by decide +kernel
  obtain ⟨horderly, client, -, -, -, hrun, -⟩ := hhosted.run_hosted le_rfl (hsetting ▸ htame)
  rw [← hsetting] at horderly hrun
  obtain ⟨listed, hlinked⟩ := hclaim poolSetting lentPool freshSlab 4096 _ le_rfl
    ⟨by decide, by decide, by decide⟩ slabInit_lentPool (horderly.mono fun _ _ hop => hop.1) _
    (List.prefix_refl _) client hrun
  have hclient : client = (run (step poolSetting) freshClient
      [.alloc, .alloc, .alloc, .free 532560]).getD freshClient := by rw [hrun, Option.getD_some]
  have hstale : nextCache client.memory (lastCache client.memory poolSetting.slab) ≠ 0 := by
    rw [hclient]
    decide +kernel
  exact hstale hlinked.last_next

end DoomsdayModules.SlabList
