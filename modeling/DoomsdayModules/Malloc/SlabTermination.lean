import DoomsdayModules.Malloc.SlabHosted
import DoomsdayModules.Malloc.SlabRelink

/-!
# The loop over full caches

The loop of `slab_cache_alloc` ends when the caches from `first_free_cache` on
end at a null pointer.  They do in every state of an orderly run, and still do
when the allocation itself moves its cache up.  A cache that was moved down is
its own `next_cache`, and once it is full the loop stays there.
-/

namespace DoomsdayModules.SlabTermination

open DoomsdayModules.ByteMemory DoomsdayModules.Runs DoomsdayModules.Util
open DoomsdayModules.DoublyLinked DoomsdayModules.Slab DoomsdayModules.SlabInvariant
open DoomsdayModules.SlabMoves DoomsdayModules.SlabGrowth DoomsdayModules.SlabOps
open DoomsdayModules.SlabRelink DoomsdayModules.SlabRuns DoomsdayModules.SlabHosted

variable {shape : Shape} {memory memory' : Memory} {slab cache : ℕ}

/-! ## Chains of caches -/

/-- Following `next_cache` from `cache` visits the caches and ends. -/
def Ends (memory : Memory) : ℕ → List ℕ → Prop
  | cache, [] => cache = 0
  | cache, visited :: rest => cache = visited ∧ Ends memory (nextCache memory visited) rest

theorem Ends.frame {caches : List ℕ} (hends : Ends memory cache caches)
    (hnext : ∀ visited ∈ caches, nextCache memory' visited = nextCache memory visited) :
    Ends memory' cache caches := by
  induction caches generalizing cache with
  | nil => exact hends
  | cons visited rest ih =>
      refine ⟨hends.1, ?_⟩
      rw [hnext visited List.mem_cons_self]
      exact ih hends.2 fun other hother => hnext other (List.mem_cons_of_mem _ hother)

/-- The loop visits each cache of the chain at most once. -/
theorem skipFullCaches_returns {caches : List ℕ}
    (hends : Ends memory (firstFreeCache memory slab) caches)
    (happart : ∀ visited ∈ caches, visited + 40 ≤ slab + 16 ∨ slab + 24 ≤ visited + 32)
    {fuel : ℕ} (hfuel : caches.length < fuel) :
    ∃ memory', skipFullCaches slab fuel memory = some memory' := by
  induction caches generalizing memory fuel with
  | nil =>
      obtain ⟨fuel, rfl⟩ := Nat.exists_eq_succ_of_ne_zero (Nat.ne_of_gt hfuel)
      have hnull : firstFreeCache memory slab = 0 := hends
      refine ⟨memory, ?_⟩
      simp only [skipFullCaches, hnull, ne_eq, not_true_eq_false, false_and, if_false]
  | cons visited rest ih =>
      obtain ⟨fuel, rfl⟩ := Nat.exists_eq_succ_of_ne_zero (Nat.ne_of_gt (Nat.zero_lt_of_lt hfuel))
      obtain ⟨hvisited, hrest⟩ := hends
      simp only [skipFullCaches, hvisited]
      split_ifs with hfull
      · have hnext : firstFreeCache (writeWord memory (slab + 16) (nextCache memory visited))
            slab = nextCache memory visited := readWord_writeWord_same (readWord_lt _ _)
        apply ih
        · rw [hnext]
          refine hrest.frame fun other hother => ?_
          have hother' := happart other (List.mem_cons_of_mem _ hother)
          exact readWord_writeWord_of_disjoint (by omega)
        · exact fun other hother => happart other (List.mem_cons_of_mem _ hother)
        · simpa using hfuel
      · exact ⟨memory, rfl⟩

/-! ## Allocations that return -/

/-- A word of the links of a cache is apart from `first_free_cache`. -/
theorem link_apart_firstFree {caches : List Cache} {cache : Cache}
    (hcore : Core shape memory caches) (hmem : cache ∈ caches) :
    shape.addr cache.base + 40 ≤ shape.slab + 16 ∨
      shape.slab + 24 ≤ shape.addr cache.base + 32 := by
  by_contra hoverlap
  have hlink : shape.LinkByte cache.base
      (max (shape.addr cache.base + 32) (shape.slab + 16)) := ⟨by omega, by omega⟩
  exact hcore.link_not_slab hmem hlink ⟨by omega, by simp only [sizeofSlabAlloc]; omega⟩

/-- The last cache and the one in front of it. -/
theorem last_links {front : List Cache} {prev last : Cache}
    (hcore : Core shape memory (front ++ [prev] ++ [last])) :
    prevCache memory (shape.addr last.base) = shape.addr prev.base ∧
      shape.addr last.base ≠ shape.addr prev.base := by
  have hlinked := hcore.linked
  have hnodup := hcore.addrs_nodup
  simp only [addrs, bases, List.map_append, List.map_cons, List.map_nil, List.append_assoc,
    List.cons_append, List.nil_append] at hlinked
  simp only [addrs, bases, List.map_append, List.map_cons, List.map_nil,
    List.nodup_append] at hnodup
  exact ⟨hlinked.adjacent.2,
    fun hsame => hnodup.2.2 (shape.addr prev.base) (by simp) _ (by simp) hsame.symm⟩

/-- After a move up of the last cache the chain is the cache and the one it overtook. -/
theorem settleUp_ends {before : List Cache} {cache : Cache}
    (hready : Ready shape memory before cache) :
    ∃ caches : List Cache, caches.length ≤ 2 ∧ (∀ visited ∈ caches, visited ∈ before ++ [cache]) ∧
      Ends (settleUp (countObject memory (shape.addr cache.base)) shape.slab
          (shape.addr cache.base))
        (firstFreeCache (settleUp (countObject memory (shape.addr cache.base)) shape.slab
          (shape.addr cache.base)) shape.slab) (addrs shape caches) := by
  obtain ⟨hfirst, hlinks⟩ := countObject_spares hready
  obtain ⟨hcore, -, hnext⟩ := hready
  have hmem : cache ∈ before ++ [cache] := by simp
  have hcounted := hlinks cache hmem
  generalize countObject memory (shape.addr cache.base) = counted at *
  have hnext' : nextCache counted (shape.addr cache.base) = 0 := hcounted.1.trans hnext
  rw [settleUp]
  split_ifs with hmoves
  · rcases List.eq_nil_or_concat' before with rfl | ⟨front, prev, rfl⟩
    · have hroot : cache.base = shape.slab := Option.some.inj hcore.head_eq
      refine absurd ?_ hmoves.1
      rw [hcounted.2, hroot]
      exact hcore.head_prev
    · have hprevMem : prev ∈ front ++ [prev] ++ [cache] := by simp
      obtain ⟨hprev, hne⟩ := last_links hcore
      have happart := hcore.headers_apart hmem hprevMem hne
      have hlt := addr_lt (hcore.stop_lt hmem)
      have hprevLt := addr_lt (hcore.stop_lt hprevMem)
      rw [slabCacheMoveUp_eq (hcounted.2.trans hprev) (hcore.addr_pos hprevMem).ne' hlt
        (.inr happart)]
      have hfirst' : firstFreeCache (relinkUp counted (shape.addr cache.base)
          (shape.addr prev.base)) shape.slab = shape.addr cache.base := by
        refine Eq.trans (readWord_congr ?_) hfirst
        apply (relinkUp_unchangedOutside counted _ _).agreeOn
        rintro query hlower hupper (hlink | hlink)
        · exact hcore.link_not_slab hmem hlink ⟨by omega, by simp only [sizeofSlabAlloc]; omega⟩
        · exact hcore.link_not_slab hprevMem hlink
            ⟨by omega, by simp only [sizeofSlabAlloc]; omega⟩
      have hself := (relinkUp_links counted hlt hprevLt).2
      have hend : nextCache (relinkUp counted (shape.addr cache.base) (shape.addr prev.base))
          (shape.addr prev.base) = 0 := by
        refine (readWord_writeWord_of_disjoint (by omega)).trans ?_
        refine (readWord_writeWord_of_disjoint (by omega)).trans ?_
        exact (readWord_writeWord_same (readWord_lt _ _)).trans hnext'
      refine ⟨[cache, prev], by simp, by simp, ?_⟩
      rw [hfirst']
      exact ⟨rfl, hself, hend⟩
  · refine ⟨[cache], by simp, by simp, ?_⟩
    rw [hfirst]
    exact ⟨rfl, hnext'⟩

/-- An allocation from the last cache returns, whether or not the cache moves up. -/
theorem slabCacheAlloc_returns {before : List Cache} {cache : Cache} {fuel : ℕ} (hfuel : 3 ≤ fuel)
    (hready : Ready shape memory before cache) :
    ∃ result, slabCacheAlloc fuel memory shape.slab (shape.addr cache.base) = some result := by
  by_cases hfull : allocatedObjects memory (shape.addr cache.base) =
      maxObjects memory (shape.addr cache.base)
  · exact ⟨_, if_pos hfull⟩
  · obtain ⟨caches, hlength, hsubset, hends⟩ := settleUp_ends hready
    have happart : ∀ visited ∈ addrs shape caches,
        visited + 40 ≤ shape.slab + 16 ∨ shape.slab + 24 ≤ visited + 32 := by
      intro visited hvisited
      obtain ⟨other, hother, rfl⟩ := mem_addrs.mp hvisited
      exact link_apart_firstFree hready.core (hsubset other hother)
    have hshort : (addrs shape caches).length < fuel := by
      simp only [addrs, bases, List.length_map]
      omega
    obtain ⟨skipped, hskip⟩ := skipFullCaches_returns hends happart hshort
    rw [slabCacheAlloc_of_room hfull, hskip]
    exact ⟨_, rfl⟩

theorem slabAlloc_returns {buddy : BuddyOps} {caches : List Cache} {taken fuel : ℕ}
    {replied : Memory} (hfuel : 3 ≤ fuel) (hsettled : Settled shape memory caches)
    (hask : askBuddy buddy memory shape.slab = some (taken, replied))
    (hsound : SoundReply shape memory caches taken replied) :
    ∃ result, slabAlloc fuel buddy memory shape.slab = some result := by
  simp only [slabAlloc, if_neg shape.slab_pos.ne', Option.bind_eq_bind]
  rcases growSlab_spec hsettled hask hsound with ⟨hgrow, -, -⟩ |
    ⟨before, last, grown, hgrow, hready, -⟩
  · simp only [hgrow, Option.bind_some, if_pos]
    exact ⟨_, rfl⟩
  · have haddr := (hready.core.addr_pos (show last ∈ before ++ [last] by simp)).ne'
    simp only [hgrow, Option.bind_some, if_neg haddr]
    exact slabCacheAlloc_returns hfuel hready

/-! ## Runs -/

/-- A legal allocation returns, from whatever state with an intact slab. -/
theorem slabAlloc_returns_of_holds {buddy : BuddyOps} {fuel : ℕ} {caches : List Cache}
    {client : Client} (hholds : Holds shape caches client)
    (hlegal : Legal (settingOf shape buddy fuel) client .alloc) {enough : ℕ} (henough : 3 ≤ enough) :
    ∃ result, slabAlloc enough buddy client.memory shape.slab = some result := by
  obtain ⟨taken, replied, hask, hspares, hfresh⟩ := hlegal
  exact slabAlloc_returns henough hholds.settled hask
    (soundReply_of_legal hholds hspares hfresh)

/-- In every run in which no cache changes places with a neighbour, and the
last cache is destroyed only with nothing behind it, the next `slab_alloc`
returns at every point, also when it moves its cache up. -/
theorem slabAlloc_returns_of_orderly {setting : Setting} {memory memory₀ : Memory}
    {buddyPtr : ℕ} (hsize : setting.size + sizeofSlabAllocatedObjectHeader < wordSize)
    (hfuel : 2 ≤ setting.fuel) (hplaced : Placed setting buddyPtr)
    (hinit : slabInit setting.buddy memory buddyPtr setting.size = some (setting.slab, memory₀))
    {ops : List Op}
    (hrun : AllSteps (step setting) (Orderly setting) ⟨memory₀, [setting.slab], []⟩ ops) :
    ∀ done, done <+: ops → ∃ client,
      run (step setting) ⟨memory₀, [setting.slab], []⟩ done = some client ∧
      (Legal setting client .alloc → ∀ fuel, 3 ≤ fuel →
        ∃ result, slabAlloc fuel setting.buddy client.memory setting.slab = some result) := by
  obtain ⟨shape, hsetting, hholds, -⟩ := slabInit_holds hsize hplaced hinit
  intro done hdone
  obtain ⟨client, hreached, caches, hclient⟩ := run_preserves_throughout
    (fun client => ∃ caches, Holds shape caches client)
    (fun client op ⟨caches, hclient⟩ horderly => by
      rw [hsetting] at horderly ⊢
      obtain ⟨next, caches', hnext, hholds', -⟩ := step_holds hfuel hclient horderly
      exact ⟨next, hnext, caches', hholds'⟩)
    ⟨_, hholds⟩ hrun done hdone
  refine ⟨client, hreached, fun hlegal fuel hfuel => ?_⟩
  rw [hsetting] at hlegal ⊢
  exact slabAlloc_returns_of_holds hclient hlegal hfuel

theorem slabAlloc_returns_freshClient :
    ∃ client, run (step poolSetting) freshClient
        [.alloc, .alloc, .alloc, .write 370473 7, .free 270464] = some client ∧
      (Legal poolSetting client .alloc → ∀ fuel, 3 ≤ fuel →
        ∃ result, slabAlloc fuel poolSetting.buddy client.memory poolSetting.slab = some result) := by
  obtain ⟨layout, shape, others, free, regions, caches, hsetting, -, hhosted⟩ :=
    hosted_freshClient
  have htame : AllSteps (step poolSetting) (Tame poolSetting) freshClient
      [.alloc, .alloc, .alloc, .write 370473 7, .free 270464] := by decide +kernel
  have horderly := (hhosted.run_hosted le_rfl (hsetting ▸ htame)).1
  rw [← hsetting] at horderly
  exact slabAlloc_returns_of_orderly (by decide) le_rfl ⟨by decide, by decide, by decide⟩
    slabInit_lentPool horderly _ (List.prefix_refl _)

/-! ## A cache that is its own successor -/

/-- The loop stays at a full cache that is its own `next_cache`. -/
theorem skipFullCaches_self_loop (hfirst : firstFreeCache memory slab = cache)
    (hne : cache ≠ 0) (hfull : allocatedObjects memory cache = maxObjects memory cache)
    (hnext : nextCache memory cache = cache)
    (happart : cache + 64 ≤ slab + 16 ∨ slab + 24 ≤ cache) (fuel : ℕ) :
    skipFullCaches slab fuel memory = none := by
  induction fuel generalizing memory with
  | zero => rfl
  | succ fuel ih =>
      have hlt : cache < 2 ^ 64 := hfirst ▸ readWord_lt _ _
      simp only [skipFullCaches, hfirst, if_pos (And.intro hne hfull), hnext]
      apply ih
      · exact readWord_writeWord_same hlt
      · have hallocated : allocatedObjects (writeWord memory (slab + 16) cache) cache =
            allocatedObjects memory cache := readWord_writeWord_of_disjoint (by omega)
        have hmax : maxObjects (writeWord memory (slab + 16) cache) cache =
            maxObjects memory cache := readWord_writeWord_of_disjoint (by omega)
        rw [hallocated, hmax, hfull]
      · exact (readWord_writeWord_of_disjoint (by omega)).trans hnext

/-- The root cache is emptied in front of a cache with one object. -/
def hangingOps : List Op :=
  [.alloc, .alloc, .alloc, .free 270464, .free 370472, .alloc, .alloc]

def hangingClient : Client := (run (step poolSetting) freshClient hangingOps).getD freshClient

theorem legal_hanging :
    AllSteps (step poolSetting) (Legal poolSetting) freshClient hangingOps := by
  obtain ⟨layout, shape, others, free, regions, caches, hsetting, -, hhosted⟩ :=
    hosted_freshClient
  have htame : AllSteps (step poolSetting) (Tame poolSetting) freshClient
      [.alloc, .alloc, .alloc, .free 270464] := by decide +kernel
  have horderly := (hhosted.run_hosted le_rfl (hsetting ▸ htame)).1
  rw [← hsetting] at horderly
  have hquiet : AllSteps (step poolSetting) (Quiet poolSetting)
      ((run (step poolSetting) freshClient
        [.alloc, .alloc, .alloc, .free 270464]).getD freshClient)
      [.free 370472, .alloc, .alloc] := by decide +kernel
  refine (horderly.mono fun _ _ hop => hop.1).append fun reached hreached => ?_
  rw [hreached, Option.getD_some] at hquiet
  exact hquiet.mono fun _ _ => legal_of_quiet

/-- An allocation that fills a cache which is its own successor. -/
theorem slabAlloc_self_loop {buddy : BuddyOps} (hslab : slab ≠ 0)
    (hfirst : firstFreeCache memory slab = cache) (hne : cache ≠ 0)
    (hroom : allocatedObjects memory cache ≠ maxObjects memory cache)
    (hstays : ¬ overtakesPrev (countObject memory cache) cache)
    (hfull : allocatedObjects (countObject memory cache) cache =
      maxObjects (countObject memory cache) cache)
    (hnext : nextCache memory cache = cache)
    (happart : cache + 64 ≤ slab + 16 ∨ slab + 24 ≤ cache) (fuel : ℕ) :
    slabAlloc fuel buddy memory slab = none := by
  have hfirst' : firstFreeCache (countObject memory cache) slab = cache :=
    (readWord_writeWord_of_disjoint (by omega)).trans hfirst
  have hnext' : nextCache (countObject memory cache) cache = cache :=
    (readWord_writeWord_of_disjoint (by omega)).trans hnext
  have hskip := skipFullCaches_self_loop hfirst' hne hfull hnext' happart fuel
  simp only [slabAlloc, if_neg hslab, growSlab, hfirst, Option.bind_eq_bind,
    Option.bind_some, if_neg hne]
  rw [slabCacheAlloc_of_room hroom, settleUp, if_neg hstays, hskip, Option.map_none]

/-- The next allocation fills the root cache, which is its own successor. -/
theorem slabAlloc_hanging (fuel : ℕ) :
    slabAlloc fuel poolSetting.buddy hangingClient.memory poolSetting.slab = none := by
  have hfirst : firstFreeCache hangingClient.memory poolSetting.slab = 270384 := by decide +kernel
  have hroom : allocatedObjects hangingClient.memory 270384 ≠
      maxObjects hangingClient.memory 270384 := by decide +kernel
  have hstays : ¬ overtakesPrev (countObject hangingClient.memory 270384) 270384 := by
    decide +kernel
  have hfull : allocatedObjects (countObject hangingClient.memory 270384) 270384 =
      maxObjects (countObject hangingClient.memory 270384) 270384 := by decide +kernel
  have hnext : nextCache hangingClient.memory 270384 = 270384 := by decide +kernel
  generalize hangingClient.memory = memory at *
  exact slabAlloc_self_loop (by decide) hfirst (by decide) hroom hstays hfull hnext (by decide) fuel

/-- After the root cache was moved down and filled again, `slab_alloc` runs for ever. -/
theorem slabAlloc_hangs :
    ¬ ∀ (setting : Setting) (memory memory₀ : Memory) (buddyPtr : ℕ) (ops : List Op),
      2 ≤ setting.fuel → Placed setting buddyPtr →
      slabInit setting.buddy memory buddyPtr setting.size = some (setting.slab, memory₀) →
      AllSteps (step setting) (Legal setting) ⟨memory₀, [setting.slab], []⟩ ops →
      ∀ done, done <+: ops → ∀ client,
        run (step setting) ⟨memory₀, [setting.slab], []⟩ done = some client →
        Legal setting client .alloc → ∃ fuel result,
          slabAlloc fuel setting.buddy client.memory setting.slab = some result := by
  intro hclaim
  have hdefined : (run (step poolSetting) freshClient hangingOps).isSome := by decide +kernel
  have hquiet : Quiet poolSetting hangingClient .alloc := by decide +kernel
  have hhangs := slabAlloc_hanging
  obtain ⟨client, hrun⟩ := Option.isSome_iff_exists.mp hdefined
  have hclient : hangingClient = client := by rw [hangingClient, hrun, Option.getD_some]
  rw [hclient] at hquiet hhangs
  obtain ⟨fuel, result, hresult⟩ := hclaim poolSetting lentPool freshSlab 4096 _ le_rfl
    ⟨by decide, by decide, by decide⟩ slabInit_lentPool legal_hanging _ (List.prefix_refl _)
    client hrun (legal_of_quiet hquiet)
  rw [hhangs] at hresult
  exact absurd hresult (by simp)

end DoomsdayModules.SlabTermination
