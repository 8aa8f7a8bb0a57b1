import DoomsdayModules.Malloc.PenguinRuns

/-!
# Exhaustion

`penguin_malloc_init` records a class that the pool had no region for as a null
slab, and `pfalloc_init` a pool that is too small as a null allocator.  Neither
is checked before it is used: a request of such a class dereferences the null
slab.  A request that asks no null slab returns a block or `NULL` over every run
that keeps the heap intact.
-/

namespace DoomsdayModules.PenguinExhaustion

open DoomsdayModules.ByteMemory DoomsdayModules.Runs DoomsdayModules.Util
open DoomsdayModules.BuddyInvariant DoomsdayModules.Buddy DoomsdayModules.BuddyInit
open DoomsdayModules.Slab DoomsdayModules.PenguinMalloc DoomsdayModules.RequestSize
open DoomsdayModules.PenguinOrigin DoomsdayModules.PenguinHeap DoomsdayModules.PenguinRuns

/-- One of the calls for memory is passed a null slab or a null buddy allocator. -/
def DereferencesNull (fuel : ℕ) (globals : Globals) (memory : Memory) (size : ℕ) : Prop :=
  ∃ request ∈ requests (realAllocators fuel) globals memory size,
    match request with
    | .slab index => globals.slabs index = 0
    | .buddy _ => globals.buddy = 0

/-- The call returns a block or `NULL`, and dereferences no null allocator. -/
def Graceful (fuel : ℕ) (globals : Globals) (memory : Memory) (size : ℕ) : Prop :=
  (∃ ptr memory', penguinMalloc (realAllocators fuel) globals memory size = some (ptr, memory')) ∧
    ¬ DereferencesNull fuel globals memory size

/-- Every `penguin_malloc` is graceful. -/
def GracefulOp (fuel : ℕ) (globals : Globals) (client : Client) : Op → Prop
  | .malloc size => Graceful fuel globals client.memory size
  | _ => True

variable {layout : Layout} {globals : Globals} {client : Client} {memory : Memory} {fuel size : ℕ}

/-- A class without a slab is never served. -/
theorem hasSlab_of_graceful (hgraceful : Graceful fuel globals memory size) :
    HasSlab globals size := by
  intro hclass hnull
  apply hgraceful.2
  refine ⟨.slab (bestFitSlabIndex (withHeader size)), ?_, hnull⟩
  simp only [requests, if_pos hclass]
  exact List.mem_cons_self

theorem graceful_of_tame (hfuel : 2 ≤ fuel) (hsound : Sound layout globals client)
    (htame : TameMalloc globals client.memory size) :
    Graceful fuel globals client.memory size := by
  obtain ⟨free, classes, hheap⟩ := hsound.heap
  obtain ⟨taken, request, -, -, htake, -⟩ := penguinTake_heap hfuel hheap htame
  constructor
  · rw [penguinMalloc, htake]
    by_cases hnull : taken.mem = 0
    · exact ⟨0, taken.memory, by simp [hnull]⟩
    · exact ⟨_, _, by simp only [Option.bind_eq_bind, Option.bind_some, if_neg hnull]; rfl⟩
  · rintro ⟨request, hrequest, hnull⟩
    cases request with
    | buddy pages =>
        have hpos := layout.alloc_pos
        have hbuddy := hheap.buddy_eq
        dsimp only at hnull
        omega
    | slab index =>
        have hslab : index = bestFitSlabIndex (withHeader size) ∧
            bestFitSlabIndex (withHeader size) ≠ buddyIndex := by
          rcases penguinTake_cases htake with ⟨hclass, hindex, -, -, hrequests⟩ |
            ⟨replied, -, -, -, hrequests⟩
          · rw [hrequests, List.mem_singleton, Request.slab.injEq] at hrequest
            exact ⟨hrequest.trans hindex, hclass⟩
          · rw [hrequests] at hrequest
            split_ifs at hrequest with hclass
            · exact ⟨by simpa using hrequest, hclass⟩
            · simp at hrequest
        rw [hslab.1] at hnull
        exact htame.2.1 hslab.2 hnull

/-- A null buddy allocator is dereferenced by `penguin_malloc_init` already. -/
theorem penguinMallocInit_null (memory : Memory) : penguinMallocInit realBuddy memory 0 = none :=
  rfl

/-- In every run whose steps all meet the conditions, each request is served
gracefully; and no request of a class without a slab is served so. -/
theorem graceful_of_hasSlab {memory memory₀ : Memory} {poolBegin poolSize alloc fuel : ℕ}
    (hfuel : 2 ≤ fuel) (hpool : poolBegin + poolSize < wordSize)
    (hinit : pfallocInit memory poolBegin poolSize = some (alloc, memory₀)) (halloc : alloc ≠ 0)
    (hsized : WellSized memory₀ alloc) (hroot : 64 ≤ rootBlockSize memory₀ alloc) :
    ∃ globals memory₁, penguinMallocInit realBuddy memory₀ alloc = some (globals, memory₁) ∧
      (∀ ops, AllSteps (step (realAllocators fuel) globals)
        (fun client op => Legal client op ∧ Tame globals client op) ⟨memory₁, []⟩ ops →
        (∃ final, run (step (realAllocators fuel) globals) ⟨memory₁, []⟩ ops = some final) ∧
        AllSteps (step (realAllocators fuel) globals) (GracefulOp fuel globals)
          ⟨memory₁, []⟩ ops) ∧
      ∀ memory size, Graceful fuel globals memory size → HasSlab globals size := by
  obtain ⟨layout, rfl, -, -, hrep⟩ :=
    buddyInit_represents (Nat.le_add_right _ _) hpool hinit halloc hsized
  rw [hrep.root_eq] at hroot
  obtain ⟨globals, memory₁, hready, hsound⟩ := penguinMallocInit_sound hroot hrep
  refine ⟨globals, memory₁, hready, fun ops hrun => ⟨?_, ?_⟩, fun _ _ => hasSlab_of_graceful⟩
  · obtain ⟨final, hfinal, -⟩ := run_preserves (Sound layout globals)
      (fun _ _ hinv hstep => step_sound hfuel hinv hstep.1 hstep.2) hsound hrun
    exact ⟨final, hfinal⟩
  · refine AllSteps.of_invariant (Sound layout globals) ?_ ?_ hsound hrun
    · intro client op next hinv hstep hnext
      obtain ⟨next', hnext', hinv'⟩ := step_sound hfuel hinv hstep.1 hstep.2
      obtain rfl : next' = next := Option.some.inj (hnext'.symm.trans hnext)
      exact hinv'
    · intro client op hinv hstep
      cases op with
      | malloc size => exact graceful_of_tame hfuel hinv hstep.2
      | free ptr => trivial
      | write address byte => trivial

theorem graceful_wideMemory :
    AllSteps (step (realAllocators 2) wideGlobals) (GracefulOp 2 wideGlobals) ⟨wideMemory, []⟩
      [.malloc 20, .malloc 5000, .malloc 3000, .free 2105352, .malloc 2000000, .malloc 5000000,
        .malloc (2 ^ 30)] := by
  obtain ⟨globals, memory₁, hready, hruns, -⟩ :=
    graceful_of_hasSlab (show 2 ≤ 2 from le_rfl) (show 4096 + 8388608 < wordSize by decide)
      buddyInit_widePool (by decide) widePool_wellSized rootBlockSize_widePool
  obtain ⟨rfl, rfl⟩ : wideGlobals = globals ∧ wideMemory = memory₁ := by
    simpa using penguinMallocInit_widePool.symm.trans hready
  exact (hruns _ (by decide +kernel)).2

/-- A pool with regions for four classes only: the class of 1000 bytes has no
slab, and is asked all the same. -/
theorem not_graceful_without_slab :
    ¬ ∀ (memory memory₀ : Memory) (poolBegin poolSize alloc fuel : ℕ), 2 ≤ fuel →
      poolBegin + poolSize < wordSize →
      pfallocInit memory poolBegin poolSize = some (alloc, memory₀) → alloc ≠ 0 →
      WellSized memory₀ alloc → 64 ≤ rootBlockSize memory₀ alloc →
      ∃ globals memory₁, penguinMallocInit realBuddy memory₀ alloc = some (globals, memory₁) ∧
        ∀ ops, AllSteps (step (realAllocators fuel) globals) Legal ⟨memory₁, []⟩ ops →
          AllSteps (step (realAllocators fuel) globals) (GracefulOp fuel globals)
            ⟨memory₁, []⟩ ops := by
  intro hclaim
  have hsized : WellSized SlabHosted.slabPool 4096 :=
    ⟨8, by decide +kernel, by decide +kernel, by decide +kernel⟩
  have hplaced : pfallocInit (fun _ => 0) 4096 2101248 = some (4096, SlabHosted.slabPool) :=
    SlabHosted.buddyInit_slabPool
  obtain ⟨globals, memory₁, hready, hgraceful⟩ := hclaim _ _ _ _ _ 2 le_rfl (by decide) hplaced
    (by decide) hsized (by decide +kernel)
  have hnone : (penguinMallocInit realBuddy SlabHosted.slabPool 4096).map
      (fun ready => ready.1.slabs 5) = some 0 := by decide +kernel
  rw [hready, Option.map_some, Option.some.injEq] at hnone
  have hlegal : AllSteps (step (realAllocators 2) globals) Legal ⟨memory₁, []⟩ [.malloc 1000] :=
    ⟨show 1000 < wordSize by decide, fun _ _ => trivial⟩
  have hclass : bestFitSlabIndex (withHeader 1000) = 5 := by decide
  have hslab := hasSlab_of_graceful (hgraceful _ hlegal).1
  rw [HasSlab, hclass] at hslab
  exact hslab (by decide) hnone

end DoomsdayModules.PenguinExhaustion
