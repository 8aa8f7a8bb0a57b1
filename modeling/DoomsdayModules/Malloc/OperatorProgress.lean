import DoomsdayModules.Malloc.OperatorRuns

/-!
# No operator waits forever

A thread waits for the one that initialises the allocator, or for the owner of the
mutex.  Neither of them waits for anybody, so moves alone bring every call to its end.
-/

namespace DoomsdayModules.OperatorProgress

open DoomsdayModules.ByteMemory DoomsdayModules.Mutexes DoomsdayModules.Buddy
open DoomsdayModules.Slab DoomsdayModules.PenguinMalloc DoomsdayModules.Operators
open DoomsdayModules.OperatorRuns

variable {fuel thread : ℕ} {process : Process} {call : Call}

/-! ## Moves -/

/-- How many moves a thread has in front of it when nobody holds it up. -/
def remaining : Task → ℕ
  | .outside => 0
  | .returning _ _ => 1
  | .unlocking _ _ => 2
  | .inside _ => 3
  | .locking _ => 4
  | .carving _ => 5
  | .preparing _ => 6
  | .mapping _ => 7
  | .once _ => 8

/-- A thread is held up by the one that initialises, or by the owner of the mutex. -/
def HeldUp (process : Process) (thread : ℕ) : Prop :=
  match process.tasks thread with
  | .once _ => ∃ runner, process.gInitOnce = .running runner
  | .locking _ => process.gMutex ≠ none
  | _ => False

theorem step_move (hfailed : process.failed = false) (thread : ℕ) (mapped : Option ℕ) :
    step fuel process (.move thread mapped) = moveStep fuel process thread mapped := by
  unfold step
  exact if_neg (by rw [hfailed]; exact Bool.false_ne_true)

/-- A thread that is not held up gets closer to its end. -/
theorem remaining_moveStep (fuel base : ℕ) (hcall : process.tasks thread ≠ .outside)
    (hfree : ¬ HeldUp process thread) :
    (moveStep fuel process thread (some base)).failed = true ∨
      remaining ((moveStep fuel process thread (some base)).tasks thread) <
        remaining (process.tasks thread) := by
  rw [HeldUp] at hfree
  rw [moveStep]
  cases htask : process.tasks thread with
  | outside => exact absurd htask hcall
  | once call =>
      simp only [htask] at hfree
      cases honce : process.gInitOnce with
      | untouched => exact .inr (by simp [Process.setTask, remaining])
      | running runner => exact absurd ⟨runner, honce⟩ hfree
      | done => exact .inr (by simp [remaining])
  | mapping call => exact .inr (by simp [Process.setTask, remaining])
  | preparing call =>
      cases hinit : buddyInit process.memory process.gHeapBase (process.gHeapBase + heapSize) with
      | none => exact .inl rfl
      | some reply => exact .inr (by simp [Process.setTask, remaining])
  | carving call =>
      cases hinit : penguinMallocInit realBuddy process.memory process.gAlloc with
      | none => exact .inl rfl
      | some reply => exact .inr (by simp [Process.setTask, remaining])
  | locking call =>
      simp only [htask] at hfree
      cases hmutex : process.gMutex with
      | some owner => exact absurd (by rw [hmutex]; exact Option.some_ne_none _) hfree
      | none => exact .inr (by simp [Process.setTask, remaining])
  | inside call =>
      cases hreply : callAllocator fuel process.globals process.memory call with
      | none => exact .inl (by simp only [hreply])
      | some reply => exact .inr (by simp [hreply, Process.setTask, remaining])
  | unlocking call ptr => exact .inr (by simp [Process.setTask, remaining])
  | returning call ptr => exact .inr (by simp [Process.setTask, remaining])

/-- A move leaves the other threads where they are. -/
theorem tasks_moveStep (fuel : ℕ) (process : Process) {other : ℕ} (mapped : Option ℕ)
    (hother : other ≠ thread) :
    (moveStep fuel process thread mapped).tasks other = process.tasks other := by
  rw [moveStep]
  repeat' split
  all_goals first | rfl | simp [Process.setTask, hother]

/-- The one that initialises stays at it or is done. -/
theorem initialises_moveStep (base : ℕ) (hinside : initialises (process.tasks thread)) :
    (moveStep fuel process thread (some base)).failed = true ∨
      (moveStep fuel process thread (some base)).gInitOnce = .done ∨
      initialises ((moveStep fuel process thread (some base)).tasks thread) := by
  rw [moveStep]
  cases htask : process.tasks thread with
  | mapping call => exact .inr (.inr (by simp [Process.setTask, initialises]))
  | preparing call =>
      cases hinit : buddyInit process.memory process.gHeapBase (process.gHeapBase + heapSize) with
      | none => exact .inl rfl
      | some reply => exact .inr (.inr (by simp [Process.setTask, initialises]))
  | carving call =>
      cases hinit : penguinMallocInit realBuddy process.memory process.gAlloc with
      | none => exact .inl rfl
      | some reply => exact .inr (.inl rfl)
  | outside | once _ | locking _ | inside _ | unlocking _ _ | returning _ _ =>
      rw [htask] at hinside
      cases hinside

/-- The owner of the mutex stays in its section or leaves it. -/
theorem holds_moveStep (base : ℕ) (hinside : holds process thread = some ()) :
    (moveStep fuel process thread (some base)).failed = true ∨
      (moveStep fuel process thread (some base)).gMutex = none ∨
      holds (moveStep fuel process thread (some base)) thread = some () := by
  rw [holds] at hinside
  rw [moveStep]
  cases htask : process.tasks thread with
  | inside call =>
      cases hreply : callAllocator fuel process.globals process.memory call with
      | none => exact .inl (by simp only [hreply])
      | some reply => exact .inr (.inr (by simp [hreply, holds, Process.setTask, taskHolds]))
  | unlocking call ptr => exact .inr (.inl rfl)
  | outside | once _ | mapping _ | preparing _ | carving _ | locking _ | returning _ _ =>
      rw [htask] at hinside
      cases hinside

/-- A move, with memory where it asks for some. -/
def IsMove (base : ℕ) (op : Op) : Prop := ∃ thread, op = .move thread (some base)

/-- The process has failed, or a goal is met and a thread is still where it was. -/
def Unless (goal : Process → Prop) (thread : ℕ) (task : Task) (process : Process) : Prop :=
  process.failed = true ∨ process.tasks thread = task ∧ goal process

/-- A thread whose moves lead to a goal reaches it while another one waits. -/
theorem exists_moved (fuel base : ℕ) (goal inside : Process → Prop) {holder : ℕ}
    (hother : thread ≠ holder)
    (hmove : ∀ process, inside process → process.tasks holder ≠ .outside ∧
      ¬ HeldUp process holder ∧ ((moveStep fuel process holder (some base)).failed = true ∨
        goal (moveStep fuel process holder (some base)) ∨
        inside (moveStep fuel process holder (some base))))
    (hfailed : process.failed = false) (hinside : inside process) :
    ∃ moves : List Op, (∀ op ∈ moves, IsMove base op) ∧
      Unless goal thread (process.tasks thread) (execute fuel process moves) := by
  refine Schedules.exists_reaching (step fuel)
    (fun next => next.failed = false ∧ next.tasks thread = process.tasks thread ∧ inside next) _
    (fun next => remaining (next.tasks holder)) ?_ ⟨hfailed, rfl, hinside⟩
  rintro next ⟨hnext, htask, hstill⟩
  obtain ⟨hcall, hfree, hreached⟩ := hmove next hstill
  have hkept := (tasks_moveStep fuel next (some base) hother).trans htask
  refine ⟨[.move holder (some base)], by simp [IsMove], ?_⟩
  rw [List.foldl_cons, List.foldl_nil, step_move hnext]
  cases hfails : (moveStep fuel next holder (some base)).failed with
  | true => exact .inl (.inl hfails)
  | false =>
      rw [hfails] at hreached
      rcases hreached with hfail | hgoal | hinside
      · cases hfail
      · exact .inl (.inr ⟨hkept, hgoal⟩)
      · have hless := remaining_moveStep fuel base hcall hfree
        rw [hfails] at hless
        exact .inr ⟨⟨rfl, hkept, hinside⟩, hless.resolve_left Bool.false_ne_true⟩

theorem busy_of_initialises (hinside : initialises (process.tasks thread)) :
    process.tasks thread ≠ .outside ∧ ¬ HeldUp process thread := by
  rw [HeldUp]
  cases htask : process.tasks thread with
  | mapping _ | preparing _ | carving _ => exact ⟨fun hout => (by cases hout), not_false⟩
  | _ =>
      rw [htask] at hinside
      cases hinside

theorem busy_of_holds (hinside : holds process thread = some ()) :
    process.tasks thread ≠ .outside ∧ ¬ HeldUp process thread := by
  rw [holds] at hinside
  rw [HeldUp]
  cases htask : process.tasks thread with
  | inside _ | unlocking _ _ => exact ⟨fun hout => (by cases hout), not_false⟩
  | _ =>
      rw [htask] at hinside
      cases hinside

theorem Unless.imp {goal weaker : Process → Prop} {task : Task}
    (hunless : Unless goal thread task process)
    (himp : ∀ process, process.tasks thread = task → goal process → weaker process) :
    Unless weaker thread task process := by
  rcases hunless with hfails | ⟨hstill, hgoal⟩
  · exact .inl hfails
  · exact .inr ⟨hstill, himp process hstill hgoal⟩

/-- The thread that initialises gets done while another one waits for it. -/
theorem exists_ready (base : ℕ) (hlinearised : Linearised fuel process)
    (hfailed : process.failed = false) (htask : process.tasks thread = .once call) {runner : ℕ}
    (honce : process.gInitOnce = .running runner) :
    ∃ moves : List Op, (∀ op ∈ moves, IsMove base op) ∧
      Unless (fun next => next.gInitOnce = .done) thread (.once call)
        (execute fuel process moves) := by
  have hrunner := (hlinearised.initialised.runner runner).mpr honce
  have hother : thread ≠ runner := fun hsame => by
    rw [← hsame, htask] at hrunner
    cases hrunner
  rw [← htask]
  apply exists_moved fuel base _ (fun next => initialises (next.tasks runner)) hother _ hfailed
    hrunner
  intro next hinside
  have hbusy := busy_of_initialises hinside
  exact ⟨hbusy.1, hbusy.2, initialises_moveStep base hinside⟩

/-- The owner of the mutex gives it back while another thread waits for it. -/
theorem exists_unlocked (base : ℕ) (hlinearised : Linearised fuel process)
    (hfailed : process.failed = false) (htask : process.tasks thread = .locking call)
    (htaken : process.gMutex ≠ none) :
    ∃ moves : List Op, (∀ op ∈ moves, IsMove base op) ∧
      Unless (fun next => next.gMutex = none) thread (.locking call)
        (execute fuel process moves) := by
  obtain ⟨owner, howner⟩ : ∃ owner, holds process owner = some () :=
    hlinearised.owned.exists_holder htaken
  have hother : thread ≠ owner := fun hsame => by
    rw [← hsame, holds, htask] at howner
    cases howner
  rw [← htask]
  apply exists_moved fuel base _ (fun next => holds next owner = some ()) hother _ hfailed howner
  intro next hinside
  have hbusy := busy_of_holds hinside
  exact ⟨hbusy.1, hbusy.2, holds_moveStep base hinside⟩

/-- Whoever holds a thread up can be moved out of its way. -/
theorem exists_freed (base : ℕ) (hlinearised : Linearised fuel process)
    (hfailed : process.failed = false) (thread : ℕ) :
    ∃ moves : List Op, (∀ op ∈ moves, IsMove base op) ∧
      Unless (fun next => ¬ HeldUp next thread) thread (process.tasks thread)
        (execute fuel process moves) := by
  by_cases hheld : HeldUp process thread
  · rw [HeldUp] at hheld
    cases htask : process.tasks thread with
    | once call =>
        rw [htask] at hheld
        obtain ⟨runner, honce⟩ := hheld
        obtain ⟨moves, hmoves, hready⟩ := exists_ready base hlinearised hfailed htask honce
        refine ⟨moves, hmoves, hready.imp fun next hstill hdone => ?_⟩
        simp only [HeldUp, hstill]
        rintro ⟨other, hrunning⟩
        exact Once.noConfusion (hrunning.symm.trans hdone)
    | locking call =>
        rw [htask] at hheld
        obtain ⟨moves, hmoves, hfree⟩ := exists_unlocked base hlinearised hfailed htask hheld
        refine ⟨moves, hmoves, hfree.imp fun next hstill hmutex => ?_⟩
        simp only [HeldUp, hstill]
        exact fun htaken => htaken hmutex
    | outside | mapping _ | preparing _ | carving _ | inside _ | unlocking _ _
    | returning _ _ =>
        rw [htask] at hheld
        exact hheld.elim
  · exact ⟨[], by simp, .inr ⟨rfl, hheld⟩⟩

/-- The process has failed, or the thread's call has ended. -/
def Ended (thread : ℕ) (process : Process) : Prop :=
  process.failed = true ∨ process.tasks thread = .outside

/-- A round of moves after which the call is closer to its end. -/
theorem exists_round (base : ℕ) (hlinearised : Linearised fuel process)
    (hbusy : ¬ Ended thread process) :
    ∃ moves : List Op, (∀ op ∈ moves, IsMove base op) ∧
      (Ended thread (execute fuel process moves) ∨
        remaining ((execute fuel process moves).tasks thread) <
          remaining (process.tasks thread)) := by
  obtain ⟨hfailed, hcall⟩ := not_or.mp hbusy
  obtain ⟨moves, hmoves, hfails | ⟨hstill, hfree⟩⟩ :=
    exists_freed base hlinearised (Bool.not_eq_true _ ▸ hfailed) thread
  · exact ⟨moves, hmoves, .inl (.inl hfails)⟩
  · cases hfails : (execute fuel process moves).failed with
    | true => exact ⟨moves, hmoves, .inl (.inl hfails)⟩
    | false =>
        refine ⟨moves ++ [.move thread (some base)], ?_, ?_⟩
        · intro op hop
          rcases List.mem_append.mp hop with hop | hop
          · exact hmoves op hop
          · exact ⟨thread, List.mem_singleton.mp hop⟩
        · have hlast : execute fuel process (moves ++ [.move thread (some base)]) =
              moveStep fuel (execute fuel process moves) thread (some base) :=
            List.foldl_append.trans (step_move hfails thread (some base))
          rw [← hstill] at hcall ⊢
          rw [hlast]
          exact (remaining_moveStep fuel base hcall hfree).imp_left .inl

end DoomsdayModules.OperatorProgress
