import DoomsdayModules.Core.Mutexes
import DoomsdayModules.Core.Runs
import DoomsdayModules.Core.Schedules
import DoomsdayModules.Malloc.Operators

/-!
# Schedules of the operators

Whatever the threads do in whatever order, the allocator is initialised once and
before its first use, its calls follow each other as if one client had made them, and
each thread gets the answers to its own calls.
-/

namespace DoomsdayModules.OperatorRuns

open Function DoomsdayModules.ByteMemory DoomsdayModules.Mutexes DoomsdayModules.Runs
open DoomsdayModules.Buddy DoomsdayModules.Slab DoomsdayModules.PenguinMalloc
open DoomsdayModules.RequestSize (penguinTake_cases)
open DoomsdayModules.PenguinOrigin (Client)
open DoomsdayModules.Operators

variable {fuel thread : ℕ} {process next : Process} {call : Call} {op : Op}

/-! ## What a step can do -/

/-- Why the process fails before the allocator is ready. -/
inductive Aborts (process : Process) (op : Op) : Prop
  | unmapped (thread : ℕ) (call : Call) : process.tasks thread = .mapping call →
      op = .move thread none → Aborts process op
  | unprepared (thread : ℕ) (call : Call) : process.tasks thread = .preparing call →
      buddyInit process.memory process.gHeapBase (process.gHeapBase + heapSize) = none →
      Aborts process op
  | uncarved (thread : ℕ) (call : Call) : process.tasks thread = .carving call →
      penguinMallocInit realBuddy process.memory process.gAlloc = none → Aborts process op

inductive Change (fuel : ℕ) (op : Op) (process : Process) : Process → Prop
  | stay : Change fuel op process process
  | abort : Aborts process op → Change fuel op process { process with failed := true }
  | crash (thread : ℕ) (call : Call) : process.tasks thread = .inside call →
      callAllocator fuel process.globals process.memory call = none →
      Change fuel op process { process with
        failed := true
        history := process.history.record process.gInitOnce (.called thread call 0) }
  | enter (thread : ℕ) (call : Call) : process.tasks thread = .outside → Change fuel op process
        { process.setTask thread (firstTask call) with
          history := { process.history with
            calls := process.history.calls ++ [(thread, call)] } }
  | claim (thread : ℕ) (call : Call) : process.tasks thread = .once call →
      process.gInitOnce = .untouched → Change fuel op process
        { process.setTask thread (.mapping call) with gInitOnce := .running thread }
  | pass (thread : ℕ) (call : Call) : process.tasks thread = .once call →
      process.gInitOnce = .done →
      Change fuel op process (process.setTask thread (.locking call))
  | map (thread : ℕ) (call : Call) (base : ℕ) : process.tasks thread = .mapping call →
      op = .move thread (some base) → Change fuel op process
        { process.setTask thread (.preparing call) with
          gHeapBase := base
          memory := mapAnonymous process.memory base }
  | prepare (thread : ℕ) (call : Call) (alloc : ℕ) (memory : Memory) :
      process.tasks thread = .preparing call →
      buddyInit process.memory process.gHeapBase (process.gHeapBase + heapSize) =
        some (alloc, memory) → Change fuel op process
        { process.setTask thread (.carving call) with gAlloc := alloc, memory := memory }
  | carve (thread : ℕ) (call : Call) (globals : Globals) (memory : Memory) :
      process.tasks thread = .carving call →
      penguinMallocInit realBuddy process.memory process.gAlloc = some (globals, memory) →
      Change fuel op process { process.setTask thread (.locking call) with
        globals := globals
        memory := memory
        gInitOnce := .done
        history := { process.history with start := memory } }
  | lock (thread : ℕ) (call : Call) : process.tasks thread = .locking call →
      process.gMutex = none → Change fuel op process
        { process.setTask thread (.inside call) with gMutex := some thread }
  | serve (thread : ℕ) (call : Call) (ptr : ℕ) (memory : Memory) :
      process.tasks thread = .inside call →
      callAllocator fuel process.globals process.memory call = some (ptr, memory) →
      Change fuel op process { process.setTask thread (.unlocking call ptr) with
        memory := memory
        history := process.history.record process.gInitOnce (.called thread call ptr) }
  | unlock (thread : ℕ) (call : Call) (ptr : ℕ) : process.tasks thread = .unlocking call ptr →
      Change fuel op process { process.setTask thread (.returning call ptr) with gMutex := none }
  | leave (thread : ℕ) (call : Call) (ptr : ℕ) : process.tasks thread = .returning call ptr →
      Change fuel op process { process.setTask thread .outside with
        history := { process.history with
          outcomes := process.history.outcomes ++ [(thread, outcome call ptr)] } }
  | write (address : ℕ) (byte : UInt8) : Change fuel op process { process with
      memory := writeByte process.memory address byte
      history := process.history.record process.gInitOnce (.wrote address byte) }

theorem change_moveStep (fuel : ℕ) (process : Process) (thread : ℕ) (mapped : Option ℕ) :
    Change fuel (.move thread mapped) process (moveStep fuel process thread mapped) := by
  rw [moveStep]
  cases htask : process.tasks thread with
  | outside => exact .stay
  | once call =>
      cases honce : process.gInitOnce with
      | untouched => exact .claim thread call htask honce
      | running other => exact .stay
      | done => exact .pass thread call htask honce
  | mapping call =>
      cases mapped with
      | none => exact .abort (.unmapped thread call htask rfl)
      | some base => exact .map thread call base htask rfl
  | preparing call =>
      cases hinit : buddyInit process.memory process.gHeapBase (process.gHeapBase + heapSize) with
      | none => simpa only [hinit] using .abort (.unprepared thread call htask hinit)
      | some reply => simpa only [hinit] using .prepare thread call reply.1 reply.2 htask hinit
  | carving call =>
      cases hinit : penguinMallocInit realBuddy process.memory process.gAlloc with
      | none => simpa only [hinit] using .abort (.uncarved thread call htask hinit)
      | some reply => simpa only [hinit] using .carve thread call reply.1 reply.2 htask hinit
  | locking call =>
      cases hmutex : process.gMutex with
      | none => exact .lock thread call htask hmutex
      | some owner => exact .stay
  | inside call =>
      cases hcall : callAllocator fuel process.globals process.memory call with
      | none => simpa only [hcall] using .crash thread call htask hcall
      | some reply => simpa only [hcall] using .serve thread call reply.1 reply.2 htask hcall
  | unlocking call ptr => exact .unlock thread call ptr htask
  | returning call ptr => exact .leave thread call ptr htask

theorem change_step (fuel : ℕ) (process : Process) (op : Op) :
    Change fuel op process (step fuel process op) := by
  unfold step
  split_ifs
  · exact .stay
  · cases op with
    | call thread call =>
        cases htask : process.tasks thread with
        | outside => simpa only [htask] using .enter thread call htask
        | _ => simpa only [htask] using .stay
    | move thread mapped => exact change_moveStep fuel process thread mapped
    | write address byte => exact .write address byte

/-! ## The mutex -/

/-- Whether a thread is between its lock and its unlock. -/
def taskHolds : Task → Option Unit
  | .inside _ | .unlocking _ _ => some ()
  | _ => none

def holds (process : Process) (thread : ℕ) : Option Unit := taskHolds (process.tasks thread)

/-- The owner of the mutex is the thread in its section. -/
def Owned (process : Process) : Prop := Exclusive (fun _ : Unit => process.gMutex) (holds process)

theorem holds_setTask (process : Process) (thread : ℕ) (task : Task) :
    holds (process.setTask thread task) = update (holds process) thread (taskHolds task) := by
  funext other
  by_cases hother : other = thread
  · subst hother
    simp [holds, Process.setTask]
  · simp [holds, Process.setTask, hother]

theorem update_unit (owner : Option ℕ) (next : Option ℕ) :
    update (fun _ : Unit => owner) () next = fun _ => next := by
  funext lock
  rw [update_self]

/-- A thread that stays outside of its section. -/
theorem Owned.stay {task : Task} (howned : Owned process)
    (htask : taskHolds (process.tasks thread) = taskHolds task) :
    Exclusive (fun _ : Unit => process.gMutex) (holds (process.setTask thread task)) := by
  rw [holds_setTask]
  exact Exclusive.stay howned htask

theorem taskHolds_firstTask (call : Call) : taskHolds (firstTask call) = none := by
  cases call <;> rfl

theorem owned_change (howned : Owned process) (hchange : Change fuel op process next) :
    Owned next := by
  cases hchange with
  | stay | abort _ | crash _ _ _ _ | write _ _ => exact howned
  | enter thread call htask => exact howned.stay (by rw [htask, taskHolds_firstTask]; rfl)
  | claim thread call htask _ | pass thread call htask _ | map thread call _ htask _
  | prepare thread call _ _ htask _ | carve thread call _ _ htask _
  | serve thread call _ _ htask _ | leave thread call _ htask =>
      exact howned.stay (by rw [htask]; rfl)
  | lock thread call htask hfree =>
      have hacquired : Exclusive (update (fun _ : Unit => process.gMutex) () (some thread))
          (update (holds process) thread (some ())) :=
        Exclusive.acquire howned hfree (by rw [holds, htask]; rfl)
      have hinside : holds (process.setTask thread (.inside call)) =
          update (holds process) thread (some ()) := holds_setTask process thread (.inside call)
      rw [update_unit, ← hinside] at hacquired
      exact hacquired
  | unlock thread call ptr htask =>
      have hreleased : Exclusive (update (fun _ : Unit => process.gMutex) () none)
          (update (holds process) thread none) :=
        Exclusive.release howned (by rw [holds, htask]; rfl)
      have houtside : holds (process.setTask thread (.returning call ptr)) =
          update (holds process) thread none := holds_setTask process thread (.returning call ptr)
      rw [update_unit, ← houtside] at hreleased
      exact hreleased

/-! ## The initialisation -/

/-- Whether a thread is in `init_allocator`. -/
def initialises : Task → Bool
  | .mapping _ | .preparing _ | .carving _ => true
  | _ => false

/-- Whether a thread is behind `pthread_once`. -/
def behindOnce : Task → Bool
  | .locking call | .inside call | .unlocking call _ | .returning call _ =>
      match call with
      | .new _ | .newNothrow _ => true
      | .delete _ => false
  | _ => false

/-- The thread that `g_init_once` is in the hands of is the one that initialises, and
nobody gets behind it before it is done. -/
structure InitialisedOnce (process : Process) : Prop where
  runner : ∀ thread, initialises (process.tasks thread) ↔ process.gInitOnce = .running thread
  behind : ∀ thread, behindOnce (process.tasks thread) → process.gInitOnce = .done

theorem initialises_firstTask (call : Call) : initialises (firstTask call) = false := by
  cases call <;> rfl

theorem behindOnce_firstTask (call : Call) : behindOnce (firstTask call) = false := by
  cases call <;> rfl

/-- A thread that stays in or outside of the initialisation, and passes `pthread_once`
only when that is done. -/
theorem InitialisedOnce.setTask {task : Task} (hinit : InitialisedOnce process)
    (hsame : initialises task = initialises (process.tasks thread))
    (hbehind : behindOnce task → process.gInitOnce = .done) :
    InitialisedOnce (process.setTask thread task) where
  runner := fun other => by
    by_cases hother : other = thread
    · rw [hother, Process.tasks_setTask, hsame]
      exact hinit.runner thread
    · rw [Process.tasks_setTask_of_ne process task hother]
      exact hinit.runner other
  behind := fun other hpassed => by
    by_cases hother : other = thread
    · rw [hother, Process.tasks_setTask] at hpassed
      exact hbehind hpassed
    · rw [Process.tasks_setTask_of_ne process task hother] at hpassed
      exact hinit.behind other hpassed

theorem initialisedOnce_change (hinit : InitialisedOnce process)
    (hchange : Change fuel op process next) : InitialisedOnce next := by
  have hkeeps : ∀ {thread : ℕ} (task : Task) {old : Task}, process.tasks thread = old →
      initialises task = initialises old → (behindOnce task → behindOnce old) →
      InitialisedOnce (process.setTask thread task) := fun _ _ htask hsame hbehind =>
    hinit.setTask (htask ▸ hsame) fun hpassed =>
      hinit.behind _ (htask ▸ hbehind hpassed)
  cases hchange with
  | stay => exact hinit
  | abort _ | crash _ _ _ _ | write _ _ => exact ⟨hinit.runner, hinit.behind⟩
  | enter thread call htask =>
      have hnext := hkeeps (firstTask call) htask (initialises_firstTask call) fun hpassed => by
        rw [behindOnce_firstTask] at hpassed
        cases hpassed
      exact ⟨hnext.runner, hnext.behind⟩
  | claim thread call htask honce =>
      constructor
      · intro other
        by_cases hother : other = thread
        · subst hother
          simp [initialises, Process.setTask]
        · have hnone : ¬ initialises (process.tasks other) := fun hinside => by
            have hrunning := (hinit.runner other).mp hinside
            rw [honce] at hrunning
            cases hrunning
          simp [Process.setTask, hother, hnone, Ne.symm hother]
      · intro other hpassed
        by_cases hother : other = thread
        · subst hother
          simp [behindOnce, Process.setTask] at hpassed
        · have hdone := hinit.behind other
            (process.tasks_setTask_of_ne (.mapping call) hother ▸ hpassed)
          rw [honce] at hdone
          cases hdone
  | pass thread call htask honce =>
      exact hinit.setTask (by rw [htask]; rfl) fun _ => honce
  | map thread call base htask _ =>
      have hnext := hkeeps (.preparing call) htask rfl id
      exact ⟨hnext.runner, hnext.behind⟩
  | prepare thread call alloc memory htask _ =>
      have hnext := hkeeps (.carving call) htask rfl id
      exact ⟨hnext.runner, hnext.behind⟩
  | carve thread call globals memory htask _ =>
      refine ⟨fun other => ?_, fun _ _ => rfl⟩
      have hrunning := (hinit.runner thread).mp (by rw [htask]; rfl)
      by_cases hother : other = thread
      · subst hother
        simp [initialises, Process.setTask]
      · have hnone : ¬ initialises (process.tasks other) := fun hinside => by
          have hsame := (hinit.runner other).mp hinside
          rw [hrunning] at hsame
          exact hother (Once.running.inj hsame).symm
        simp [Process.setTask, hother, hnone]
  | lock thread call htask hfree =>
      have hnext := hkeeps (.inside call) htask rfl id
      exact ⟨hnext.runner, hnext.behind⟩
  | serve thread call ptr memory htask hcall =>
      have hnext := hkeeps (.unlocking call ptr) htask rfl id
      exact ⟨hnext.runner, hnext.behind⟩
  | unlock thread call ptr htask =>
      have hnext := hkeeps (.returning call ptr) htask rfl id
      exact ⟨hnext.runner, hnext.behind⟩
  | leave thread call ptr htask =>
      have hnext := hkeeps .outside htask rfl fun h => by cases h
      exact ⟨hnext.runner, hnext.behind⟩

/-! ## Before and after -/

theorem record_done (history : History) (event : Event) :
    history.record .done event = { history with events := history.events ++ [event] } := rfl

theorem record_of_ne {once : Once} (honce : once ≠ .done) (history : History) (event : Event) :
    history.record once event = { history with early := history.early ++ [event] } := by
  cases once with
  | done => exact absurd rfl honce
  | untouched | running _ => rfl

/-- Until the allocator is ready all effects are early. -/
def Quiet (process : Process) : Prop :=
  process.failed = false → process.gInitOnce ≠ .done → process.history.events = []

theorem quiet_change (hquiet : Quiet process) (hchange : Change fuel op process next) :
    Quiet next := by
  cases hchange with
  | stay | enter _ _ _ | pass _ _ _ _ | map _ _ _ _ _ | prepare _ _ _ _ _ _ | lock _ _ _ _
  | unlock _ _ _ _ | leave _ _ _ _ => exact hquiet
  | abort _ | crash _ _ _ _ => exact fun hfailed => by cases hfailed
  | claim thread call _ honce =>
      exact fun hfailed _ => hquiet hfailed (by rw [honce]; exact Once.noConfusion)
  | carve _ _ _ _ _ _ => exact fun _ honce => absurd rfl honce
  | serve _ _ _ _ _ _ | write _ _ =>
      intro hfailed honce
      have honce : process.gInitOnce ≠ .done := honce
      rw [record_of_ne honce]
      exact hquiet hfailed honce

/-! ## One client -/

/-- The operation of a client that makes the call. -/
def callOp : Call → PenguinOrigin.Op
  | .new size | .newNothrow size => .malloc size
  | .delete ptr => .free ptr

def eventOp : Event → PenguinOrigin.Op
  | .called _ call _ => callOp call
  | .wrote address byte => .write address byte

/-- A client that has the effects one after the other. -/
def clientStep (fuel : ℕ) (globals : Globals) (client : Client) (event : Event) : Option Client :=
  PenguinOrigin.step (realAllocators fuel) globals client (eventOp event)

/-- The allocator answers the client as it answered the thread. -/
def Answered (fuel : ℕ) (globals : Globals) (client : Client) : Event → Prop
  | .called _ call ptr =>
      (callAllocator fuel globals client.memory call).map Prod.fst = some ptr
  | .wrote _ _ => True

/-- The effects since the allocator is ready are the run of one client, with the same
answers and the same memory at its end. -/
def Sequential (fuel : ℕ) (process : Process) : Prop :=
  process.failed = false → process.gInitOnce = .done → ∃ client,
    run (clientStep fuel process.globals) ⟨process.history.start, []⟩ process.history.events =
        some client ∧
      client.memory = process.memory ∧
      AllSteps (clientStep fuel process.globals) (Answered fuel process.globals)
        ⟨process.history.start, []⟩ process.history.events

/-- A request that the allocator answers is a step of its client. -/
theorem exists_step_of_penguinMalloc {globals : Globals} {client : Client} {size ptr : ℕ}
    {memory : Memory}
    (hmalloc : penguinMalloc (realAllocators fuel) globals client.memory size =
      some (ptr, memory)) :
    ∃ next, PenguinOrigin.step (realAllocators fuel) globals client (.malloc size) = some next ∧
      next.memory = memory := by
  obtain ⟨taken, htake⟩ : ∃ taken,
      penguinTake (realAllocators fuel) globals client.memory size = some taken := by
    simp only [penguinMalloc, Option.bind_eq_bind, Option.bind_eq_some_iff] at hmalloc
    obtain ⟨taken, htake, -⟩ := hmalloc
    exact ⟨taken, htake⟩
  obtain ⟨request, hlast⟩ : ∃ request,
      (requests (realAllocators fuel) globals client.memory size).getLast? = some request := by
    rcases penguinTake_cases htake with ⟨-, -, -, -, hrequests⟩ | ⟨replied, -, -, -, hrequests⟩
    · rw [hrequests]
      exact ⟨_, rfl⟩
    · rw [hrequests]
      split_ifs
      · exact ⟨_, rfl⟩
      · exact ⟨_, rfl⟩
  simp only [PenguinOrigin.step, htake, hlast, hmalloc, Option.bind_eq_bind, Option.bind_some]
  split_ifs
  · exact ⟨_, rfl, rfl⟩
  · exact ⟨_, rfl, rfl⟩

theorem exists_step_of_callAllocator {globals : Globals} {client : Client} {ptr : ℕ}
    {memory : Memory} (hcall : callAllocator fuel globals client.memory call = some (ptr, memory)) :
    ∃ next, PenguinOrigin.step (realAllocators fuel) globals client (callOp call) = some next ∧
      next.memory = memory := by
  cases call with
  | new size | newNothrow size => exact exists_step_of_penguinMalloc hcall
  | delete block =>
      obtain ⟨memory, hfree, hreply⟩ := Option.map_eq_some_iff.mp hcall
      obtain ⟨-, rfl⟩ := Prod.mk.inj hreply
      exact ⟨_, by rw [callOp, PenguinOrigin.step, hfree]; rfl, rfl⟩

/-- One more effect. -/
theorem Sequential.append (hsequential : Sequential fuel process)
    (hfailed : process.failed = false) (honce : process.gInitOnce = .done) (event : Event)
    (memory : Memory)
    (hevent : ∀ client : Client, client.memory = process.memory →
      Answered fuel process.globals client event ∧
        ∃ next, clientStep fuel process.globals client event = some next ∧ next.memory = memory) :
    ∃ client,
      run (clientStep fuel process.globals) ⟨process.history.start, []⟩
          (process.history.events ++ [event]) = some client ∧
        client.memory = memory ∧
        AllSteps (clientStep fuel process.globals) (Answered fuel process.globals)
          ⟨process.history.start, []⟩ (process.history.events ++ [event]) := by
  obtain ⟨client, hrun, hmemory, hanswers⟩ := hsequential hfailed honce
  obtain ⟨hanswer, next, hstep, hnext⟩ := hevent client hmemory
  refine ⟨next, ?_, hnext, hanswers.append fun reached hreached => ?_⟩
  · rw [run_append, hrun, Option.bind_some, run_cons, hstep]
    rfl
  · rw [hrun, Option.some.injEq] at hreached
    subst hreached
    exact ⟨hanswer, fun _ _ => trivial⟩

theorem sequential_change (hinit : InitialisedOnce process) (hquiet : Quiet process)
    (hsequential : Sequential fuel process) (hchange : Change fuel op process next) :
    Sequential fuel next := by
  cases hchange with
  | stay => exact hsequential
  | abort _ | crash _ _ _ _ =>
      intro hfailed
      cases hfailed
  | enter _ _ _ | pass _ _ _ _ | lock _ _ _ _ | unlock _ _ _ _ | leave _ _ _ _ =>
      exact hsequential
  | claim thread call _ _ =>
      intro _ honce
      cases honce
  | map thread call base htask _ | prepare thread call alloc memory htask _ =>
      intro _ honce
      have hrunning := (hinit.runner thread).mp (by rw [htask]; rfl)
      exact absurd (hrunning.symm.trans honce) Once.noConfusion
  | carve thread call globals memory htask _ =>
      intro hfailed _
      have hrunning := (hinit.runner thread).mp (by rw [htask]; rfl)
      have hnone := hquiet hfailed fun hdone => Once.noConfusion (hrunning.symm.trans hdone)
      refine ⟨⟨memory, []⟩, ?_, rfl, ?_⟩
      · simp only [hnone, run_nil]
      · simp only [hnone, AllSteps]
  | serve thread call ptr memory htask hcall =>
      intro hfailed honce
      have hfailed : process.failed = false := hfailed
      have honce : process.gInitOnce = .done := honce
      have happend := hsequential.append hfailed honce (.called thread call ptr) memory
        fun client hmemory => by
          rw [← hmemory] at hcall
          exact ⟨by rw [Answered, hcall]; rfl, exists_step_of_callAllocator hcall⟩
      simpa only [Process.setTask, honce, record_done] using happend
  | write address byte =>
      intro hfailed honce
      have hfailed : process.failed = false := hfailed
      have honce : process.gInitOnce = .done := honce
      have happend := hsequential.append hfailed honce (.wrote address byte)
        (writeByte process.memory address byte) fun client hmemory =>
          ⟨trivial, _, rfl, by rw [← hmemory]⟩
      simpa only [honce, record_done] using happend

/-! ## Answers -/

def effects (history : History) : List Event := history.early ++ history.events

/-- The call of a thread that an effect is of. -/
def called? (thread : ℕ) : Event → Option Call
  | .called other call _ => if other = thread then some call else none
  | .wrote _ _ => none

/-- What an effect means for a thread. -/
def answer? (thread : ℕ) : Event → Option Outcome
  | .called other call ptr => if other = thread then some (outcome call ptr) else none
  | .wrote _ _ => none

/-- The call of a thread that has had no effect yet. -/
def waiting : Task → List Call
  | .once call | .mapping call | .preparing call | .carving call | .locking call
  | .inside call => [call]
  | .outside | .unlocking _ _ | .returning _ _ => []

/-- The answer that a thread has got and not returned yet. -/
def pending : Task → List Outcome
  | .unlocking call ptr | .returning call ptr => [outcome call ptr]
  | _ => []

/-- What a record says about one thread, in order. -/
def ofThread {α : Type} (thread : ℕ) (entries : List (ℕ × α)) : List α :=
  (entries.filter fun entry => entry.1 = thread).map Prod.snd

theorem ofThread_append_same {α : Type} (entries : List (ℕ × α)) (value : α) :
    ofThread thread (entries ++ [(thread, value)]) = ofThread thread entries ++ [value] := by
  simp [ofThread]

theorem ofThread_append_other {α : Type} {other : ℕ} (hother : other ≠ thread)
    (entries : List (ℕ × α)) (value : α) :
    ofThread other (entries ++ [(thread, value)]) = ofThread other entries := by
  simp [ofThread, Ne.symm hother]

/-- Each call of a thread has one effect, in the order of the calls, and returns what that
effect means. -/
structure Answers (process : Process) (thread : ℕ) : Prop where
  made : ofThread thread process.history.calls =
    (effects process.history).filterMap (called? thread) ++ waiting (process.tasks thread)
  returned : ofThread thread process.history.outcomes ++ pending (process.tasks thread) =
    (effects process.history).filterMap (answer? thread)

def Delivered (process : Process) : Prop :=
  process.failed = false → ∀ thread, Answers process thread

theorem waiting_firstTask (call : Call) : waiting (firstTask call) = [call] := by
  cases call <;> rfl

theorem pending_firstTask (call : Call) : pending (firstTask call) = [] := by
  cases call <;> rfl

theorem effects_record {process : Process} (hquiet : Quiet process)
    (hfailed : process.failed = false) (event : Event) :
    effects (process.history.record process.gInitOnce event) =
      effects process.history ++ [event] := by
  by_cases honce : process.gInitOnce = .done
  · rw [honce, record_done, effects, effects, List.append_assoc]
  · rw [record_of_ne honce, effects, effects, hquiet hfailed honce, List.append_nil,
      List.append_nil]

@[simp]
theorem calls_record (history : History) (once : Once) (event : Event) :
    (history.record once event).calls = history.calls := by
  cases once <;> rfl

@[simp]
theorem outcomes_record (history : History) (once : Once) (event : Event) :
    (history.record once event).outcomes = history.outcomes := by
  cases once <;> rfl

/-- A thread that goes on with its call and has no effect. -/
theorem Delivered.setTask {task : Task} (hdelivered : Delivered process)
    (hwaiting : waiting task = waiting (process.tasks thread))
    (hpending : pending task = pending (process.tasks thread)) :
    Delivered (process.setTask thread task) := by
  intro hfailed other
  have hold := hdelivered hfailed other
  by_cases hother : other = thread
  · subst hother
    constructor
    · rw [Process.tasks_setTask, hwaiting]
      exact hold.made
    · rw [Process.tasks_setTask, hpending]
      exact hold.returned
  · constructor
    · rw [Process.tasks_setTask_of_ne process task hother]
      exact hold.made
    · rw [Process.tasks_setTask_of_ne process task hother]
      exact hold.returned

/-- Memory, globals and locks do not matter for what is delivered. -/
theorem Delivered.congr {later : Process} (hdelivered : Delivered process)
    (hfailed : later.failed = process.failed) (htasks : later.tasks = process.tasks)
    (hcalls : later.history.calls = process.history.calls)
    (heffects : effects later.history = effects process.history)
    (houtcomes : later.history.outcomes = process.history.outcomes) : Delivered later := by
  intro halive thread
  have hold := hdelivered (hfailed ▸ halive) thread
  constructor
  · rw [hcalls, heffects, htasks]
    exact hold.made
  · rw [houtcomes, heffects, htasks]
    exact hold.returned

theorem delivered_enter (hdelivered : Delivered process) (htask : process.tasks thread = .outside)
    (call : Call) : Delivered { process.setTask thread (firstTask call) with
      history := { process.history with calls := process.history.calls ++ [(thread, call)] } } := by
  intro hfailed other
  have hold := hdelivered hfailed other
  by_cases hother : other = thread
  · subst hother
    constructor
    · refine (ofThread_append_same _ _).trans ?_
      rw [hold.made, htask, Process.tasks_setTask, waiting_firstTask, List.append_assoc]
      rfl
    · have hreturned := hold.returned
      rw [htask] at hreturned
      rw [Process.tasks_setTask, pending_firstTask]
      exact hreturned
  · constructor
    · refine (ofThread_append_other hother _ _).trans ?_
      rw [Process.tasks_setTask_of_ne process _ hother]
      exact hold.made
    · rw [Process.tasks_setTask_of_ne process _ hother]
      exact hold.returned

theorem delivered_serve (hquiet : Quiet process) (hdelivered : Delivered process)
    (htask : process.tasks thread = .inside call) (ptr : ℕ) (memory : Memory) :
    Delivered { process.setTask thread (.unlocking call ptr) with
      memory := memory
      history := process.history.record process.gInitOnce (.called thread call ptr) } := by
  intro hfailed other
  have hfailed : process.failed = false := hfailed
  have hold := hdelivered hfailed other
  by_cases hother : other = thread
  · subst hother
    constructor
    · rw [calls_record, effects_record hquiet hfailed, List.filterMap_append,
        Process.tasks_setTask, hold.made, htask]
      simp [called?, waiting]
    · rw [outcomes_record, effects_record hquiet hfailed, List.filterMap_append,
        Process.tasks_setTask, ← hold.returned, htask]
      simp [answer?, pending]
  · constructor
    · rw [calls_record, effects_record hquiet hfailed, List.filterMap_append,
        Process.tasks_setTask_of_ne process _ hother, hold.made]
      simp [called?, Ne.symm hother]
    · rw [outcomes_record, effects_record hquiet hfailed, List.filterMap_append,
        Process.tasks_setTask_of_ne process _ hother, ← hold.returned]
      simp [answer?, Ne.symm hother]

theorem delivered_leave (hdelivered : Delivered process) {ptr : ℕ}
    (htask : process.tasks thread = .returning call ptr) :
    Delivered { process.setTask thread .outside with
      history := { process.history with
        outcomes := process.history.outcomes ++ [(thread, outcome call ptr)] } } := by
  intro hfailed other
  have hold := hdelivered hfailed other
  by_cases hother : other = thread
  · subst hother
    have hmade := hold.made
    have hreturned := hold.returned
    rw [htask] at hmade hreturned
    constructor
    · rw [Process.tasks_setTask]
      exact hmade
    · rw [Process.tasks_setTask]
      refine (List.append_nil _).trans ((ofThread_append_same _ _).trans ?_)
      exact hreturned
  · constructor
    · rw [Process.tasks_setTask_of_ne process _ hother]
      exact hold.made
    · rw [Process.tasks_setTask_of_ne process _ hother]
      refine (congrArg (· ++ _) (ofThread_append_other hother _ _)).trans ?_
      exact hold.returned

theorem delivered_write (hquiet : Quiet process) (hdelivered : Delivered process) (address : ℕ)
    (byte : UInt8) : Delivered { process with
      memory := writeByte process.memory address byte
      history := process.history.record process.gInitOnce (.wrote address byte) } := by
  intro hfailed other
  have hfailed : process.failed = false := hfailed
  have hold := hdelivered hfailed other
  constructor
  · rw [calls_record, effects_record hquiet hfailed, List.filterMap_append, hold.made]
    simp [called?]
  · rw [outcomes_record, effects_record hquiet hfailed, List.filterMap_append, ← hold.returned]
    simp [answer?]

theorem delivered_change (hquiet : Quiet process) (hdelivered : Delivered process)
    (hchange : Change fuel op process next) : Delivered next := by
  have hkeeps : ∀ {thread : ℕ} (task : Task) {old : Task}, process.tasks thread = old →
      waiting task = waiting old → pending task = pending old →
      Delivered (process.setTask thread task) := fun _ _ htask hwaiting hpending =>
    hdelivered.setTask (htask ▸ hwaiting) (htask ▸ hpending)
  cases hchange with
  | stay => exact hdelivered
  | abort _ | crash _ _ _ _ => exact fun hfailed => by cases hfailed
  | enter thread call htask => exact delivered_enter hdelivered htask call
  | serve thread call ptr memory htask _ =>
      exact delivered_serve hquiet hdelivered htask ptr memory
  | leave thread call ptr htask => exact delivered_leave hdelivered htask
  | write address byte => exact delivered_write hquiet hdelivered address byte
  | claim thread call htask _ =>
      exact (hkeeps (.mapping call) htask rfl rfl).congr rfl rfl rfl rfl rfl
  | pass thread call htask _ => exact hkeeps (.locking call) htask rfl rfl
  | map thread call base htask _ =>
      exact (hkeeps (.preparing call) htask rfl rfl).congr rfl rfl rfl rfl rfl
  | prepare thread call alloc memory htask _ =>
      exact (hkeeps (.carving call) htask rfl rfl).congr rfl rfl rfl rfl rfl
  | carve thread call globals memory htask _ =>
      exact (hkeeps (.locking call) htask rfl rfl).congr rfl rfl rfl rfl rfl
  | lock thread call htask _ =>
      exact (hkeeps (.inside call) htask rfl rfl).congr rfl rfl rfl rfl rfl
  | unlock thread call ptr htask =>
      exact (hkeeps (.returning call ptr) htask rfl rfl).congr rfl rfl rfl rfl rfl

/-- Effects stay, in their order. -/
theorem effects_change (hquiet : Quiet process) (hchange : Change fuel op process next)
    (hfailed : next.failed = false) : effects process.history <+: effects next.history := by
  cases hchange with
  | abort _ | crash _ _ _ _ => cases hfailed
  | serve thread call ptr memory htask hcall =>
      have hfailed : process.failed = false := hfailed
      exact ⟨_, (effects_record hquiet hfailed (.called thread call ptr)).symm⟩
  | write address byte =>
      exact ⟨_, (effects_record hquiet hfailed (.wrote address byte)).symm⟩
  | _ => exact List.prefix_refl _

/-! ## Every schedule -/

/-- What the mutex and `pthread_once` are there for. -/
structure Linearised (fuel : ℕ) (process : Process) : Prop where
  owned : Owned process
  initialised : InitialisedOnce process
  quiet : Quiet process
  sequential : Sequential fuel process
  delivered : Delivered process

theorem linearised_step (process : Process) (op : Op) (hlinearised : Linearised fuel process) :
    Linearised fuel (step fuel process op) := by
  have hchange := change_step fuel process op
  exact
    { owned := owned_change hlinearised.owned hchange
      initialised := initialisedOnce_change hlinearised.initialised hchange
      quiet := quiet_change hlinearised.quiet hchange
      sequential := sequential_change hlinearised.initialised hlinearised.quiet
        hlinearised.sequential hchange
      delivered := delivered_change hlinearised.quiet hlinearised.delivered hchange }

theorem linearised_launch (fuel : ℕ) (memory : Memory) : Linearised fuel (launch memory) where
  owned := fun _ _ => ⟨fun howner => (by cases howner), fun hholds => (by cases hholds)⟩
  initialised :=
    { runner := fun _ => ⟨fun hinside => (by cases hinside), fun hrunning => (by cases hrunning)⟩
      behind := fun _ hpassed => by cases hpassed }
  quiet := fun _ _ => rfl
  sequential := fun _ honce => by cases honce
  delivered := fun _ _ => ⟨rfl, rfl⟩

theorem linearised_of_schedule (fuel : ℕ) (memory : Memory) (ops : List Op) :
    Linearised fuel (execute fuel (launch memory) ops) :=
  Schedules.foldl_invariant (step fuel) linearised_step (linearised_launch fuel memory) ops

theorem step_of_failed (hfailed : process.failed = true) (op : Op) :
    step fuel process op = process := by
  unfold step
  exact if_pos hfailed

theorem execute_of_failed (hfailed : process.failed = true) (ops : List Op) :
    execute fuel process ops = process := by
  induction ops with
  | nil => rfl
  | cons op ops ih =>
      rw [execute, List.foldl_cons, step_of_failed hfailed]
      exact ih

theorem effects_execute (hlinearised : Linearised fuel process) (ops : List Op)
    (hfailed : (execute fuel process ops).failed = false) :
    effects process.history <+: effects (execute fuel process ops).history := by
  induction ops generalizing process with
  | nil => exact List.prefix_refl _
  | cons op ops ih =>
      have hfailed : (execute fuel (step fuel process op) ops).failed = false := hfailed
      have hnext : (step fuel process op).failed = false := by
        cases hfails : (step fuel process op).failed with
        | false => rfl
        | true => rwa [execute_of_failed hfails, hfails] at hfailed
      exact (effects_change hlinearised.quiet (change_step fuel process op) hnext).trans
        (ih (linearised_step process op hlinearised) hfailed)

/-- In every schedule the operators are linearised, and an effect keeps its place. -/
theorem linearised_execute (fuel : ℕ) (memory : Memory) (ops : List Op) :
    Linearised fuel (execute fuel (launch memory) ops) ∧
      ∀ done, done <+: ops → (execute fuel (launch memory) ops).failed = false →
        effects (execute fuel (launch memory) done).history <+:
          effects (execute fuel (launch memory) ops).history := by
  refine ⟨linearised_of_schedule fuel memory ops, fun done hdone hfailed => ?_⟩
  obtain ⟨rest, rfl⟩ := hdone
  have hrest : execute fuel (launch memory) (done ++ rest) =
      execute fuel (execute fuel (launch memory) done) rest := List.foldl_append
  rw [hrest] at hfailed ⊢
  exact effects_execute (linearised_of_schedule fuel memory done) rest hfailed

end DoomsdayModules.OperatorRuns
