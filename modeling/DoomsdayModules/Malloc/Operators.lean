import DoomsdayModules.Malloc.PenguinOrigin

/-!
# The operators of C++

`new.cpp` puts the general allocator behind the operators `new` and `delete`.  The
first `new` maps the heap and initialises the allocator while others wait, and a
mutex is held around each call of the allocator.  Threads move one at a time, from
one synchronisation to the next, and write to memory in between.
-/

namespace DoomsdayModules.Operators

open Function DoomsdayModules.ByteMemory DoomsdayModules.Buddy DoomsdayModules.Slab
open DoomsdayModules.PenguinMalloc

/-- `PENGUIN_MALLOC_HEAP_SiZE`. -/
def heapSize : ℕ := 128 * 1024 * 1024

/-- The operators.  Those for arrays and those with a size do the same. -/
inductive Call
  | new (size : ℕ)
  | newNothrow (size : ℕ)
  | delete (ptr : ℕ)

/-- How a call ends for its thread. -/
inductive Outcome
  | returned (ptr : ℕ)
  | badAlloc

/-- `g_init_once`. -/
inductive Once
  | untouched
  | running (thread : ℕ)
  | done

/-- Where a thread is: in front of `pthread_once`, in one of the three parts of
`init_allocator`, or at the mutex. -/
inductive Task
  | outside
  | once (call : Call)
  | mapping (call : Call)
  | preparing (call : Call)
  | carving (call : Call)
  | locking (call : Call)
  | inside (call : Call)
  | unlocking (call : Call) (ptr : ℕ)
  | returning (call : Call) (ptr : ℕ)

/-- An effect on the heap, in the order of the effects: a call with its answer, or a
byte that a thread writes. -/
inductive Event
  | called (thread : ℕ) (call : Call) (ptr : ℕ)
  | wrote (address : ℕ) (byte : UInt8)

/-- The calls that were made, the effects before the allocator was ready, the memory it
was ready with, the effects since then, and how calls ended. -/
structure History where
  calls : List (ℕ × Call)
  early : List Event
  start : Memory
  events : List Event
  outcomes : List (ℕ × Outcome)

/-- The globals of `new.cpp` and of the allocator, the memory and the threads.  The
process has failed when it aborted or did something undefined. -/
structure Process where
  memory : Memory
  gHeapBase : ℕ
  gAlloc : ℕ
  globals : Globals
  gInitOnce : Once
  gMutex : Option ℕ
  tasks : ℕ → Task
  failed : Bool
  history : History

def Process.setTask (process : Process) (thread : ℕ) (task : Task) : Process :=
  { process with tasks := update process.tasks thread task }

@[simp]
theorem Process.tasks_setTask (process : Process) (thread : ℕ) (task : Task) :
    (process.setTask thread task).tasks thread = task := by
  simp [setTask]

theorem Process.tasks_setTask_of_ne (process : Process) {thread other : ℕ} (task : Task)
    (hother : other ≠ thread) :
    (process.setTask thread task).tasks other = process.tasks other := by
  simp [setTask, hother]

/-- A process that has not called an operator yet. -/
def launch (memory : Memory) : Process where
  memory := memory
  gHeapBase := 0
  gAlloc := 0
  globals := ⟨0, fun _ => 0⟩
  gInitOnce := .untouched
  gMutex := none
  tasks := fun _ => .outside
  failed := false
  history := ⟨[], [], memory, [], []⟩

/-! ## The steps of a thread -/

/-- Anonymous memory is mapped as zeros. -/
def mapAnonymous (memory : Memory) (base : ℕ) : Memory := fill memory base 0 heapSize

/-- What is called under the mutex. -/
def callAllocator (fuel : ℕ) (globals : Globals) (memory : Memory) : Call → Option (ℕ × Memory)
  | .new size | .newNothrow size => penguinMalloc (realAllocators fuel) globals memory size
  | .delete ptr =>
      (penguinFree (realAllocators fuel) globals memory ptr).map fun memory => (0, memory)

/-- The end of an operator. -/
def outcome : Call → ℕ → Outcome
  | .new _, ptr => if ptr = 0 then .badAlloc else .returned ptr
  | .newNothrow _, ptr => .returned ptr
  | .delete _, _ => .returned 0

/-- `delete` does not go through `pthread_once`. -/
def firstTask : Call → Task
  | .new size => .once (.new size)
  | .newNothrow size => .once (.newNothrow size)
  | .delete ptr => .locking (.delete ptr)

/-- An effect is early until the allocator is ready. -/
def History.record (history : History) (ready : Once) (event : Event) : History :=
  match ready with
  | .done => { history with events := history.events ++ [event] }
  | _ => { history with early := history.early ++ [event] }

/-- The next step of a thread; `mapped` is what `mmap` returns, `none` for `MAP_FAILED`. -/
def moveStep (fuel : ℕ) (process : Process) (thread : ℕ) (mapped : Option ℕ) : Process :=
  match process.tasks thread with
  | .outside => process
  | .once call =>
      match process.gInitOnce with
      | .untouched => { process.setTask thread (.mapping call) with gInitOnce := .running thread }
      | .running _ => process
      | .done => process.setTask thread (.locking call)
  | .mapping call =>
      match mapped with
      | none => { process with failed := true }
      | some base =>
          { process.setTask thread (.preparing call) with
            gHeapBase := base
            memory := mapAnonymous process.memory base }
  | .preparing call =>
      match buddyInit process.memory process.gHeapBase (process.gHeapBase + heapSize) with
      | none => { process with failed := true }
      | some (alloc, memory) =>
          { process.setTask thread (.carving call) with gAlloc := alloc, memory := memory }
  | .carving call =>
      match penguinMallocInit realBuddy process.memory process.gAlloc with
      | none => { process with failed := true }
      | some (globals, memory) =>
          { process.setTask thread (.locking call) with
            globals := globals
            memory := memory
            gInitOnce := .done
            history := { process.history with start := memory } }
  | .locking call =>
      match process.gMutex with
      | some _ => process
      | none => { process.setTask thread (.inside call) with gMutex := some thread }
  | .inside call =>
      match callAllocator fuel process.globals process.memory call with
      | none =>
          { process with
            failed := true
            history := process.history.record process.gInitOnce (.called thread call 0) }
      | some (ptr, memory) =>
          { process.setTask thread (.unlocking call ptr) with
            memory := memory
            history := process.history.record process.gInitOnce (.called thread call ptr) }
  | .unlocking call ptr => { process.setTask thread (.returning call ptr) with gMutex := none }
  | .returning call ptr =>
      { process.setTask thread .outside with
        history := { process.history with
          outcomes := process.history.outcomes ++ [(thread, outcome call ptr)] } }

/-! ## Schedules -/

inductive Op
  | call (thread : ℕ) (call : Call)
  | move (thread : ℕ) (mapped : Option ℕ)
  | write (address : ℕ) (byte : UInt8)

/-- A step that cannot be taken changes nothing. -/
def step (fuel : ℕ) (process : Process) (op : Op) : Process :=
  if process.failed then process
  else
    match op with
    | .call thread call =>
        match process.tasks thread with
        | .outside =>
            { process.setTask thread (firstTask call) with
              history := { process.history with
                calls := process.history.calls ++ [(thread, call)] } }
        | _ => process
    | .move thread mapped => moveStep fuel process thread mapped
    | .write address byte =>
        { process with
          memory := writeByte process.memory address byte
          history := process.history.record process.gInitOnce (.wrote address byte) }

def execute (fuel : ℕ) (process : Process) (ops : List Op) : Process :=
  ops.foldl (step fuel) process

end DoomsdayModules.Operators
