import DoomsdayModules.Malloc.OperatorHeap
import DoomsdayModules.Malloc.OperatorRuns
import DoomsdayModules.Malloc.PenguinIsolation

/-!
# Threads that keep to their blocks

Threads that use the operators as a single client would have to use the allocator never
make the process fail, in whatever order they are scheduled, and their live blocks are
apart from each other and from what the allocators keep.
-/

namespace DoomsdayModules.OperatorIsolation

open Function DoomsdayModules.ByteMemory DoomsdayModules.Runs DoomsdayModules.Buddy
open DoomsdayModules.BuddyUtil DoomsdayModules.BuddyInvariant DoomsdayModules.BuddyInit
open DoomsdayModules.Slab DoomsdayModules.PenguinMalloc DoomsdayModules.PenguinRuns
open DoomsdayModules.PenguinIsolation DoomsdayModules.Operators DoomsdayModules.OperatorRuns
open DoomsdayModules.OperatorHeap

/-! ## What the threads have to meet -/

/-- `mmap` returns the address. -/
def Maps (base : ℕ) : Op → Prop
  | .move _ mapped => mapped = some base
  | .call _ _ | .write _ _ => True

instance (base : ℕ) : ∀ op, Decidable (Maps base op)
  | .move _ _ => inferInstanceAs (Decidable (_ = _))
  | .call _ _ => isTrue trivial
  | .write _ _ => isTrue trivial

/-- An effect that is harmless while the allocator is not ready: `delete` of a null
pointer, or a write outside of the heap. -/
def Harmless (base : ℕ) : Event → Prop
  | .called _ (.delete ptr) _ => ptr = 0
  | .called _ _ _ => False
  | .wrote address _ => ¬ (base ≤ address ∧ address < base + heapSize)

/-- The effects are harmless first, and then those that a client may have. -/
structure Behaved (fuel base : ℕ) (process : Process) : Prop where
  early : ∀ event ∈ process.history.early, Harmless base event
  tame : AllSteps (clientStep fuel process.globals) (fun client event =>
    Legal client (eventOp event) ∧ Tame process.globals client (eventOp event))
    ⟨process.history.start, []⟩ process.history.events

instance (base : ℕ) : ∀ event, Decidable (Harmless base event)
  | .called _ (.delete _) _ => inferInstanceAs (Decidable (_ = _))
  | .called _ (.new _) _ => isFalse id
  | .called _ (.newNothrow _) _ => isFalse id
  | .wrote _ _ => inferInstanceAs (Decidable (¬ _))

instance (fuel base : ℕ) (process : Process) : Decidable (Behaved fuel base process) :=
  decidable_of_iff ((∀ event ∈ process.history.early, Harmless base event) ∧
    AllSteps (clientStep fuel process.globals) (fun client event =>
      Legal client (eventOp event) ∧ Tame process.globals client (eventOp event))
      ⟨process.history.start, []⟩ process.history.events)
    ⟨fun hboth => ⟨hboth.1, hboth.2⟩, fun hbehaved => ⟨hbehaved.early, hbehaved.tame⟩⟩

/-! ## The heap on the way to being ready -/

/-- A buddy allocator in the heap, with room for slabs. -/
structure InHeap (base : ℕ) (layout : Layout) : Prop where
  alloc_eq : layout.alloc = base
  pool_le : pageAddress layout.begin_ (2 ^ layout.depth) ≤ base + heapSize
  room : 64 ≤ 2 ^ layout.depth

structure Intact (base : ℕ) (process : Process) : Prop where
  alive : process.failed = false
  mapped : ∀ thread call, process.tasks thread = .preparing call → process.gHeapBase = base
  fresh : ∀ thread call, process.tasks thread = .carving call → process.gAlloc = base ∧
    ∃ layout, InHeap base layout ∧ Represents layout process.memory [rootBlock] []
  ready : process.gInitOnce = .done → ∃ layout, InHeap base layout ∧
    Sound layout process.globals ⟨process.history.start, []⟩

variable {fuel base thread : ℕ} {process next : Process} {call : Call} {op : Op}

theorem alone_of_initialises (hinit : InitialisedOnce process) {other : ℕ}
    (hthread : initialises (process.tasks thread)) (hother : initialises (process.tasks other)) :
    thread = other := by
  have hfirst := (hinit.runner thread).mp hthread
  have hsecond := (hinit.runner other).mp hother
  exact Once.running.inj (hfirst.symm.trans hsecond)

theorem not_done_of_initialises (hinit : InitialisedOnce process) (thread : ℕ)
    (hthread : initialises (process.tasks thread)) : process.gInitOnce ≠ .done := fun hdone =>
  Once.noConfusion (hdone.symm.trans ((hinit.runner thread).mp hthread))

/-- Whether a thread has no part of the heap in its hands. -/
def plain : Task → Bool
  | .preparing _ | .carving _ => false
  | _ => true

theorem plain_firstTask (call : Call) : plain (firstTask call) := by
  cases call <;> rfl

/-- A task that the step of a thread has not led to was there before. -/
theorem tasks_before (thread : ℕ) (task : Task) {other : ℕ} {found : Task} (hne : task ≠ found)
    (hfound : (process.setTask thread task).tasks other = found) :
    process.tasks other = found := by
  by_cases hother : other = thread
  · rw [hother, Process.tasks_setTask] at hfound
    exact absurd hfound hne
  · rwa [Process.tasks_setTask_of_ne process task hother] at hfound

theorem Intact.setTask (hintact : Intact base process) (thread : ℕ) {task : Task}
    (hplain : plain task) : Intact base (process.setTask thread task) where
  alive := hintact.alive
  mapped := fun other call hfound => by
    have hne : task ≠ .preparing call := fun htask => by
      rw [htask] at hplain
      cases hplain
    exact hintact.mapped other call (tasks_before thread task hne hfound)
  fresh := fun other call hfound => by
    have hne : task ≠ .carving call := fun htask => by
      rw [htask] at hplain
      cases hplain
    exact hintact.fresh other call (tasks_before thread task hne hfound)
  ready := hintact.ready

/-- A write outside of the heap leaves a fresh buddy allocator as it is. -/
theorem represents_write {layout : Layout} {memory : Memory} {address : ℕ} (byte : UInt8)
    (hheap : InHeap base layout) (hrep : Represents layout memory [rootBlock] [])
    (houtside : ¬ (base ≤ address ∧ address < base + heapSize)) :
    Represents layout (writeByte memory address byte) [rootBlock] [] := by
  have halloc := hheap.alloc_eq
  have hpool := hheap.pool_le
  have hheader := layout.header_le
  have hlists := layout.freelist_le
  have hbits := layout.bitmap_le
  have hpages : layout.begin_ ≤ pageAddress layout.begin_ (2 ^ layout.depth) :=
    Nat.le_add_right _ _
  refine hrep.frame fun query hregion => writeByte_of_ne fun hquery => hregion ⟨?_, ?_⟩
  · rintro ⟨hlower, hupper⟩
    exact houtside (by omega)
  · intro block hblock
    obtain rfl := List.mem_singleton.mp hblock
    rintro ⟨hlower, hupper⟩
    have hstart := layout.begin_le_address rootBlock
    have hstop : layout.addressStop rootBlock ≤ pageAddress layout.begin_ (2 ^ layout.depth) :=
      Nat.add_le_add_left (Nat.mul_le_mul_right _
        (DyadicBlocks.Block.stop_le (rootBlock_valid layout.depth))) _
    exact houtside (by omega)

/-- The heap that `buddy_init` makes of the mapped memory. -/
theorem exists_inHeap (hmapped : Mapped base) {memory memory₀ : Memory} {alloc : ℕ}
    (hinit : buddyInit memory base (base + heapSize) = some (alloc, memory₀)) :
    alloc = base ∧ ∃ layout, InHeap base layout ∧ Represents layout memory₀ [rootBlock] [] := by
  obtain ⟨memory', hheap⟩ := buddyInit_heap hmapped memory
  obtain ⟨rfl, rfl⟩ : base = alloc ∧ memory' = memory₀ := by simpa [hheap] using hinit
  obtain ⟨hsized, hroot⟩ := wellSized_heap hmapped hheap
  obtain ⟨layout, halloc, -, hpool, hrep⟩ := buddyInit_represents (Nat.le_add_right _ _)
    hmapped.room hheap hmapped.pos.ne' hsized
  refine ⟨rfl, layout, ⟨halloc, hpool, ?_⟩, hrep⟩
  rw [← hrep.root_eq, halloc, hroot]
  norm_num

/-! ## The effects of threads that behave -/

theorem callAllocator_of_step {globals : Globals} {client reached : PenguinOrigin.Client}
    (hstep : PenguinOrigin.step (realAllocators fuel) globals client (callOp call) =
      some reached) : ∃ reply, callAllocator fuel globals client.memory call = some reply := by
  cases call with
  | new size | newNothrow size =>
      simp only [callOp, PenguinOrigin.step, Option.bind_eq_bind, Option.bind_eq_some_iff] at hstep
      obtain ⟨taken, -, request, -, reply, hmalloc, -⟩ := hstep
      exact ⟨reply, hmalloc⟩
  | delete ptr =>
      simp only [callOp, PenguinOrigin.step, Option.map_eq_some_iff] at hstep
      obtain ⟨memory, hfree, -⟩ := hstep
      exact ⟨(0, memory), by rw [callAllocator, hfree]; rfl⟩

/-- `delete` of a null pointer does nothing. -/
theorem callAllocator_null (globals : Globals) (memory : Memory) :
    callAllocator fuel globals memory (.delete 0) = some (0, memory) := by
  rw [callAllocator, penguinFree, if_pos rfl, Option.map_some]

theorem call_eq_of_harmless {ptr : ℕ} (hharmless : Harmless base (.called thread call ptr)) :
    call = .delete 0 := by
  cases call with
  | delete block => exact congrArg Call.delete hharmless
  | new size | newNothrow size => exact hharmless.elim

/-- The one client's heap, while its effects are those of the process. -/
theorem exists_sound_client (hfuel : 2 ≤ fuel) (hlinearised : Linearised fuel process)
    (hintact : Intact base process) (hdone : process.gInitOnce = .done) {later : List Event}
    (htame : AllSteps (clientStep fuel process.globals) (fun client event =>
      Legal client (eventOp event) ∧ Tame process.globals client (eventOp event))
      ⟨process.history.start, []⟩ (process.history.events ++ later)) :
    ∃ layout client, InHeap base layout ∧
      run (clientStep fuel process.globals) ⟨process.history.start, []⟩ process.history.events =
        some client ∧
      client.memory = process.memory ∧ Sound layout process.globals client ∧
      AllSteps (clientStep fuel process.globals) (fun client event =>
        Legal client (eventOp event) ∧ Tame process.globals client (eventOp event)) client
        later := by
  obtain ⟨layout, hheap, hsound⟩ := hintact.ready hdone
  obtain ⟨client, hrun, hmemory, -⟩ := hlinearised.sequential hintact.alive hdone
  obtain ⟨final, hfinal, hsound'⟩ := run_preserves (Sound layout process.globals)
    (fun _ _ hinv hadmissible => step_sound hfuel hinv hadmissible.1 hadmissible.2) hsound
    htame.of_append
  obtain rfl : final = client := Option.some.inj (hfinal.symm.trans hrun)
  exact ⟨layout, final, hheap, hrun, hmemory, hsound', htame.of_append_right hrun⟩

@[simp]
theorem start_record (history : History) (once : Once) (event : Event) :
    (history.record once event).start = history.start := by
  cases once <;> rfl

/-- The process with one more effect. -/
def noted (process : Process) (event : Event) : Process :=
  { process with history := process.history.record process.gInitOnce event }

theorem Behaved.harmless {event : Event} (hbehaved : Behaved fuel base (noted process event))
    (hdone : process.gInitOnce ≠ .done) : Harmless base event := by
  have hearly := hbehaved.early
  simp only [noted, record_of_ne hdone] at hearly
  exact hearly _ (List.mem_append_right _ List.mem_cons_self)

/-- The allocator answers every call of a thread that behaves. -/
theorem exists_reply (hfuel : 2 ≤ fuel) (hlinearised : Linearised fuel process)
    (hintact : Intact base process) (ptr : ℕ)
    (hbehaved : Behaved fuel base (noted process (.called thread call ptr))) :
    ∃ reply, callAllocator fuel process.globals process.memory call = some reply := by
  by_cases hdone : process.gInitOnce = .done
  · have htame := hbehaved.tame
    simp only [noted, hdone, record_done] at htame
    obtain ⟨layout, client, -, -, hmemory, hsound, hlegal, -⟩ :=
      exists_sound_client hfuel hlinearised hintact hdone htame
    obtain ⟨reached, hreached, -⟩ := step_sound hfuel hsound hlegal.1 hlegal.2
    exact hmemory ▸ callAllocator_of_step hreached
  · exact ⟨_, call_eq_of_harmless (hbehaved.harmless hdone) ▸
      callAllocator_null process.globals process.memory⟩

/-- Before the allocator is ready, the calls leave the memory as it is. -/
theorem memory_of_early (hdone : process.gInitOnce ≠ .done) {ptr : ℕ} {memory : Memory}
    (hbehaved : Behaved fuel base (noted process (.called thread call ptr)))
    (hcall : callAllocator fuel process.globals process.memory call = some (ptr, memory)) :
    memory = process.memory := by
  rw [call_eq_of_harmless (hbehaved.harmless hdone), callAllocator_null] at hcall
  exact (Prod.mk.inj (Option.some.inj hcall)).2.symm

/-! ## One step -/

theorem not_abort (hmapped : Mapped base) (hintact : Intact base process)
    (hmaps : Maps base op) :
    ¬ Aborts process op := by
  intro haborts
  cases haborts with
  | unmapped thread call htask hop =>
      rw [hop] at hmaps
      cases hmaps
  | unprepared thread call htask hnone =>
      obtain ⟨memory₀, hinit⟩ := buddyInit_heap hmapped process.memory
      rw [hintact.mapped thread call htask, hinit] at hnone
      cases hnone
  | uncarved thread call htask hnone =>
      obtain ⟨halloc, layout, hheap, hrep⟩ := hintact.fresh thread call htask
      obtain ⟨globals, memory₁, hinit, -⟩ := penguinMallocInit_sound hheap.room hrep
      rw [halloc, ← hheap.alloc_eq, hinit] at hnone
      cases hnone

theorem intact_change (hfuel : 2 ≤ fuel) (hmapped : Mapped base)
    (hmaps : Maps base op)
    (hlinearised : Linearised fuel process) (hintact : Intact base process)
    (hbehaved : Behaved fuel base next) (hchange : Change fuel op process next) :
    Intact base next := by
  have hinit := hlinearised.initialised
  have hinitNext := initialisedOnce_change hinit hchange
  cases hchange with
  | stay => exact hintact
  | abort haborts => exact absurd haborts (not_abort hmapped hintact hmaps)
  | crash thread call htask hnone =>
      obtain ⟨reply, hreply⟩ := exists_reply hfuel hlinearised hintact 0
        ⟨hbehaved.early, hbehaved.tame⟩
      rw [hnone] at hreply
      cases hreply
  | enter thread call htask =>
      have hnext := hintact.setTask thread (plain_firstTask call)
      exact ⟨hnext.alive, hnext.mapped, hnext.fresh, hnext.ready⟩
  | claim thread call htask honce =>
      have hnext : Intact base (process.setTask thread (.mapping call)) :=
        hintact.setTask thread rfl
      exact ⟨hnext.alive, hnext.mapped, hnext.fresh, fun hdone => by cases hdone⟩
  | pass thread call htask honce =>
      exact hintact.setTask thread rfl
  | lock thread call htask hfree =>
      have hnext : Intact base (process.setTask thread (.inside call)) :=
        hintact.setTask thread rfl
      exact ⟨hnext.alive, hnext.mapped, hnext.fresh, hnext.ready⟩
  | unlock thread call ptr htask =>
      have hnext : Intact base (process.setTask thread (.returning call ptr)) :=
        hintact.setTask thread rfl
      exact ⟨hnext.alive, hnext.mapped, hnext.fresh, hnext.ready⟩
  | leave thread call ptr htask =>
      have hnext : Intact base (process.setTask thread .outside) := hintact.setTask thread rfl
      exact ⟨hnext.alive, hnext.mapped, hnext.fresh, hnext.ready⟩
  | map thread call found htask hop =>
      have hinside : initialises (process.tasks thread) := by rw [htask]; rfl
      have hrunning := not_done_of_initialises hinit thread hinside
      rw [hop] at hmaps
      refine ⟨hintact.alive, fun _ _ _ => Option.some.inj hmaps, ?_,
        fun hdone => absurd hdone hrunning⟩
      intro other call' hother
      -- nobody else initialises, and the thread itself is not as far as this
      have hcarving : process.tasks other = .carving call' :=
        tasks_before thread (.preparing call) (fun hsame => by cases hsame) hother
      have halone := alone_of_initialises hinit (by rw [hcarving]; rfl) hinside
      rw [halone, htask] at hcarving
      cases hcarving
  | prepare thread call alloc memory htask hready =>
      have hinside : initialises (process.tasks thread) := by rw [htask]; rfl
      rw [hintact.mapped thread call htask] at hready
      obtain ⟨rfl, hfresh⟩ := exists_inHeap hmapped hready
      have hrunning := not_done_of_initialises hinit thread hinside
      refine ⟨hintact.alive, ?_, fun _ _ _ => ⟨rfl, hfresh⟩, fun hdone => absurd hdone hrunning⟩
      intro other call' hother
      exact hintact.mapped other call'
        (tasks_before thread (.carving call) (fun hsame => by cases hsame) hother)
  | carve thread call globals memory htask hready =>
      obtain ⟨halloc, layout, hheap, hrep⟩ := hintact.fresh thread call htask
      obtain ⟨globals', memory', hready', hsound⟩ := penguinMallocInit_sound hheap.room hrep
      rw [halloc, ← hheap.alloc_eq, hready', Option.some.injEq, Prod.mk.injEq] at hready
      obtain ⟨rfl, rfl⟩ := hready
      have hnext : Intact base (process.setTask thread (.locking call)) :=
        hintact.setTask thread rfl
      exact ⟨hnext.alive, hnext.mapped, fun other call' hother =>
        absurd rfl (not_done_of_initialises hinitNext other (by rw [hother]; rfl)),
        fun _ => ⟨layout, hheap, hsound⟩⟩
  | serve thread call ptr memory htask hcall =>
      have hnext : Intact base (process.setTask thread (.unlocking call ptr)) :=
        hintact.setTask thread rfl
      have hnoted : Behaved fuel base (noted process (.called thread call ptr)) :=
        ⟨hbehaved.early, hbehaved.tame⟩
      refine ⟨hnext.alive, hnext.mapped, fun other call' hother => ?_, fun hdone => ?_⟩
      · have hlater := not_done_of_initialises hinitNext other (by rw [hother]; rfl)
        have hrunning : process.gInitOnce ≠ .done := hlater
        obtain ⟨halloc, layout, hheap, hrep⟩ := hnext.fresh other call' hother
        have hsame := memory_of_early hrunning hnoted hcall
        exact ⟨halloc, layout, hheap, hsame ▸ hrep⟩
      · rw [start_record]
        exact hintact.ready hdone
  | write address byte =>
      refine ⟨hintact.alive, hintact.mapped, fun other call' hother => ?_, fun hdone => ?_⟩
      · obtain ⟨halloc, layout, hheap, hrep⟩ := hintact.fresh other call' hother
        have hrunning : process.gInitOnce ≠ .done :=
          not_done_of_initialises hinit other (by rw [hother]; rfl)
        have hnoted : Behaved fuel base (noted process (.wrote address byte)) :=
          ⟨hbehaved.early, hbehaved.tame⟩
        exact ⟨halloc, layout, hheap,
          represents_write byte hheap hrep (hnoted.harmless hrunning)⟩
      · rw [start_record]
        exact hintact.ready hdone

/-! ## Schedules -/

theorem Behaved.of_noted {event : Event} (hbehaved : Behaved fuel base (noted process event)) :
    Behaved fuel base process := by
  obtain ⟨hearly, htame⟩ := hbehaved
  by_cases hdone : process.gInitOnce = .done
  · simp only [noted, hdone, record_done] at hearly htame
    exact ⟨hearly, htame.of_append⟩
  · simp only [noted, record_of_ne hdone] at hearly htame
    exact ⟨fun event hevent => hearly event (List.mem_append_left _ hevent), htame⟩

/-- Threads that behave have behaved before. -/
theorem behaved_of_change (hlinearised : Linearised fuel process)
    (halive : process.failed = false) (hchange : Change fuel op process next)
    (hbehaved : Behaved fuel base next) : Behaved fuel base process := by
  cases hchange with
  | stay => exact hbehaved
  | crash thread call htask hnone =>
      have hnoted : Behaved fuel base (noted process (.called thread call 0)) :=
        ⟨hbehaved.early, hbehaved.tame⟩
      exact hnoted.of_noted
  | carve thread call globals memory htask hready =>
      have hrunning := not_done_of_initialises hlinearised.initialised thread (by rw [htask]; rfl)
      refine ⟨hbehaved.early, ?_⟩
      rw [hlinearised.quiet halive hrunning]
      trivial
  | serve thread call ptr memory htask hcall =>
      have hnoted : Behaved fuel base (noted process (.called thread call ptr)) :=
        ⟨hbehaved.early, hbehaved.tame⟩
      exact hnoted.of_noted
  | write address byte =>
      have hnoted : Behaved fuel base (noted process (.wrote address byte)) :=
        ⟨hbehaved.early, hbehaved.tame⟩
      exact hnoted.of_noted
  | _ => exact ⟨hbehaved.early, hbehaved.tame⟩

theorem intact_launch (memory : Memory) : Intact base (launch memory) where
  alive := rfl
  mapped := fun _ _ htask => by cases htask
  fresh := fun _ _ htask => by cases htask
  ready := fun hdone => by cases hdone

theorem intact_execute (memory : Memory) {ops : List Op} (hfuel : 2 ≤ fuel)
    (hmapped : Mapped base)
    (hmaps : ∀ op ∈ ops, Maps base op)
    (hbehaved : Behaved fuel base (execute fuel (launch memory) ops)) :
    Intact base (execute fuel (launch memory) ops) := by
  induction ops using List.reverseRecOn with
  | nil => exact intact_launch memory
  | append_singleton ops op ih =>
      have hbefore := ih fun op hop => hmaps op (List.mem_append_left _ hop)
      have hstep : execute fuel (launch memory) (ops ++ [op]) =
          step fuel (execute fuel (launch memory) ops) op := List.foldl_append
      rw [hstep] at hbehaved ⊢
      have hlinearised := linearised_of_schedule fuel memory ops
      have hchange := change_step fuel (execute fuel (launch memory) ops) op
      cases halive : (execute fuel (launch memory) ops).failed with
      | true =>
          rw [step_of_failed halive] at hbehaved
          exact absurd ((hbefore hbehaved).alive.symm.trans halive) Bool.false_ne_true
      | false =>
          have hintact := hbefore (behaved_of_change hlinearised halive hchange hbehaved)
          exact intact_change hfuel hmapped
            (hmaps op (List.mem_append_right _ List.mem_cons_self)) hlinearised hintact hbehaved
            hchange

/-- Threads that keep to their blocks never make the process fail, and the live blocks
of the allocator are isolated in the heap. -/
theorem isolated_of_behaved (memory : Memory) {ops : List Op} (hfuel : 2 ≤ fuel)
    (hmapped : Mapped base)
    (hmaps : ∀ op ∈ ops, Maps base op)
    (hbehaved : Behaved fuel base (execute fuel (launch memory) ops)) :
    (execute fuel (launch memory) ops).failed = false ∧
      ((execute fuel (launch memory) ops).gInitOnce = .done → ∃ client,
        run (clientStep fuel (execute fuel (launch memory) ops).globals)
            ⟨(execute fuel (launch memory) ops).history.start, []⟩
            (execute fuel (launch memory) ops).history.events = some client ∧
          client.memory = (execute fuel (launch memory) ops).memory ∧
          Isolated (execute fuel (launch memory) ops).globals base (base + heapSize)
            client) := by
  have hintact := intact_execute memory hfuel hmapped hmaps hbehaved
  refine ⟨hintact.alive, fun hdone => ?_⟩
  have htame := hbehaved.tame
  rw [← List.append_nil (execute fuel (launch memory) ops).history.events] at htame
  obtain ⟨layout, client, hheap, hrun, hmemory, hsound, -⟩ :=
    exists_sound_client hfuel (linearised_of_schedule fuel memory ops) hintact hdone htame
  exact ⟨client, hrun, hmemory,
    hheap.alloc_eq ▸ isolated_of_sound hsound (hheap.alloc_eq.symm ▸ hheap.pool_le)⟩

def move (thread : ℕ) : Op := .move thread (some 65536)

/-- Two threads want memory before there is any, a third one deletes a null pointer in
between, and each of the two gives back the block of the other. -/
def exchange : List Op :=
  [.call 0 (.new 20), .call 1 (.newNothrow 5000), .call 2 (.delete 0), move 0, move 1, move 2,
    move 2, move 2, move 2, move 0, move 0, move 0, move 0, move 1, move 1, move 0, move 0,
    move 1, move 1, move 0, move 1, move 1, .write 73864 7, .write 2170888 9,
    .call 1 (.delete 73864), .call 0 (.delete 2170888), move 0, move 1, move 0, move 1, move 0,
    move 0]

theorem isolated_of_exchange :
    (execute 2 (launch fun _ => 0) exchange).failed = false ∧
      ((execute 2 (launch fun _ => 0) exchange).gInitOnce = .done → ∃ client,
        run (clientStep 2 (execute 2 (launch fun _ => 0) exchange).globals)
            ⟨(execute 2 (launch fun _ => 0) exchange).history.start, []⟩
            (execute 2 (launch fun _ => 0) exchange).history.events = some client ∧
          client.memory = (execute 2 (launch fun _ => 0) exchange).memory ∧
          Isolated (execute 2 (launch fun _ => 0) exchange).globals 65536 (65536 + heapSize)
            client) :=
  isolated_of_behaved (fun _ => 0) le_rfl ⟨by decide, by decide, by decide⟩
    (by decide) (by decide +kernel)

end DoomsdayModules.OperatorIsolation
