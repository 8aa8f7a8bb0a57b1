import DoomsdayModules.Telegram.WriterSections

/-!
# The sections of the readers

A reader's section takes effect when the position or the count behind what was
copied moves, when the copy fails, or when the lock is given back in front of
nothing to read; the looks at a wait queue's condition take effect by themselves.
-/

namespace DoomsdayModules.Telegram.Sections

open Function DoomsdayModules.KernelText DoomsdayModules.RingBuffer
open DoomsdayModules.Telegram DoomsdayModules.Telegram.Devices DoomsdayModules.Telegram.MessageBus
open DoomsdayModules.Telegram.Threads DoomsdayModules.Telegram.Exclusion

variable {opened : ℕ → ℕ} {kernel : Kernel}

namespace Matches

variable {before after : TgBusDev} {state : System.State}

/-- What a large step of a reader has to do to follow a small one. -/
theorem reader {source : Source} {flag : Bool} {next : System.State}
    (hmatches : Matches opened kernel before state)
    (hchats : next.chats = state.chats) (hwriters : next.writers = state.writers)
    (hqueue : ∃ queued, Holds busQueueSize (ring after) queued ∧
      Holds busQueueSize (ring next.bus) queued)
    (hfile : ∀ file, source = .file file → next.files file =
      ⟨opened file, (readerStep opened kernel source flag).pos file,
        phaseOf ((readerStep opened kernel source flag).readers source),
        (readerStep opened kernel source flag).returned file⟩)
    (hfiles : ∀ file, source ≠ .file file → next.files file = state.files file)
    (hbusReader : ∀ process, source = .bus process → next.busReaders process =
      phaseOf ((readerStep opened kernel source flag).readers source))
    (hbusReaders : ∀ process, source ≠ .bus process →
      next.busReaders process = state.busReaders process)
    (hreplies : next.history.busReplies = (readerStep opened kernel source flag).busReplies) :
    Matches opened (readerStep opened kernel source flag) after next where
  logs := by
    rw [(readerStep_keeps opened kernel source flag).2, hchats]
    exact hmatches.logs
  ids := by
    rw [(readerStep_keeps opened kernel source flag).2, hchats]
    exact hmatches.ids
  queue := hqueue
  files := fun file => by
    by_cases hsource : source = .file file
    · subst hsource
      exact hfile file rfl
    · have hpos := @pos_step_other opened kernel (.reader source flag) file (by simpa [access])
      rw [step] at hpos
      rw [hfiles file hsource, hmatches.files, hpos.1, hpos.2,
        readers_readerStep_of_ne flag (Ne.symm hsource)]
  busReaders := fun process => by
    by_cases hsource : source = .bus process
    · subst hsource
      exact hbusReader process rfl
    · rw [hbusReaders process hsource, hmatches.busReaders,
        readers_readerStep_of_ne flag (Ne.symm hsource)]
  writers := by
    rw [(readerStep_keeps opened kernel source flag).1, hwriters]
    exact hmatches.writers
  replies := hreplies

/-- The large steps of a reader of a file. -/
theorem file_step {file : ℕ} {flag : Bool} {next : System.OpenFile}
    (hmatches : Matches opened kernel before state)
    (hnext : next = ⟨opened file, (readerStep opened kernel (.file file) flag).pos file,
      phaseOf ((readerStep opened kernel (.file file) flag).readers (.file file)),
      (readerStep opened kernel (.file file) flag).returned file⟩)
    (hreplies : (readerStep opened kernel (.file file) flag).busReplies = kernel.busReplies) :
    Matches opened (readerStep opened kernel (.file file) flag) before
      (System.stepFile state file next) := by
  refine hmatches.reader rfl rfl hmatches.queue (fun other hother => ?_) (fun other hother => ?_)
    (fun _ h => by cases h) (fun _ _ => rfl) ?_
  · cases hother
    rw [← hnext]
    exact assign_self _ _ _
  · exact assign_of_ne _ fun h => hother (by rw [h])
  · rw [hreplies]
    exact hmatches.replies

/-- The large steps of a reader of the bus. -/
theorem bus_step {process : ℕ} {flag : Bool} {bus : TgBusDev} {phase : System.Phase}
    {replies : List (Except Int Text)} (hmatches : Matches opened kernel before state)
    (hqueue : ∃ queued, Holds busQueueSize (ring after) queued ∧
      Holds busQueueSize (ring bus) queued)
    (hphase : phase = phaseOf ((readerStep opened kernel (.bus process) flag).readers (.bus process)))
    (hreplies : (readerStep opened kernel (.bus process) flag).busReplies =
      kernel.busReplies ++ replies) :
    Matches opened (readerStep opened kernel (.bus process) flag) after
      (System.stepBusReader state bus process phase replies) := by
  refine hmatches.reader rfl rfl hqueue (fun _ h => by cases h) (fun _ _ => rfl) (fun other hother => ?_)
    (fun other hother => ?_) ?_
  · cases hother
    rw [← hphase]
    exact assign_self _ _ _
  · exact assign_of_ne _ fun h => hother (by rw [h])
  · rw [hreplies, ← hmatches.replies]
    rfl

end Matches
section Readers

variable {before : TgBusDev} {state : System.State} {source : Source} {flag : Bool}

theorem available_file (hmatches : Matches opened kernel before state) (file : ℕ) :
    Available opened kernel (.file file) ↔
      kernel.pos file < (state.chats (opened file)).bufLen := by
  rw [Available, ← ChatDev.length_log, hmatches.logs, ChatDev.length_log]

theorem available_bus (hinv : Invariant opened kernel before)
    (hmatches : Matches opened kernel before state) (process : ℕ) :
    Available opened kernel (.bus process) ↔ 0 < state.bus.count := by
  rw [Available, count_eq hinv hmatches]

/-- A small step of a reader that is outside of the bus. -/
theorem Invariant.reader (hinv : Invariant opened kernel before)
    (hbus : (readerStep opened kernel source flag).bus = kernel.bus)
    (houtside : ¬ Between kernel (.reader source))
    (hfact : Fact opened (readerStep opened kernel source flag) before (.reader source)) :
    Invariant opened (readerStep opened kernel source flag) before :=
  @Invariant.keep opened kernel before (.reader source flag) _ hinv rfl hfact
    (fun h => absurd h houtside) (fun _ => hbus)

/-- A small step of a reader that the large state does not see. -/
theorem simulated_reader_quiet (hinv : Invariant opened kernel before)
    (hmatches : Matches opened kernel before state)
    (hbus : (readerStep opened kernel source flag).bus = kernel.bus)
    (houtside : ¬ Between kernel (.reader source))
    (hfact : Fact opened (readerStep opened kernel source flag) before (.reader source))
    (hpos : ∀ file, (readerStep opened kernel source flag).pos file = kernel.pos file ∧
      (readerStep opened kernel source flag).returned file = kernel.returned file)
    (hreplies : (readerStep opened kernel source flag).busReplies = kernel.busReplies)
    (hphase : phaseOf ((readerStep opened kernel source flag).readers source) =
      phaseOf (kernel.readers source)) :
    Simulated opened (readerStep opened kernel source flag) state := by
  refine ⟨before, hinv.reader hbus houtside hfact, hmatches.reader rfl rfl hmatches.queue
    (fun file hfile => ?_) (fun _ _ => rfl) (fun process hprocess => ?_) (fun _ _ => rfl) ?_⟩
  · rw [hphase, (hpos file).1, (hpos file).2, hmatches.files, hfile]
  · rw [hphase, hmatches.busReaders, hprocess]
  · rw [hreplies, hmatches.replies]

theorem simulated_unlockEmpty (hinv : Invariant opened kernel before)
    (hmatches : Matches opened kernel before state) {count : ℕ}
    (htask : kernel.readers source = .unlockEmpty count) :
    Simulated opened (readerStep opened kernel source flag)
      (System.step state (readLockOp flag true source)) := by
  have hfact := hinv.fact (.reader source)
  rw [Fact, htask] at hfact
  have hnothing : ¬ Available opened kernel source := hfact
  have hinv' : Invariant opened (readerStep opened kernel source flag) before := by
    refine hinv.reader ?_ (by simp [Between, htask]) ?_
    · cases flag <;> simp [readerStep, htask]
    · cases flag <;> simp [readerStep, htask, Fact, ReaderFact]
  refine ⟨before, hinv', ?_⟩
  cases source with
  | file file =>
      rw [available_file hmatches] at hnothing
      have hstep : System.step state (.chatReadLock file flag true) =
          System.stepFile state file ⟨opened file, kernel.pos file,
            if flag then .idle else .waiting count, kernel.returned file⟩ := by
        simp only [System.step, hmatches.files, htask, phaseOf, System.chatReadPass,
          if_pos (Nat.not_lt.mp hnothing), System.OpenFile.moveTo]
      rw [readLockOp, hstep]
      refine hmatches.file_step ?_ ?_
      · cases flag <;> simp [readerStep, htask, phaseOf]
      · cases flag <;> simp [readerStep, htask, Source.replies]
  | bus process =>
      rw [available_bus hinv hmatches] at hnothing
      have hempty : state.bus.count = 0 := Nat.eq_zero_of_not_pos hnothing
      have hstep : System.step state (.busReadLock process flag true) =
          System.stepBusReader state state.bus process (if flag then .idle else .waiting count)
            (if flag then [.error eagain] else []) := by
        cases flag <;> simp [System.step, hmatches.busReaders, htask, phaseOf,
          System.stepBusReadPass, hempty]
      rw [readLockOp, hstep]
      refine hmatches.bus_step hmatches.queue ?_ ?_
      · cases flag <;> simp [readerStep, htask, phaseOf]
      · cases flag <;> simp [readerStep, htask, Source.replies]

/-- A look at the condition of a wait queue that ends the wait. -/
theorem simulated_wake (hinv : Invariant opened kernel before)
    (hmatches : Matches opened kernel before state) {count : ℕ}
    (hphase : phaseOf (kernel.readers source) = .waiting count)
    (havailable : Available opened kernel source)
    (houtside : ¬ Between kernel (.reader source))
    (hnext : readerStep opened kernel source flag = kernel.setReader source (.lock count)) :
    Simulated opened (readerStep opened kernel source flag)
      (System.step state (readWakeOp false source)) := by
  refine ⟨before, hinv.reader (by simp [hnext]) houtside (by simp [hnext, Fact, ReaderFact]), ?_⟩
  cases source with
  | file file =>
      rw [available_file hmatches] at havailable
      have hstep : System.step state (.chatReadWake file false) =
          System.stepFile state file ⟨opened file, kernel.pos file, .entered count,
            kernel.returned file⟩ := by
        simp [System.step, hmatches.files, hphase, havailable, System.OpenFile.moveTo]
      rw [readWakeOp, hstep]
      exact hmatches.file_step (by simp [hnext, phaseOf]) (by simp [hnext])
  | bus process =>
      rw [available_bus hinv hmatches] at havailable
      have hstep : System.step state (.busReadWake process false) =
          System.stepBusReader state state.bus process (.entered count) [] := by
        simp [System.step, hmatches.busReaders, hphase, havailable]
      rw [readWakeOp, hstep]
      exact hmatches.bus_step hmatches.queue (by simp [hnext, phaseOf]) (by simp [hnext])

/-- A wait that a signal ends. -/
theorem simulated_interrupted (hinv : Invariant opened kernel before)
    (hmatches : Matches opened kernel before state) {count : ℕ}
    (hphase : phaseOf (kernel.readers source) = .waiting count)
    (houtside : ¬ Between kernel (.reader source))
    (hnext : readerStep opened kernel source flag =
      (kernel.answer source (.error erestartsys)).setReader source .idle) :
    Simulated opened (readerStep opened kernel source flag)
      (System.step state (readWakeOp true source)) := by
  refine ⟨before, hinv.reader (by simp [hnext]) houtside (by simp [hnext, Fact, ReaderFact]), ?_⟩
  cases source with
  | file file =>
      have hstep : System.step state (.chatReadWake file true) =
          System.stepFile state file ⟨opened file, kernel.pos file, .idle,
            kernel.returned file⟩ := by
        simp [System.step, hmatches.files, hphase, System.OpenFile.moveTo]
      rw [readWakeOp, hstep]
      exact hmatches.file_step (by simp [hnext, phaseOf]) (by simp [hnext, Source.replies])
  | bus process =>
      have hstep : System.step state (.busReadWake process true) =
          System.stepBusReader state state.bus process .idle [.error erestartsys] := by
        simp [System.step, hmatches.busReaders, hphase]
      rw [readWakeOp, hstep]
      exact hmatches.bus_step hmatches.queue (by simp [hnext, phaseOf])
        (by simp [hnext, Source.replies])

/-- Two rings that hold the same frames have the same one at their heads. -/
theorem busReadLocked_congr {bus other : TgBusDev} {queued : List BusMessage}
    (hholds : Holds busQueueSize (ring bus) queued) (hother : Holds busQueueSize (ring other) queued)
    (hcount : bus.count ≠ 0) (count : ℕ) (writable : Bool) :
    (busReadLocked other count writable).1 = (busReadLocked bus count writable).1 := by
  obtain ⟨front, rest, rfl⟩ := hholds.exists_cons hcount
  have hfront : bus.queue bus.head = front := hholds.front
  have hotherFront : other.queue other.head = front := hother.front
  simp only [busReadLocked, hfront, hotherFront]
  split
  · rfl
  · split <;> rfl

theorem busReadLocked_error {bus : TgBusDev} {count : ℕ} {writable : Bool} {code : Int}
    (herror : (busReadLocked bus count writable).1 = .error code) :
    busReadLocked bus count writable = (.error code, bus) := by
  by_cases hlen : count < (bus.queue bus.head).len
  · simpa [busReadLocked, hlen] using herror
  · cases writable with
    | false => simpa [busReadLocked, hlen] using herror
    | true => simp [busReadLocked, hlen] at herror

theorem busReadLocked_ok {bus : TgBusDev} {count : ℕ} {writable : Bool} {bytes : Text}
    (hok : (busReadLocked bus count writable).1 = .ok bytes) :
    busReadLocked bus count writable =
        (.ok bytes, ⟨bus.queue, bus.count - 1, (bus.head + 1) % busQueueSize, bus.tail⟩) ∧
      busReadLocked bus count true = busReadLocked bus count writable := by
  by_cases hlen : count < (bus.queue bus.head).len
  · simp [busReadLocked, hlen] at hok
  · cases writable with
    | false => simp [busReadLocked, hlen] at hok
    | true => simpa [busReadLocked, hlen] using hok

theorem replyTo_ok {count : ℕ} {bytes : Text} (hok : replyTo opened kernel count flag source = .ok bytes) :
    replyTo opened kernel count true source = .ok bytes := by
  cases source with
  | file file =>
      cases flag with
      | true => exact hok
      | false => cases hok
  | bus process =>
      rw [replyTo] at hok ⊢
      rw [(busReadLocked_ok hok).2]
      exact hok

/-- The two rings, while a reader of the bus has not moved its head. -/
theorem queue_of_reader (hinv : Invariant opened kernel before)
    (hmatches : Matches opened kernel before state) {process : ℕ}
    (hinside : readerInside (kernel.readers (.bus process)) = true)
    (houtside : ¬ Between kernel (.reader (.bus process))) :
    before = kernel.bus ∧ ∃ queued, Holds busQueueSize (ring kernel.bus) queued ∧
      Holds busQueueSize (ring state.bus) queued := by
  have hbefore := settled_of_holds hinv (.reader (.bus process)) (if_pos hinside) houtside
  exact ⟨hbefore, hbefore ▸ hmatches.queue⟩

/-- The copy to the user that fails. -/
theorem simulated_copy_error (hinv : Invariant opened kernel before)
    (hmatches : Matches opened kernel before state) {count : ℕ} {code : Int}
    (htask : kernel.readers source = .copy count)
    (herror : replyTo opened kernel count flag source = .error code) :
    Simulated opened (readerStep opened kernel source flag)
      (System.step state (readLockOp false flag source)) := by
  have hfact := hinv.fact (.reader source)
  rw [Fact, htask] at hfact
  have havailable : Available opened kernel source := hfact
  have hnext : readerStep opened kernel source flag =
      (kernel.answer source (.error code)).setReader source .unlock := by
    simp only [readerStep, htask, readerCopy, herror]
  have houtside : ¬ Between kernel (.reader source) := by simp [Between, htask]
  refine ⟨before, hinv.reader (by simp [hnext]) houtside (by simp [hnext, Fact, ReaderFact]), ?_⟩
  cases source with
  | file file =>
      rw [available_file hmatches] at havailable
      have hflag : flag = false := by
        cases flag with
        | false => rfl
        | true => cases herror
      have hstep : System.step state (.chatReadLock file false flag) =
          System.stepFile state file ⟨opened file, kernel.pos file, .idle,
            kernel.returned file⟩ := by
        simp [System.step, hmatches.files, htask, phaseOf, System.chatReadPass, chatReadLocked,
          Nat.not_le.mpr havailable, System.OpenFile.moveTo, hflag]
      rw [readLockOp, hstep]
      exact hmatches.file_step (by simp [hnext, phaseOf]) (by simp [hnext, Source.replies])
  | bus process =>
      obtain ⟨hbefore, queued, hkernel, hstate⟩ :=
        queue_of_reader hinv hmatches (by rw [htask]; rfl) houtside
      have hreply : (busReadLocked state.bus count flag).1 = .error code := by
        rw [busReadLocked_congr hkernel hstate (Nat.pos_iff_ne_zero.mp havailable)]
        exact herror
      rw [available_bus hinv hmatches] at havailable
      have hstep : System.step state (.busReadLock process false flag) =
          System.stepBusReader state state.bus process .idle [.error code] := by
        simp only [System.step, hmatches.busReaders, htask, phaseOf, System.stepBusReadPass,
          if_neg (Nat.pos_iff_ne_zero.mp havailable), busReadLocked_error hreply]
      rw [readLockOp, hstep]
      exact hmatches.bus_step hmatches.queue (by simp [hnext, phaseOf])
        (by simp [hnext, Source.replies])

theorem simulated_advance (hinv : Invariant opened kernel before)
    (hmatches : Matches opened kernel before state) {count : ℕ} {bytes : Text}
    (htask : kernel.readers source = .advance count bytes) :
    Simulated opened (readerStep opened kernel source flag)
      ((readerCommit opened kernel source flag).foldl System.step state) := by
  obtain ⟨havailable, hreply⟩ : ReaderFact opened kernel before source (.advance count bytes) := by
    have hfact := hinv.fact (.reader source)
    rwa [Fact, htask] at hfact
  have houtside : ¬ Between kernel (.reader source) := by simp [Between, htask]
  cases source with
  | file file =>
      have hnext : readerStep opened kernel (.file file) flag =
          (kernel.deliver file bytes).setReader (.file file) .unlock := by
        simp only [readerStep, htask, readerAdvance]
      refine ⟨before, hinv.reader (by simp [hnext]) houtside (by simp [hnext, Fact, ReaderFact]), ?_⟩
      have hcopy : chatReadLocked (state.chats (opened file)) (kernel.pos file) count true =
          .ok bytes := by
        rw [← hreply, replyTo, chatReadLocked_eq, chatReadLocked_eq, hmatches.logs]
      rw [available_file hmatches] at havailable
      have hstep : System.step state (.chatReadLock file false true) =
          System.stepFile state file ⟨opened file, kernel.pos file + bytes.length, .idle,
            kernel.returned file ++ bytes⟩ := by
        simp only [System.step, hmatches.files, htask, phaseOf, System.chatReadPass,
          if_neg (Nat.not_le.mpr havailable), hcopy]
      simp only [readerCommit, htask, List.foldl_cons, List.foldl_nil, readLockOp, hstep]
      exact hmatches.file_step (by simp [hnext, phaseOf]) (by simp [hnext])
  | bus process =>
      have hnext : readerStep opened kernel (.bus process) flag =
          (kernel.setBus ⟨kernel.bus.queue, kernel.bus.count,
            (kernel.bus.head + 1) % busQueueSize, kernel.bus.tail⟩).setReader
            (.bus process) (.finish count bytes) := by
        simp only [readerStep, htask, readerAdvance]
      have hbefore := (queue_of_reader hinv hmatches (by rw [htask]; rfl) houtside).1
      have hcommit : readerCommit opened kernel (.bus process) flag = [] := by
        simp only [readerCommit, htask]
      rw [hcommit, List.foldl_nil]
      refine ⟨before, @Invariant.keep opened kernel before (.reader (.bus process) flag)
        (.reader (.bus process)) hinv rfl ?_ (fun h => absurd h houtside) ?_, ?_⟩
      · rw [step, hnext]
        simp only [Fact, Kernel.setReader_readers, update_self, ReaderFact, hbefore]
        exact ⟨rfl, Nat.pos_iff_ne_zero.mp havailable, rfl, (busReadLocked_ok hreply).1⟩
      · rw [step, hnext]
        simp [Between]
      · refine hmatches.reader rfl rfl hmatches.queue (fun _ h => by cases h) (fun _ _ => rfl)
          (fun other hother => ?_) (fun _ _ => rfl) ?_
        · cases hother
          rw [hmatches.busReaders, htask, hnext]
          simp [phaseOf]
        · rw [hmatches.replies, hnext]
          rfl

theorem simulated_finish (hinv : Invariant opened kernel before)
    (hmatches : Matches opened kernel before state) {count : ℕ} {bytes : Text}
    (htask : kernel.readers source = .finish count bytes) :
    Simulated opened (readerStep opened kernel source flag)
      (System.step state (readLockOp false true source)) := by
  obtain ⟨hlock, hcount, hcounts, hread⟩ :
      ReaderFact opened kernel before source (.finish count bytes) := by
    have hfact := hinv.fact (.reader source)
    rwa [Fact, htask] at hfact
  cases source with
  | file file => cases hlock
  | bus process =>
      have hnext : readerStep opened kernel (.bus process) flag =
          ((kernel.setBus ⟨kernel.bus.queue, kernel.bus.count - 1, kernel.bus.head,
            kernel.bus.tail⟩).answer (.bus process) (.ok bytes)).setReader
            (.bus process) .unlock := by
        simp only [readerStep, htask, readerFinish]
      obtain ⟨queued, hbefore, hstate⟩ := hmatches.queue
      have hreply : (busReadLocked state.bus count true).1 = .ok bytes := by
        rw [busReadLocked_congr hbefore hstate hcount, hread]
      have hstateCount : state.bus.count ≠ 0 := by
        rw [count_eq hinv hmatches, ← hcounts]
        exact hcount
      have hstep : System.step state (.busReadLock process false true) =
          System.stepBusReader state
            ⟨state.bus.queue, state.bus.count - 1, (state.bus.head + 1) % busQueueSize,
              state.bus.tail⟩ process .idle [.ok bytes] := by
        simp only [System.step, hmatches.busReaders, htask, phaseOf, System.stepBusReadPass,
          if_neg hstateCount, (busReadLocked_ok hreply).1]
      have hbus : (⟨kernel.bus.queue, kernel.bus.count - 1, kernel.bus.head,
          kernel.bus.tail⟩ : TgBusDev) =
          ⟨before.queue, before.count - 1, (before.head + 1) % busQueueSize, before.tail⟩ := by
        have hok := (busReadLocked_ok (show (busReadLocked before count true).1 = .ok bytes by
          rw [hread])).1
        rw [hread] at hok
        exact congrArg Prod.snd hok
      rw [readLockOp, hstep]
      refine ⟨_, @Invariant.last opened kernel before (.reader (.bus process) flag)
        (.reader (.bus process)) hinv rfl ?_ ?_, hmatches.bus_step ?_ ?_ ?_⟩
      · simp [Between, htask]
      · rw [step, hnext]
        simp [Fact, ReaderFact]
      · rw [step, hnext]
        obtain ⟨front, rest, rfl⟩ := hbefore.exists_cons hcount
        refine ⟨rest, ?_, hstate.pop⟩
        simp only [Kernel.setReader_bus, Kernel.answer_bus, Kernel.setBus_bus, hbus]
        exact hbefore.pop
      · simp [hnext, phaseOf]
      · simp [hnext, Source.replies]

theorem simulated_reader (hinv : Invariant opened kernel before)
    (hmatches : Matches opened kernel before state) (source : Source) (flag : Bool) :
    Simulated opened (readerStep opened kernel source flag)
      ((readerCommit opened kernel source flag).foldl System.step state) := by
  cases htask : kernel.readers source with
  | unlockEmpty count =>
      simp only [readerCommit, htask, List.foldl_nil, List.foldl_cons]
      exact simulated_unlockEmpty hinv hmatches htask
  | advance count bytes => exact simulated_advance hinv hmatches htask
  | finish count bytes =>
      simp only [readerCommit, htask, List.foldl_nil, List.foldl_cons]
      exact simulated_finish hinv hmatches htask
  | idle =>
      simp only [readerCommit, readerStep, htask, List.foldl_nil]
      exact ⟨before, hinv, hmatches⟩
  | copy count =>
      cases hreply : replyTo opened kernel count flag source with
      | error code =>
          simp only [readerCommit, htask, hreply]
          exact simulated_copy_error hinv hmatches htask hreply
      | ok bytes =>
          simp only [readerCommit, htask, hreply]
          have hfact := hinv.fact (.reader source)
          rw [Fact, htask] at hfact
          have hnext : readerStep opened kernel source flag =
              kernel.setReader source (.advance count bytes) := by
            simp only [readerStep, htask, readerCopy, hreply]
          refine simulated_reader_quiet hinv hmatches ?_ ?_ ?_ ?_ ?_ ?_ <;>
            simp [hnext, Between, htask, phaseOf, Fact, ReaderFact]
          exact ⟨hfact, replyTo_ok hreply⟩
  | waitFirst count =>
      by_cases havailable : Available opened kernel source
      · simp only [readerCommit, htask, if_pos havailable]
        exact simulated_wake hinv hmatches (by rw [htask]; rfl) havailable
          (by simp [Between, htask]) (by simp [readerStep, htask, havailable])
      · simp only [readerCommit, htask, if_neg havailable]
        refine simulated_reader_quiet hinv hmatches ?_ ?_ ?_ ?_ ?_ ?_ <;>
          simp [readerStep, htask, havailable, Between, Fact, ReaderFact, phaseOf]
  | check count signalled woken =>
      by_cases havailable : Available opened kernel source
      · simp only [readerCommit, htask, if_pos havailable]
        exact simulated_wake hinv hmatches (by rw [htask]; rfl) havailable
          (by simp [Between, htask]) (by simp [readerStep, htask, havailable])
      · cases signalled with
        | true =>
            simp only [readerCommit, htask, if_neg havailable]
            exact @simulated_interrupted opened kernel before state source flag hinv hmatches count
              (by rw [htask]; rfl)
              (by simp [Between, htask]) (by simp [readerStep, htask, havailable])
        | false =>
            simp only [readerCommit, htask, if_neg havailable]
            refine simulated_reader_quiet hinv hmatches ?_ ?_ ?_ ?_ ?_ ?_ <;>
              simp [readerStep, htask, havailable, Between, Fact, ReaderFact, phaseOf]
  | lock count =>
      simp only [readerCommit, htask, List.foldl_nil]
      by_cases hfree : kernel.owner (lockOf opened source) = none
      · refine simulated_reader_quiet hinv hmatches ?_ ?_ ?_ ?_ ?_ ?_ <;>
          simp [readerStep, htask, hfree, Between, Fact, ReaderFact, phaseOf]
      · have hnext : readerStep opened kernel source flag = kernel := by
          simp only [readerStep, htask, if_neg hfree]
        rw [hnext]
        exact ⟨before, hinv, hmatches⟩
  | test count =>
      simp only [readerCommit, htask, List.foldl_nil]
      by_cases havailable : Available opened kernel source <;>
        refine simulated_reader_quiet hinv hmatches ?_ ?_ ?_ ?_ ?_ ?_ <;>
          simp [readerStep, htask, havailable, Between, Fact, ReaderFact, phaseOf]
  | prepare count =>
      simp only [readerCommit, htask, List.foldl_nil]
      refine simulated_reader_quiet hinv hmatches ?_ ?_ ?_ ?_ ?_ ?_ <;>
        simp [readerStep, htask, Between, Fact, ReaderFact, phaseOf]
  | schedule count woken =>
      simp only [readerCommit, htask, List.foldl_nil]
      by_cases hleaves : woken ∨ flag
      · refine simulated_reader_quiet hinv hmatches ?_ ?_ ?_ ?_ ?_ ?_ <;>
          simp [readerStep, htask, hleaves, Between, Fact, ReaderFact, phaseOf]
      · have hnext : readerStep opened kernel source flag = kernel := by
          simp only [readerStep, htask, if_neg hleaves]
        rw [hnext]
        exact ⟨before, hinv, hmatches⟩
  | unlock =>
      simp only [readerCommit, htask, List.foldl_nil]
      refine simulated_reader_quiet hinv hmatches ?_ ?_ ?_ ?_ ?_ ?_ <;>
        simp [readerStep, htask, Between, Fact, ReaderFact, phaseOf]

end Readers
end DoomsdayModules.Telegram.Sections
