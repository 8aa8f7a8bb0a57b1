import DoomsdayModules.Telegram.Sections

/-!
# The sections of the writers

A writer's section of a chat takes effect when the length of the log moves or
the chat id is stored, its section of the bus when the count moves or the queue
is found full.
-/

namespace DoomsdayModules.Telegram.Sections

open Function DoomsdayModules.KernelText DoomsdayModules.RingBuffer
open DoomsdayModules.Telegram DoomsdayModules.Telegram.Devices DoomsdayModules.Telegram.MessageBus
open DoomsdayModules.Telegram.Threads DoomsdayModules.Telegram.Exclusion

variable {opened : ℕ → ℕ} {kernel : Kernel}

/-! ## What a small step leaves of a large state -/

theorem phaseOf_wake (task : ReaderTask) : phaseOf task.wake = phaseOf task := by
  cases task with
  | check count signalled woken => cases signalled <;> rfl
  | _ => rfl

theorem busReplies_writerStep (process : ℕ) :
    (writerStep opened kernel process).busReplies = kernel.busReplies := by
  unfold writerStep
  cases kernel.writers process with
  | lockChat | lockBus | lockSet =>
      dsimp only
      split <;> rfl
  | _ => rfl

namespace Matches

variable {before after : TgBusDev} {state : System.State}

/-- What a large step of a writer has to do to follow a small one. -/
theorem writer {process : ℕ} {next : System.State} (hmatches : Matches opened kernel before state)
    (hlogs : ∀ chat, ((writerStep opened kernel process).chats chat).log = (next.chats chat).log)
    (hids : ∀ chat, ((writerStep opened kernel process).chats chat).chatId =
      (next.chats chat).chatId)
    (hqueue : ∃ queued, Holds busQueueSize (ring after) queued ∧
      Holds busQueueSize (ring next.bus) queued)
    (hfiles : next.files = state.files) (hbusReaders : next.busReaders = state.busReaders)
    (hreplies : next.history.busReplies = state.history.busReplies)
    (hothers : ∀ other, other ≠ process → next.writers other = state.writers other)
    (hpending : (next.writers process).map (fun pending => (pending.chat, pending.tmp)) =
      pendingOf ((writerStep opened kernel process).writers process)) :
    Matches opened (writerStep opened kernel process) after next where
  logs := hlogs
  ids := hids
  queue := hqueue
  files := fun file => by
    have hpos := @pos_step_other opened kernel (.writer process) file (fun h => by cases h)
    rw [step] at hpos
    rw [hfiles, hmatches.files, hpos.1, hpos.2]
    rcases readers_writerStep opened kernel process (.file file) with h | h
    · rw [h]
    · rw [h, phaseOf_wake]
  busReaders := fun reader => by
    rw [hbusReaders, hmatches.busReaders]
    rcases readers_writerStep opened kernel process (.bus reader) with h | h
    · rw [h]
    · rw [h, phaseOf_wake]
  writers := fun other => by
    by_cases hother : other = process
    · exact hother ▸ hpending
    · rw [hothers other hother, writers_writerStep_of_ne hother]
      exact hmatches.writers other
  replies := by rw [hreplies, busReplies_writerStep, hmatches.replies]

/-- A small step of a writer that the large state does not see. -/
theorem writer_quiet {process : ℕ} (hmatches : Matches opened kernel before state)
    (hlogs : ∀ chat, ((writerStep opened kernel process).chats chat).log = (kernel.chats chat).log)
    (hids : ∀ chat, ((writerStep opened kernel process).chats chat).chatId =
      (kernel.chats chat).chatId)
    (hpending : pendingOf ((writerStep opened kernel process).writers process) =
      pendingOf (kernel.writers process)) :
    Matches opened (writerStep opened kernel process) before state :=
  hmatches.writer (fun chat => (hlogs chat).trans (hmatches.logs chat))
    (fun chat => (hids chat).trans (hmatches.ids chat)) hmatches.queue rfl rfl rfl
    (fun _ _ => rfl) ((hmatches.writers process).trans hpending.symm)

theorem writers_eq_none {process : ℕ} (hmatches : Matches opened kernel before state)
    (htask : pendingOf (kernel.writers process) = none) : state.writers process = none := by
  have hnone := hmatches.writers process
  rwa [htask, Option.map_eq_none_iff] at hnone

theorem writers_eq_some {process chat : ℕ} {tmp : Text}
    (hmatches : Matches opened kernel before state)
    (htask : pendingOf (kernel.writers process) = some (chat, tmp)) :
    ∃ ticket, state.writers process = some ⟨ticket, chat, tmp⟩ := by
  have hsome := hmatches.writers process
  rw [htask, Option.map_eq_some_iff] at hsome
  obtain ⟨⟨ticket, chat', tmp'⟩, hpending, hsame⟩ := hsome
  cases hsame
  exact ⟨ticket, hpending⟩

end Matches

/-! ## Writers -/

section Writers

variable {before : TgBusDev} {state : System.State} {process : ℕ}

/-- A log does not see what is printed behind its end. -/
theorem log_printTo (chat : ChatDev) (text : Text) :
    (⟨printTo chat.buffer chat.bufLen chat.room text, chat.bufLen, chat.chatId⟩ : ChatDev).log =
      chat.log := by
  refine List.map_congr_left fun i hi => ?_
  exact printTo_of_lt (List.mem_range.mp hi)

theorem simulated_print (hinv : Invariant opened kernel before)
    (hmatches : Matches opened kernel before state) {line : Line}
    (htask : kernel.writers process = .print line) :
    Simulated opened (writerStep opened kernel process) state := by
  have hnext : writerStep opened kernel process = (kernel.setChat line.chat
      ⟨printTo (kernel.chats line.chat).buffer (kernel.chats line.chat).bufLen
        (kernel.chats line.chat).room line.text, (kernel.chats line.chat).bufLen,
        (kernel.chats line.chat).chatId⟩).setWriter process
      (.count line (scnprintf (kernel.chats line.chat).room line.text).length) := by
    rw [writerStep, htask]
  refine ⟨before, ?_, ?_⟩
  · refine @Invariant.keep opened kernel before (.writer process) _ hinv rfl ?_ ?_ ?_
    · rw [step, hnext]
      simp only [Fact, Kernel.setWriter_writers, update_self, WriterFact]
      refine ⟨kernel.chats line.chat, ?_, ?_⟩
      · simp [log_printTo]
      · simp [ChatDev.append]
    · simp [Between, htask]
    · intro _
      rw [step, hnext]
      rfl
  · refine hmatches.writer_quiet (fun chat => ?_) (fun chat => ?_) ?_
    · rw [hnext]
      by_cases hchat : chat = line.chat
      · subst hchat
        simp [log_printTo]
      · simp [hchat]
    · rw [hnext]
      by_cases hchat : chat = line.chat
      · subst hchat
        simp
      · simp [hchat]
    · rw [hnext, htask]
      simp [pendingOf]

/-- The logs after two appends to the same log. -/
theorem log_append_congr {first second : ChatDev} (hlog : first.log = second.log) (text : Text) :
    (first.append text).log = (second.append text).log := by
  have hlen : first.bufLen = second.bufLen := by
    rw [← ChatDev.length_log, hlog, ChatDev.length_log]
  rw [ChatDev.log_append, ChatDev.log_append, hlog, ChatDev.room, ChatDev.room, hlen]

theorem simulated_count (hinv : Invariant opened kernel before)
    (hmatches : Matches opened kernel before state) {line : Line} {stored : ℕ}
    (htask : kernel.writers process = .count line stored) :
    Simulated opened (writerStep opened kernel process)
      (System.step state (lineOp process line)) := by
  have hnext : writerStep opened kernel process = (kernel.setChat line.chat
      ⟨(kernel.chats line.chat).buffer, (kernel.chats line.chat).bufLen + stored,
        (kernel.chats line.chat).chatId⟩).setWriter process (.unlockChat line) := by
    rw [writerStep, htask]
  have hfact := hinv.fact (.writer process)
  rw [Fact, htask] at hfact
  obtain ⟨old, hold, happend⟩ := hfact
  have hlogs : ∀ chat, ((writerStep opened kernel process).chats chat).log =
      (assign state.chats line.chat ((state.chats line.chat).append line.text) chat).log := by
    intro chat
    rw [hnext]
    by_cases hchat : chat = line.chat
    · subst hchat
      rw [assign_self, Kernel.setWriter_chats, Kernel.setChat_chats, update_self, happend]
      exact log_append_congr (hold.trans (hmatches.logs _)) _
    · rw [assign_of_ne _ hchat, Kernel.setWriter_chats, Kernel.setChat_chats, update_of_ne hchat]
      exact hmatches.logs chat
  have hids : ∀ chat, ((writerStep opened kernel process).chats chat).chatId =
      (assign state.chats line.chat ((state.chats line.chat).append line.text) chat).chatId := by
    intro chat
    rw [hnext]
    by_cases hchat : chat = line.chat
    · subst hchat
      rw [assign_self, Kernel.setWriter_chats, Kernel.setChat_chats, update_self]
      exact hmatches.ids _
    · rw [assign_of_ne _ hchat, Kernel.setWriter_chats, Kernel.setChat_chats, update_of_ne hchat]
      exact hmatches.ids chat
  have hidle : state.writers process = none := hmatches.writers_eq_none (by rw [htask]; rfl)
  refine ⟨before, ?_, ?_⟩
  · refine @Invariant.keep opened kernel before (.writer process) _ hinv rfl ?_ ?_ ?_
    · rw [step, hnext]
      simp [Fact, WriterFact]
    · simp [Between, htask]
    · intro _
      rw [step, hnext]
      rfl
  · cases line with
    | user chat tmp hchecked =>
        have hstep : System.step state (lineOp process (.user chat tmp hchecked)) =
            System.stepChatWrite state process chat tmp := by
          simp only [System.step, lineOp, hidle, hchecked]
        rw [hstep]
        refine hmatches.writer hlogs hids hmatches.queue rfl rfl rfl
          (fun other hother => assign_of_ne _ hother) ?_
        rw [hnext]
        simp [System.stepChatWrite, pendingOf]
    | incoming ubuf chat sender message hparsed =>
        have hstep : System.step state (lineOp process (.incoming ubuf chat sender message hparsed)) =
            System.stepBusWrite state (.incoming chat sender message) := by
          simp only [System.step, lineOp, hparsed]
        rw [hstep]
        refine hmatches.writer hlogs hids hmatches.queue rfl rfl rfl (fun _ _ => rfl) ?_
        rw [hnext]
        simp [System.stepBusWrite, pendingOf, hidle]

theorem simulated_storeId (hinv : Invariant opened kernel before)
    (hmatches : Matches opened kernel before state) {binding : Binding}
    (htask : kernel.writers process = .storeId binding) :
    Simulated opened (writerStep opened kernel process)
      (System.step state (.busWrite binding.ubuf true)) := by
  have hnext : writerStep opened kernel process = (kernel.setChat binding.chat
      ⟨(kernel.chats binding.chat).buffer, (kernel.chats binding.chat).bufLen,
        strscpy binding.id chatIdBuffSize⟩).setWriter process (.unlockSet binding) := by
    rw [writerStep, htask]
  have hstep : System.step state (.busWrite binding.ubuf true) =
      System.stepBusWrite state (.set binding.chat binding.id) := by
    simp only [System.step, binding.hparsed]
  have hidle : state.writers process = none := hmatches.writers_eq_none (by rw [htask]; rfl)
  refine ⟨before, ?_, ?_⟩
  · refine @Invariant.keep opened kernel before (.writer process) _ hinv rfl ?_ ?_ ?_
    · rw [step, hnext]
      simp [Fact, WriterFact]
    · simp [Between, htask]
    · intro _
      rw [step, hnext]
      rfl
  · rw [hstep]
    refine hmatches.writer (fun chat => ?_) (fun chat => ?_) hmatches.queue rfl rfl rfl
      (fun _ _ => rfl) ?_
    · rw [hnext, System.stepBusWrite, (log_apply_set state.chats _ _ chat).1]
      refine Eq.trans ?_ (hmatches.logs chat)
      by_cases hchat : chat = binding.chat
      · subst hchat
        rw [Kernel.setWriter_chats, Kernel.setChat_chats, update_self]
        rfl
      · rw [Kernel.setWriter_chats, Kernel.setChat_chats, update_of_ne hchat]
    · rw [hnext]
      simp only [System.stepBusWrite, BusCommand.apply]
      by_cases hchat : chat = binding.chat
      · subst hchat
        rw [Kernel.setWriter_chats, Kernel.setChat_chats, update_self, assign_self]
      · rw [Kernel.setWriter_chats, Kernel.setChat_chats, update_of_ne hchat, assign_of_ne _ hchat]
        exact hmatches.ids chat
    · rw [hnext]
      simp [System.stepBusWrite, pendingOf, hidle]

/-- A small step that is outside of the chats and of the bus. -/
theorem simulated_quiet (hinv : Invariant opened kernel before)
    (hmatches : Matches opened kernel before state)
    (hchats : ∀ chat, (writerStep opened kernel process).chats chat = kernel.chats chat)
    (hbus : (writerStep opened kernel process).bus = kernel.bus)
    (houtside : ¬ Between kernel (.writer process))
    (hfact : Fact opened (writerStep opened kernel process) before (.writer process))
    (hpending : pendingOf ((writerStep opened kernel process).writers process) =
      pendingOf (kernel.writers process)) :
    Simulated opened (writerStep opened kernel process) state :=
  ⟨before, @Invariant.keep opened kernel before (.writer process) _ hinv rfl hfact
    (fun h => absurd h houtside) (fun _ => hbus),
    hmatches.writer_quiet (fun chat => by rw [hchats]) (fun chat => by rw [hchats]) hpending⟩

theorem holds_busEnqueueOutgoing {bus other : TgBusDev} {queued : List BusMessage}
    (hholds : Holds busQueueSize (ring bus) queued) (hother : Holds busQueueSize (ring other) queued)
    (hroom : bus.count < busQueueSize) (chat : ℕ) (tmp : Text) :
    ∃ next, Holds busQueueSize (ring (busEnqueueOutgoing bus chat tmp)) next ∧
      Holds busQueueSize (ring (busEnqueueOutgoing other chat tmp)) next := by
  have hcount : bus.count = other.count := hholds.count_eq.trans hother.count_eq.symm
  have hotherRoom : other.count < busQueueSize := hcount ▸ hroom
  rw [ring_busEnqueueOutgoing (Nat.not_le.mpr hroom),
    ring_busEnqueueOutgoing (Nat.not_le.mpr hotherRoom)]
  exact ⟨_, hholds.push hroom _, hother.push hotherRoom _⟩

/-- The bus is as the last section left it, for a process at its start. -/
theorem settled_of_holds (hinv : Invariant opened kernel before) (agent : Agent)
    (hholds : holds opened kernel agent = some .bus) (houtside : ¬ Between kernel agent) :
    before = kernel.bus := by
  refine hinv.settled fun other hbetween => ?_
  have hsame := hinv.locked.unique (holds_of_between (hinv.fact other) hbetween) hholds
  exact houtside (hsame ▸ hbetween)

theorem simulated_storeFrame (hinv : Invariant opened kernel before)
    (hmatches : Matches opened kernel before state) {chat : ℕ} {tmp : Text}
    (htask : kernel.writers process = .storeFrame chat tmp) :
    Simulated opened (writerStep opened kernel process) state := by
  have hfact := hinv.fact (.writer process)
  rw [Fact, htask] at hfact
  have hbefore := settled_of_holds hinv (.writer process) (by rw [holds, htask]; rfl)
    (by simp [Between, htask])
  refine ⟨before, @Invariant.keep opened kernel before (.writer process) _ hinv rfl ?_ ?_ ?_,
    hmatches.writer_quiet (fun chat => ?_) (fun chat => ?_) ?_⟩
  · have hroom : ¬ busQueueSize ≤ kernel.bus.count := Nat.not_le.mpr hfact
    simp [step, writerStep, htask, Fact, WriterFact, hbefore, busEnqueueOutgoing, hroom,
      show kernel.bus.count < busQueueSize from hfact]
  · simp [Between, htask]
  · simp [Between, step, writerStep, htask]
  · simp [writerStep, htask]
  · simp [writerStep, htask]
  · simp [writerStep, htask, pendingOf]

theorem simulated_moveTail (hinv : Invariant opened kernel before)
    (hmatches : Matches opened kernel before state) {chat : ℕ} {tmp : Text}
    (htask : kernel.writers process = .moveTail chat tmp) :
    Simulated opened (writerStep opened kernel process) state := by
  have hfact := hinv.fact (.writer process)
  rw [Fact, htask] at hfact
  refine ⟨before, @Invariant.keep opened kernel before (.writer process) _ hinv rfl ?_ ?_ ?_,
    hmatches.writer_quiet (fun chat => ?_) (fun chat => ?_) ?_⟩
  · simpa [step, writerStep, htask, Fact, WriterFact] using hfact
  · simp [Between, step, writerStep, htask]
  · simp [Between, step, writerStep, htask]
  · simp [writerStep, htask]
  · simp [writerStep, htask]
  · simp [writerStep, htask, pendingOf]

theorem simulated_moveCount (hinv : Invariant opened kernel before)
    (hmatches : Matches opened kernel before state) {chat : ℕ} {tmp : Text}
    (htask : kernel.writers process = .moveCount chat tmp) :
    Simulated opened (writerStep opened kernel process)
      (System.step state (.enqueue process)) := by
  obtain ⟨hroom, hbus⟩ : WriterFact kernel before (.moveCount chat tmp) := by
    have hfact := hinv.fact (.writer process)
    rwa [Fact, htask] at hfact
  have hnext : writerStep opened kernel process =
      (kernel.setBus (busEnqueueOutgoing before chat tmp)).setWriter process .wakeBus := by
    rw [writerStep, htask, ← hbus]
  obtain ⟨ticket, hpending⟩ := hmatches.writers_eq_some
    (show pendingOf (kernel.writers process) = some (chat, tmp) by rw [htask]; rfl)
  have hstep : System.step state (.enqueue process) =
      System.stepEnqueue state process ⟨ticket, chat, tmp⟩ := by
    simp only [System.step, hpending]
  obtain ⟨queued, hbefore, hstate⟩ := hmatches.queue
  refine ⟨_, @Invariant.last opened kernel before (.writer process) _ hinv rfl ?_ ?_, ?_⟩
  · simp [Between, htask]
  · rw [step, hnext]
    simp [Fact, WriterFact]
  · rw [hstep]
    refine hmatches.writer (fun other => ?_) (fun other => ?_) ?_ rfl rfl rfl
      (fun other hother => assign_of_ne _ hother) ?_
    · rw [hnext]
      exact hmatches.logs other
    · rw [hnext]
      exact hmatches.ids other
    · rw [step, hnext]
      exact holds_busEnqueueOutgoing hbefore hstate hroom chat tmp
    · rw [hnext]
      simp [System.stepEnqueue, pendingOf]

/-- The number of frames readers see without the lock is that of the large state. -/
theorem count_eq (hinv : Invariant opened kernel before)
    (hmatches : Matches opened kernel before state) : state.bus.count = kernel.bus.count := by
  obtain ⟨queued, hbefore, hstate⟩ := hmatches.queue
  have hcount : state.bus.count = before.count := hstate.count_eq.trans hbefore.count_eq.symm
  rw [hcount]
  by_cases hnone : ∀ agent, ¬ Between kernel agent
  · rw [hinv.settled hnone]
  push Not at hnone
  obtain ⟨agent, hbetween⟩ := hnone
  have hfact := hinv.fact agent
  cases agent with
  | writer process =>
      simp only [Between, Fact] at hbetween hfact
      cases htask : kernel.writers process with
      | moveTail chat tmp | moveCount chat tmp =>
          rw [htask] at hfact
          obtain ⟨hroom, hbus⟩ := hfact
          have hcounts := congrArg TgBusDev.count hbus
          rw [busEnqueueOutgoing, if_neg (Nat.not_le.mpr hroom)] at hcounts
          exact (Nat.succ.inj hcounts).symm
      | _ => simp [htask] at hbetween
  | reader source =>
      simp only [Between, Fact] at hbetween hfact
      cases htask : kernel.readers source with
      | finish count bytes =>
          rw [htask] at hfact
          exact hfact.2.2.1
      | _ => simp [htask] at hbetween

theorem simulated_testQueue (hinv : Invariant opened kernel before)
    (hmatches : Matches opened kernel before state) {chat : ℕ} {tmp : Text}
    (htask : kernel.writers process = .testQueue chat tmp) :
    Simulated opened (writerStep opened kernel process)
      ((writerCommit kernel process).foldl System.step state) := by
  by_cases hfull : busQueueSize ≤ kernel.bus.count
  · obtain ⟨ticket, hpending⟩ := hmatches.writers_eq_some
      (show pendingOf (kernel.writers process) = some (chat, tmp) by rw [htask]; rfl)
    have hstate : busQueueSize ≤ state.bus.count := by
      rw [count_eq hinv hmatches]
      exact hfull
    have hcommit : (writerCommit kernel process).foldl System.step state =
        System.stepEnqueue state process ⟨ticket, chat, tmp⟩ := by
      simp [writerCommit, htask, hfull, System.step, hpending]
    have hnext : writerStep opened kernel process = kernel.setWriter process .unlockBus := by
      simp [writerStep, htask, hfull]
    rw [hcommit]
    refine ⟨before, @Invariant.keep opened kernel before (.writer process) _ hinv rfl ?_ ?_ ?_,
      hmatches.writer (fun other => ?_) (fun other => ?_) ?_ rfl rfl rfl
        (fun other hother => assign_of_ne _ hother) ?_⟩
    · rw [step, hnext]
      simp [Fact, WriterFact]
    · simp [Between, htask]
    · intro _
      rw [step, hnext]
      rfl
    · rw [hnext]
      exact hmatches.logs other
    · rw [hnext]
      exact hmatches.ids other
    · simpa only [System.stepEnqueue, busEnqueueOutgoing, if_pos hstate] using hmatches.queue
    · rw [hnext]
      simp [System.stepEnqueue, pendingOf]
  · have hcommit : (writerCommit kernel process).foldl System.step state = state := by
      simp [writerCommit, htask, hfull]
    have hnext : writerStep opened kernel process =
        kernel.setWriter process (.storeFrame chat tmp) := by
      simp [writerStep, htask, hfull]
    rw [hcommit]
    refine simulated_quiet hinv hmatches ?_ ?_ ?_ ?_ ?_
    · simp [hnext]
    · rw [hnext, Kernel.setWriter_bus]
    · simp [Between, htask]
    · rw [hnext]
      simpa [Fact, WriterFact] using hfull
    · rw [hnext, htask]
      simp [pendingOf]

theorem simulated_writer (hinv : Invariant opened kernel before)
    (hmatches : Matches opened kernel before state) (process : ℕ) :
    Simulated opened (writerStep opened kernel process)
      ((writerCommit kernel process).foldl System.step state) := by
  cases htask : kernel.writers process with
  | testQueue chat tmp => exact simulated_testQueue hinv hmatches htask
  | print line =>
      rw [writerCommit, htask]
      exact simulated_print hinv hmatches htask
  | count line stored =>
      rw [writerCommit, htask]
      exact simulated_count hinv hmatches htask
  | storeFrame chat tmp =>
      rw [writerCommit, htask]
      exact simulated_storeFrame hinv hmatches htask
  | moveTail chat tmp =>
      rw [writerCommit, htask]
      exact simulated_moveTail hinv hmatches htask
  | moveCount chat tmp =>
      rw [writerCommit, htask]
      exact simulated_moveCount hinv hmatches htask
  | storeId binding =>
      rw [writerCommit, htask]
      exact simulated_storeId hinv hmatches htask
  | idle =>
      rw [writerCommit, writerStep, htask]
      exact ⟨before, hinv, hmatches⟩
  | lockChat line | lockBus chat tmp | lockSet binding =>
      rw [writerCommit, htask]
      have hquiet := @simulated_quiet opened kernel before state process hinv hmatches
      simp only [writerStep, htask] at hquiet ⊢
      split at hquiet
      · rw [if_pos ‹_›]
        exact hquiet (fun _ => rfl) rfl (by simp [Between, htask]) (by simp [Fact, WriterFact])
          (by simp [pendingOf])
      · rw [if_neg ‹_›]
        exact ⟨before, hinv, hmatches⟩
  | unlockChat line =>
      rw [writerCommit, htask]
      refine simulated_quiet hinv hmatches ?_ ?_ ?_ ?_ ?_ <;>
        cases line <;> simp [writerStep, htask, Between, Fact, WriterFact, pendingOf]
  | wakeChat line =>
      rw [writerCommit, htask]
      refine simulated_quiet hinv hmatches ?_ ?_ ?_ ?_ ?_ <;>
        cases line <;> simp [writerStep, htask, Between, Fact, WriterFact, Line.rest, pendingOf]
  | wakeBus | unlockBus | unlockSet binding =>
      rw [writerCommit, htask]
      refine simulated_quiet hinv hmatches ?_ ?_ ?_ ?_ ?_ <;>
        simp [writerStep, htask, Between, Fact, WriterFact, pendingOf]

end Writers
end DoomsdayModules.Telegram.Sections
