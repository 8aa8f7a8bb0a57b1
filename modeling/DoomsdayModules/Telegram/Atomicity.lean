import DoomsdayModules.Telegram.ChatLog
import DoomsdayModules.Telegram.ReaderSections

/-!
# The sections are atomic

A schedule of single accesses does what an interleaving of whole sections does.
Half-printed lines and half-moved indices are seen by nobody.
-/

namespace DoomsdayModules.Telegram.Atomicity

open Function DoomsdayModules.KernelText DoomsdayModules.RingBuffer
open DoomsdayModules.Telegram DoomsdayModules.Telegram.Devices DoomsdayModules.Telegram.MessageBus
open DoomsdayModules.Telegram.Threads DoomsdayModules.Telegram.Exclusion
open DoomsdayModules.Telegram.Sections

variable {opened : ℕ → ℕ} {kernel : Kernel}

/-! ## Calls -/

section Calls

variable {before : TgBusDev} {state : System.State}

theorem simulated_enter (hinv : Invariant opened kernel before)
    (hmatches : Matches opened kernel before state) {process : ℕ} {task : WriterTask} {op : Op}
    (haccess : access op = none) (hidle : kernel.writers process = .idle)
    (hnext : step opened kernel op = kernel.setWriter process task)
    (hpending : pendingOf task = none) :
    Simulated opened (step opened kernel op) state := by
  refine ⟨before, hinv.call haccess, ?_⟩
  rw [hnext]
  refine ⟨hmatches.logs, hmatches.ids, hmatches.queue, hmatches.files, hmatches.busReaders,
    fun other => ?_, hmatches.replies⟩
  have hwriters := hmatches.writers other
  by_cases hother : other = process
  · subst hother
    rw [hidle] at hwriters
    rw [Kernel.setWriter_writers, update_self, hpending]
    exact hwriters
  · rw [Kernel.setWriter_writers, update_of_ne hother]
    exact hwriters

theorem pendingOf_chatWriteEntry (chat : ℕ) (ubuf : Text) (readable : Bool) :
    pendingOf (chatWriteEntry chat ubuf readable) = none := by
  unfold chatWriteEntry
  split <;> rfl

theorem pendingOf_busWriteEntry (ubuf : Text) (readable : Bool) :
    pendingOf (busWriteEntry ubuf readable) = none := by
  unfold busWriteEntry
  split <;> rfl

theorem simulated_read (hinv : Invariant opened kernel before)
    (hmatches : Matches opened kernel before state) {source : Source} {count : ℕ}
    (hidle : kernel.readers source = .idle) :
    Simulated opened (step opened kernel (.read source count))
      (System.step state (readCallOp count source)) := by
  refine ⟨before, hinv.call rfl, ?_⟩
  have hnext : step opened kernel (.read source count) = kernel.setReader source (.lock count) := by
    simp only [step, hidle]
  rw [hnext]
  cases source with
  | file file =>
      have hstep : System.step state (.chatReadCall file count) =
          System.stepFile state file ⟨opened file, kernel.pos file, .entered count,
            kernel.returned file⟩ := by
        simp only [System.step, hmatches.files, hidle, phaseOf, System.OpenFile.moveTo]
      rw [readCallOp, hstep]
      refine ⟨hmatches.logs, hmatches.ids, hmatches.queue, fun other => ?_, fun process => ?_,
        hmatches.writers, hmatches.replies⟩
      · by_cases hother : other = file
        · subst hother
          simp [System.stepFile, phaseOf]
        · have hsource : Source.file other ≠ .file file := fun h => hother (by injection h)
          rw [System.stepFile, Kernel.setReader_readers, update_of_ne hsource]
          exact (assign_of_ne _ hother).trans (hmatches.files other)
      · have hsource : Source.bus process ≠ .file file := fun h => by cases h
        rw [Kernel.setReader_readers, update_of_ne hsource]
        exact hmatches.busReaders process
  | bus process =>
      have hstep : System.step state (.busReadCall process count) =
          System.stepBusReader state state.bus process (.entered count) [] := by
        simp only [System.step, hmatches.busReaders, hidle, phaseOf]
      rw [readCallOp, hstep]
      refine ⟨hmatches.logs, hmatches.ids, hmatches.queue, fun file => ?_, fun other => ?_,
        hmatches.writers, ?_⟩
      · have hsource : Source.file file ≠ .bus process := fun h => by cases h
        rw [Kernel.setReader_readers, update_of_ne hsource]
        exact hmatches.files file
      · by_cases hother : other = process
        · subst hother
          simp [System.stepBusReader, phaseOf]
        · have hsource : Source.bus other ≠ .bus process := fun h => hother (by injection h)
          rw [System.stepBusReader, Kernel.setReader_readers, update_of_ne hsource]
          exact (assign_of_ne _ hother).trans (hmatches.busReaders other)
      · rw [System.stepBusReader, List.append_nil]
        exact hmatches.replies

end Calls

/-! ## Every schedule -/

theorem simulated_init (opened : ℕ → ℕ) :
    Simulated opened telegramInit (System.telegramInit opened) := by
  refine ⟨telegramInit.bus, ⟨locked_init opened, fun agent => ?_, fun _ => rfl⟩, ?_⟩
  · cases agent <;> trivial
  · exact ⟨fun _ => rfl, fun _ => rfl, ⟨[], Holds.nil (by decide) _, Holds.nil (by decide) _⟩,
      fun _ => rfl, fun _ => rfl, fun _ => rfl, rfl⟩

theorem simulated_step (kernel : Kernel) (state : System.State) (op : Op)
    (hsimulated : Simulated opened kernel state) :
    Simulated opened (step opened kernel op)
      ((commit opened kernel op).foldl System.step state) := by
  obtain ⟨before, hinv, hmatches⟩ := hsimulated
  cases op with
  | writer process => exact simulated_writer hinv hmatches process
  | reader source flag => exact simulated_reader hinv hmatches source flag
  | chatWrite process chat ubuf readable =>
      cases htask : kernel.writers process with
      | idle =>
          refine simulated_enter hinv hmatches rfl htask ?_
            (pendingOf_chatWriteEntry chat ubuf readable)
          simp only [step, htask]
      | _ =>
          simp only [step, htask]
          exact ⟨before, hinv, hmatches⟩
  | busWrite process ubuf readable =>
      cases htask : kernel.writers process with
      | idle =>
          refine simulated_enter hinv hmatches rfl htask ?_
            (pendingOf_busWriteEntry ubuf readable)
          simp only [step, htask]
      | _ =>
          simp only [step, htask]
          exact ⟨before, hinv, hmatches⟩
  | read source count =>
      cases htask : kernel.readers source with
      | idle =>
          simp only [commit, htask]
          exact simulated_read hinv hmatches htask
      | _ =>
          simp only [step, commit, htask]
          exact ⟨before, hinv, hmatches⟩

theorem simulated_execute (opened : ℕ → ℕ) (ops : List Op) :
    Simulated opened (execute opened telegramInit ops)
      (System.execute (System.telegramInit opened) (sections opened ops)) :=
  Schedules.foldl_simulates (step opened) System.step (commit opened) simulated_step
    (simulated_init opened) ops

/-- What processes can see of a state between its sections and of one in the
middle of them. -/
structure SameView (kernel : Kernel) (state : System.State) : Prop where
  logs : ∀ chat, (kernel.chats chat).log = (state.chats chat).log
  ids : ∀ chat, (kernel.chats chat).chatId = (state.chats chat).chatId
  count : kernel.bus.count = state.bus.count
  queued : kernel.owner .bus = none → queuedFrames kernel.bus = queuedFrames state.bus
  positions : ∀ file, kernel.pos file = (state.files file).pos
  returned : ∀ file, kernel.returned file = (state.files file).returned
  replies : kernel.busReplies = state.history.busReplies

theorem sameView {state : System.State} (hsimulated : Simulated opened kernel state) :
    SameView kernel state := by
  obtain ⟨before, hinv, hmatches⟩ := hsimulated
  refine ⟨hmatches.logs, hmatches.ids, (count_eq hinv hmatches).symm, fun hfree => ?_,
    fun file => by rw [hmatches.files], fun file => by rw [hmatches.files], hmatches.replies.symm⟩
  have hbefore : before = kernel.bus := by
    refine hinv.settled fun agent hbetween => ?_
    have howner := (hinv.locked .bus agent).mpr (holds_of_between (hinv.fact agent) hbetween)
    rw [hfree] at howner
    cases howner
  obtain ⟨queued, hkernel, hstate⟩ := hmatches.queue
  rw [hbefore] at hkernel
  rw [queuedFrames_eq hkernel, queuedFrames_eq hstate]

/-- A section that has taken effect stays in its place while the schedule goes on. -/
theorem sections_prefix (opened : ℕ → ℕ) (ops rest : List Op) :
    sections opened ops <+: sections opened (ops ++ rest) := by
  rw [sections, sections, Schedules.commits_append]
  exact List.prefix_append _ _

/-- Every schedule of single accesses shows its processes what an interleaving
of whole sections shows them, and a section that has taken effect stays in its
place while the schedule goes on. -/
theorem sections_atomic (opened : ℕ → ℕ) (ops rest : List Op) :
    SameView (execute opened telegramInit ops)
        (System.execute (System.telegramInit opened) (sections opened ops)) ∧
      sections opened ops <+: sections opened (ops ++ rest) :=
  ⟨sameView (simulated_execute opened ops), sections_prefix opened ops rest⟩

/-! ## What schedules keep -/

/-- The frames the bus has taken: those it has delivered and those in its queue. -/
def takenFrames (kernel : Kernel) : List Text :=
  kernel.busReplies.filterMap Except.toOption ++ queuedFrames kernel.bus

/-- What a schedule so far and the rest of it leave of the logs, of what the
readers of the files were given and of the frames on the bus. -/
structure Coherent (opened : ℕ → ℕ) (before after : Kernel) : Prop where
  bufLen_le : ∀ chat, (after.chats chat).bufLen ≤ 4095
  log_grows : ∀ chat, (before.chats chat).log <+: (after.chats chat).log
  pos_le : ∀ file, after.pos file ≤ (after.chats (opened file)).bufLen
  returned_eq : ∀ file,
    after.returned file = ((after.chats (opened file)).log.take (after.pos file))
  queue_le : after.bus.count ≤ busQueueSize
  taken_grows : before.owner .bus = none → after.owner .bus = none →
    takenFrames before <+: takenFrames after

theorem accepted_step (state : System.State) (op : System.Op) :
    state.history.accepted <+: (System.step state op).history.accepted := by
  have hchange := System.change_step state op
  generalize System.step state op = next at hchange
  cases hchange with
  | enqueue process pending _ =>
      simp only [System.stepEnqueue]
      split
      · exact List.prefix_refl _
      · exact List.prefix_append _ _
  | _ => exact List.prefix_refl _

/-- What large steps keep and what they extend. -/
theorem execute_extends {state : System.State}
    (hlog : ChatLog.LogInvariant state) (later : List System.Op) :
    ChatLog.LogInvariant (System.execute state later) ∧
      ChatLog.Extends state (System.execute state later) ∧
      state.history.accepted <+: (System.execute state later).history.accepted := by
  refine @System.execute_invariant (fun next => ChatLog.LogInvariant next ∧
    ChatLog.Extends state next ∧ state.history.accepted <+: next.history.accepted) ?_ state
    ⟨hlog, ChatLog.Extends.refl state, List.prefix_refl _⟩ later
  rintro next op ⟨hinv, hgrow, haccepted⟩
  obtain ⟨hnext, hmore⟩ := ChatLog.logInvariant_step next op hinv
  exact ⟨hnext, hgrow.trans hmore, haccepted.trans (accepted_step next op)⟩

theorem takenFrames_eq {state : System.State} (hview : SameView kernel state)
    (hbus : BusInvariant state) (hfree : kernel.owner .bus = none) :
    takenFrames kernel = acceptedFrames state := by
  obtain ⟨queued, hholds, hframes⟩ := hbus
  rw [takenFrames, hview.replies, hview.queued hfree, queuedFrames_eq hholds, hframes]
  rfl

/-- In every schedule, and from every point of it on, the logs and the queue of
the bus are coherent. -/
theorem schedule_coherent (opened : ℕ → ℕ) (ops rest : List Op) :
    Coherent opened (execute opened telegramInit ops)
      (execute opened telegramInit (ops ++ rest)) := by
  have hbefore := sameView (simulated_execute opened ops)
  have hafter := sameView (simulated_execute opened (ops ++ rest))
  have hbusBefore : BusInvariant
      (System.execute (System.telegramInit opened) (sections opened ops)) :=
    System.execute_invariant busInvariant_step (busInvariant_init opened) _
  have hbusAfter : BusInvariant
      (System.execute (System.telegramInit opened) (sections opened (ops ++ rest))) :=
    System.execute_invariant busInvariant_step (busInvariant_init opened) _
  have hlogBefore : ChatLog.LogInvariant
      (System.execute (System.telegramInit opened) (sections opened ops)) :=
    (execute_extends (ChatLog.logInvariant_init opened) _).1
  obtain ⟨later, hlater⟩ := sections_prefix opened ops rest
  rw [← hlater, System.execute_append] at hafter hbusAfter
  obtain ⟨hlog, hgrow, haccepted⟩ := execute_extends hlogBefore later
  have hopened : ∀ file, ((System.execute (System.execute (System.telegramInit opened)
      (sections opened ops)) later).files file).chat = opened file := fun file => by
    obtain ⟨before, -, hmatches⟩ := simulated_execute opened (ops ++ rest)
    rw [← hlater, System.execute_append] at hmatches
    rw [hmatches.files]
  generalize System.execute (System.telegramInit opened) (sections opened ops) = first at *
  generalize System.execute first later = second at *
  have hlen : ∀ chat, ((execute opened telegramInit (ops ++ rest)).chats chat).bufLen =
      (second.chats chat).bufLen := fun chat => by
    rw [← ChatDev.length_log, hafter.logs, ChatDev.length_log]
  refine ⟨fun chat => ?_, fun chat => ?_, fun file => ?_, fun file => ?_, ?_,
    fun hfreeBefore hfreeAfter => ?_⟩
  · rw [hlen]
    exact Nat.le_of_lt_succ (hlog.bufLen_lt chat)
  · rw [hbefore.logs, hafter.logs]
    exact hgrow chat
  · rw [hlen, hafter.positions, ← hopened file]
    exact hlog.pos_le file
  · rw [hafter.returned, hafter.logs, hafter.positions, ← hopened file]
    exact hlog.returned_eq file
  · rw [hafter.count]
    exact hbusAfter.busFifo.count_le
  · rw [takenFrames_eq hbefore hbusBefore hfreeBefore, takenFrames_eq hafter hbusAfter hfreeAfter]
    exact haccepted.map _

end DoomsdayModules.Telegram.Atomicity
