import DoomsdayModules.Core.Schedules
import DoomsdayModules.Telegram.ChatLog
import DoomsdayModules.Telegram.Relay

/-!
# From the chats to the service

The main thread takes the frames off the queue in order and hands each over
once; a frame it has in hand when the daemon is killed is lost.  Its reads never
fail and never sleep, since it is the only reader and every frame is shorter
than what it asks for.  What is handed over is the message in the frame, for
whatever bytes a user wrote.
-/

namespace DoomsdayModules.Telegram.RelayOutgoing

open DoomsdayModules.KernelText DoomsdayModules.RingBuffer DoomsdayModules.Utf8
open DoomsdayModules.Telegram.Devices DoomsdayModules.Telegram.System
open DoomsdayModules.Telegram.ChatLog DoomsdayModules.Telegram.MessageBus
open DoomsdayModules.Telegram.Daemon DoomsdayModules.Telegram.Outgoing
open DoomsdayModules.Telegram.Relay

/-! ## The message in a frame -/

theorem frameBytes_eq (chatIdx : ℕ) (tmp : Text) :
    frameBytes (outFrame chatIdx tmp) = (outLine chatIdx tmp).take 127 := by
  rw [frameBytes, outFrame, List.take_length, scnprintf_eq_take _ (by decide) (by decide)]
  rfl

theorem frameBytes_ne_nil (chatIdx : ℕ) (tmp : Text) : frameBytes (outFrame chatIdx tmp) ≠ [] := by
  rw [frameBytes_eq, outLine]
  simp

theorem outFrame_len_lt (chatIdx : ℕ) (tmp : Text) : (outFrame chatIdx tmp).len < busMessageSize :=
  length_scnprintf_lt _ (by decide)

/-! ## The messages in the module -/

/-- The entry of a message whose frame the queue accepted. -/
def acceptedOf (message : Pending) : Accepted :=
  ⟨message.ticket, message.chat, outFrame message.chat message.tmp⟩

/-- The line of the message is a piece of the log of its chat, as far as the pieces
in front of it left room. -/
structure InLog (kernel : System.State) (message : Pending) : Prop where
  chat_lt : message.chat < maxChats
  placed : ∃ earlier, earlier ++ [⟨some message.ticket, (userLine message.tmp).take
      (msgBuffSize - 1 - (earlier.flatMap Piece.stored).length)⟩] <+:
    kernel.history.pieces message.chat

/-- The frames on the bus are those of messages in the logs. -/
structure Enqueued (kernel : System.State) (messages : List Pending) : Prop where
  room : ∀ chat, (kernel.chats chat).bufLen < msgBuffSize
  stored : LogOfPieces kernel
  bus : BusInvariant kernel
  slots : ∀ i, (kernel.bus.queue i).len < busMessageSize
  accepted : kernel.history.accepted = messages.map acceptedOf
  inLog : ∀ message ∈ messages, InLog kernel message
  writers : ∀ process message, kernel.writers process = some message → InLog kernel message

theorem enqueued_init (opened : ℕ → ℕ) : Enqueued (telegramInit opened) [] where
  room := (logInvariant_init opened).bufLen_lt
  stored := logOfPieces_init opened
  bus := busInvariant_init opened
  slots := fun _ => show 0 < busMessageSize by decide
  accepted := rfl
  inLog := fun _ hmem => absurd hmem List.not_mem_nil
  writers := fun _ _ hwriter => by cases hwriter

section

variable {kernel next : System.State} {messages : List Pending}

theorem InLog.mono (hpieces : ∀ chat, kernel.history.pieces chat <+: next.history.pieces chat)
    {message : Pending} (hlog : InLog kernel message) : InLog next message := by
  obtain ⟨hidx, earlier, hplaced⟩ := hlog
  exact ⟨hidx, earlier, hplaced.trans (hpieces _)⟩

/-- Steps that accept no frame and begin no write. -/
theorem Enqueued.keep (henqueued : Enqueued kernel messages)
    (hroom : ∀ chat, (next.chats chat).bufLen < msgBuffSize) (hstored : LogOfPieces next)
    (hbus : BusInvariant next) (hqueue : next.bus.queue = kernel.bus.queue)
    (haccepted : next.history.accepted = kernel.history.accepted)
    (hpieces : ∀ chat, kernel.history.pieces chat <+: next.history.pieces chat)
    (hwriters : ∀ process message, next.writers process = some message →
      kernel.writers process = some message) : Enqueued next messages where
  room := hroom
  stored := hstored
  bus := hbus
  slots := by
    rw [hqueue]
    exact henqueued.slots
  accepted := haccepted.trans henqueued.accepted
  inLog := fun message hmem => (henqueued.inLog message hmem).mono hpieces
  writers := fun process message hwriter =>
    (henqueued.writers process message (hwriters process message hwriter)).mono hpieces

theorem pieces_chatWrite (kernel : System.State) (process chat : ℕ) (tmp : Text) (other : ℕ) :
    kernel.history.pieces other <+:
      (stepChatWrite kernel process chat tmp).history.pieces other :=
  prefix_assign_append kernel.history.pieces chat _ other

theorem pieces_busWrite (kernel : System.State) (command : BusCommand) (chat : ℕ) :
    kernel.history.pieces chat <+: (stepBusWrite kernel command).history.pieces chat := by
  cases command with
  | set => exact List.prefix_refl _
  | incoming chatIdx sender message =>
      exact prefix_assign_append kernel.history.pieces chatIdx _ chat

/-- What a write stores of its line is what the pieces of the log leave room for. -/
theorem Enqueued.scnprintf_eq (henqueued : Enqueued kernel messages) (chat : ℕ) (line : Text) :
    scnprintf (kernel.chats chat).room line = line.take
      (msgBuffSize - 1 - ((kernel.history.pieces chat).flatMap Piece.stored).length) := by
  rw [ChatDev.scnprintf_room line (henqueued.room chat), ← henqueued.stored chat,
    ChatDev.length_log]

theorem Enqueued.chatWrite (henqueued : Enqueued kernel messages) {process chat : ℕ} {tmp : Text}
    (hidx : chat < maxChats) : Enqueued (stepChatWrite kernel process chat tmp) messages where
  room := bufLen_append_lt henqueued.room chat _
  stored := logOfPieces_append henqueued.stored chat _ _
  bus := henqueued.bus
  slots := henqueued.slots
  accepted := henqueued.accepted
  inLog := fun message hmem => (henqueued.inLog message hmem).mono
    (pieces_chatWrite kernel process chat tmp)
  writers := fun other message hwriter => by
    by_cases hsame : other = process
    · subst hsame
      simp only [stepChatWrite, assign_self, Option.some.injEq] at hwriter
      subst hwriter
      refine ⟨hidx, kernel.history.pieces chat, ?_⟩
      simp only [stepChatWrite, assign_self, henqueued.scnprintf_eq]
      exact List.prefix_refl _
    · simp only [stepChatWrite, assign_of_ne _ hsame] at hwriter
      exact (henqueued.writers other message hwriter).mono
        (pieces_chatWrite kernel process chat tmp)

theorem writers_stepEnqueue {process : ℕ} {pending : Pending} (other : ℕ) (message : Pending)
    (hwriter : (stepEnqueue kernel process pending).writers other = some message) :
    kernel.writers other = some message := by
  by_cases hsame : other = process
  · subst hsame
    simp only [stepEnqueue, assign_self] at hwriter
    cases hwriter
  · simpa only [stepEnqueue, assign_of_ne _ hsame] using hwriter

/-- A queue with room accepts the message, a full one drops it. -/
theorem Enqueued.enqueue (henqueued : Enqueued kernel messages) {process : ℕ} {pending : Pending}
    (hwriter : kernel.writers process = some pending) :
    ∃ later, Enqueued (stepEnqueue kernel process pending) (messages ++ later) := by
  by_cases hfull : busQueueSize ≤ kernel.bus.count
  · refine ⟨[], ?_⟩
    rw [List.append_nil]
    exact henqueued.keep henqueued.room henqueued.stored (henqueued.bus.enqueue process pending)
      (by simp only [stepEnqueue, busEnqueueOutgoing, if_pos hfull])
      (by simp only [stepEnqueue, if_pos hfull]) (fun _ => List.prefix_refl _) writers_stepEnqueue
  · have hlogged : ∀ message, InLog kernel message →
        InLog (stepEnqueue kernel process pending) message := fun message hlog =>
      ⟨hlog.chat_lt, hlog.placed⟩
    refine ⟨[pending], henqueued.room, henqueued.stored, henqueued.bus.enqueue process pending,
      fun i => ?_, ?_, fun message hmem => hlogged message ?_, fun other message hother =>
        hlogged message (henqueued.writers other message (writers_stepEnqueue _ _ hother))⟩
    · simp only [stepEnqueue, busEnqueueOutgoing, if_neg hfull]
      split
      · exact outFrame_len_lt _ _
      · exact henqueued.slots i
    · simp only [stepEnqueue, if_neg hfull, henqueued.accepted, List.map_append, List.map_singleton]
      rfl
    · rcases List.mem_append.mp hmem with hold | hnew
      · exact henqueued.inLog message hold
      · rw [List.mem_singleton.mp hnew]
        exact henqueued.writers process pending hwriter

theorem Enqueued.busWrite (henqueued : Enqueued kernel messages) (command : BusCommand) :
    Enqueued (stepBusWrite kernel command) messages := by
  refine henqueued.keep ?_ (henqueued.stored.busWrite command) henqueued.bus rfl rfl
    (pieces_busWrite kernel command) fun _ _ hwriter => hwriter
  cases command with
  | incoming chatIdx sender message => exact bufLen_append_lt henqueued.room chatIdx _
  | set chatIdx id =>
      exact fun chat => (log_apply_set kernel.chats chatIdx id chat).2 ▸ henqueued.room chat

theorem Enqueued.busReader (henqueued : Enqueued kernel messages) (process : ℕ) (phase : Phase) :
    Enqueued (stepBusReader kernel kernel.bus process phase []) messages := by
  obtain ⟨queued, hholds, hframes⟩ := henqueued.bus
  refine henqueued.keep henqueued.room henqueued.stored ⟨queued, hholds, ?_⟩ rfl rfl
    (fun _ => List.prefix_refl _) fun _ _ hwriter => hwriter
  rw [deliveredFrames_stepBusReader, List.filterMap_nil, List.append_nil]
  exact hframes

/-- What a step of a user keeps of the reader's side of the bus. -/
structure KeepsReader (kernel next : System.State) : Prop where
  busReaders : next.busReaders = kernel.busReaders
  replies : next.history.busReplies = kernel.history.busReplies
  count_le : kernel.bus.count ≤ next.bus.count

theorem Enqueued.user (henqueued : Enqueued kernel messages) {op : System.Op}
    (hop : byUser op = true) :
    (∃ later, Enqueued (System.step kernel op) (messages ++ later)) ∧
      KeepsReader kernel (System.step kernel op) := by
  have hsame : (∃ later, Enqueued kernel (messages ++ later)) ∧ KeepsReader kernel kernel :=
    ⟨⟨[], by rwa [List.append_nil]⟩, rfl, rfl, le_rfl⟩
  have hfile : ∀ file opened, (∃ later, Enqueued (stepFile kernel file opened)
      (messages ++ later)) ∧ KeepsReader kernel (stepFile kernel file opened) :=
    fun file opened => ⟨⟨[], by
      rw [List.append_nil]
      exact henqueued.keep henqueued.room henqueued.stored henqueued.bus rfl rfl
        (fun _ => List.prefix_refl _) fun _ _ hwriter => hwriter⟩,
      rfl, rfl, le_rfl⟩
  cases op with
  | chatWrite process chat ubuf readable =>
      simp only [System.step]
      split
      · refine ⟨⟨[], ?_⟩, rfl, rfl, le_rfl⟩
        rw [List.append_nil]
        exact henqueued.chatWrite (of_decide_eq_true hop)
      · exact hsame
  | enqueue process =>
      simp only [System.step]
      split
      · refine ⟨henqueued.enqueue ‹_›, rfl, rfl, ?_⟩
        simp only [stepEnqueue, busEnqueueOutgoing]
        split
        · exact le_rfl
        · exact Nat.le_succ _
      · exact hsame
  | chatReadCall file count =>
      simp only [System.step]
      split
      · exact hfile _ _
      · exact hsame
  | chatReadLock file nonblock writable =>
      simp only [System.step]
      split
      · exact hfile _ _
      · exact hsame
  | chatReadWake file interrupted =>
      simp only [System.step]
      repeat' split
      all_goals first | exact hfile _ _ | exact hsame
  | busWrite | busReadCall | busReadLock | busReadWake => cases hop

end

/-! ## The main thread -/

variable {State Event : Type} {service : Service State Event}

/-- The frame in the hands of the thread. -/
def inFlight : MainTask → List Text
  | .sending raw => [raw]
  | _ => []

/-- The thread calls `os.read` only when there is a frame, and is in no call
elsewhere. -/
def ReaderFact (kernel : System.State) : MainTask → Prop
  | .reading => kernel.bus.count ≠ 0 ∧ (kernel.busReaders daemon = .idle ∨
      kernel.busReaders daemon = .entered busMsgMax)
  | .closed => False
  | _ => kernel.busReaders daemon = .idle

structure Invariant (chatMap : ChatMap) (world : World State) (messages : List Pending) :
    Prop where
  enqueued : Enqueued world.kernel messages
  handed : (world.history.frames ++ inFlight world.main).Sublist (deliveredFrames world.kernel)
  lost_le : (deliveredFrames world.kernel).length ≤
    (world.history.frames ++ inFlight world.main).length + (world.history.starts - 1)
  sent_eq : world.sent = world.history.frames.filterMap (handleOutgoing chatMap)
  replies_ok : ∀ reply ∈ world.kernel.history.busReplies, ∃ raw, reply = .ok raw
  reader : ReaderFact world.kernel world.main
  idle : world.history.starts = 0 → world.main = .off

variable {chatMap : ChatMap} {world : World State} {messages : List Pending}

theorem invariant_init (service : Service State Event) (chatMap : ChatMap) (opened : ℕ → ℕ)
    (state : State) : Invariant chatMap (init service opened state) [] where
  enqueued := enqueued_init opened
  handed := List.Sublist.refl _
  lost_le := le_rfl
  sent_eq := rfl
  replies_ok := fun _ hmem => absurd hmem List.not_mem_nil
  reader := rfl
  idle := fun _ => rfl

theorem ReaderFact.mono {kernel next : System.State} (hkeeps : KeepsReader kernel next)
    {task : MainTask} (hreader : ReaderFact kernel task) : ReaderFact next task := by
  have hcount := hkeeps.count_le
  cases task with
  | reading =>
      refine ⟨by have hpos := hreader.1; omega, ?_⟩
      rw [hkeeps.busReaders]
      exact hreader.2
  | closed => exact hreader
  | _ => exact (congrFun hkeeps.busReaders daemon).trans hreader

theorem Enqueued.commands {kernel : System.State} (henqueued : Enqueued kernel messages)
    (commands : List BusCommand) :
    Enqueued (commands.foldl stepBusWrite kernel) messages ∧
      KeepsReader kernel (commands.foldl stepBusWrite kernel) := by
  induction commands generalizing kernel with
  | nil => exact ⟨henqueued, rfl, rfl, le_rfl⟩
  | cons command commands ih =>
      obtain ⟨hlater, hkeeps⟩ := ih (henqueued.busWrite command)
      exact ⟨hlater, hkeeps.busReaders, hkeeps.replies, hkeeps.count_le⟩

/-- The main thread goes on to another task with nothing in its hands. -/
theorem Invariant.goOn (hinv : Invariant chatMap world messages) {kernel : System.State}
    {task : MainTask} {incoming : IncomingTask} (henqueued : Enqueued kernel messages)
    (hreplies : kernel.history.busReplies = world.kernel.history.busReplies)
    (hstarted : world.main ≠ .off) (hbefore : inFlight world.main = [])
    (hafter : inFlight task = []) (hreader : ReaderFact kernel task) :
    Invariant chatMap { world with kernel := kernel, main := task, incoming := incoming }
      messages where
  enqueued := henqueued
  handed := by
    have hhanded := hinv.handed
    rwa [deliveredFrames, hbefore, ← hafter, ← hreplies] at hhanded
  lost_le := by
    have hlost := hinv.lost_le
    rwa [deliveredFrames, hbefore, ← hafter, ← hreplies] at hlost
  sent_eq := hinv.sent_eq
  replies_ok := by
    rw [hreplies]
    exact hinv.replies_ok
  reader := hreader
  idle := fun hzero => absurd (hinv.idle hzero) hstarted

theorem Invariant.start (hinv : Invariant chatMap world messages) :
    Invariant chatMap (startStep service chatMap world) messages where
  enqueued := hinv.enqueued.busReader daemon .idle
  handed := by
    simp only [startStep, deliveredFrames_stepBusReader, List.filterMap_nil, List.append_nil,
      inFlight]
    exact (List.sublist_append_left _ _).trans hinv.handed
  lost_le := by
    have hlost := hinv.lost_le
    have hflight : (inFlight world.main).length ≤ 1 := by
      cases world.main <;> simp [inFlight]
    have hidle : world.history.starts = 0 → (inFlight world.main).length = 0 := fun hzero => by
      simp only [hinv.idle hzero, inFlight, List.length_nil]
    rw [List.length_append] at hlost
    simp only [startStep, deliveredFrames_stepBusReader, List.filterMap_nil, List.append_nil,
      inFlight]
    omega
  sent_eq := hinv.sent_eq
  replies_ok := fun reply hmem => by
    rw [startStep, stepBusReader, List.append_nil] at hmem
    exact hinv.replies_ok reply hmem
  reader := assign_self world.kernel.busReaders daemon .idle
  idle := fun hzero => absurd hzero (Nat.succ_ne_zero _)

/-! ## A read -/

theorem newReplies_stepBusReader (kernel : System.State) (bus : TgBusDev) (process : ℕ)
    (phase : Phase) (replies : List (Except Int Text)) :
    newReplies kernel (stepBusReader kernel bus process phase replies) = replies := by
  rw [newReplies, stepBusReader, List.drop_left]

/-- The call of `os.read`. -/
theorem Invariant.call (hinv : Invariant chatMap world messages) (hmain : world.main = .reading) :
    Invariant chatMap { world with
      kernel := stepBusReader world.kernel world.kernel.bus daemon (.entered busMsgMax) []
      main := .reading } messages := by
  have hreader := hinv.reader
  rw [hmain] at hreader
  exact hinv.goOn (hinv.enqueued.busReader daemon _) (List.append_nil _)
    (by rw [hmain]; exact fun heq => by cases heq) (by rw [hmain]; rfl) rfl
    ⟨hreader.1, .inr (assign_self world.kernel.busReaders daemon _)⟩

/-- The bus behind a read, and the frame it gave. -/
def taken (bus : TgBusDev) : TgBusDev :=
  ⟨bus.queue, bus.count - 1, (bus.head + 1) % busQueueSize, bus.tail⟩

theorem stepBusReadPass_eq {kernel : System.State} (henqueued : Enqueued kernel messages)
    (hcount : kernel.bus.count ≠ 0) :
    stepBusReadPass kernel daemon busMsgMax false true =
      stepBusReader kernel (taken kernel.bus) daemon .idle
        [.ok (frameBytes (kernel.bus.queue kernel.bus.head))] := by
  have hslot := henqueued.slots kernel.bus.head
  have hfits : ¬ busMsgMax < (kernel.bus.queue kernel.bus.head).len := by
    simp only [busMsgMax, busMessageSize] at hslot ⊢
    omega
  rw [stepBusReadPass, if_neg hcount]
  simp only [busReadLocked, if_neg hfits, not_true_eq_false, if_false]
  rfl

theorem Enqueued.took {kernel : System.State} (henqueued : Enqueued kernel messages)
    (hcount : kernel.bus.count ≠ 0) :
    Enqueued (stepBusReader kernel (taken kernel.bus) daemon .idle
      [.ok (frameBytes (kernel.bus.queue kernel.bus.head))]) messages :=
  henqueued.keep henqueued.room henqueued.stored (henqueued.bus.took daemon hcount) rfl rfl
    (fun _ => List.prefix_refl _) fun _ _ hwriter => hwriter

/-- A frame that was delivered is not empty. -/
theorem Enqueued.ne_nil {kernel : System.State} (henqueued : Enqueued kernel messages)
    {raw : Text} (hmem : raw ∈ deliveredFrames kernel) : raw ≠ [] := by
  obtain ⟨queued, -, hframes⟩ := henqueued.bus
  have haccepted : raw ∈ acceptedFrames kernel := hframes ▸ List.mem_append_left _ hmem
  rw [acceptedFrames, henqueued.accepted, List.map_map, List.mem_map] at haccepted
  obtain ⟨message, -, rfl⟩ := haccepted
  exact frameBytes_ne_nil _ _

/-- The read of a frame. -/
theorem Invariant.take (hinv : Invariant chatMap world messages) (hmain : world.main = .reading)
    (hcount : world.kernel.bus.count ≠ 0) :
    Invariant chatMap { world with
      kernel := stepBusReader world.kernel (taken world.kernel.bus) daemon .idle
        [.ok (frameBytes (world.kernel.bus.queue world.kernel.bus.head))]
      main := .sending (frameBytes (world.kernel.bus.queue world.kernel.bus.head)) }
      messages where
  enqueued := hinv.enqueued.took hcount
  handed := by
    have hhanded := hinv.handed
    simp only [hmain, inFlight, List.append_nil] at hhanded
    rw [deliveredFrames_stepBusReader, inFlight]
    exact hhanded.append_right _
  lost_le := by
    have hlost := hinv.lost_le
    simp only [hmain, inFlight, List.append_nil] at hlost
    rw [deliveredFrames_stepBusReader, inFlight, List.length_append, List.length_append]
    exact (Nat.add_le_add_right hlost _).trans (by rw [Nat.add_right_comm]; rfl)
  sent_eq := hinv.sent_eq
  replies_ok := fun reply hmem => by
    rcases List.mem_append.mp hmem with hold | hnew
    · exact hinv.replies_ok reply hold
    · exact ⟨_, List.mem_singleton.mp hnew⟩
  reader := assign_self world.kernel.busReaders daemon .idle
  idle := fun hzero => absurd (hinv.idle hzero) (by rw [hmain]; exact fun heq => by cases heq)

theorem mainStep_call (hmain : world.main = .reading)
    (hphase : world.kernel.busReaders daemon = .idle) {interrupted : Bool} :
    mainStep chatMap interrupted world = { world with
      kernel := stepBusReader world.kernel world.kernel.bus daemon (.entered busMsgMax) []
      main := .reading } := by
  have hstep : System.step world.kernel (readOp (world.kernel.busReaders daemon) interrupted) =
      stepBusReader world.kernel world.kernel.bus daemon (.entered busMsgMax) [] := by
    simp only [hphase, readOp, System.step]
  simp only [mainStep, hmain, hstep, newReplies_stepBusReader, afterRead]

theorem mainStep_take (hinv : Invariant chatMap world messages) (hmain : world.main = .reading)
    (hcount : world.kernel.bus.count ≠ 0)
    (hphase : world.kernel.busReaders daemon = .entered busMsgMax) {interrupted : Bool} :
    mainStep chatMap interrupted world = { world with
      kernel := stepBusReader world.kernel (taken world.kernel.bus) daemon .idle
        [.ok (frameBytes (world.kernel.bus.queue world.kernel.bus.head))]
      main := .sending (frameBytes (world.kernel.bus.queue world.kernel.bus.head)) } := by
  have hstep : System.step world.kernel (readOp (world.kernel.busReaders daemon) interrupted) =
      stepBusReader world.kernel (taken world.kernel.bus) daemon .idle
        [.ok (frameBytes (world.kernel.bus.queue world.kernel.bus.head))] := by
    simp only [hphase, readOp, System.step, stepBusReadPass_eq hinv.enqueued hcount]
  have hraw : frameBytes (world.kernel.bus.queue world.kernel.bus.head) ≠ [] := by
    refine (hinv.enqueued.took hcount).ne_nil ?_
    rw [deliveredFrames_stepBusReader]
    exact List.mem_append_right _ (List.mem_singleton_self _)
  simp only [mainStep, hmain, hstep, newReplies_stepBusReader, afterRead, if_neg hraw]

/-- The frame in hand is handed over. -/
theorem Invariant.send (hinv : Invariant chatMap world messages) {raw : Text}
    (hmain : world.main = .sending raw) :
    Invariant chatMap { world with
      main := .selecting
      sent := world.sent ++ (handleOutgoing chatMap raw).toList
      history := { world.history with frames := world.history.frames ++ [raw] } } messages where
  enqueued := hinv.enqueued
  handed := by
    have hhanded := hinv.handed
    rw [hmain, inFlight] at hhanded
    simpa only [inFlight, List.append_nil] using hhanded
  lost_le := by
    have hlost := hinv.lost_le
    rw [hmain, inFlight] at hlost
    simpa only [inFlight, List.append_nil] using hlost
  sent_eq := by
    rw [hinv.sent_eq, List.filterMap_append]
    cases houtgoing : handleOutgoing chatMap raw <;> simp [houtgoing]
  replies_ok := hinv.replies_ok
  reader := by
    have hreader := hinv.reader
    rwa [hmain] at hreader
  idle := fun hzero => absurd (hinv.idle hzero) (by rw [hmain]; exact fun heq => by cases heq)

/-- A chat is bound. -/
theorem Invariant.bind (hinv : Invariant chatMap world messages) {item : ℕ × Int}
    {left : List (ℕ × Int)} (hmain : world.main = .binding (item :: left)) (interrupted : Bool) :
    Invariant chatMap (mainStep chatMap interrupted world) messages := by
  have hstarted : world.main ≠ .off := by rw [hmain]; exact fun heq => by cases heq
  have hflight : inFlight world.main = [] := by rw [hmain]; rfl
  have hreader : world.kernel.busReaders daemon = .idle := by
    have hreader := hinv.reader
    rwa [hmain] at hreader
  cases hcommand : busWriteCommand (setLine item.1 item.2) true with
  | error code =>
      simp only [mainStep, hmain, System.step, hcommand]
      exact hinv.goOn hinv.enqueued rfl hstarted hflight rfl hreader
  | ok command =>
      simp only [mainStep, hmain, System.step, hcommand]
      exact hinv.goOn (hinv.enqueued.busWrite command) rfl hstarted hflight rfl hreader

theorem Invariant.mainStep (hinv : Invariant chatMap world messages) (interrupted : Bool) :
    Invariant chatMap (mainStep chatMap interrupted world) messages := by
  have hreader := hinv.reader
  cases hmain : world.main with
  | off | crashed | closed =>
      simp only [Relay.mainStep, hmain]
      exact hinv
  | binding left =>
      cases left with
      | cons item left => exact hinv.bind hmain interrupted
      | nil =>
          rw [hmain] at hreader
          simp only [Relay.mainStep, hmain]
          exact hinv.goOn hinv.enqueued rfl (by rw [hmain]; exact fun heq => by cases heq)
            (by rw [hmain]; rfl) rfl hreader
  | selecting =>
      rw [hmain] at hreader
      simp only [Relay.mainStep, hmain]
      split
      · rename_i hcount
        exact hinv.goOn hinv.enqueued rfl (by rw [hmain]; exact fun heq => by cases heq)
          (by rw [hmain]; rfl) rfl ⟨Nat.ne_of_gt hcount, .inl hreader⟩
      · exact hinv
  | reading =>
      rw [hmain] at hreader
      obtain ⟨hcount, hphase | hphase⟩ := hreader
      · rw [mainStep_call hmain hphase]
        exact hinv.call hmain
      · rw [mainStep_take hinv hmain hcount hphase]
        exact hinv.take hmain hcount
  | sending raw =>
      simp only [Relay.mainStep, hmain]
      exact hinv.send hmain

/-! ## The steps of others -/

/-- What the main thread sees of the steps of others. -/
structure Elsewhere (world next : World State) : Prop where
  keeps : KeepsReader world.kernel next.kernel
  main_eq : next.main = world.main
  sent_eq : next.sent = world.sent
  frames_eq : next.history.frames = world.history.frames
  starts_eq : next.history.starts = world.history.starts

theorem Elsewhere.refl (world : World State) : Elsewhere world world :=
  ⟨⟨rfl, rfl, le_rfl⟩, rfl, rfl, rfl, rfl⟩

theorem Enqueued.incomingStep (henqueued : Enqueued world.kernel messages)
    (exchange : Exchange Event) :
    Enqueued (Relay.incomingStep service chatMap exchange world).kernel messages ∧
      Elsewhere world (Relay.incomingStep service chatMap exchange world) := by
  have hkeeps : KeepsReader world.kernel world.kernel := ⟨rfl, rfl, le_rfl⟩
  simp only [Relay.incomingStep]
  split
  · exact ⟨henqueued, .refl world⟩
  · exact ⟨henqueued, .refl world⟩
  · split <;> exact ⟨henqueued, hkeeps, rfl, rfl, rfl, rfl⟩
  · split
    · exact ⟨henqueued, hkeeps, rfl, rfl, rfl, rfl⟩
    · rename_i next _
      obtain ⟨hlater, hcommands⟩ := henqueued.commands (next.written.drop _)
      exact ⟨hlater, hcommands, rfl, rfl, rfl, rfl⟩

/-- A step of a user, of the service or of the incoming thread. -/
def byOthers : Relay.Op Event → Bool
  | .user _ | .service _ | .incoming _ => true
  | .start | .main _ => false

theorem Enqueued.step (henqueued : Enqueued world.kernel messages) {op : Relay.Op Event}
    (hop : byOthers op = true) :
    (∃ later, Enqueued (Relay.step service chatMap world op).kernel (messages ++ later)) ∧
      Elsewhere world (Relay.step service chatMap world op) := by
  have hsame : (∃ later, Enqueued world.kernel (messages ++ later)) ∧ Elsewhere world world :=
    ⟨⟨[], by rwa [List.append_nil]⟩, .refl world⟩
  cases op with
  | user op =>
      simp only [Relay.step]
      split
      · rename_i huser
        obtain ⟨hlater, hkeeps⟩ := henqueued.user huser
        exact ⟨hlater, hkeeps, rfl, rfl, rfl, rfl⟩
      · exact hsame
  | service event => exact ⟨hsame.1, hsame.2.keeps, rfl, rfl, rfl, rfl⟩
  | incoming exchange =>
      obtain ⟨hlater, helsewhere⟩ :=
        henqueued.incomingStep exchange
      exact ⟨⟨[], by rwa [List.append_nil]⟩, helsewhere⟩
  | start | main => cases hop

end DoomsdayModules.Telegram.RelayOutgoing
