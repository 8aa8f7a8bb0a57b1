import DoomsdayModules.Telegram.Devices

/-!
# The module under concurrent use

A state holds the chats, the bus and where every process is in the code: a
writer may have appended to a log and not yet put its frame on the bus, and a
reader may be about to take a lock or asleep.  A step is one critical section,
or the code between two of them, of one process.  The history records what the
steps did: the pieces of each log, the frames the queue accepted and what the
calls of `bus_read` returned.
-/

namespace DoomsdayModules.Telegram.System

open DoomsdayModules.KernelText DoomsdayModules.Telegram.Devices

/-- Where a reader is: outside of a call, before the lock, or asleep. -/
inductive Phase
  | idle
  | entered (count : ℕ)
  | waiting (count : ℕ)

/-- An open chat device, and the concatenation of what its reads returned. -/
structure OpenFile where
  chat : ℕ
  pos : ℕ
  phase : Phase
  returned : Text

/-- A `chat_write` between its two critical sections. -/
structure Pending where
  ticket : ℕ
  chat : ℕ
  tmp : Text

/-- A frame the queue accepted, with the `chat_write` it belongs to. -/
structure Accepted where
  ticket : ℕ
  chat : ℕ
  frame : BusMessage

/-- What one append stored, with the `chat_write` that made it, if one did. -/
structure Piece where
  ticket : Option ℕ
  stored : Text

structure History where
  tickets : ℕ
  pieces : ℕ → List Piece
  accepted : List Accepted
  busReplies : List (Except Int Text)

structure State where
  chats : ℕ → ChatDev
  bus : TgBusDev
  files : ℕ → OpenFile
  busReaders : ℕ → Phase
  writers : ℕ → Option Pending
  history : History

/-- The module after `telegram_init`, with the chat each file will be opened on. -/
def telegramInit (opened : ℕ → ℕ) : State where
  chats := fun _ => ⟨fun _ => 0, 0, []⟩
  bus := ⟨fun _ => ⟨[], 0⟩, 0, 0, 0⟩
  files := fun file => ⟨opened file, 0, .idle, []⟩
  busReaders := fun _ => .idle
  writers := fun _ => none
  history := ⟨0, fun _ => [], [], []⟩

inductive Op
  | chatWrite (process chat : ℕ) (ubuf : Text) (readable : Bool)
  | enqueue (process : ℕ)
  | busWrite (ubuf : Text) (readable : Bool)
  | chatReadCall (file count : ℕ)
  | chatReadLock (file : ℕ) (nonblock writable : Bool)
  | chatReadWake (file : ℕ) (interrupted : Bool)
  | busReadCall (process count : ℕ)
  | busReadLock (process : ℕ) (nonblock writable : Bool)
  | busReadWake (process : ℕ) (interrupted : Bool)

/-! ## Steps -/

def OpenFile.moveTo (file : OpenFile) (phase : Phase) : OpenFile :=
  ⟨file.chat, file.pos, phase, file.returned⟩

/-- The first half of `chat_write`, for a process outside of a call. -/
def stepChatWrite (state : State) (process chat : ℕ) (tmp : Text) : State where
  chats := assign state.chats chat ((state.chats chat).append (userLine tmp))
  bus := state.bus
  files := state.files
  busReaders := state.busReaders
  writers := assign state.writers process (some ⟨state.history.tickets, chat, tmp⟩)
  history := {
    tickets := state.history.tickets + 1
    pieces := assign state.history.pieces chat (state.history.pieces chat ++
      [⟨some state.history.tickets, scnprintf (state.chats chat).room (userLine tmp)⟩])
    accepted := state.history.accepted
    busReplies := state.history.busReplies }

/-- The second half: `bus_enqueue_outgoing`. -/
def stepEnqueue (state : State) (process : ℕ) (pending : Pending) : State where
  chats := state.chats
  bus := busEnqueueOutgoing state.bus pending.chat pending.tmp
  files := state.files
  busReaders := state.busReaders
  writers := assign state.writers process none
  history := {
    tickets := state.history.tickets
    pieces := state.history.pieces
    accepted :=
      if busQueueSize ≤ state.bus.count then state.history.accepted
      else state.history.accepted ++
        [⟨pending.ticket, pending.chat, outFrame pending.chat pending.tmp⟩]
    busReplies := state.history.busReplies }

/-- The pieces a bus command adds to the logs. -/
def commandPieces (state : State) : BusCommand → ℕ → List Piece
  | .incoming chat sender message =>
      assign state.history.pieces chat (state.history.pieces chat ++
        [⟨none, scnprintf (state.chats chat).room (senderLine sender message)⟩])
  | .set _ _ => state.history.pieces

def stepBusWrite (state : State) (command : BusCommand) : State where
  chats := command.apply state.chats
  bus := state.bus
  files := state.files
  busReaders := state.busReaders
  writers := state.writers
  history := ⟨state.history.tickets, commandPieces state command, state.history.accepted,
    state.history.busReplies⟩

def stepFile (state : State) (file : ℕ) (next : OpenFile) : State :=
  ⟨state.chats, state.bus, assign state.files file next, state.busReaders, state.writers,
    state.history⟩

/-- One pass of `chat_read` through its critical section. -/
def chatReadPass (chat : ChatDev) (file : OpenFile) (count : ℕ) (nonblock writable : Bool) :
    OpenFile :=
  if chat.bufLen ≤ file.pos then file.moveTo (if nonblock then .idle else .waiting count)
  else
    match chatReadLocked chat file.pos count writable with
    | .error _ => file.moveTo .idle
    | .ok bytes => ⟨file.chat, file.pos + bytes.length, .idle, file.returned ++ bytes⟩

def stepBusReader (state : State) (bus : TgBusDev) (process : ℕ) (phase : Phase)
    (replies : List (Except Int Text)) : State :=
  ⟨state.chats, bus, state.files, assign state.busReaders process phase, state.writers,
    ⟨state.history.tickets, state.history.pieces, state.history.accepted,
      state.history.busReplies ++ replies⟩⟩

/-- One pass of `bus_read` through its critical section. -/
def stepBusReadPass (state : State) (process count : ℕ) (nonblock writable : Bool) : State :=
  if state.bus.count = 0 then
    if nonblock then stepBusReader state state.bus process .idle [.error eagain]
    else stepBusReader state state.bus process (.waiting count) []
  else
    let reply := busReadLocked state.bus count writable
    stepBusReader state reply.2 process .idle [reply.1]

/-- A step that its process cannot take changes nothing. -/
def step (state : State) : Op → State
  | .chatWrite process chat ubuf readable =>
      match state.writers process, chatWriteTmp ubuf readable with
      | none, .ok tmp => stepChatWrite state process chat tmp
      | _, _ => state
  | .enqueue process =>
      match state.writers process with
      | some pending => stepEnqueue state process pending
      | none => state
  | .busWrite ubuf readable =>
      match busWriteCommand ubuf readable with
      | .ok command => stepBusWrite state command
      | .error _ => state
  | .chatReadCall file count =>
      match (state.files file).phase with
      | .idle => stepFile state file ((state.files file).moveTo (.entered count))
      | _ => state
  | .chatReadLock file nonblock writable =>
      match (state.files file).phase with
      | .entered count =>
          stepFile state file (chatReadPass (state.chats (state.files file).chat)
            (state.files file) count nonblock writable)
      | _ => state
  | .chatReadWake file interrupted =>
      match (state.files file).phase with
      | .waiting count =>
          if interrupted then stepFile state file ((state.files file).moveTo .idle)
          else if (state.files file).pos < (state.chats (state.files file).chat).bufLen then
            stepFile state file ((state.files file).moveTo (.entered count))
          else state
      | _ => state
  | .busReadCall process count =>
      match state.busReaders process with
      | .idle => stepBusReader state state.bus process (.entered count) []
      | _ => state
  | .busReadLock process nonblock writable =>
      match state.busReaders process with
      | .entered count => stepBusReadPass state process count nonblock writable
      | _ => state
  | .busReadWake process interrupted =>
      match state.busReaders process with
      | .waiting count =>
          if interrupted then stepBusReader state state.bus process .idle [.error erestartsys]
          else if 0 < state.bus.count then
            stepBusReader state state.bus process (.entered count) []
          else state
      | _ => state

/-- The state after the steps of an interleaving. -/
def execute (state : State) (ops : List Op) : State := ops.foldl step state

theorem execute_append (state : State) (first second : List Op) :
    execute state (first ++ second) = execute (execute state first) second :=
  List.foldl_append

/-- What every step preserves, every interleaving preserves. -/
theorem execute_invariant {invariant : State → Prop}
    (hstep : ∀ state op, invariant state → invariant (step state op)) {state : State}
    (hstart : invariant state) (ops : List Op) : invariant (execute state ops) := by
  induction ops generalizing state with
  | nil => exact hstart
  | cons op ops ih => exact ih (hstep state op hstart)

/-! ## What a step can do -/

/-- The steps of one process, by what they change. -/
inductive Change (state : State) : Op → State → Prop
  | nothing {op : Op} : Change state op state
  | chatWrite {op : Op} (process chat : ℕ) (tmp : Text) (hidle : state.writers process = none) :
      Change state op (stepChatWrite state process chat tmp)
  | enqueue (process : ℕ) (pending : Pending) (hpending : state.writers process = some pending) :
      Change state (.enqueue process) (stepEnqueue state process pending)
  | busWrite {op : Op} (command : BusCommand) : Change state op (stepBusWrite state command)
  | filePhase {op : Op} (file : ℕ) (phase : Phase) :
      Change state op (stepFile state file ((state.files file).moveTo phase))
  | fileRead {op : Op} (file count : ℕ)
      (hinside : (state.files file).pos < (state.chats (state.files file).chat).bufLen) :
      Change state op (stepFile state file ⟨(state.files file).chat,
        (state.files file).pos + (((state.chats (state.files file).chat).log.drop
          (state.files file).pos).take count).length, .idle,
        (state.files file).returned ++ ((state.chats (state.files file).chat).log.drop
          (state.files file).pos).take count⟩)
  | readerPhase {op : Op} (process : ℕ) (phase : Phase) :
      Change state op (stepBusReader state state.bus process phase [])
  | readerFailed {op : Op} (process : ℕ) (code : Int) :
      Change state op (stepBusReader state state.bus process .idle [.error code])
  | readerTook {op : Op} (process : ℕ) (hcount : state.bus.count ≠ 0) :
      Change state op (stepBusReader state
        ⟨state.bus.queue, state.bus.count - 1, (state.bus.head + 1) % busQueueSize,
          state.bus.tail⟩ process .idle
        [.ok ((state.bus.queue state.bus.head).payload.take
          (state.bus.queue state.bus.head).len)])

theorem change_chatReadPass (state : State) (op : Op) (file count : ℕ) (nonblock writable : Bool) :
    Change state op (stepFile state file (chatReadPass (state.chats (state.files file).chat)
      (state.files file) count nonblock writable)) := by
  rw [chatReadPass]
  split
  · exact .filePhase file _
  · rename_i hinside
    cases writable with
    | false => exact .filePhase file .idle
    | true =>
        rw [chatReadLocked_eq]
        exact .fileRead file count (Nat.not_le.mp hinside)

theorem change_busReadPass (state : State) (op : Op) (process count : ℕ) (nonblock writable : Bool) :
    Change state op (stepBusReadPass state process count nonblock writable) := by
  rw [stepBusReadPass]
  split
  · split
    · exact .readerFailed process eagain
    · exact .readerPhase process (.waiting count)
  · rename_i hcount
    simp only [busReadLocked]
    split
    · exact .readerFailed process emsgsize
    · split
      · exact .readerFailed process efault
      · exact .readerTook process hcount

/-- Every step is one of the changes. -/
theorem change_step (state : State) (op : Op) : Change state op (step state op) := by
  cases op with
  | chatWrite process chat ubuf readable =>
      simp only [step]
      split
      · exact .chatWrite process chat _ ‹_›
      · exact .nothing
  | enqueue process =>
      simp only [step]
      split
      · exact .enqueue process _ ‹_›
      · exact .nothing
  | busWrite ubuf readable =>
      simp only [step]
      split
      · exact .busWrite _
      · exact .nothing
  | chatReadCall file count =>
      simp only [step]
      split
      · exact .filePhase file _
      · exact .nothing
  | chatReadLock file nonblock writable =>
      simp only [step]
      split
      · exact change_chatReadPass state _ file _ nonblock writable
      · exact .nothing
  | chatReadWake file interrupted =>
      simp only [step]
      split
      · split
        · exact .filePhase file _
        · split
          · exact .filePhase file _
          · exact .nothing
      · exact .nothing
  | busReadCall process count =>
      simp only [step]
      split
      · exact .readerPhase process _
      · exact .nothing
  | busReadLock process nonblock writable =>
      simp only [step]
      split
      · exact change_busReadPass state _ process _ nonblock writable
      · exact .nothing
  | busReadWake process interrupted =>
      simp only [step]
      split
      · split
        · exact .readerFailed process _
        · split
          · exact .readerPhase process _
          · exact .nothing
      · exact .nothing

end DoomsdayModules.Telegram.System
