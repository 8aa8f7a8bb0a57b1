import DoomsdayModules.Core.Mutexes
import DoomsdayModules.Core.Schedules
import DoomsdayModules.Telegram.Devices
import Mathlib.Tactic.Simps.Basic

/-!
# The module one access at a time

The same code as in the critical sections, cut at every access to shared memory
and at every call of the kernel that another process can see: taking and giving
back a mutex, each write of a field, the looks at a wait queue's condition
without the lock, the sleep, and the wake-up.  A step is the next such access of
one process.

A process is on a wait queue from the moment it prepares to wait until it is
woken; `woken` is whether a wake-up has reached it since.
-/

namespace DoomsdayModules.Telegram.Threads

open Function DoomsdayModules.KernelText DoomsdayModules.Mutexes DoomsdayModules.Telegram.Devices

/-! ## Checked input -/

/-- The checks of `chat_write` pass on what they let through. -/
theorem chatWriteTmp_of_ok {ubuf tmp : Text} {readable : Bool}
    (hchecked : chatWriteTmp ubuf readable = .ok tmp) : chatWriteTmp tmp true = .ok tmp := by
  unfold chatWriteTmp at hchecked
  split at hchecked
  · cases hchecked
  · split at hchecked
    · cases hchecked
    · cases hchecked
      rename_i hlength _
      rw [chatWriteTmp, if_neg hlength]
      rfl

theorem busWriteCommand_of_ok {ubuf : Text} {readable : Bool} {command : BusCommand}
    (hparsed : busWriteCommand ubuf readable = .ok command) :
    busWriteCommand ubuf true = .ok command := by
  cases readable with
  | true => exact hparsed
  | false =>
      unfold busWriteCommand at hparsed
      split at hparsed <;> cases hparsed

/-! ## Processes -/

/-- A reader: of an open chat device, or a process with the bus device open. -/
inductive Source
  | file (file : ℕ)
  | bus (process : ℕ)
  deriving DecidableEq

inductive Agent
  | writer (process : ℕ)
  | reader (source : Source)
  deriving DecidableEq

/-- The mutexes, each with the wait queue beside it. -/
inductive Lock
  | chat (chat : ℕ)
  | bus
  deriving DecidableEq

/-- A line for a log and the call that adds it, once its input is checked. -/
inductive Line
  | user (chat : ℕ) (tmp : Text) (hchecked : chatWriteTmp tmp true = .ok tmp)
  | incoming (ubuf : Text) (chat : ℕ) (sender message : Text)
      (hparsed : busWriteCommand ubuf true = .ok (.incoming chat sender message))

def Line.chat : Line → ℕ
  | .user chat _ _ => chat
  | .incoming _ chat _ _ _ => chat

def Line.text : Line → Text
  | .user _ tmp _ => userLine tmp
  | .incoming _ _ sender message _ => senderLine sender message

/-- A `SET` command, once it is parsed. -/
structure Binding where
  ubuf : Text
  chat : ℕ
  id : Text
  hparsed : busWriteCommand ubuf true = .ok (.set chat id)

/-- Where a writer is in `chat_write`, in `bus_write` or in
`bus_enqueue_outgoing`: the access it makes next. -/
inductive WriterTask
  | idle
  | lockChat (line : Line)
  | print (line : Line)
  | count (line : Line) (stored : ℕ)
  | unlockChat (line : Line)
  | wakeChat (line : Line)
  | lockBus (chat : ℕ) (tmp : Text)
  | testQueue (chat : ℕ) (tmp : Text)
  | storeFrame (chat : ℕ) (tmp : Text)
  | moveTail (chat : ℕ) (tmp : Text)
  | moveCount (chat : ℕ) (tmp : Text)
  | wakeBus
  | unlockBus
  | lockSet (binding : Binding)
  | storeId (binding : Binding)
  | unlockSet (binding : Binding)

/-- Where a reader is in `chat_read` or `bus_read`; `check` and `schedule` are
the loop of `wait_event_interruptible`. -/
inductive ReaderTask
  | idle
  | lock (count : ℕ)
  | test (count : ℕ)
  | unlockEmpty (count : ℕ)
  | waitFirst (count : ℕ)
  | prepare (count : ℕ)
  | check (count : ℕ) (signalled woken : Bool)
  | schedule (count : ℕ) (woken : Bool)
  | copy (count : ℕ)
  | advance (count : ℕ) (bytes : Text)
  | finish (count : ℕ) (bytes : Text)
  | unlock

structure Kernel where
  chats : ℕ → ChatDev
  bus : TgBusDev
  owner : Lock → Option Agent
  writers : ℕ → WriterTask
  readers : Source → ReaderTask
  pos : ℕ → ℕ
  returned : ℕ → Text
  busReplies : List (Except Int Text)

/-- The module after `telegram_init`. -/
def telegramInit : Kernel where
  chats := fun _ => ⟨fun _ => 0, 0, []⟩
  bus := ⟨fun _ => ⟨[], 0⟩, 0, 0, 0⟩
  owner := fun _ => none
  writers := fun _ => .idle
  readers := fun _ => .idle
  pos := fun _ => 0
  returned := fun _ => []
  busReplies := []

section

variable (opened : ℕ → ℕ)

/-- The lock a reader takes; `opened` is the chat that each file is opened on. -/
def lockOf : Source → Lock
  | .file file => .chat (opened file)
  | .bus _ => .bus

/-- The condition a reader waits for. -/
def Available (kernel : Kernel) : Source → Prop
  | .file file => kernel.pos file < (kernel.chats (opened file)).bufLen
  | .bus _ => 0 < kernel.bus.count

instance (kernel : Kernel) (source : Source) : Decidable (Available opened kernel source) :=
  match source with
  | .file _ => inferInstanceAs (Decidable (_ < _))
  | .bus _ => inferInstanceAs (Decidable (_ < _))

/-! ## Steps -/

@[simps]
def Kernel.setWriter (kernel : Kernel) (process : ℕ) (task : WriterTask) : Kernel :=
  { kernel with writers := update kernel.writers process task }

@[simps]
def Kernel.setReader (kernel : Kernel) (source : Source) (task : ReaderTask) : Kernel :=
  { kernel with readers := update kernel.readers source task }

@[simps]
def Kernel.setOwner (kernel : Kernel) (lock : Lock) (owner : Option Agent) : Kernel :=
  { kernel with owner := update kernel.owner lock owner }

@[simps]
def Kernel.setChat (kernel : Kernel) (chat : ℕ) (dev : ChatDev) : Kernel :=
  { kernel with chats := update kernel.chats chat dev }

@[simps]
def Kernel.setBus (kernel : Kernel) (bus : TgBusDev) : Kernel := { kernel with bus := bus }

/-- The bytes of a file behind its position, handed to its reader. -/
@[simps]
def Kernel.deliver (kernel : Kernel) (file : ℕ) (bytes : Text) : Kernel :=
  { kernel with
    pos := update kernel.pos file (kernel.pos file + bytes.length)
    returned := update kernel.returned file (kernel.returned file ++ bytes) }

/-- What a call of a reader that ends adds to the answers of `bus_read`. -/
def Source.replies (reply : Except Int Text) : Source → List (Except Int Text)
  | .file _ => []
  | .bus _ => [reply]

@[simps]
def Kernel.answer (kernel : Kernel) (source : Source) (reply : Except Int Text) : Kernel :=
  { kernel with busReplies := kernel.busReplies ++ source.replies reply }

/-- `wake_up_interruptible` reaches a process that is on the queue. -/
def ReaderTask.wake : ReaderTask → ReaderTask
  | .check count false _ => .check count false true
  | .schedule count _ => .schedule count true
  | task => task

@[simps]
def Kernel.wakeUp (kernel : Kernel) (lock : Lock) : Kernel :=
  { kernel with
    readers := fun source =>
      if lockOf opened source = lock then (kernel.readers source).wake else kernel.readers source }

/-- What a call does behind the wake-up of the chat's readers. -/
def Line.rest : Line → WriterTask
  | .user chat tmp _ => .lockBus chat tmp
  | .incoming _ _ _ _ _ => .idle

/-- The next access of a writer. -/
def writerStep (kernel : Kernel) (process : ℕ) : Kernel :=
  match kernel.writers process with
  | .idle => kernel
  | .lockChat line =>
      if kernel.owner (.chat line.chat) = none then
        (kernel.setOwner (.chat line.chat) (some (.writer process))).setWriter process (.print line)
      else kernel
  | .print line =>
      let chat := kernel.chats line.chat
      (kernel.setChat line.chat
        ⟨printTo chat.buffer chat.bufLen chat.room line.text, chat.bufLen, chat.chatId⟩).setWriter
        process (.count line (scnprintf chat.room line.text).length)
  | .count line stored =>
      let chat := kernel.chats line.chat
      (kernel.setChat line.chat ⟨chat.buffer, chat.bufLen + stored, chat.chatId⟩).setWriter
        process (.unlockChat line)
  | .unlockChat line =>
      (kernel.setOwner (.chat line.chat) none).setWriter process (.wakeChat line)
  | .wakeChat line => (kernel.wakeUp opened (.chat line.chat)).setWriter process line.rest
  | .lockBus chat tmp =>
      if kernel.owner .bus = none then
        (kernel.setOwner .bus (some (.writer process))).setWriter process (.testQueue chat tmp)
      else kernel
  | .testQueue chat tmp =>
      kernel.setWriter process
        (if busQueueSize ≤ kernel.bus.count then .unlockBus else .storeFrame chat tmp)
  | .storeFrame chat tmp =>
      let bus := kernel.bus
      (kernel.setBus
        ⟨fun i => if i = bus.tail then outFrame chat tmp else bus.queue i, bus.count, bus.head,
          bus.tail⟩).setWriter process (.moveTail chat tmp)
  | .moveTail chat tmp =>
      let bus := kernel.bus
      (kernel.setBus ⟨bus.queue, bus.count, bus.head, (bus.tail + 1) % busQueueSize⟩).setWriter
        process (.moveCount chat tmp)
  | .moveCount _ _ =>
      let bus := kernel.bus
      (kernel.setBus ⟨bus.queue, bus.count + 1, bus.head, bus.tail⟩).setWriter process .wakeBus
  | .wakeBus => (kernel.wakeUp opened .bus).setWriter process .unlockBus
  | .unlockBus => (kernel.setOwner .bus none).setWriter process .idle
  | .lockSet binding =>
      if kernel.owner (.chat binding.chat) = none then
        (kernel.setOwner (.chat binding.chat) (some (.writer process))).setWriter process
          (.storeId binding)
      else kernel
  | .storeId binding =>
      let chat := kernel.chats binding.chat
      (kernel.setChat binding.chat
        ⟨chat.buffer, chat.bufLen, strscpy binding.id chatIdBuffSize⟩).setWriter
        process (.unlockSet binding)
  | .unlockSet binding =>
      (kernel.setOwner (.chat binding.chat) none).setWriter process .idle

/-- What the copy to the reader gives. -/
def replyTo (kernel : Kernel) (count : ℕ) (writable : Bool) : Source → Except Int Text
  | .file file => chatReadLocked (kernel.chats (opened file)) (kernel.pos file) count writable
  | .bus _ => (busReadLocked kernel.bus count writable).1

/-- The copy to the reader, and what it does next. -/
def readerCopy (kernel : Kernel) (source : Source) (count : ℕ) (writable : Bool) : Kernel :=
  match replyTo opened kernel count writable source with
  | .error code => (kernel.answer source (.error code)).setReader source .unlock
  | .ok bytes => kernel.setReader source (.advance count bytes)

/-- `*ppos` behind the copied bytes, or the head of the queue behind the frame. -/
def readerAdvance (kernel : Kernel) (source : Source) (count : ℕ) (bytes : Text) : Kernel :=
  match source with
  | .file file => (kernel.deliver file bytes).setReader source .unlock
  | .bus _ =>
      let bus := kernel.bus
      (kernel.setBus ⟨bus.queue, bus.count, (bus.head + 1) % busQueueSize, bus.tail⟩).setReader
        source (.finish count bytes)

/-- `bus->count--`, which `chat_read` does not have. -/
def readerFinish (kernel : Kernel) (source : Source) (bytes : Text) : Kernel :=
  match source with
  | .file _ => kernel.setReader source .unlock
  | .bus _ =>
      let bus := kernel.bus
      ((kernel.setBus ⟨bus.queue, bus.count - 1, bus.head, bus.tail⟩).answer source
        (.ok bytes)).setReader source .unlock

/-- The next access of a reader.  The flag is what the access finds: whether the
file is non-blocking, whether a signal is pending, whether the user's buffer can
be written. -/
def readerStep (kernel : Kernel) (source : Source) (flag : Bool) : Kernel :=
  match kernel.readers source with
  | .idle => kernel
  | .lock count =>
      if kernel.owner (lockOf opened source) = none then
        (kernel.setOwner (lockOf opened source) (some (.reader source))).setReader source
          (.test count)
      else kernel
  | .test count =>
      kernel.setReader source
        (if Available opened kernel source then .copy count else .unlockEmpty count)
  | .unlockEmpty count =>
      let replied := if flag then kernel.answer source (.error eagain) else kernel
      (replied.setOwner (lockOf opened source) none).setReader source
        (if flag then .idle else .waitFirst count)
  | .waitFirst count =>
      kernel.setReader source
        (if Available opened kernel source then .lock count else .prepare count)
  | .prepare count => kernel.setReader source (.check count flag false)
  | .check count signalled woken =>
      if Available opened kernel source then kernel.setReader source (.lock count)
      else if signalled then (kernel.answer source (.error erestartsys)).setReader source .idle
      else kernel.setReader source (.schedule count woken)
  | .schedule count woken =>
      if woken ∨ flag then kernel.setReader source (.prepare count) else kernel
  | .copy count => readerCopy opened kernel source count flag
  | .advance count bytes => readerAdvance kernel source count bytes
  | .finish _ bytes => readerFinish kernel source bytes
  | .unlock => (kernel.setOwner (lockOf opened source) none).setReader source .idle

/-! ## Schedules -/

/-- The calls, and the next access of a process that is inside of one. -/
inductive Op
  | chatWrite (process chat : ℕ) (ubuf : Text) (readable : Bool)
  | busWrite (process : ℕ) (ubuf : Text) (readable : Bool)
  | read (source : Source) (count : ℕ)
  | writer (process : ℕ)
  | reader (source : Source) (flag : Bool)

/-- `chat_write` up to its first lock. -/
def chatWriteEntry (chat : ℕ) (ubuf : Text) (readable : Bool) : WriterTask :=
  match hchecked : chatWriteTmp ubuf readable with
  | .ok tmp => .lockChat (.user chat tmp (chatWriteTmp_of_ok hchecked))
  | .error _ => .idle

/-- `bus_write` up to its lock. -/
def busWriteEntry (ubuf : Text) (readable : Bool) : WriterTask :=
  match hparsed : busWriteCommand ubuf readable with
  | .ok (.incoming chat sender message) =>
      .lockChat (.incoming ubuf chat sender message (busWriteCommand_of_ok hparsed))
  | .ok (.set chat id) => .lockSet ⟨ubuf, chat, id, busWriteCommand_of_ok hparsed⟩
  | .error _ => .idle

/-- A process inside of a call makes no other. -/
def step (kernel : Kernel) : Op → Kernel
  | .chatWrite process chat ubuf readable =>
      match kernel.writers process with
      | .idle => kernel.setWriter process (chatWriteEntry chat ubuf readable)
      | _ => kernel
  | .busWrite process ubuf readable =>
      match kernel.writers process with
      | .idle => kernel.setWriter process (busWriteEntry ubuf readable)
      | _ => kernel
  | .read source count =>
      match kernel.readers source with
      | .idle => kernel.setReader source (.lock count)
      | _ => kernel
  | .writer process => writerStep opened kernel process
  | .reader source flag => readerStep opened kernel source flag

/-- The module after the accesses of a schedule. -/
def execute (kernel : Kernel) (ops : List Op) : Kernel := ops.foldl (step opened) kernel

end

end DoomsdayModules.Telegram.Threads
