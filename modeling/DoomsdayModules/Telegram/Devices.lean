import DoomsdayModules.Core.KernelText
import DoomsdayModules.Core.RingBuffer

/-!
# Chat devices and the message bus

Each chat keeps its log in one buffer that is only appended to, by the user who
writes to the chat device and by the daemon that writes to the bus.  What a user
writes is also put on the queue of the bus as a frame for the daemon.  The
functions here are the critical sections under the two locks and the code
around them; how they interleave is the subject of the modules above.
-/

namespace DoomsdayModules.Telegram.Devices

open DoomsdayModules.KernelText DoomsdayModules.RingBuffer

def maxChats : ℕ := 10
def busQueueSize : ℕ := 32
def busMessageSize : ℕ := 128
def msgBuffSize : ℕ := 4096
def chatIdBuffSize : ℕ := 64

def eagain : Int := -11
def efault : Int := -14
def einval : Int := -22
def emsgsize : Int := -90
def erestartsys : Int := -512

def bar : UInt8 := 0x7C
def newline : UInt8 := 0x0A

/-! ## Chats -/

/-- `struct chat_dev`: the chat id is the C string in its buffer. -/
structure ChatDev where
  buffer : ℕ → UInt8
  bufLen : ℕ
  chatId : Text

/-- The bytes readers can read. -/
def ChatDev.log (chat : ChatDev) : Text := (List.range chat.bufLen).map chat.buffer

/-- `MSG_BUFF_SIZE - chat->buf_len` as a `size_t`. -/
def ChatDev.room (chat : ChatDev) : ℕ := (msgBuffSize + 2 ^ 64 - chat.bufLen) % 2 ^ 64

/-- `scnprintf` into a buffer from `start` on, with the terminating zero. -/
def printTo (buffer : ℕ → UInt8) (start size : ℕ) (text : Text) : ℕ → UInt8 := fun i =>
  let stored := scnprintf size text
  if size = 0 ∨ 2 ^ 31 ≤ size then buffer i
  else if start ≤ i ∧ i < start + stored.length then stored.getD (i - start) 0
  else if i = start + stored.length then 0
  else buffer i

/-- The critical section of both writers: print the line behind the log and
count what was stored of it. -/
def ChatDev.append (chat : ChatDev) (line : Text) : ChatDev where
  buffer := printTo chat.buffer chat.bufLen chat.room line
  bufLen := chat.bufLen + (scnprintf chat.room line).length
  chatId := chat.chatId

/-- `"[User] %s\n"`. -/
def userLine (tmp : Text) : Text :=
  [0x5B, 0x55, 0x73, 0x65, 0x72, 0x5D, 0x20] ++ cstr tmp ++ [newline]

/-- `"[%s] %s\n"`. -/
def senderLine (sender message : Text) : Text :=
  [0x5B] ++ sender ++ [0x5D, 0x20] ++ message ++ [newline]

/-- The checks of `chat_write` before the locks; `readable` is whether the copy
from the user succeeds. -/
def chatWriteTmp (ubuf : Text) (readable : Bool) : Except Int Text :=
  if msgBuffSize ≤ ubuf.length then .error einval
  else if ¬ readable then .error efault
  else .ok ubuf

/-- `chat_write` on the chat: its result and what it does to the log. -/
def chatWrite (chat : ChatDev) (ubuf : Text) (readable : Bool) : Int × ChatDev :=
  match chatWriteTmp ubuf readable with
  | .error code => (code, chat)
  | .ok tmp => (ubuf.length, chat.append (userLine tmp))

/-- The critical section of `chat_read` for a position inside the log: the
bytes copied, or the error. -/
def chatReadLocked (chat : ChatDev) (ppos count : ℕ) (writable : Bool) : Except Int Text :=
  if writable then
    .ok ((List.range (min count (chat.bufLen - ppos))).map fun i => chat.buffer (ppos + i))
  else .error efault

/-! ## The queue of the bus -/

/-- `struct bus_message`. -/
structure BusMessage where
  payload : Text
  len : ℕ

structure TgBusDev where
  queue : ℕ → BusMessage
  count : ℕ
  head : ℕ
  tail : ℕ

/-- `"OUT|%d|%.*s\n"`. -/
def outLine (chatIdx : ℕ) (msg : Text) : Text :=
  [0x4F, 0x55, 0x54, bar] ++ decimal chatIdx ++ [bar] ++ cstr msg ++ [newline]

/-- The frame of a message in the 128 bytes of its slot. -/
def outFrame (chatIdx : ℕ) (msg : Text) : BusMessage where
  payload := scnprintf busMessageSize (outLine chatIdx msg)
  len := (scnprintf busMessageSize (outLine chatIdx msg)).length

def busEnqueueOutgoing (bus : TgBusDev) (chatIdx : ℕ) (msg : Text) : TgBusDev :=
  if busQueueSize ≤ bus.count then bus
  else {
    queue := fun i => if i = bus.tail then outFrame chatIdx msg else bus.queue i
    count := bus.count + 1
    head := bus.head
    tail := (bus.tail + 1) % busQueueSize }

/-- The critical section of `bus_read` on a queue that is not empty. -/
def busReadLocked (bus : TgBusDev) (count : ℕ) (writable : Bool) : Except Int Text × TgBusDev :=
  let bm := bus.queue bus.head
  if count < bm.len then (.error emsgsize, bus)
  else if ¬ writable then (.error efault, bus)
  else (.ok (bm.payload.take bm.len),
    ⟨bus.queue, bus.count - 1, (bus.head + 1) % busQueueSize, bus.tail⟩)

/-! ## Lines written to the bus -/

inductive BusCommand
  | incoming (chatIdx : ℕ) (sender message : Text)
  | set (chatIdx : ℕ) (id : Text)
  deriving DecidableEq

/-- The chat index of a line, if it is a number and names a chat. -/
def parseIdx (idxStr : Text) : Option ℕ :=
  (kstrtoint idxStr).bind fun chatIdx =>
    if chatIdx < 0 ∨ (maxChats : Int) ≤ chatIdx then none else some chatIdx.toNat

/-- The parser of `bus_write`, `none` for `-EINVAL`. -/
def parseBusLine (tmp : Text) : Option BusCommand :=
  let first := strsep bar (some tmp)
  let second := strsep bar first.2
  match first.1, second.1 with
  | some cmd, some idxStr =>
      (parseIdx idxStr).bind fun chatIdx =>
        if cmd = [0x49, 0x4E] then
          let third := strsep bar second.2
          match third.1, third.2 with
          | some arg1, some arg2 => some (.incoming chatIdx arg1 arg2)
          | _, _ => none
        else if cmd = [0x53, 0x45, 0x54] then second.2.map (.set chatIdx)
        else none
  | _, _ => none

/-- The command a write to the bus gives, or its error. -/
def busWriteCommand (ubuf : Text) (readable : Bool) : Except Int BusCommand :=
  if busMessageSize ≤ ubuf.length then .error einval
  else if ¬ readable then .error efault
  else
    match parseBusLine (cstr ubuf) with
    | none => .error einval
    | some command => .ok command

/-- Replace one component of a table. -/
def assign {α : Type*} (table : ℕ → α) (key : ℕ) (value : α) : ℕ → α :=
  fun i => if i = key then value else table i

@[simp]
theorem assign_self {α : Type*} (table : ℕ → α) (key : ℕ) (value : α) :
    assign table key value key = value := if_pos rfl

theorem assign_of_ne {α : Type*} {table : ℕ → α} {key other : ℕ} (value : α)
    (hother : other ≠ key) : assign table key value other = table other := if_neg hother

/-- What is put behind one entry leaves every entry in front. -/
theorem prefix_assign_append {α : Type*} (table : ℕ → List α) (key : ℕ) (new : List α)
    (other : ℕ) : table other <+: assign table key (table key ++ new) other := by
  by_cases hsame : other = key
  · rw [hsame, assign_self]
    exact List.prefix_append _ _
  · rw [assign_of_ne _ hsame]

/-- The critical section of a command. -/
def BusCommand.apply (chats : ℕ → ChatDev) : BusCommand → ℕ → ChatDev
  | .incoming chatIdx sender message =>
      assign chats chatIdx ((chats chatIdx).append (senderLine sender message))
  | .set chatIdx id =>
      assign chats chatIdx
        ⟨(chats chatIdx).buffer, (chats chatIdx).bufLen, strscpy id chatIdBuffSize⟩

/-- A chat id is no part of a log. -/
theorem log_apply_set (chats : ℕ → ChatDev) (chatIdx : ℕ) (id : Text) (other : ℕ) :
    ((BusCommand.set chatIdx id).apply chats other).log = (chats other).log ∧
      ((BusCommand.set chatIdx id).apply chats other).bufLen = (chats other).bufLen := by
  by_cases hother : other = chatIdx
  · subst hother
    rw [BusCommand.apply, assign_self]
    exact ⟨rfl, rfl⟩
  · rw [BusCommand.apply, assign_of_ne _ hother]
    exact ⟨rfl, rfl⟩

def busWrite (chats : ℕ → ChatDev) (ubuf : Text) (readable : Bool) : Int × (ℕ → ChatDev) :=
  match busWriteCommand ubuf readable with
  | .error code => (code, chats)
  | .ok command => (ubuf.length, command.apply chats)

/-! ## What an append stores -/

@[simp]
theorem ChatDev.length_log (chat : ChatDev) : chat.log.length = chat.bufLen := by
  simp [ChatDev.log]

theorem ChatDev.room_of_lt {chat : ChatDev} (hlen : chat.bufLen < msgBuffSize) :
    chat.room = msgBuffSize - chat.bufLen := by
  simp only [ChatDev.room, msgBuffSize] at hlen ⊢
  omega

/-- The bytes in front of the printed ones stay. -/
theorem printTo_of_lt {buffer : ℕ → UInt8} {start size i : ℕ} {text : Text} (hi : i < start) :
    printTo buffer start size text i = buffer i := by
  have hnot : ¬ (start ≤ i ∧ i < start + (scnprintf size text).length) := by omega
  have hzero : i ≠ start + (scnprintf size text).length := by omega
  simp only [printTo, hnot, hzero, if_false, ite_self]

theorem printTo_stored {buffer : ℕ → UInt8} {start size i : ℕ} {text : Text}
    (hi : i < (scnprintf size text).length) :
    printTo buffer start size text (start + i) = (scnprintf size text)[i] := by
  have hsize : ¬ (size = 0 ∨ 2 ^ 31 ≤ size) := by
    intro hsize
    rw [scnprintf, if_pos hsize] at hi
    exact Nat.not_lt_zero i hi
  simp only [printTo, if_neg hsize]
  rw [if_pos (by omega), Nat.add_sub_cancel_left]
  simp [hi]

/-- An append adds what was stored of the line, and changes no byte of the log. -/
theorem ChatDev.log_append (chat : ChatDev) (line : Text) :
    (chat.append line).log = chat.log ++ scnprintf chat.room line := by
  apply List.ext_getElem
  · simp [ChatDev.append]
  intro i hi _
  have hlength : i < chat.bufLen + (scnprintf chat.room line).length := by
    simpa [ChatDev.append] using hi
  simp only [ChatDev.log, List.getElem_map, List.getElem_range, ChatDev.append]
  by_cases hold : i < chat.bufLen
  · rw [printTo_of_lt hold, List.getElem_append_left (by simpa using hold)]
    simp
  · obtain ⟨offset, rfl⟩ := Nat.exists_eq_add_of_le (Nat.not_lt.mp hold)
    rw [printTo_stored (by omega), List.getElem_append_right (by simp)]
    simp

theorem ChatDev.bufLen_append_lt {chat : ChatDev} (line : Text) (hlen : chat.bufLen < msgBuffSize) :
    (chat.append line).bufLen < msgBuffSize := by
  have hroom := ChatDev.room_of_lt hlen
  have hstored := length_scnprintf_lt line (show 0 < chat.room by omega)
  simp only [ChatDev.append]
  omega

/-- What is stored of a line: as much as there is room for before the last byte. -/
theorem ChatDev.scnprintf_room {chat : ChatDev} (line : Text) (hlen : chat.bufLen < msgBuffSize) :
    scnprintf chat.room line = line.take (msgBuffSize - 1 - chat.bufLen) := by
  have hroom := ChatDev.room_of_lt hlen
  rw [scnprintf_eq_take line (by omega) (by simp only [msgBuffSize] at *; omega), hroom]
  congr 1
  omega

/-- A read inside the log copies a piece of it. -/
theorem chatReadLocked_eq (chat : ChatDev) (ppos count : ℕ) :
    chatReadLocked chat ppos count true = .ok ((chat.log.drop ppos).take count) := by
  rw [chatReadLocked, if_pos rfl]
  congr 1
  apply List.ext_getElem
  · simp
  intro i hi _
  simp [ChatDev.log]

end DoomsdayModules.Telegram.Devices
