import DoomsdayModules.Core.Redelivery
import DoomsdayModules.Telegram.Incoming
import DoomsdayModules.Telegram.Outgoing

/-!
# The relay

The module with everything around it: users at the chat devices, the daemon with
its main thread and its incoming thread, and the service that keeps the updates
for the bot.  The service is a parameter: any server of updates.  Requests may
fail on either way, and the daemon may be killed and started again at any point.
A step is one of a user in the module or of the service, or what one thread of
the daemon does up to its next call.

The daemon is the only process with the bus device open.
-/

namespace DoomsdayModules.Telegram.Relay

open DoomsdayModules.KernelText DoomsdayModules.Redelivery DoomsdayModules.Telegram.Devices
open DoomsdayModules.Telegram.System DoomsdayModules.Telegram.Daemon
open DoomsdayModules.Telegram.Incoming DoomsdayModules.Telegram.MessageBus

/-! ## The configuration -/

/-- `CHAT_MAP`, in its order. -/
structure ChatMap where
  items : List (ℕ × Int)
  nodup : (items.map Prod.fst).Nodup

/-- `CHAT_MAP.get`. -/
def ChatMap.get (chatMap : ChatMap) (chatIdx : Int) : Option Int :=
  (chatMap.items.find? fun item => (item.1 : Int) = chatIdx).map Prod.snd

/-- `REVERSE_MAP.get`: the last of the indices of a chat. -/
def ChatMap.reverseGet (chatMap : ChatMap) (tgChatId : Int) : Option ℕ :=
  (chatMap.items.reverse.find? fun item => item.2 = tgChatId).map Prod.fst

/-- `BUS_MSG_MAX`. -/
def busMsgMax : ℕ := 512

/-! ## The daemon -/

/-- The main thread: it binds the chats, then waits for the bus, reads from it
and hands over what it read. -/
inductive MainTask
  | off
  | binding (left : List (ℕ × Int))
  | selecting
  | reading
  | sending (raw : Text)
  | crashed (code : Int)
  | closed

/-- The incoming thread in its loop, with what is left of a batch. -/
inductive IncomingTask
  | off
  | running (loop : LoopState) (batch : List Update)
  | ended (failure : Failure)

/-- What becomes of a request of `tg_get_updates`: it gets lost, or its answer
does, or it is answered, as the service happens to answer. -/
inductive Exchange (Event : Type)
  | unsent
  | unanswered (event : Event)
  | answered (event : Event)

/-- The times the daemon was started, how many updates the service had let go of
at the last time (or when the module was loaded), the updates handled since then
and before, and the frames that were handed over. -/
structure History where
  starts : ℕ
  resumed : ℕ
  handled : List Update
  earlier : List Update
  frames : List Text

structure World (State : Type) where
  kernel : System.State
  service : State
  main : MainTask
  incoming : IncomingTask
  sent : List (Int × List Char)
  history : History

/-- The service as the daemon knows it, with the number that both know an update
by for its key. -/
abbrev Service (State Event : Type) := Server State Event Update Int

variable {State Event : Type}

/-- The updates all sessions handled. -/
def World.processed (world : World State) : List Update :=
  world.history.earlier ++ world.history.handled

/-- The module is loaded, and the daemon has not been started; the service may
have updates for it already. -/
def init (service : Service State Event) (opened : ℕ → ℕ) (state : State) : World State where
  kernel := telegramInit opened
  service := state
  main := .off
  incoming := .off
  sent := []
  history := ⟨0, service.confirmed state, [], [], []⟩

/-- The number of the daemon's process. -/
def daemon : ℕ := 0

/-- `handle_outgoing`: the chat and the text of the call of `tg_send`. -/
def handleOutgoing (chatMap : ChatMap) (raw : Text) : Option (Int × List Char) :=
  (handleFrame raw).bind fun outgoing =>
    (chatMap.get outgoing.1).map fun tgChatId => (tgChatId, outgoing.2)

/-- The replies of a step of the module to calls of `bus_read`. -/
def newReplies (before after : System.State) : List (Except Int Text) :=
  after.history.busReplies.drop before.history.busReplies.length

/-- The step of `os.read` in the module. -/
def readOp (phase : Phase) (interrupted : Bool) : System.Op :=
  match phase with
  | .idle => .busReadCall daemon busMsgMax
  | .entered _ => .busReadLock daemon false true
  | .waiting _ => .busReadWake daemon interrupted

/-- Where the thread goes with the replies of a step of `os.read`; an
interrupted call is made again. -/
def afterRead : List (Except Int Text) → MainTask
  | [] => .reading
  | .ok raw :: _ => if raw = [] then .closed else .sending raw
  | .error code :: _ => if code = erestartsys then .reading else .selecting

/-- The main thread: `main`, then `outgoing_loop`. -/
def mainStep (chatMap : ChatMap) (interrupted : Bool) (world : World State) : World State :=
  match world.main with
  | .off | .crashed _ | .closed => world
  | .binding [] => { world with main := .selecting, incoming := .running ⟨0, []⟩ [] }
  | .binding (item :: left) =>
      { world with
        kernel := System.step world.kernel (.busWrite (setLine item.1 item.2) true)
        main :=
          match busWriteCommand (setLine item.1 item.2) true with
          | .error code => .crashed code
          | .ok _ => .binding left }
  | .selecting => if 0 < world.kernel.bus.count then { world with main := .reading } else world
  | .reading =>
      let next := System.step world.kernel (readOp (world.kernel.busReaders daemon) interrupted)
      { world with kernel := next, main := afterRead (newReplies world.kernel next) }
  | .sending raw =>
      { world with
        main := .selecting
        sent := world.sent ++ (handleOutgoing chatMap raw).toList
        history := { world.history with frames := world.history.frames ++ [raw] } }

/-- The number of an update. -/
def updateKey (update : Update) : Int := update.updateId.getD 0

/-- The incoming thread: the next request, or the next update of the batch. -/
def incomingStep (service : Service State Event) (chatMap : ChatMap) (exchange : Exchange Event)
    (world : World State) : World State :=
  match world.incoming with
  | .off | .ended _ => world
  | .running loop [] =>
      match exchange with
      | .unsent => world
      | .unanswered event =>
          { world with service := (service.request event loop.offset world.service).1 }
      | .answered event =>
          let reply := service.request event loop.offset world.service
          { world with service := reply.1, incoming := .running loop reply.2 }
  | .running loop (update :: batch) =>
      match processUpdate chatMap.reverseGet loop update with
      | .error failure => { world with incoming := .ended failure }
      | .ok next =>
          { world with
            kernel := (next.written.drop loop.written.length).foldl stepBusWrite world.kernel
            incoming := .running next batch
            history := { world.history with handled := world.history.handled ++ [update] } }

/-- A killed daemon loses what its threads know; the new one starts over. -/
def startStep (service : Service State Event) (chatMap : ChatMap) (world : World State) :
    World State where
  kernel := stepBusReader world.kernel world.kernel.bus daemon .idle []
  service := world.service
  main := .binding chatMap.items
  incoming := .off
  sent := world.sent
  history := ⟨world.history.starts + 1, service.confirmed world.service, [],
    world.history.earlier ++ world.history.handled, world.history.frames⟩

/-! ## Runs -/

/-- The steps of users in the module. -/
def byUser : System.Op → Bool
  | .chatWrite _ chat _ _ => chat < maxChats
  | .enqueue _ | .chatReadCall _ _ | .chatReadLock _ _ _ | .chatReadWake _ _ => true
  | .busWrite _ _ | .busReadCall _ _ | .busReadLock _ _ _ | .busReadWake _ _ => false

inductive Op (Event : Type)
  | user (op : System.Op)
  | service (event : Event)
  | start
  | main (interrupted : Bool)
  | incoming (exchange : Exchange Event)

/-- A step that cannot be taken changes nothing. -/
def step (service : Service State Event) (chatMap : ChatMap) (world : World State) :
    Op Event → World State
  | .user op => if byUser op then { world with kernel := System.step world.kernel op } else world
  | .service event => { world with service := service.meanwhile event world.service }
  | .start => startStep service chatMap world
  | .main interrupted => mainStep chatMap interrupted world
  | .incoming exchange => incomingStep service chatMap exchange world

def execute (service : Service State Event) (chatMap : ChatMap) (world : World State)
    (ops : List (Op Event)) : World State :=
  ops.foldl (step service chatMap) world

end DoomsdayModules.Telegram.Relay
