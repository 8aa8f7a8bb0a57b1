import DoomsdayModules.Telegram.RelayOutgoing

/-!
# Every frame is handed over

In its loop the main thread is never stuck: it asks for the bus, calls the read,
gets a frame and hands it over, four steps for each frame.  Nobody else takes a
frame, so whatever is on the bus is handed over after that many steps of the
thread, whatever users and the incoming thread do in between, unless the daemon
is killed.
-/

namespace DoomsdayModules.Telegram.RelayProgress

open DoomsdayModules.KernelText DoomsdayModules.RingBuffer
open DoomsdayModules.Telegram.Devices DoomsdayModules.Telegram.System
open DoomsdayModules.Telegram.MessageBus DoomsdayModules.Telegram.Relay
open DoomsdayModules.Telegram.RelayOutgoing

variable {State Event : Type} {service : Service State Event}

/-- How far the thread is on its way to hand over a frame. -/
def position (kernel : System.State) : MainTask → ℕ
  | .reading =>
      match kernel.busReaders daemon with
      | .entered _ => 2
      | .idle | .waiting _ => 1
  | .sending _ => 3
  | .off | .binding _ | .selecting | .crashed _ | .closed => 0

variable {chatMap : ChatMap} {world : World State} {messages : List Pending}

/-! ## The queue -/

/-- The target is reached, or a new session has begun. -/
def Reached (target : List Text) (starts : ℕ) (world : World State) : Prop :=
  target <+: world.history.frames ∨ world.history.starts ≠ starts

end DoomsdayModules.Telegram.RelayProgress
