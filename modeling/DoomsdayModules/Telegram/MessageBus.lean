import DoomsdayModules.Telegram.System

/-!
# The queue of the bus

The queue is a ring of 32 frames.  Over any interleaving of writers and readers
the frames the calls of `bus_read` returned, followed by those still in the
ring, are the frames the queue accepted.
-/

namespace DoomsdayModules.Telegram.MessageBus

open DoomsdayModules.KernelText DoomsdayModules.RingBuffer
open DoomsdayModules.Telegram.Devices DoomsdayModules.Telegram.System

/-- What a reader of the frame gets. -/
def frameBytes (bm : BusMessage) : Text := bm.payload.take bm.len

/-- The frames the queue accepted, in the order it did. -/
def acceptedFrames (state : State) : List Text :=
  state.history.accepted.map fun entry => frameBytes entry.frame

/-- The frames returned by successful calls of `bus_read`. -/
def deliveredFrames (state : State) : List Text :=
  state.history.busReplies.filterMap Except.toOption

/-- The frames in the queue, from its head on. -/
def queuedFrames (bus : TgBusDev) : List Text :=
  (List.range bus.count).map fun i => frameBytes (bus.queue ((bus.head + i) % busQueueSize))

def ring (bus : TgBusDev) : RingBuf BusMessage := ⟨bus.queue, bus.head, bus.tail, bus.count⟩

theorem queuedFrames_eq {bus : TgBusDev} {queued : List BusMessage}
    (hholds : Holds busQueueSize (ring bus) queued) : queuedFrames bus = queued.map frameBytes := by
  rw [hholds.eq_map, List.map_map]
  rfl

/-- The ring holds what was accepted and not yet delivered. -/
def BusInvariant (state : State) : Prop :=
  ∃ pending, Holds busQueueSize (ring state.bus) pending ∧
    acceptedFrames state = deliveredFrames state ++ pending.map frameBytes

theorem busInvariant_init (opened : ℕ → ℕ) : BusInvariant (telegramInit opened) :=
  ⟨[], Holds.nil (by decide) _, rfl⟩

theorem deliveredFrames_stepBusReader (state : State) (bus : TgBusDev) (process : ℕ)
    (phase : Phase) (replies : List (Except Int Text)) :
    deliveredFrames (stepBusReader state bus process phase replies) =
      deliveredFrames state ++ replies.filterMap Except.toOption :=
  List.filterMap_append

theorem ring_busEnqueueOutgoing {bus : TgBusDev} (hroom : ¬ busQueueSize ≤ bus.count)
    (chatIdx : ℕ) (msg : Text) :
    ring (busEnqueueOutgoing bus chatIdx msg) =
      push busQueueSize (ring bus) (outFrame chatIdx msg) := by
  rw [busEnqueueOutgoing, if_neg hroom]
  rfl

theorem BusInvariant.enqueue {state : State} (hinv : BusInvariant state) (process : ℕ)
    (pending : Pending) : BusInvariant (stepEnqueue state process pending) := by
  obtain ⟨queued, hholds, hframes⟩ := hinv
  by_cases hfull : busQueueSize ≤ state.bus.count
  · refine ⟨queued, ?_, ?_⟩
    · simpa only [stepEnqueue, busEnqueueOutgoing, if_pos hfull] using hholds
    · simpa only [acceptedFrames, deliveredFrames, stepEnqueue, if_pos hfull] using hframes
  · have hpush := hholds.push (Nat.not_le.mp hfull) (outFrame pending.chat pending.tmp)
    refine ⟨queued ++ [outFrame pending.chat pending.tmp], ?_, ?_⟩
    · rw [← ring_busEnqueueOutgoing hfull] at hpush
      exact hpush
    · have haccepted : acceptedFrames (stepEnqueue state process pending) =
          acceptedFrames state ++ [frameBytes (outFrame pending.chat pending.tmp)] := by
        simp only [acceptedFrames, stepEnqueue, if_neg hfull, List.map_append, List.map_singleton]
      rw [haccepted, hframes, List.map_append, List.map_singleton, List.append_assoc]
      rfl

theorem BusInvariant.took {state : State} (hinv : BusInvariant state) (process : ℕ)
    (hcount : state.bus.count ≠ 0) :
    BusInvariant (stepBusReader state
      ⟨state.bus.queue, state.bus.count - 1, (state.bus.head + 1) % busQueueSize, state.bus.tail⟩
      process .idle [.ok (frameBytes (state.bus.queue state.bus.head))]) := by
  obtain ⟨queued, hholds, hframes⟩ := hinv
  obtain ⟨front, rest, rfl⟩ := hholds.exists_cons hcount
  have hfront : state.bus.queue state.bus.head = front := hholds.front
  refine ⟨rest, hholds.pop, ?_⟩
  have htoken : [(.ok (frameBytes front) : Except Int Text)].filterMap Except.toOption =
      [frameBytes front] := rfl
  rw [deliveredFrames_stepBusReader, hfront, htoken, List.append_assoc]
  exact hframes

/-- A step keeps the invariant. -/
theorem busInvariant_step (state : State) (op : Op) (hinv : BusInvariant state) :
    BusInvariant (step state op) := by
  have hchange := change_step state op
  generalize step state op = next at hchange
  cases hchange with
  | nothing => exact hinv
  | chatWrite process chat tmp _ => exact hinv
  | enqueue process pending _ => exact hinv.enqueue process pending
  | busWrite command => exact hinv
  | filePhase file phase => exact hinv
  | fileRead file count _ => exact hinv
  | readerPhase process phase =>
      obtain ⟨queued, hholds, hframes⟩ := hinv
      refine ⟨queued, hholds, ?_⟩
      rw [deliveredFrames_stepBusReader, List.filterMap_nil, List.append_nil]
      exact hframes
  | readerFailed process code =>
      obtain ⟨queued, hholds, hframes⟩ := hinv
      refine ⟨queued, hholds, ?_⟩
      rw [deliveredFrames_stepBusReader, List.filterMap_cons_none rfl, List.filterMap_nil,
        List.append_nil]
      exact hframes
  | readerTook process hcount => exact hinv.took process hcount

/-- A step that ends a `bus_read` with an error leaves the bus as it was. -/
theorem bus_of_error (state : State) (op : Op) {code : Int}
    (herror : (step state op).history.busReplies = state.history.busReplies ++ [.error code]) :
    (step state op).bus = state.bus := by
  have hchange := change_step state op
  generalize step state op = next at hchange herror
  cases hchange with
  | enqueue process pending _ => exact absurd herror (by simp [stepEnqueue])
  | readerTook process hcount => exact absurd herror (by simp [stepBusReader])
  | _ => rfl

/-- A bus that has delivered the frames it accepted in order and each once,
and on which failed reads and writes to a full queue change nothing. -/
structure BusFifo (state : State) : Prop where
  head_lt : state.bus.head < busQueueSize
  tail_lt : state.bus.tail < busQueueSize
  count_le : state.bus.count ≤ busQueueSize
  tail_eq : state.bus.tail = (state.bus.head + state.bus.count) % busQueueSize
  delivered_prefix : deliveredFrames state <+: acceptedFrames state
  accepted_eq : acceptedFrames state = deliveredFrames state ++ queuedFrames state.bus
  error_keeps : ∀ op code,
    (step state op).history.busReplies = state.history.busReplies ++ [.error code] →
      (step state op).bus = state.bus
  full_keeps : ∀ process, busQueueSize ≤ state.bus.count →
    (step state (.enqueue process)).bus = state.bus ∧
      acceptedFrames (step state (.enqueue process)) = acceptedFrames state

theorem BusInvariant.busFifo {state : State} (hinv : BusInvariant state) : BusFifo state := by
  obtain ⟨queued, hholds, hframes⟩ := hinv
  have haccepted : acceptedFrames state = deliveredFrames state ++ queuedFrames state.bus := by
    rw [hframes, hholds.eq_map, List.map_map]
    rfl
  refine ⟨hholds.head_lt, hholds.tail_lt, hholds.count_le, hholds.tail_eq, ⟨_, hframes.symm⟩,
    haccepted, fun op code => bus_of_error state op, fun process hfull => ?_⟩
  simp only [step]
  split
  · exact ⟨by simp only [stepEnqueue, busEnqueueOutgoing, if_pos hfull],
      by simp only [acceptedFrames, stepEnqueue, if_pos hfull]⟩
  · exact ⟨rfl, rfl⟩

/-- Over every interleaving of writers and readers the bus is a queue. -/
theorem bus_fifo (opened : ℕ → ℕ) (ops : List Op) :
    BusFifo (execute (telegramInit opened) ops) :=
  (execute_invariant busInvariant_step (busInvariant_init opened) ops).busFifo

end DoomsdayModules.Telegram.MessageBus
