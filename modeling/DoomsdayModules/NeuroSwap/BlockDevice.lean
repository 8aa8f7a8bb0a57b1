import DoomsdayModules.Core.KernelText
import DoomsdayModules.Core.Transducers
import DoomsdayModules.NeuroSwap.Inference

/-!
# The swap device

A request to the device is checked against its size and then handled segment by
segment: the bytes written are read by the network, and the bytes read are what it
recalls.  Neither looks at the sectors.
-/

namespace DoomsdayModules.NeuroSwap.BlockDevice

open DoomsdayModules.KernelText DoomsdayModules.Transducers
open DoomsdayModules.NeuroSwap.Math DoomsdayModules.NeuroSwap.Inference

/-! ## The driver -/

/-- `SECTOR_SHIFT`. -/
def sectorShift : UInt64 := 9

/-- `MAX_HW_SECTORS`. -/
def maxHwSectors : ℕ := 256

/-- `struct nswap_block_dev`. -/
structure NswapBlockDev where
  nrSectors : UInt64
  lstm : LSTMState

inductive DataDir
  | read
  | write

/-- `struct request`, with the memory of its segments.  The block layer cuts
requests to the limits of the queue. -/
structure Request where
  dataDir : DataDir
  pos : UInt64
  segments : List Text
  bytes_le : segments.flatten.length ≤ maxHwSectors * 512

/-- `blk_rq_bytes`. -/
def Request.bytes (rq : Request) : ℕ := rq.segments.flatten.length

inductive BlkStatus
  | ok
  | ioerr

/-- How a request ended, and the memory of its segments then; a byte recalled
from a number that no byte can hold is undefined. -/
structure Reply where
  status : BlkStatus
  segments : List (List (Option UInt8))

/-- A round of the loop of `nswap_queue_rq`. -/
def queueSegment (w : Weights) (dataDir : DataDir) :
    LSTMState × List (List (Option UInt8)) → Text → LSTMState × List (List (Option UInt8))
  | (lstm, done), segment =>
    match dataDir with
    | .write => (lstmMemorizeSse w lstm segment, done ++ [segment.map some])
    | .read =>
        let (lstm, recalled) := lstmRecallSse w lstm segment.length
        (lstm, done ++ [recalled])

/-- The check of `nswap_queue_rq`, in words of 64 bits. -/
def InRange (nrSectors : UInt64) (rq : Request) : Prop :=
  ¬ nrSectors <<< sectorShift < (rq.pos <<< sectorShift) + UInt64.ofNat rq.bytes

instance (nrSectors : UInt64) (rq : Request) : Decidable (InRange nrSectors rq) :=
  inferInstanceAs (Decidable (¬ _))

/-- `nswap_queue_rq`. -/
def nswapQueueRq (w : Weights) (dev : NswapBlockDev) (rq : Request) : NswapBlockDev × Reply :=
  if InRange dev.nrSectors rq then
    let (lstm, segments) := rq.segments.foldl (queueSegment w rq.dataDir) (dev.lstm, [])
    ({ dev with lstm := lstm }, ⟨.ok, segments⟩)
  else (dev, ⟨.ioerr, rq.segments.map (List.map some)⟩)

def execute (w : Weights) (dev : NswapBlockDev) (rqs : List Request) : NswapBlockDev :=
  rqs.foldl (fun dev rq => (nswapQueueRq w dev rq).1) dev

/-! ## The network on a stream -/

/-- `lstm_step` as a machine. -/
def lstmMachine (w : Weights) : Transducer LSTMState (Fin inputSize → ℚ) (Fin outputSize → ℚ) :=
  ⟨lstmStep w⟩

/-- What the network reads for a byte. -/
def scaled (byte : UInt8) : Fin inputSize → ℚ := fun _ => (byte.toNat : ℚ) / 255

/-- What the network reads while it recalls. -/
def silence : Fin inputSize → ℚ := fun _ => 0

/-- The byte for an output. -/
def recalledByte (out : Fin outputSize → ℚ) : Option UInt8 := toByte (out ⟨0, Nat.one_pos⟩ * 255)

/-- What the network reads for a segment. -/
def segmentInputs (dataDir : DataDir) (segment : Text) : List (Fin inputSize → ℚ) :=
  match dataDir with
  | .write => segment.map scaled
  | .read => List.replicate segment.length silence

/-- What the network reads for a request. -/
def Request.inputs (rq : Request) : List (Fin inputSize → ℚ) :=
  rq.segments.flatMap (segmentInputs rq.dataDir)

/-- What the network reads in a run of requests: those in range, in their order. -/
def stream (nrSectors : UInt64) (rqs : List Request) : List (Fin inputSize → ℚ) :=
  (rqs.filter fun rq => InRange nrSectors rq).flatMap Request.inputs

/-- How a request is served behind a run of others: the device before and after it, and
the reply. -/
structure Served (w : Weights) (nswapSizeMb : UInt64) (before : List Request) (rq : Request)
    (dev next : NswapBlockDev) (reply : Reply) : Prop where
  range : nswapSizeMb.toNat < 2 ^ 44 → rq.pos.toNat * 512 + rq.bytes < 2 ^ 64 →
    (InRange (nswapSizeMb <<< 11) rq ↔
      rq.pos.toNat * 512 + rq.bytes ≤ nswapSizeMb.toNat * 2 ^ 20)
  refused : ¬ InRange (nswapSizeMb <<< 11) rq →
    next = dev ∧ reply = ⟨.ioerr, rq.segments.map (List.map some)⟩
  ok : InRange (nswapSizeMb <<< 11) rq → reply.status = .ok
  lengths : reply.segments.map List.length = rq.segments.map List.length
  written : rq.dataDir = .write → reply.segments = rq.segments.map (List.map some)
  recalled : InRange (nswapSizeMb <<< 11) rq → rq.dataDir = .read →
    reply.segments.flatten =
      (((lstmMachine w).outputs lstmStateReset
        (stream (nswapSizeMb <<< 11) before ++ List.replicate rq.bytes silence)).drop
          (stream (nswapSizeMb <<< 11) before).length).map recalledByte

end DoomsdayModules.NeuroSwap.BlockDevice
