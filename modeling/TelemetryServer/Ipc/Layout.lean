import Mathlib.Logic.Function.Basic
import TelemetryServer.Protocol.TelemetryCodec

/-! The shared memory of the ring and the accesses made to it. Every access is one
sequentially consistent step; a `memcpy` of several frames is one step for each slot. -/

namespace TelemetryServer.Ipc

open Protocol

def capacityBytes : Nat := 4 * 1024 * 1024
def capacityFrames : Nat := capacityBytes / kFrameSize

/-- Unsigned 64-bit arithmetic on naturals. -/
def u64 (n : Nat) : Nat := n % 2 ^ 64
def subU64 (a b : Nat) : Nat := (a + 2 ^ 64 - b) % 2 ^ 64

/-- `SharedRingBuffer::Layout`, mapped by `create`. The last two fields are history: the
frames made visible by stores to `head`, each with the connection received from last, and
the number of frames given back by stores to `tail`. -/
structure Layout where
  head : Nat := 0
  tail : Nat := 0
  producerClosed : Nat := 0
  slots : Nat → Frame := fun _ => .zero
  published : List (Nat × Frame) := []
  released : Nat := 0

def Layout.frames (l : Layout) : List Frame := l.published.map Prod.snd

inductive RingCall
  | loadHead
  | loadTail
  | loadProducerClosed
  | loadSlot (index : Nat)
  | storeSlot (index : Nat) (frame : Frame)
  | storeHead (value : Nat)
  | storeTail (value : Nat)
  | storeProducerClosed (value : Nat)
  deriving DecidableEq

@[reducible] def RingCall.Resp : RingCall → Type
  | .loadHead | .loadTail | .loadProducerClosed => Nat
  | .loadSlot _ => Frame
  | .storeSlot _ _ | .storeHead _ | .storeTail _ | .storeProducerClosed _ => Unit

/-- The frames a store of `value` to `head` makes visible. -/
def Layout.exposed (l : Layout) (value : Nat) : List Frame :=
  (List.range (subU64 value l.head)).map (fun i => l.slots (u64 (l.head + i) % capacityFrames))

def RingCall.exec (origin : Nat) : (c : RingCall) → Layout → c.Resp → Option Layout
  | .loadHead, l, r => if r = l.head then some l else none
  | .loadTail, l, r => if r = l.tail then some l else none
  | .loadProducerClosed, l, r => if r = l.producerClosed then some l else none
  | .loadSlot index, l, r => if r = l.slots index then some l else none
  | .storeSlot index frame, l, () => some { l with slots := Function.update l.slots index frame }
  | .storeHead value, l, () => some { l with
      head := value
      published := l.published ++ (l.exposed value).map (fun frame => (origin, frame)) }
  | .storeTail value, l, () => some { l with
      tail := value
      released := l.released + subU64 value l.tail }
  | .storeProducerClosed value, l, () => some { l with producerClosed := value }

inductive EventFd
  | dataReady
  | spaceReady
  deriving DecidableEq, Repr

inductive EventResult
  | ok
  | eintr
  | error
  deriving DecidableEq, Repr

/-- An eventfd read waits for a nonzero counter and clears it. -/
def eventfdRead (counter : Nat) : EventResult → Option Nat
  | .ok => if 0 < counter then some 0 else none
  | .eintr | .error => some counter

/-- An eventfd write of one waits while the counter is at its maximum. -/
def eventfdWrite (counter : Nat) : EventResult → Option Nat
  | .ok => if counter < 2 ^ 64 - 2 then some (counter + 1) else none
  | .eintr | .error => some counter

end TelemetryServer.Ipc
