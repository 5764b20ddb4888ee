import TelemetryServer.World

/-! `SharedRingBuffer` and the eventfd helpers, as programs over the shared memory. The
ring is mapped throughout: `create` has succeeded before anyone holds it. -/

namespace TelemetryServer.Ipc

open Protocol Atomic

def loadHead : Proc Nat := Proc.call (.ring .loadHead)
def loadTail : Proc Nat := Proc.call (.ring .loadTail)
def loadSlot (index : Nat) : Proc Frame := Proc.call (.ring (.loadSlot index))
def storeSlot (index : Nat) (frame : Frame) : Proc Unit := Proc.call (.ring (.storeSlot index frame))
def storeHead (value : Nat) : Proc Unit := Proc.call (.ring (.storeHead value))
def storeTail (value : Nat) : Proc Unit := Proc.call (.ring (.storeTail value))

def closeProducer : Proc Unit := Proc.call (.ring (.storeProducerClosed 1))

def producerClosed : Proc Bool := do
  let value ← (Proc.call (.ring .loadProducerClosed) : Proc Nat)
  return value != 0

def tryPush (frame : List UInt8) : Proc Bool := do
  if frame.length ≠ kFrameSize then return false
  if ← producerClosed then return false
  let head ← loadHead
  let tail ← loadTail
  if capacityFrames ≤ subU64 head tail then return false
  storeSlot (head % capacityFrames) (.ofBytes frame)
  storeHead (u64 (head + 1))
  return true

/-- `tryPop` into a span of `size` bytes; `none` is the answer false. -/
def tryPop (size : Nat) : Proc (Option Frame) := do
  if size ≠ kFrameSize then return none
  let tail ← loadTail
  let head ← loadHead
  if tail = head then return none
  let frame ← loadSlot (tail % capacityFrames)
  storeTail (u64 (tail + 1))
  return some frame

/-- The `memcpy` of consecutive frames into the slots from `index` on. -/
def copyIn : Nat → List Frame → Proc Unit
  | _, [] => return ()
  | index, frame :: rest => do
      storeSlot index frame
      copyIn (index + 1) rest

/-- The `memcpy` of `count` slots from `index` on out of the ring. -/
def copyOut : Nat → Nat → Proc (List Frame)
  | _, 0 => return []
  | index, count + 1 => do
      let frame ← loadSlot index
      let rest ← copyOut (index + 1) count
      return frame :: rest

/-- The one or two copies that put `fs` into the slots from `head` on. -/
def copyInWrapped (head : Nat) (fs : List Frame) : Proc Unit := do
  let index := head % capacityFrames
  let first := min fs.length (capacityFrames - index)
  copyIn index (fs.take first)
  if first ≠ fs.length then
    copyIn 0 (fs.drop first)

/-- The one or two copies that take `count` frames from the slots from `tail` on. -/
def copyOutWrapped (tail count : Nat) : Proc (List Frame) := do
  let index := tail % capacityFrames
  let first := min count (capacityFrames - index)
  let front ← copyOut index first
  if first ≠ count then
    let back ← copyOut 0 (count - first)
    return front ++ back
  else
    return front

def tryPushBatch (span : List UInt8) : Proc Nat := do
  if span = [] ∨ span.length % kFrameSize ≠ 0 then return 0
  if ← producerClosed then return 0
  let head ← loadHead
  let tail ← loadTail
  let freeFrames := subU64 capacityFrames (subU64 head tail)
  let count := min (span.length / kFrameSize) freeFrames
  if count = 0 then return 0
  copyInWrapped head ((frames span).take count)
  storeHead (u64 (head + count))
  return count

/-- `tryPopBatch` into a span of `size` bytes: the frames copied to its front, whose number
is the call's result. -/
def tryPopBatch (size : Nat) : Proc (List Frame) := do
  if size = 0 ∨ size % kFrameSize ≠ 0 then return []
  let tail ← loadTail
  let head ← loadHead
  let count := min (size / kFrameSize) (subU64 head tail)
  if count = 0 then return []
  let copied ← copyOutWrapped tail count
  storeTail (u64 (tail + count))
  return copied

def pendingFrames : Proc Nat := do
  let tail ← loadTail
  let head ← loadHead
  return subU64 head tail

def pendingBytes : Proc Nat := do
  let pending ← pendingFrames
  return u64 (pending * kFrameSize)

def empty : Proc Bool := do
  let pending ← pendingFrames
  return pending == 0

def full : Proc Bool := do
  let pending ← pendingFrames
  return decide (capacityFrames ≤ pending)

def notifyEvent (fd : EventFd) : Proc Bool :=
  Prog.iterate (fun _ => do
    match ← (Proc.call (.eventWrite fd) : Proc EventResult) with
    | .ok => return .inr true
    | .eintr => return .inl ()
    | .error =>
        Proc.log (.perror "eventfd_write")
        return .inr false) ()

def consumeEvent (fd : EventFd) : Proc Bool :=
  Prog.iterate (fun _ => do
    match ← (Proc.call (.eventRead fd) : Proc EventResult) with
    | .ok => return .inr true
    | .eintr => return .inl ()
    | .error =>
        Proc.log (.perror "eventfd_read")
        return .inr false) ()

end TelemetryServer.Ipc
