import TelemetryServer.Ipc.SharedRingBuffer
import TelemetryServer.Storage.Session

/-! `Reader`: the process that takes frames out of the ring and hands them to its store in
batches. The local variables of `run` are passed from step to step. -/

namespace TelemetryServer.Reader

open Protocol Ipc Atomic
open Storage (FileStoreConfig noted)

structure ReaderConfig where
  dataFilePath : String
  maxSegmentBytes : Nat
  syncEveryBytes : Nat
  quiet : Bool := false
  max_lt : maxSegmentBytes < 2 ^ 64 := by decide
  sync_lt : syncEveryBytes < 2 ^ 64 := by decide

def ReaderConfig.store (config : ReaderConfig) : FileStoreConfig :=
  { maxSegmentBytes := config.maxSegmentBytes
    syncEveryBytes := config.syncEveryBytes
    max_lt := config.max_lt
    sync_lt := config.sync_lt }

def EXIT_SUCCESS : Nat := 0
def EXIT_FAILURE : Nat := 1

structure Store where
  construct : FileStoreConfig → Proc Unit
  openFile : String → Proc Bool
  appendFrames : List UInt8 → Proc Bool
  sync : Proc Bool
  destroy : Proc Unit

def fileStore : Store where
  construct := fun config => Storage.update (fun _ => { config := config })
  openFile := Storage.openFile
  appendFrames := Storage.appendFrames
  sync := Storage.sync
  destroy := Storage.destroy

def writeBatchBytes : Nat := 64 * 1024
def ipcBatchBytes : Nat := 4096

/-- The array `batch`, of `writeBatchBytes` bytes, and the offset up to which it is filled. -/
structure Staging where
  batch : Nat → UInt8 := fun _ => 0
  batchBytes : Nat := 0

namespace Staging

def staged (s : Staging) : List UInt8 := (List.range s.batchBytes).map s.batch

/-- `std::copy` of a frame to the offset, which moves behind it. -/
def copy (s : Staging) (frame : Frame) : Staging where
  batch := fun i =>
    if s.batchBytes ≤ i ∧ i < s.batchBytes + kFrameSize then frame.bytes.getD (i - s.batchBytes) 0
    else s.batch i
  batchBytes := s.batchBytes + kFrameSize

end Staging

section

variable (store : Store)

/-- `none` is the answer false. -/
def flushBatch (s : Staging) : Proc (Option Staging) := do
  if s.batchBytes = 0 then return some s
  if ← noted s.staged (store.appendFrames s.staged) then
    return some { s with batchBytes := 0 }
  else
    return none

def announce (quiet : Bool) (record : TelemetryRecord) : Proc Unit :=
  if quiet then return () else Proc.log (.telemetry record)

/-- A frame that decodes: copied behind the others, which are flushed when they fill the
array. -/
def stageFrame (quiet : Bool) (s : Staging) (frame : Frame) : Proc (Option Staging) := do
  Proc.point (.staging s.batchBytes)
  let s := s.copy frame
  match ← (if s.batchBytes = writeBatchBytes then flushBatch store s else return some s) with
  | none => return none
  | some s =>
      announce quiet (decode frame.bytes).record
      return some s

/-- A frame that does not decode: the records before it are flushed, and the reader gives
up. -/
def rejectFrame (s : Staging) (error : DecodeError) : Proc (Option Staging) := do
  match ← flushBatch store s with
  | none => return none
  | some _ =>
      Proc.log (.invalidIpcFrame error)
      return none

def processFrame (quiet : Bool) (s : Staging) (frame : Frame) : Proc (Option Staging) :=
  if (decode frame.bytes).ok then stageFrame store quiet s frame
  else rejectFrame store s (decode frame.bytes).error

def processFrames (quiet : Bool) : Staging → List Frame → Proc (Option Staging)
  | s, [] => return some s
  | s, frame :: rest => do
      match ← processFrame store quiet s frame with
      | none => return none
      | some s => processFrames quiet s rest

/-- Pops until the ring is empty; the flag says whether there was anything. -/
def drain (quiet : Bool) (s : Staging) : Proc (Option (Staging × Bool)) :=
  Prog.iterate (fun (here : Staging × Bool) => do
    match ← tryPopBatch ipcBatchBytes with
    | [] => return .inr (some here)
    | popped =>
        Proc.point (.popped popped)
        match ← processFrames store quiet here.1 popped with
        | none => return .inr none
        | some s => return .inl (s, true)) (s, false)

def notifyConsumed (consumedAny : Bool) : Proc Bool :=
  if consumedAny then notifyEvent .spaceReady else return true

def finished : Proc Bool := do
  if ← producerClosed then empty else return false

def finish : Proc (Staging ⊕ Nat) := do
  if ← store.sync then
    Proc.log (.cout "[reader] EOF\n")
    return .inr EXIT_SUCCESS
  else
    return .inr EXIT_FAILURE

def await (s : Staging) : Proc (Staging ⊕ Nat) := do
  if ← consumeEvent .dataReady then return .inl s else return .inr EXIT_FAILURE

def rest (s : Staging) (consumedAny : Bool) : Proc (Staging ⊕ Nat) := do
  if ← notifyConsumed consumedAny then
    if ← finished then finish store else await s
  else
    return .inr EXIT_FAILURE

def pass (quiet : Bool) (s : Staging) : Proc (Staging ⊕ Nat) := do
  match ← drain store quiet s with
  | none => return .inr EXIT_FAILURE
  | some (s, consumedAny) =>
      match ← flushBatch store s with
      | none => return .inr EXIT_FAILURE
      | some s => rest store s consumedAny

def read (config : ReaderConfig) : Proc Nat := do
  if ← store.openFile config.dataFilePath then
    Proc.log (.cout "[reader] reading telemetry from shared memory\n")
    Prog.iterate (pass store config.quiet) {}
  else
    return EXIT_FAILURE

def runWith (config : ReaderConfig) : Proc Nat := do
  Proc.log (.cout "[reader] pid\n")
  store.construct config.store
  let result ← read store config
  store.destroy
  return result

end

def run (config : ReaderConfig) : Proc Nat := runWith fileStore config

end TelemetryServer.Reader
