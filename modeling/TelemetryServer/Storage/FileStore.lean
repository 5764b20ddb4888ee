import TelemetryServer.World

/-! `FileStore`, as programs over the data directory. The members of the object are the
`store` of the world. -/

namespace TelemetryServer.Storage

open Protocol Atomic
open Ipc (u64 subU64)

def members : Proc FileStore := Proc.act (fun w => (w.store, w))

def update (f : FileStore → FileStore) : Proc Unit :=
  Proc.act (fun w => ((), { w with store := f w.store }))

def refuse (line : Line) : Proc Bool := do
  Proc.log line
  return false

/-- Repeats a sync call while it is interrupted. -/
def retrySync (call : FsCall) (answer : call.Resp → SyncResult) (message : String) : Proc Bool :=
  Prog.iterate (fun _ => do
    match answer (← (Proc.call (.fs call) : Proc call.Resp)) with
    | .ok => return .inr true
    | .eintr => return .inl ()
    | .error =>
        Proc.log (.perror message)
        return .inr false) ()

def sync : Proc Bool := do
  let m ← members
  if m.fd = -1 then return false
  if ← retrySync (.fdatasync m.fd) id "fdatasync telemetry file" then
    update (fun m => { m with unsyncedBytes := 0 })
    return true
  else
    return false

def syncDirectory : Proc Bool := do
  let m ← members
  if m.directoryFd = -1 then return false
  retrySync (.fsync m.directoryFd) id "fsync storage directory"

def validateConfig : Proc Bool := do
  let m ← members
  if m.config.maxSegmentBytes < kFrameSize then
    return ← refuse (.cerr "[storage] segment size smaller than frame\n")
  if m.config.maxSegmentBytes % kFrameSize ≠ 0 then
    return ← refuse (.cerr "[storage] segment size must be a multiple of frame size\n")
  if m.config.syncEveryBytes ≠ 0 ∧ m.config.maxSegmentBytes < m.config.syncEveryBytes then
    return ← refuse (.cerr "[storage] sync interval exceeds segment size\n")
  return true

/-- The part of a path behind its last separator. -/
@[irreducible] def pathFilename (path : String) : String :=
  String.ofList (path.toList.reverse.takeWhile (· ≠ '/')).reverse

/-- The part of a path before its last component, without separators at its end; the root
is one separator. -/
@[irreducible] def parentPath (path : String) : String :=
  let front := path.toList.reverse.dropWhile (· ≠ '/')
  let trimmed := front.dropWhile (· = '/')
  if trimmed.isEmpty then (if front.isEmpty then "" else "/") else String.ofList trimmed.reverse

def openDirectory (path : String) : Proc Bool := do
  let fileName := pathFilename path
  if fileName.isEmpty then
    return ← refuse (.cerr "[storage] invalid data file path\n")
  let parent := if (parentPath path).isEmpty then "." else parentPath path
  update (fun m => { m with directoryPath := parent, fileName := fileName })
  match ← (Proc.call (.fs (.openDirectory parent)) : Proc OpenResult) with
  | .ok fd =>
      update (fun m => { m with directoryFd := fd })
      return true
  | _ =>
      update (fun m => { m with directoryFd := -1 })
      refuse (.perror "open storage directory")

def truncatePartialTail (fd : Int) (size : Nat) : Proc Bool := do
  let remainder := size % kFrameSize
  if remainder ≠ 0 then
    Proc.log (.cerr ("[storage] truncating partial tail: " ++ toString remainder ++ " bytes\n"))
    if ← (Proc.call (.fs (.ftruncate fd (size - remainder))) : Proc Bool) then
      sync
    else
      refuse (.perror "ftruncate telemetry file")
  else
    return true

def recoverPartialFrame : Proc Bool := do
  let m ← members
  match ← (Proc.call (.fs (.fstat m.fd)) : Proc StatResult) with
  | .error => refuse (.perror "fstat telemetry file")
  | .ok size regular =>
      if !regular then
        return ← refuse (.cerr "[storage] data path is not a regular file\n")
      if !(← truncatePartialTail m.fd size) then return false
      update (fun m => { m with currentSize := size - size % kFrameSize })
      return true

/-- The two ways of opening the active file; the flag says that it was created. -/
def openAppend : Proc (Option Bool) := do
  let m ← members
  match ← (Proc.call (.fs (.openCreate m.directoryFd m.fileName)) : Proc OpenResult) with
  | .ok fd =>
      update (fun m => { m with fd := fd })
      return some true
  | .eexist =>
      match ← (Proc.call (.fs (.openExisting m.directoryFd m.fileName)) : Proc OpenResult) with
      | .ok fd =>
          update (fun m => { m with fd := fd })
          return some false
      | _ =>
          update (fun m => { m with fd := -1 })
          Proc.log (.perror "open existing telemetry file")
          return none
  | .error =>
      update (fun m => { m with fd := -1 })
      Proc.log (.perror "create telemetry file")
      return none

def openActiveFile : Proc Bool := do
  match ← openAppend with
  | none => return false
  | some created =>
      if created then
        if ← syncDirectory then recoverPartialFrame else return false
      else
        recoverPartialFrame

def openFile (path : String) : Proc Bool := do
  let m ← members
  if m.fd ≠ -1 ∨ m.directoryFd ≠ -1 then
    return ← refuse (.cerr "[storage] file already open\n")
  if !(← validateConfig) then return false
  if !(← openDirectory path) then return false
  if !(← openActiveFile) then return false
  let m ← members
  Proc.log (.cout ("[storage] opened " ++ m.directoryPath ++ "/" ++ m.fileName ++ "\n"))
  return true

def closeActiveFile : Proc Bool := do
  let m ← members
  if m.fd = -1 then return true
  update (fun m => { m with fd := -1 })
  if ← (Proc.call (.fs (.close m.fd)) : Proc Bool) then
    return true
  else
    refuse (.perror "close telemetry file")

def archiveName (fileName : String) (sec : Int) (nsec sequence : Nat) : String :=
  fileName ++ "." ++ toString sec ++ "." ++ toString nsec ++ "." ++ toString sequence ++ ".segment"

def makeArchiveName : Proc String := do
  match ← (Proc.call (.fs .clockGettime) : Proc ClockResult) with
  | .error =>
      Proc.log (.perror "clock_gettime")
      return ""
  | .ok sec nsec =>
      let m ← members
      update (fun m => { m with rotationSequence := u64 (m.rotationSequence + 1) })
      return archiveName m.fileName sec nsec m.rotationSequence

def rotate : Proc Bool := do
  let m ← members
  if m.fd = -1 then return false
  if !(← sync) then return false
  if !(← closeActiveFile) then return false
  let archive ← makeArchiveName
  if archive.isEmpty then return false
  if !(← (Proc.call (.fs (.renameat m.directoryFd m.fileName archive)) : Proc Bool)) then
    return ← refuse (.perror "rename telemetry segment")
  if !(← syncDirectory) then return false
  update (fun m => { m with currentSize := 0, unsyncedBytes := 0 })
  if !(← openActiveFile) then return false
  Proc.log (.cout ("[storage] rotated " ++ m.fileName ++ " -> " ++ archive ++ "\n"))
  return true

def writeTurn (fd : Int) (bytes : List UInt8) (written : Nat) : Proc (Nat ⊕ Bool) := do
  if written < bytes.length then
    match ← (Proc.call (.fs (.write fd (bytes.drop written))) : Proc WriteResult) with
    | .written count =>
        if 0 < count then
          return .inl (written + count)
        else
          Proc.log (.perror "write telemetry file")
          return .inr false
    | .eintr => return .inl written
    | .error =>
        Proc.log (.perror "write telemetry file")
        return .inr false
  else
    return .inr true

def writeAll (fd : Int) (bytes : List UInt8) : Proc Bool :=
  Prog.iterate (writeTurn fd bytes) 0

/-- The bytes written before the next check of the limits: to the end of the batch, of the
segment, or of the frame that reaches the sync interval. -/
def chunkSize (m : FileStore) (remaining : Nat) : Nat :=
  let chunkBytes := min remaining (subU64 m.config.maxSegmentBytes m.currentSize)
  if m.config.syncEveryBytes ≠ 0 then
    let untilSync := subU64 m.config.syncEveryBytes m.unsyncedBytes
    if untilSync < chunkBytes then
      u64 ((1 + subU64 untilSync 1 / kFrameSize) * kFrameSize)
    else chunkBytes
  else chunkBytes

/-- The sync that is due when the interval is reached. -/
def syncIfDue : Proc Bool := do
  let m ← members
  if m.config.syncEveryBytes ≠ 0 ∧ m.config.syncEveryBytes ≤ m.unsyncedBytes then sync
  else return true

def rotateIfFull : Proc Bool := do
  let m ← members
  if m.config.maxSegmentBytes ≤ m.currentSize then rotate else return true

/-- The body of the loop of `appendFrames`, from `offset`; `none` is a failure. -/
def appendChunk (frames : List UInt8) (offset : Nat) : Proc (Option Nat) := do
  if !(← rotateIfFull) then return none
  if !(← syncIfDue) then return none
  let m ← members
  let chunkBytes := chunkSize m (frames.length - offset)
  if !(← writeAll m.fd ((frames.drop offset).take chunkBytes)) then return none
  update (fun m => { m with
    currentSize := u64 (m.currentSize + chunkBytes)
    unsyncedBytes := u64 (m.unsyncedBytes + chunkBytes) })
  if !(← syncIfDue) then return none
  return some (offset + chunkBytes)

def appendTurn (frames : List UInt8) (offset : Nat) : Proc (Nat ⊕ Bool) := do
  if offset < frames.length then
    match ← appendChunk frames offset with
    | some next => return .inl next
    | none => return .inr false
  else
    return .inr true

def appendFrames (frames : List UInt8) : Proc Bool := do
  let m ← members
  if m.fd = -1 then return false
  if frames = [] ∨ frames.length % kFrameSize ≠ 0 then
    return ← refuse (.cerr ("[storage] invalid frame batch size=" ++ toString frames.length ++ "\n"))
  Prog.iterate (appendTurn frames) 0

def appendFrame (frame : List UInt8) : Proc Bool := appendFrames frame

def closeIfOpen (fd : Int) : Proc Unit :=
  if fd ≠ -1 then do
    let _ ← (Proc.call (.fs (.close fd)) : Proc Bool)
    return ()
  else
    return ()

def destroy : Proc Unit := do
  let m ← members
  closeIfOpen m.fd
  closeIfOpen m.directoryFd

end TelemetryServer.Storage
