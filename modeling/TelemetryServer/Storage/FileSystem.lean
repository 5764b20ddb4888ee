import Mathlib.Logic.Function.Basic
import TelemetryServer.Protocol.TelemetryCodec

/-! The data directory and the system calls `FileStore` makes on it. A descriptor is
identified with the directory entry of the file it is open on. -/

namespace TelemetryServer.Storage

/-- Both sizes are 64-bit unsigned. -/
structure FileStoreConfig where
  maxSegmentBytes : Nat := 64 * 1024 * 1024
  syncEveryBytes : Nat := 1 * 1024 * 1024
  max_lt : maxSegmentBytes < 2 ^ 64 := by decide
  sync_lt : syncEveryBytes < 2 ^ 64 := by decide
  deriving DecidableEq, Repr

structure FileStore where
  config : FileStoreConfig := {}
  fd : Int := -1
  directoryFd : Int := -1
  directoryPath : String := ""
  fileName : String := ""
  currentSize : Nat := 0
  unsyncedBytes : Nat := 0
  rotationSequence : Nat := 0

/-- `unsynced` is history: the bytes written since the last successful `fdatasync`. -/
structure File where
  data : List UInt8 := []
  regular : Bool := true
  unsynced : Nat := 0

inductive OpenFile
  | directory
  | file (name : String)
  deriving DecidableEq, Repr

/-- `archives` is history: the targets of the renames so far, in order; `replaced` says
that one of them already existed. -/
structure FileSystem where
  entries : String → Option File := fun _ => none
  fds : Int → Option OpenFile := fun _ => none
  archives : List String := []
  replaced : Bool := false

inductive FsCall
  | openDirectory (path : String)
  | openCreate (directoryFd : Int) (name : String)
  | openExisting (directoryFd : Int) (name : String)
  | fstat (fd : Int)
  | ftruncate (fd : Int) (length : Nat)
  | write (fd : Int) (bytes : List UInt8)
  | fdatasync (fd : Int)
  | fsync (directoryFd : Int)
  | close (fd : Int)
  | renameat (directoryFd : Int) (source target : String)
  | clockGettime
  deriving DecidableEq

inductive OpenResult
  | ok (fd : Int)
  | eexist
  | error
  deriving DecidableEq, Repr

inductive StatResult
  | ok (size : Nat) (regular : Bool)
  | error
  deriving DecidableEq, Repr

inductive WriteResult
  | written (count : Nat)
  | eintr
  | error
  deriving DecidableEq, Repr

inductive SyncResult
  | ok
  | eintr
  | error
  deriving DecidableEq, Repr

inductive ClockResult
  | ok (sec : Int) (nsec : Nat)
  | error
  deriving DecidableEq, Repr

@[reducible] def FsCall.Resp : FsCall → Type
  | .openDirectory _ | .openCreate _ _ | .openExisting _ _ => OpenResult
  | .fstat _ => StatResult
  | .ftruncate _ _ | .close _ | .renameat _ _ _ => Bool
  | .write _ _ => WriteResult
  | .fdatasync _ | .fsync _ => SyncResult
  | .clockGettime => ClockResult

namespace FileSystem

def opened (fs : FileSystem) (fd : Int) : Option (String × File) :=
  match fs.fds fd with
  | some (.file name) => (fs.entries name).map (fun file => (name, file))
  | _ => none

def setFile (fs : FileSystem) (name : String) (file : File) : FileSystem :=
  { fs with entries := Function.update fs.entries name (some file) }

def openAs (fs : FileSystem) (fd : Int) (target : OpenFile) : FileSystem :=
  { fs with fds := Function.update fs.fds fd (some target) }

/-- `renameat`: an existing target is replaced, an open descriptor follows its file. -/
def rename (fs : FileSystem) (source target : String) (file : File) : FileSystem :=
  { entries := Function.update (Function.update fs.entries source none) target (some file)
    fds := fun fd => if fs.fds fd = some (.file target) then none
      else if fs.fds fd = some (.file source) then some (.file target) else fs.fds fd
    archives := fs.archives ++ [target]
    replaced := fs.replaced || (fs.entries target).isSome }

/-- The largest file a signed 64-bit offset can describe. -/
def maxFileBytes : Nat := 2 ^ 63 - 1

end FileSystem

open FileSystem in
def FsCall.exec : (c : FsCall) → FileSystem → c.Resp → Option FileSystem
  | .openDirectory _, fs, .ok fd =>
      if 0 ≤ fd ∧ fs.fds fd = none then some (fs.openAs fd .directory) else none
  | .openDirectory _, fs, .error => some fs
  | .openDirectory _, _, .eexist => none
  | .openCreate _ name, fs, .ok fd =>
      if 0 ≤ fd ∧ fs.fds fd = none ∧ fs.entries name = none then
        some ((fs.setFile name {}).openAs fd (.file name))
      else none
  | .openCreate _ name, fs, .eexist => if (fs.entries name).isSome then some fs else none
  | .openCreate _ _, fs, .error => some fs
  | .openExisting _ name, fs, .ok fd =>
      if 0 ≤ fd ∧ fs.fds fd = none ∧ (fs.entries name).isSome then
        some (fs.openAs fd (.file name))
      else none
  | .openExisting _ _, _, .eexist => none
  | .openExisting _ _, fs, .error => some fs
  | .fstat fd, fs, .ok size regular => match fs.opened fd with
      | some (_, file) =>
          if file.data.length = size ∧ size ≤ maxFileBytes ∧ file.regular = regular then some fs else none
      | none => none
  | .fstat _, fs, .error => some fs
  | .ftruncate fd length, fs, true => match fs.opened fd with
      | some (name, file) => some (fs.setFile name { file with data := file.data.take length })
      | none => none
  | .ftruncate _ _, fs, false => some fs
  | .write fd bytes, fs, .written count => match fs.opened fd with
      | some (name, file) =>
          if count ≤ bytes.length ∧ file.data.length + count ≤ maxFileBytes then
            some (fs.setFile name { file with
              data := file.data ++ bytes.take count
              unsynced := file.unsynced + count })
          else none
      | none => none
  | .write _ _, fs, .eintr => some fs
  | .write _ _, fs, .error => some fs
  | .fdatasync fd, fs, .ok => match fs.opened fd with
      | some (name, file) => some (fs.setFile name { file with unsynced := 0 })
      | none => none
  | .fdatasync _, fs, .eintr => some fs
  | .fdatasync _, fs, .error => some fs
  | .fsync _, fs, _ => some fs
  | .close fd, fs, _ => some { fs with fds := Function.update fs.fds fd none }
  | .renameat _ source target, fs, true => match fs.entries source with
      | some file => some (fs.rename source target file)
      | none => none
  | .renameat _ _ _, fs, false => some fs
  | .clockGettime, fs, .ok _ nsec => if nsec < 1000000000 then some fs else none
  | .clockGettime, fs, .error => some fs

end TelemetryServer.Storage
