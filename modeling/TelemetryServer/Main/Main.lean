import TelemetryServer.Config.ConfigParser
import TelemetryServer.Reader.Reader
import TelemetryServer.Server.Server

/-! `main` behind its `fork`: the parent that serves, the child that reads. -/

namespace TelemetryServer.Main

open Config Ipc Atomic
open Reader (ReaderConfig)
open Server (ServerConfig Setup EXIT_SUCCESS EXIT_FAILURE closeFd)

theorem maxSegmentBytes_lt (config : AppConfig) : config.maxSegmentBytes.toNat < 2 ^ 64 :=
  config.maxSegmentBytes.toNat_lt

theorem syncEveryBytes_lt (config : AppConfig) : config.syncEveryBytes.toNat < 2 ^ 64 :=
  config.syncEveryBytes.toNat_lt

def readerConfig (config : AppConfig) : ReaderConfig where
  dataFilePath := config.dataFilePath
  maxSegmentBytes := config.maxSegmentBytes.toNat
  syncEveryBytes := config.syncEveryBytes.toNat
  quiet := config.quiet
  max_lt := maxSegmentBytes_lt config
  sync_lt := syncEveryBytes_lt config

def serverConfig (config : AppConfig) : ServerConfig where
  port := config.port.toNat
  quiet := config.quiet

/-- The descriptors of the parent and the process it has forked. -/
structure Handles where
  dataReadyFd : Int
  spaceReadyFd : Int
  signalFd : Int
  readerPid : Nat

def setup (config : AppConfig) (handles : Handles) : Setup where
  config := serverConfig config
  spaceReadyFd := handles.spaceReadyFd
  signalFd := handles.signalFd
  readerPid := handles.readerPid

/-- The child. What it closes before it exits are descriptors of its own. -/
def child (config : AppConfig) : Proc Unit := do
  let result ← Reader.run (readerConfig config)
  Proc.call (.exit result)

/-- For a reader that could not be woken; false is an error other than `ESRCH`. -/
def killReader : Proc Unit := do
  if ← (Proc.call .kill : Proc Bool) then return ()
  else Proc.log (.perror "kill reader")

def waitReader : Proc WaitResult :=
  Prog.iterate (fun _ => do
    match ← (Proc.call .waitpid : Proc WaitResult) with
    | .eintr => return .inl ()
    | .error =>
        Proc.log (.perror "waitpid")
        return .inr .error
    | status => return .inr status) ()

/-- Tells the reader that no more frames will come, and returns what is left of the server's
result. -/
def endReader (serverResult : Nat) : Proc Nat := do
  closeProducer
  if ← notifyEvent .dataReady then
    return serverResult
  else
    Proc.log (.cerr "[main] failed to notify reader during shutdown\n")
    killReader
    return EXIT_FAILURE

def wakeReader : Proc Unit := do
  if ← notifyEvent .dataReady then return ()
  else killReader

/-- Without a `signalfd` there is no server, and so no frame. -/
def abandon (handles : Handles) : Proc Nat := do
  Proc.log (.perror "signalfd")
  closeProducer
  wakeReader
  closeFd handles.dataReadyFd
  closeFd handles.spaceReadyFd
  let _ ← waitReader
  return EXIT_FAILURE

/-- The value of `main`, from that of the server and the status of the reader. -/
def conclude (serverResult : Nat) : WaitResult → Proc Nat
  | .signaled signal => do
      Proc.log (.cerr ("[main] reader terminated by signal=" ++ toString signal ++ "\n"))
      return EXIT_FAILURE
  | .exited readerExitCode =>
      if readerExitCode ≠ EXIT_SUCCESS then do
        Proc.log (.cerr ("[main] reader exited code=" ++ toString readerExitCode ++ "\n"))
        return EXIT_FAILURE
      else
        return serverResult
  | _ => return EXIT_FAILURE

def serve (config : AppConfig) (handles : Handles) : Proc Nat := do
  let serverResult ← Server.run (setup config handles)
  let serverResult ← endReader serverResult
  closeFd handles.signalFd
  closeFd handles.dataReadyFd
  closeFd handles.spaceReadyFd
  let status ← waitReader
  conclude serverResult status

def parent (config : AppConfig) (handles : Handles) : Proc Nat := do
  if ← (Proc.call .signalfd : Proc Bool) then serve config handles
  else abandon handles

end TelemetryServer.Main
