import TelemetryServer.Main.Processes

namespace TelemetryServer.Main

open Config Ipc Atomic
open World (SIGINT SIGTERM SIGCHLD)
open Server (EXIT_SUCCESS EXIT_FAILURE)

/-- What the process has set up so far. `eventFds` are the counters of its open eventfds, `ring`
is what `m_layout` points to, and `reader` is what `fork` has answered. -/
structure Booting where
  signalMask : List Nat := []
  blocked : List Nat := []
  lineBuffered : Bool := false
  ring : Option Layout := none
  eventFds : Int → Option Nat := fun _ => none
  reader : Option Nat := none
  output : List Line := []

inductive BootCall
  | sigemptyset
  | sigaddset (signal : Nat)
  | sigprocmask
  | setvbuf
  | mmap
  | munmap
  | eventfd
  | close (fd : Int)
  | fork
  | print (line : Line)
  deriving DecidableEq

@[reducible] def BootCall.Resp : BootCall → Type
  | .sigemptyset | .sigaddset _ | .sigprocmask | .setvbuf | .mmap | .munmap => Bool
  | .eventfd => Option Int
  | .fork => Option Nat
  | .close _ | .print _ => Unit

/-- A mapping is handed out with a `Layout` constructed in it; false and `none` are failures. -/
def BootCall.exec : (call : BootCall) → Booting → call.Resp → Option Booting
  | .sigemptyset, s, true => some { s with signalMask := [] }
  | .sigaddset signal, s, true => some { s with signalMask := s.signalMask ++ [signal] }
  | .sigprocmask, s, true => some { s with blocked := s.blocked ++ s.signalMask }
  | .setvbuf, s, true => some { s with lineBuffered := true }
  | .mmap, s, true => some { s with ring := some {} }
  | .munmap, s, true => some { s with ring := none }
  | .sigemptyset, s, false | .sigaddset _, s, false | .sigprocmask, s, false | .setvbuf, s, false
  | .mmap, s, false | .munmap, s, false => some s
  | .eventfd, s, some fd => if 0 ≤ fd ∧ s.eventFds fd = none then
      some { s with eventFds := Function.update s.eventFds fd (some 0) } else none
  | .eventfd, s, none => some s
  | .close fd, s, () => some { s with eventFds := Function.update s.eventFds fd none }
  | .fork, s, some pid => some { s with reader := some pid }
  | .fork, s, none => some s
  | .print line, s, () => some { s with output := s.output ++ [line] }

abbrev Boot := Prog BootCall BootCall.Resp Booting

def Boot.call (call : BootCall) : Boot call.Resp := Prog.call call Prog.pure

def Boot.print (line : Line) : Boot Unit := Boot.call (.print line)

def printUsage (programName : String) : String :=
  "usage: " ++ programName ++ " [options]\n\n" ++
    "options:\n" ++
    "  --port PORT\n" ++
    "  --data-file PATH\n" ++
    "  --segment-bytes BYTES\n" ++
    "  --sync-bytes BYTES\n" ++
    "  --quiet (suppress per-record logs)\n" ++
    "  -h, --help\n"

def addSignals : List Nat → Boot Bool
  | [] => return true
  | signal :: rest => do
      if ← (Boot.call (.sigaddset signal) : Boot Bool) then addSignals rest else return false

def blockManagedSignals : Boot Bool := do
  if ← (Boot.call .sigemptyset : Boot Bool) then
    if ← addSignals [SIGINT, SIGTERM, SIGCHLD] then Boot.call .sigprocmask else return false
  else
    return false

/-- `SharedRingBuffer::create` -/
def createRing : Boot Bool := do
  if ← (Prog.act (fun s => (s.ring.isSome, s)) Prog.pure : Boot Bool) then return false
  else if ← (Boot.call .mmap : Boot Bool) then return true
  else
    Boot.print (.perror "mmap shared ring")
    return false

def destroyRing : Boot Unit := do
  if ← (Prog.act (fun s => (s.ring.isSome, s)) Prog.pure : Boot Bool) then
    if ← (Boot.call .munmap : Boot Bool) then return ()
    else Boot.print (.perror "munmap shared ring")
  else
    return ()

/-- What `main` has come to: it has returned, or is two processes. -/
inductive Started
  | returned (code : Nat)
  | forked (config : AppConfig) (dataReadyFd spaceReadyFd : Int) (readerPid : Nat)
  deriving DecidableEq

/-- Failing while `ring` is in scope, with the eventfds that are open. -/
def giveUp (message : String) (fds : List Int) : Boot Started := do
  Boot.print (.perror message)
  fds.forM (fun fd => Boot.call (.close fd))
  destroyRing
  return .returned EXIT_FAILURE

def forkReader (config : AppConfig) : Boot Started := do
  match ← (Boot.call .eventfd : Boot (Option Int)) with
  | none => giveUp "eventfd dataReady" []
  | some dataReadyFd =>
      match ← (Boot.call .eventfd : Boot (Option Int)) with
      | none => giveUp "eventfd spaceReady" [dataReadyFd]
      | some spaceReadyFd =>
          match ← (Boot.call .fork : Boot (Option Nat)) with
          | none => giveUp "fork" [dataReadyFd, spaceReadyFd]
          | some readerPid => return .forked config dataReadyFd spaceReadyFd readerPid

def prepare (config : AppConfig) : Boot Started := do
  if ← blockManagedSignals then
    if ← (Boot.call .setvbuf : Boot Bool) then
      if ← createRing then forkReader config
      else
        destroyRing
        return .returned EXIT_FAILURE
    else
      Boot.print (.cerr "[main] failed to configure stdout line buffering\n")
      return .returned EXIT_FAILURE
  else
    Boot.print (.perror "sigprocmask")
    return .returned EXIT_FAILURE

def startup (argv : List String) : Boot Started := do
  let parsed := parseArguments argv {}
  Boot.print (.cerr parsed.errorOutput)
  match parsed.status with
  | .helpRequested =>
      Boot.print (.cout (printUsage (argv.headD "")))
      return .returned EXIT_SUCCESS
  | .error =>
      Boot.print (.cerr (printUsage (argv.headD "")))
      return .returned EXIT_FAILURE
  | .success => prepare parsed.config

end TelemetryServer.Main
