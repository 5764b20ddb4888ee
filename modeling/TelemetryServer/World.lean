import TelemetryServer.Lib.Among
import TelemetryServer.Ipc.Layout
import TelemetryServer.Storage.FileSystem
import TelemetryServer.Server.Net

/-! The world the two processes share, and every call they make on it. -/

namespace TelemetryServer

open Protocol Ipc

/-- One line of output. Lines a property speaks about have a constructor of their own. -/
inductive Line
  | cout (text : String)
  | cerr (text : String)
  | perror (text : String)
  | received (clientFd : Int) (record : TelemetryRecord)
  | sharedRingFull
  | inputBufferLimit (clientFd : Int)
  | invalidIpcFrame (error : DecodeError)
  | telemetry (record : TelemetryRecord)
  deriving DecidableEq, Repr

def Line.plain : Line → Bool
  | .cout _ | .cerr _ | .perror _ | .received _ _ => true
  | _ => false

/-- Program points that properties refer to. Passing one only extends the history. -/
inductive Point
  | handling (event : Server.Event)
  | handled (event : Server.Event) (ok : Bool)
  | pushed (span : List UInt8) (count : Nat)
  | watching (op : Server.EpollOp) (fd : Int)
  | drained
  | popped (frames : List Frame)
  | staging (batchBytes : Nat)
  | appending (batch : List UInt8)
  | appended (batch : List UInt8)
  deriving DecidableEq, Repr

structure SignalInfo where
  signo : Nat
  pid : Nat := 0
  code : Nat := 0
  status : Int := 0
  deriving DecidableEq, Repr

inductive SignalResult
  | info (record : SignalInfo)
  | eof
  | error (e : Server.Errno)
  deriving DecidableEq, Repr

inductive WaitResult
  | exited (code : Nat)
  | signaled (signal : Nat)
  | eintr
  | error
  deriving DecidableEq, Repr

inductive EpollResult
  | ready (events : List Server.Event)
  | eintr
  | error
  deriving DecidableEq, Repr

inductive Child
  | running
  | exited (code : Nat)
  | signaled (signal : Nat)
  deriving DecidableEq, Repr

inductive Call
  | ring (call : RingCall)
  | eventRead (fd : EventFd)
  | eventWrite (fd : EventFd)
  | fs (call : Storage.FsCall)
  | net (call : Server.NetCall)
  | epollWait
  | signalfd
  | signalRead
  | kill
  | waitpid
  | exit (code : Nat)
  /-- The order in which an unordered map lists its keys. -/
  | iteration (keys : List Int)
  | log (line : Line)
  | point (p : Point)
  deriving DecidableEq

@[reducible] def Call.Resp : Call → Type
  | .ring call => call.Resp
  | .eventRead _ | .eventWrite _ => EventResult
  | .fs call => call.Resp
  | .net call => call.Resp
  | .epollWait => EpollResult
  | .signalfd | .kill => Bool
  | .signalRead => SignalResult
  | .waitpid => WaitResult
  | .exit _ | .log _ | .point _ => Unit
  | .iteration _ => List Int

/-- What has happened so far; no call's answer depends on it.

`dataOwed`: a store to `head` or `producerClosed` has not been followed by a notification of
`dataReady`; `spaceOwed`: the same for `tail` and `spaceReady`. `failed`: an operation on the
server's own descriptors or an eventfd has failed; `acceptFailed`: an `accept4` has failed
with neither EAGAIN nor EINTR; `readerGone`: a record of the reader's termination was read;
`shutdown`: a SIGINT or SIGTERM was read; `polled`: what the descriptors stood for when epoll
last reported; `drained`: a draining server has seen the ring empty. -/
structure History where
  dataOwed : Bool := false
  spaceOwed : Bool := false
  failed : Bool := false
  acceptFailed : Bool := false
  readerGone : Bool := false
  shutdown : Bool := false
  reported : List Frame := []
  delivered : List Frame := []
  offered : List UInt8 := []
  appended : List UInt8 := []
  snapshot : List Int := []
  polled : Int → Option Server.Handle := fun _ => none
  drained : Bool := false
  printed : List TelemetryRecord := []

structure World where
  ring : Layout := {}
  dataReady : Nat := 0
  spaceReady : Nat := 0
  fs : Storage.FileSystem := {}
  store : Storage.FileStore := {}
  net : Server.Net := {}
  server : Server.Memory := {}
  child : Child := .running
  readerPid : Nat := 1
  past : History := {}

namespace World

def SIGINT : Nat := 2
def SIGKILL : Nat := 9
def SIGTERM : Nat := 15
def SIGCHLD : Nat := 17
def CLD_EXITED : Nat := 1
def CLD_KILLED : Nat := 2
def CLD_DUMPED : Nat := 3
def CLD_STOPPED : Nat := 5
def CLD_CONTINUED : Nat := 6

/-- A record saying that the reader has ended. -/
def endsReader (w : World) (info : SignalInfo) : Bool :=
  info.signo == SIGCHLD && info.pid == w.readerPid &&
    (info.code == CLD_EXITED || info.code == CLD_KILLED || info.code == CLD_DUMPED)

def endsServer (info : SignalInfo) : Bool := info.signo == SIGINT || info.signo == SIGTERM

def noteRing (past : History) : RingCall → History
  | .storeHead _ | .storeProducerClosed _ => { past with dataOwed := true }
  | .storeTail _ => { past with spaceOwed := true }
  | _ => past

def counter (w : World) : EventFd → Nat
  | .dataReady => w.dataReady
  | .spaceReady => w.spaceReady

def setCounter (w : World) (value : Nat) : EventFd → World
  | .dataReady => { w with dataReady := value }
  | .spaceReady => { w with spaceReady := value }

def settle (past : History) : EventFd → History
  | .dataReady => { past with dataOwed := false }
  | .spaceReady => { past with spaceOwed := false }

def fail (w : World) : World := { w with past := { w.past with failed := true } }

/-- Whether an answer means that one of the server's own descriptors has failed. A request
that cannot be granted, such as deleting what is not registered, is refused without
anything being wrong; `recv` and `accept4` report on the client. -/
def netFails (net : Server.Net) : (call : Server.NetCall) → call.Resp → Bool
  | .socket, .error _ => true
  | .setsockopt _, ok => !ok
  | .bind _ _, ok => !ok
  | .listen _, ok => !ok
  | .epollCreate, .error _ => true
  | .epollCtl .add fd _, ok => !ok && (net.fds fd).isSome && (net.interest fd).isNone
  | .epollCtl .modify fd _, ok => !ok && (net.interest fd).isSome
  | .epollCtl .delete fd _, ok => !ok && (net.interest fd).isSome
  | _, _ => false

def acceptFails : (call : Server.NetCall) → call.Resp → Bool
  | .accept4 _, .error .EAGAIN => false
  | .accept4 _, .error .EINTR => false
  | .accept4 _, .error _ => true
  | _, _ => false

def reportable (w : World) (events : List Server.Event) : Bool :=
  !events.isEmpty && decide (events.length ≤ Server.kMaxEvents) &&
    decide ((events.map Server.Event.fd).Nodup) && events.all (w.net.reports w.spaceReady)

def ownError (w : World) (events : List Server.Event) : Bool :=
  events.any (fun event => (event.events.err || event.events.hup) &&
    match w.net.fds event.fd with
    | some (.client _) => false
    | _ => true)

def polling (w : World) (events : List Server.Event) : World :=
  { w with past := { w.past with
      failed := w.past.failed || w.ownError events
      polled := w.net.fds } }

def pass (past : History) (clients : List Int) : Point → History
  | .handling _ => { past with snapshot := clients }
  | .handled _ _ => past
  | .watching _ _ => past
  | .staging _ => past
  | .drained => { past with drained := true }
  | .pushed span count => { past with reported := past.reported ++ (frames span).take count }
  | .popped frames => { past with delivered := past.delivered ++ frames }
  | .appending batch => { past with offered := past.offered ++ batch }
  | .appended batch => { past with appended := past.appended ++ batch }

def passing (w : World) (p : Point) : World :=
  { w with past := pass w.past (w.server.clients.map Prod.fst) p }

def exec : (call : Call) → World → call.Resp → Option World
  | .ring call, w, r => (call.exec w.net.lastRecv w.ring r).map (fun ring =>
      { w with ring := ring, past := noteRing w.past call })
  | .eventRead fd, w, r => (eventfdRead (w.counter fd) r).map (fun value =>
      let w := w.setCounter value fd
      if r = .error then w.fail else w)
  | .eventWrite fd, w, r => (eventfdWrite (w.counter fd) r).map (fun value =>
      let w := w.setCounter value fd
      match r with
      | .ok => { w with past := settle w.past fd }
      | .eintr => w
      | .error => w.fail)
  | .fs call, w, r => (call.exec w.fs r).map (fun fs => { w with fs := fs })
  | .net call, w, r => (call.exec w.net r).map (fun net =>
      { w with
        net := net
        past := { w.past with
          failed := w.past.failed || netFails w.net call r
          acceptFailed := w.past.acceptFailed || acceptFails call r } })
  | .epollWait, w, .ready events =>
      if w.reportable events then some (w.polling events) else none
  | .epollWait, w, .eintr => some w
  | .epollWait, w, .error => some w.fail
  | .signalfd, w, ok => some (if ok then w else w.fail)
  | .signalRead, w, .info record => some { w with past := { w.past with
      readerGone := w.past.readerGone || w.endsReader record
      shutdown := w.past.shutdown || endsServer record } }
  | .signalRead, w, .error .EAGAIN => some w
  | .signalRead, w, .error .EINTR => some w
  | .signalRead, w, .error _ => some w.fail
  | .signalRead, w, .eof => some w.fail
  | .kill, w, true => some (match w.child with
      | .running => { w with child := .signaled SIGKILL }
      | _ => w)
  | .kill, w, false => some w.fail
  | .waitpid, w, .exited code => if w.child = .exited code then some w else none
  | .waitpid, w, .signaled signal => if w.child = .signaled signal then some w else none
  | .waitpid, w, .eintr => some w
  | .waitpid, w, .error => some w.fail
  | .exit code, w, () => some { w with child := .exited code }
  | .iteration keys, w, order => if order.Perm keys then some w else none
  | .log (.telemetry record), w, () => some
      { w with past := { w.past with printed := w.past.printed ++ [record] } }
  | .log _, w, () => some w
  | .point p, w, () => some (w.passing p)

end World

abbrev Proc := Atomic.Prog Call Call.Resp World
abbrev Logic := Atomic.Logic World.exec
abbrev Happening := Atomic.Event World Call.Resp

namespace Proc

def call (c : Call) : Proc c.Resp := Atomic.Prog.call c Atomic.Prog.pure

def act {α : Type} (f : World → α × World) : Proc α := Atomic.Prog.act f Atomic.Prog.pure

def log (line : Line) : Proc Unit := call (.log line)

def point (p : Point) : Proc Unit := call (.point p)

end Proc

end TelemetryServer
