import Mathlib.Logic.Function.Basic
import TelemetryServer.Protocol.TelemetryCodec

namespace TelemetryServer.Server

def kMaxEvents : Nat := 64
def kReadBufferSize : Nat := 4096
def kMaxClientBuffer : Nat := 64 * 1024
def kPauseIngressBytes : Nat := 3 * 1024 * 1024
def kResumeIngressBytes : Nat := 1 * 1024 * 1024

/-- The epoll bits the server tests or asks for. -/
structure Mask where
  readable : Bool := false
  rdhup : Bool := false
  hup : Bool := false
  err : Bool := false
  deriving DecidableEq, Repr

structure Event where
  fd : Int
  events : Mask
  deriving DecidableEq, Repr

structure Buffer where
  data : List UInt8 := []
  offset : Nat := 0
  deriving DecidableEq, Repr

namespace Buffer

def empty (b : Buffer) : Bool := decide (b.data.length ≤ b.offset)

def pendingBytes (b : Buffer) : Nat := if b.empty then 0 else b.data.length - b.offset

def compact (b : Buffer) (threshold : Nat := 4096) : Buffer :=
  if b.offset = 0 then b
  else if b.empty then { data := [], offset := 0 }
  else if threshold ≤ b.offset then { data := b.data.drop b.offset, offset := 0 }
  else b

def unread (b : Buffer) : List UInt8 := b.data.drop b.offset

def insert (b : Buffer) (chunk : List UInt8) : Buffer := { b with data := b.data ++ chunk }

end Buffer

inductive State
  | running
  | draining
  deriving DecidableEq, Repr

/-- The members of `Server` and the variables of `Server::run` that its handlers change.
The order of `clients` is of no meaning. -/
structure Memory where
  clients : List (Int × Buffer) := []
  listenFd : Int := -1
  epollFd : Int := -1
  state : State := .running
  ingressPaused : Bool := false

/-- One accepted connection. `inbound` are the bytes that have arrived and are not received
yet, `fin` that the peer's end of stream has arrived, `broken` that an error is pending on
the socket. The rest is history. -/
structure Conn where
  inbound : List UInt8 := []
  fin : Bool := false
  broken : Bool := false
  received : List UInt8 := []
  eofRead : Bool := false
  registered : Bool := false
  closed : Bool := false

inductive Handle
  | listener
  | epoll
  | signal
  | dataReady
  | spaceReady
  | client (c : Nat)
  deriving DecidableEq, Repr

structure Net where
  conns : Nat → Conn := fun _ => {}
  accepted : Nat := 0
  fds : Int → Option Handle := fun _ => none
  interest : Int → Option Mask := fun _ => none
  /-- History: the connection of the last successful `recv`. -/
  lastRecv : Nat := 0

inductive Errno
  | EAGAIN
  | EINTR
  | ECONNABORTED
  | EMFILE
  | other (code : Nat)
  deriving DecidableEq, Repr

inductive EpollOp
  | add
  | modify
  | delete
  deriving DecidableEq, Repr

inductive NetCall
  | socket
  | setsockopt (fd : Int)
  | bind (fd : Int) (port : Nat)
  | listen (fd : Int)
  | epollCreate
  | epollCtl (op : EpollOp) (fd : Int) (mask : Mask)
  | accept4 (fd : Int)
  | recv (fd : Int)
  | close (fd : Int)
  deriving DecidableEq

inductive FdResult
  | ok (fd : Int)
  | error (e : Errno)
  deriving DecidableEq, Repr

inductive RecvResult
  | data (bytes : List UInt8)
  | eof
  | error (e : Errno)
  deriving DecidableEq, Repr

@[reducible] def NetCall.Resp : NetCall → Type
  | .socket | .epollCreate | .accept4 _ => FdResult
  | .setsockopt _ | .bind _ _ | .listen _ | .epollCtl _ _ _ => Bool
  | .recv _ => RecvResult
  | .close _ => Unit

namespace Net

def updateConn (net : Net) (c : Nat) (f : Conn → Conn) : Net :=
  { net with conns := Function.update net.conns c (f (net.conns c)) }

/-- A descriptor number the kernel may hand out. -/
def Fresh (net : Net) (fd : Int) : Prop := 0 ≤ fd ∧ net.fds fd = none

instance (net : Net) (fd : Int) : Decidable (net.Fresh fd) :=
  inferInstanceAs (Decidable (_ ∧ _))

def openAs (net : Net) (fd : Int) (handle : Handle) : Net :=
  { net with fds := Function.update net.fds fd (some handle) }

/-- `accept4`: the connection gets the next number and a fresh descriptor. -/
def accept (net : Net) (fd : Int) : Net :=
  { net.openAs fd (.client net.accepted) with
    conns := Function.update net.conns net.accepted {}
    accepted := net.accepted + 1 }

/-- Closing the only descriptor of a socket also takes it off the epoll interest list. -/
def closeFd (net : Net) (fd : Int) : Net :=
  let net := match net.fds fd with
    | some (.client c) => net.updateConn c (fun conn => { conn with closed := true })
    | _ => net
  { net with
    fds := Function.update net.fds fd none
    interest := Function.update net.interest fd none }

def setInterest (net : Net) (fd : Int) (mask : Option Mask) : Net :=
  { net with interest := Function.update net.interest fd mask }

def register (net : Net) (fd : Int) (mask : Mask) : Net :=
  let net := match net.fds fd with
    | some (.client c) => net.updateConn c (fun conn => { conn with registered := true })
    | _ => net
  net.setInterest fd (some mask)

def receive (net : Net) (c : Nat) (bytes : List UInt8) : Net :=
  { net.updateConn c (fun conn => { conn with
      inbound := conn.inbound.drop bytes.length
      received := conn.received ++ bytes }) with
    lastRecv := c }

end Net

def NetCall.exec : (call : NetCall) → Net → call.Resp → Option Net
  | .socket, net, .ok fd => if net.Fresh fd then some (net.openAs fd .listener) else none
  | .socket, net, .error _ => some net
  | .setsockopt _, net, _ => some net
  | .bind _ _, net, _ => some net
  | .listen _, net, _ => some net
  | .epollCreate, net, .ok fd => if net.Fresh fd then some (net.openAs fd .epoll) else none
  | .epollCreate, net, .error _ => some net
  | .epollCtl .add fd mask, net, true =>
      if (net.fds fd).isSome ∧ net.interest fd = none then some (net.register fd mask) else none
  | .epollCtl .modify fd mask, net, true =>
      if (net.interest fd).isSome then some (net.setInterest fd (some mask)) else none
  | .epollCtl .delete fd _, net, true =>
      if (net.interest fd).isSome then some (net.setInterest fd none) else none
  | .epollCtl _ _ _, net, false => some net
  | .accept4 listenFd, net, .ok fd =>
      if net.fds listenFd = some .listener ∧ net.Fresh fd then some (net.accept fd) else none
  | .accept4 _, net, .error _ => some net
  | .recv fd, net, .data bytes => match net.fds fd with
      | some (.client c) =>
          if bytes ≠ [] ∧ bytes.length ≤ kReadBufferSize ∧ bytes <+: (net.conns c).inbound then
            some (net.receive c bytes)
          else none
      | _ => none
  | .recv fd, net, .eof => match net.fds fd with
      | some (.client c) =>
          if (net.conns c).inbound = [] ∧ (net.conns c).fin = true then
            some (net.updateConn c (fun conn => { conn with eofRead := true }))
          else none
      | _ => none
  | .recv _, net, .error .EINTR => some net
  | .recv fd, net, .error .EAGAIN => match net.fds fd with
      | some (.client c) =>
          if (net.conns c).inbound = [] ∧ (net.conns c).fin = false then some net else none
      | _ => none
  | .recv fd, net, .error _ => match net.fds fd with
      | some (.client c) => if (net.conns c).broken = true then some net else none
      | _ => none
  | .close fd, net, () => some (net.closeFd fd)

/-- An epoll report as the kernel makes it: the descriptor is on the interest list, a bit
that must be asked for was asked for, a client with unread bytes or an unread end of stream
is readable, and a hangup or error bit stands for an end of stream or a pending error. -/
def Net.reports (net : Net) (spaceReady : Nat) (event : Event) : Bool :=
  match net.interest event.fd with
  | none => false
  | some asked =>
      decide (event.events.readable = true → asked.readable = true) &&
      decide (event.events.rdhup = true → asked.rdhup = true) &&
      match net.fds event.fd with
      | some (.client c) =>
          decide ((net.conns c).inbound ≠ [] ∨ (net.conns c).fin = true →
            event.events.readable = true) &&
          decide (event.events.rdhup = true ∨ event.events.hup = true ∨ event.events.err = true →
            (net.conns c).fin = true ∨ (net.conns c).broken = true)
      | some .spaceReady => decide (event.events.readable = true → 0 < spaceReady)
      | _ => true

end TelemetryServer.Server
