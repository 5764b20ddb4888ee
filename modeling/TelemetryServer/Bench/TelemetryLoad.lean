import TelemetryServer.Config.ConfigParser
import TelemetryServer.Lib.Prog

/-! `telemetry-load`: the client that sends a number of records in batches. -/

namespace TelemetryServer.Bench

open Protocol Atomic
open Config (parseUnsigned)

structure Options where
  frames : Nat := 100000
  batchFrames : Nat := 128
  port : Nat := 19000
  deriving DecidableEq, Repr

/-- What `parseOptions` comes to; `--help` ends the process. -/
inductive Parsed
  | accepted (o : Options)
  | help
  | refused
  deriving DecidableEq, Repr

def Options.inBounds (o : Options) : Bool :=
  decide (1 ≤ o.frames) && decide (o.frames ≤ 1000000) && decide (1 ≤ o.batchFrames) &&
    decide (o.batchFrames ≤ 4096) && decide (1 ≤ o.port)

def parseNumber (text : String) : Option Nat := parseUnsigned 64 text

def parseFrom (o : Options) : List String → Parsed
  | [] => if o.inBounds then .accepted o else .refused
  | key :: rest =>
      if key = "--help" then .help
      else if key ≠ "--frames" ∧ key ≠ "--batch-frames" ∧ key ≠ "--port" then .refused
      else match rest with
        | [] => .refused
        | text :: rest => match parseNumber text with
          | none => .refused
          | some value =>
              if key = "--frames" then parseFrom { o with frames := value } rest
              else if key = "--batch-frames" then parseFrom { o with batchFrames := value } rest
              else if 65535 < value then .refused
              else parseFrom { o with port := value } rest

def parseOptions (argv : List String) : Parsed := parseFrom {} argv.tail

/-- The sender's end of its connection; `sent` are the bytes the kernel has taken. -/
structure Socket where
  fd : Option Int := none
  port : Option Nat := none
  sent : List UInt8 := []
  fin : Bool := false
  deriving DecidableEq, Repr

inductive SendResult
  | sent (count : Nat)
  | eintr
  | error
  deriving DecidableEq, Repr

inductive Output
  | cout (text : String)
  | cerr (text : String)
  | perror (text : String)
  deriving DecidableEq, Repr

inductive LoadCall
  | socket
  | connect (fd : Int) (port : Nat)
  | send (fd : Int) (bytes : List UInt8)
  | shutdown (fd : Int)
  | close (fd : Int)
  | print (output : Output)
  deriving DecidableEq

@[reducible] def LoadCall.Resp : LoadCall → Type
  | .socket => Option Int
  | .connect _ _ | .shutdown _ => Bool
  | .send _ _ => SendResult
  | .close _ | .print _ => Unit

def LoadCall.exec : (call : LoadCall) → Socket → call.Resp → Option Socket
  | .socket, s, some fd => if 0 ≤ fd ∧ s.fd = none then some { s with fd := some fd } else none
  | .socket, s, none => some s
  | .connect fd port, s, true => if s.fd = some fd then some { s with port := some port } else none
  | .connect _ _, s, false => some s
  | .send fd bytes, s, .sent count =>
      if s.fd = some fd ∧ s.port.isSome ∧ s.fin = false ∧ count ≤ bytes.length then
        some { s with sent := s.sent ++ bytes.take count }
      else none
  | .send _ _, s, .eintr => some s
  | .send _ _, s, .error => some s
  | .shutdown fd, s, true => if s.fd = some fd then some { s with fin := true } else none
  | .shutdown _, s, false => some s
  | .close fd, s, () => if s.fd = some fd then some { s with fd := none } else some s
  | .print _, s, () => some s

abbrev Load := Prog LoadCall LoadCall.Resp Socket

def Load.call (call : LoadCall) : Load call.Resp := Prog.call call Prog.pure

def Load.print (output : Output) : Load Unit := Load.call (.print output)

def EXIT_SUCCESS : Nat := 0
def EXIT_FAILURE : Nat := 1

def sendAll (fd : Int) (data : List UInt8) : Load Bool :=
  Prog.iterate (fun offset =>
    if offset < data.length then do
      match ← (Load.call (.send fd (data.drop offset)) : Load SendResult) with
      | .sent count =>
          if 0 < count then return .inl (offset + count)
          else
            Load.print (.cerr "send returned zero\n")
            return .inr false
      | .eintr => return .inl offset
      | .error =>
          Load.print (.perror "send")
          return .inr false
    else return .inr true) 0

/-- The record number `n`, counted from one. The value is 1.0. -/
def record (n : Nat) : TelemetryRecord :=
  { sensorId := 1, metricId := 2, timestampNs := UInt64.ofNat n, value := 0x3FF0000000000000 }

def batch (sent count : Nat) : List Frame :=
  (List.range count).map (fun i => encode (record (sent + i + 1)))

/-- The loop over the batches, with `sent` at its end; none is a `send` that failed. -/
def sendFrames (o : Options) (fd : Int) : Load (Option Nat) :=
  Prog.iterate (fun sent =>
    if sent < o.frames then do
      let count := min o.batchFrames (o.frames - sent)
      if ← sendAll fd (bytesOf (batch sent count)) then return .inl (sent + count)
      else return .inr none
    else return .inr (some sent)) 0

def giveUp (fd : Int) : Load Nat := do
  Load.call (.close fd)
  return EXIT_FAILURE

def transmit (o : Options) (fd : Int) : Load Nat := do
  match ← sendFrames o fd with
  | some sent =>
      if ← (Load.call (.shutdown fd) : Load Bool) then
        Load.call (.close fd)
        Load.print (.cout ("sender_frames=" ++ toString sent ++ "\nsender_bytes=" ++
          toString (sent * kFrameSize) ++ "\n"))
        return EXIT_SUCCESS
      else
        Load.print (.perror "shutdown")
        giveUp fd
  | none => giveUp fd

def load (o : Options) : Load Nat := do
  match ← (Load.call .socket : Load (Option Int)) with
  | none =>
      Load.print (.perror "socket")
      return EXIT_FAILURE
  | some fd =>
      if ← (Load.call (.connect fd o.port) : Load Bool) then transmit o fd
      else
        Load.print (.perror "connect")
        giveUp fd

def main (argv : List String) : Load Nat :=
  match parseOptions argv with
  | .help => do
      Load.print (.cout "usage: telemetry-load [--frames N] [--batch-frames N] [--port N]\n")
      return EXIT_SUCCESS
  | .refused => do
      Load.print (.cerr ("usage: telemetry-load [--frames 1..1000000] [--batch-frames 1..4096] " ++
        "[--port 1..65535]\n"))
      return EXIT_FAILURE
  | .accepted o => load o

end TelemetryServer.Bench
