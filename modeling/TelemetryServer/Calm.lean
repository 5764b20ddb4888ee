import TelemetryServer.Lib.Replay
import TelemetryServer.World

/-! Answers of a world in which nothing fails, for runs that are carried out. -/

namespace TelemetryServer

open Server Storage Ipc Atomic

namespace Calm

/-- Descriptor numbers are taken from the number of steps left, so each is new. -/
def descriptor (n : Nat) : Int := 100 + n

def ring (w : World) : (call : RingCall) → call.Resp
  | .loadHead => w.ring.head
  | .loadTail => w.ring.tail
  | .loadProducerClosed => w.ring.producerClosed
  | .loadSlot index => w.ring.slots index
  | .storeSlot _ _ | .storeHead _ | .storeTail _ | .storeProducerClosed _ => ()

def files (n : Nat) (w : World) : (call : FsCall) → call.Resp
  | .openDirectory _ => .ok (descriptor n)
  | .openCreate _ name => if (w.fs.entries name).isSome then .eexist else .ok (descriptor n)
  | .openExisting _ _ => .ok (descriptor n)
  | .fstat fd => match w.fs.opened fd with
      | some (_, file) => .ok file.data.length file.regular
      | none => .error
  | .ftruncate _ _ | .close _ | .renameat _ _ _ => true
  | .write _ bytes => .written bytes.length
  | .fdatasync _ | .fsync _ => .ok
  | .clockGettime => .ok 0 n

def net (n : Nat) : (call : NetCall) → call.Resp
  | .socket | .epollCreate => .ok (descriptor n)
  | .accept4 _ => .error .EAGAIN
  | .setsockopt _ | .bind _ _ | .listen _ | .epollCtl _ _ _ => true
  | .recv _ => .error .EAGAIN
  | .close _ => ()

def waits (w : World) : WaitResult :=
  match w.child with
  | .running => .eintr
  | .exited code => .exited code
  | .signaled signal => .signaled signal

def answer (n : Nat) : (call : Call) → World → call.Resp
  | .ring call, w => ring w call
  | .eventRead _, _ | .eventWrite _, _ => .ok
  | .fs call, w => files n w call
  | .net call, _ => net n call
  | .epollWait, _ => .eintr
  | .signalfd, _ | .kill, _ => true
  | .signalRead, _ => .error .EAGAIN
  | .waitpid, w => waits w
  | .exit _, _ | .log _, _ | .point _, _ => ()
  | .iteration keys, _ => keys

end Calm
end TelemetryServer
