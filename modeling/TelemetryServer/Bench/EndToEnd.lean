import TelemetryServer.Bench.LoadSpec
import TelemetryServer.Main.Processes

namespace TelemetryServer.Bench

open Config Protocol Ipc Atomic Storage Interleaving
open Server (Conn)
open Main (Handles Forked Meeting initially quietConfig machineHandles forkedMachine)

/-- Bytes that begin as some frames do hold the first of them. -/
theorem frames_inside {bytes : List UInt8} {fs : List Frame} (inside : bytes <+: bytesOf fs) :
    frames bytes = fs.take (bytes.length / kFrameSize) := by
  have all : frames (bytesOf fs) = fs := by
    have split := frames_bytesOf_append fs []
    have none : frames [] = [] := frames_of_lt (by decide)
    rwa [List.append_nil, none, List.append_nil] at split
  rcases inside with ⟨rest, same⟩
  have front := frames_front bytes rest
  rw [same, all, List.prefix_iff_eq_take, frames_length] at front
  exact front

/-- A sender at some moment of its run, and the bytes that the other end has received of it. -/
structure Sending (argv : List String) (o : Options) (p : Load Nat) (s : Socket) (conn : Conn) :
    Prop where
  accepted : parseOptions argv = .accepted o
  moment : Prog.Reach LoadCall.exec (fun _ _ => False) (main argv) {} p s
  carried : conn.received <+: s.sent

def arrived (conn : Conn) : List Frame := batch 0 (conn.received.length / kFrameSize)

namespace Sending

variable {argv : List String} {o : Options} {p : Load Nat} {s : Socket} {conn : Conn}

theorem received (sending : Sending argv o p s conn) : conn.received <+: bytesOf (batch 0 o.frames) :=
  sending.carried.trans (main_reached sending.accepted sending.moment).1.inside

theorem count_le (sending : Sending argv o p s conn) :
    conn.received.length / kFrameSize ≤ o.frames := by
  have size := sending.received.length_le
  rw [bytesOf_length, batch_length] at size
  exact Nat.div_le_of_le_mul size

theorem acceptable (sending : Sending argv o p s conn) : Server.acceptable conn = arrived conn := by
  have all : frames conn.received = arrived conn := by
    rw [frames_inside sending.received, batch_take 0 sending.count_le, arrived]
  rw [Server.acceptable, all, List.takeWhile_eq_self_iff]
  exact fun frame member => decide_eq_true (batch_valid 0 _ frame member)

/-- Once the sender has reported success and all it has sent is there, its records are all there. -/
theorem arrived_all (sending : Sending argv o p s conn) (success : p = .pure EXIT_SUCCESS)
    (all : conn.received = s.sent) : arrived conn = batch 0 o.frames := by
  have reached := main_reached sending.accepted sending.moment
  have ended := ((reached.2 _ success).success.mp rfl)
  rw [arrived, all, reached.1.finished ended, bytesOf_length, batch_length,
    Nat.mul_div_cancel_left _ (by decide)]

end Sending

section

variable {config : AppConfig} {handles : Handles} {w v : World} {q : Proc Nat} {c : Proc Unit}
  {argv : Nat → List String} {o : Nat → Options} {p : Nat → Load Nat} {s : Nat → Socket}

/-- Whoever the senders are and however they, the server and the reader take turns: when the server
polls and the reader sleeps, the files hold what was there and an interleaving of the senders'
records, each once and in its sender's order, as far as they have arrived. -/
theorem senders_stored (forked : Forked config handles w) (moment : Meeting config handles w q c v)
    (polls : q.Calls .epollWait) (sleeps : c.Calls (.eventRead .dataReady))
    (silent : v.dataReady = 0) (few : v.fs.archives.length ≤ 2 ^ 64)
    (sending : ∀ n < v.net.accepted, Sending (argv n) (o n) (p n) (s n) (v.net.conns n)) :
    (∃ merged, Interleaves (fun n => if n < v.net.accepted then arrived (v.net.conns n) else [])
        merged ∧ v.fs.log (pathFilename config.dataFilePath) =
          Blocks.cut kFrameSize (initially config w) ++ bytesOf merged) ∧
    ∀ n < v.net.accepted, p n = .pure EXIT_SUCCESS → (v.net.conns n).received = (s n).sent →
      arrived (v.net.conns n) = batch 0 (o n).frames := by
  rcases forked.settled moment polls sleeps silent few with ⟨stored, framed⟩
  have parts : (fun n => if n < v.net.accepted then Server.acceptable (v.net.conns n) else []) =
      fun n => if n < v.net.accepted then arrived (v.net.conns n) else [] := by
    funext n
    split
    · next old => exact (sending n old).acceptable
    · rfl
  constructor
  · exact ⟨v.ring.frames, parts ▸ framed.interleaved, stored⟩
  · exact fun n old success all => (sending n old).arrived_all success all

def oneFrame : List String := ["telemetry-load", "--frames", "1"]

def twoCallers (n : Nat) : (call : Call) → World → call.Resp
  | .net (.accept4 _), w =>
      if w.net.accepted = 0 then .ok 7 else if w.net.accepted = 1 then .ok 8 else .error .EAGAIN
  | .net (.recv fd), w =>
      let bytes := (w.net.conns (if fd = 7 then 0 else 1)).inbound
      if bytes = [] then .error .EAGAIN else .data bytes
  | .epollWait, w =>
      let fd := if w.net.accepted = 0 then 5 else if (w.net.conns 0).inbound ≠ [] then 7 else 8
      .ready [⟨fd, { readable := true }⟩]
  | call, w => Server.visit Server.oneCaller n call w

/-- The record of the second sender is received between the two of the first. -/
def twoSenders : List (Prog.Turn World) :=
  [.left 32, .env (Main.sends 0 ((bytesOf (batch 0 2)).take 32)),
    .env (Main.sends 1 (bytesOf (batch 0 1))), .left 56,
    .env (Main.sends 0 ((bytesOf (batch 0 2)).drop 32)), .left 28, .right 62]

theorem senders_stored_twoSenders : ∃ q c v,
    Meeting quietConfig machineHandles forkedMachine q c v ∧ v.net.accepted = 2 ∧
    arrived (v.net.conns 0) = batch 0 2 ∧ arrived (v.net.conns 1) = batch 0 1 ∧
    ∃ merged, Interleaves (fun n => if n < v.net.accepted then arrived (v.net.conns n) else [])
      merged ∧ v.fs.log (pathFilename quietConfig.dataFilePath) =
        Blocks.cut kFrameSize (initially quietConfig forkedMachine) ++ bytesOf merged := by
  have first : ∃ s, Prog.Reach LoadCall.exec (fun _ _ => False) (main twoFrames) {}
      (.pure EXIT_SUCCESS) s ∧ s.sent = bytesOf (batch 0 2) :=
    Prog.replay_ends haltingly 18 (by decide +kernel)
  have second : ∃ s, Prog.Reach LoadCall.exec (fun _ _ => False) (main oneFrame) {}
      (.pure EXIT_SUCCESS) s ∧ s.sent = bytesOf (batch 0 1) :=
    Prog.replay_ends haltingly 12 (by decide +kernel)
  rcases first with ⟨s, run, all⟩
  rcases second with ⟨s', run', all'⟩
  rcases Main.turns_show twoCallers twoSenders (by simp [twoSenders])
    (fun q c v => q.next = some .epollWait ∧ c.next = some (.eventRead .dataReady) ∧
      v.dataReady = 0 ∧ v.fs.archives.length ≤ 2 ^ 64 ∧ v.net.accepted = 2 ∧
      (v.net.conns 0).received = bytesOf (batch 0 2) ∧
      (v.net.conns 1).received = bytesOf (batch 0 1)) (by decide +kernel) with
    ⟨q, c, v, moment, polls, sleeps, silent, few, calls, received, received'⟩
  have sending : ∀ n < v.net.accepted, Sending (if n = 0 then twoFrames else oneFrame)
      (if n = 0 then { frames := 2, batchFrames := 1 } else { frames := 1 }) (.pure EXIT_SUCCESS)
      (if n = 0 then s else s') (v.net.conns n) := by
    intro n old
    have one : n = 0 ∨ n = 1 := by omega
    rcases one with rfl | rfl
    · exact ⟨by decide +kernel, run, by simp [received, all]⟩
    · exact ⟨by decide +kernel, run', by simp [received', all']⟩
  have result := senders_stored Main.forkedMachine_forked moment (Prog.calls_of_next polls)
    (Prog.calls_of_next sleeps) silent few sending
  refine ⟨q, c, v, moment, calls, ?_, ?_, result.1⟩
  · exact result.2 0 (by omega) rfl (received.trans all.symm)
  · exact result.2 1 (by omega) rfl (received'.trans all'.symm)

end

end TelemetryServer.Bench
