import TelemetryServer.Calm
import TelemetryServer.Server.RunSpec

namespace TelemetryServer.Server

open Protocol Ipc Atomic

/-- What the consumer and the network do while the server runs. -/
inductive Outside (w : World) : World → Prop
  | pop (count : Nat) : count ≤ w.ring.occupancy → Outside w { w with
      ring := { w.ring with tail := u64 (w.ring.tail + count), released := w.ring.released + count }
      past := { w.past with spaceOwed := true } }
  | notify : Outside w { w with
      spaceReady := w.spaceReady + 1, past := { w.past with spaceOwed := false } }
  | consume : Outside w { w with dataReady := 0 }
  | arrive (c : Nat) (bytes : List UInt8) : (w.net.conns c).fin = false →
      Outside w { w with net := w.net.updateConn c (fun conn =>
        { conn with inbound := conn.inbound ++ bytes }) }
  | finish (c : Nat) : Outside w { w with net := w.net.updateConn c (fun conn =>
      { conn with fin := true }) }
  | break (c : Nat) : Outside w { w with net := w.net.updateConn c (fun conn =>
      { conn with broken := true }) }

/-- The world in which `run` is called: an empty ring and no clients. -/
structure Launch (setup : Setup) (w : World) : Prop extends Starting setup none [] w where
  ring : RingInv w.ring
  child : w.child = .running
  pid : w.readerPid = setup.readerPid

/-- A server on its own asks nothing of the reader. -/
def anyReader (setup : Setup) : Contract := ⟨setup.readerPid, fun _ _ => True⟩

section

variable {setup : Setup} {w v : World} {q : Proc Nat}

theorem Launch.shared (launch : Launch setup w) : Shared (anyReader setup) w := by
  refine ⟨⟨launch.ring, ?_, ?_⟩, ?_, launch.pid⟩
  · rw [Layout.occupancy, launch.unpublished]
    exact le_of_eq_of_le (Nat.zero_sub _) (Nat.zero_le _)
  · rw [launch.unpublished]
    simp
  · rw [launch.child]
    simp

theorem updateConn_grows {net : Net} {c : Nat} {f : Conn → Conn} (grows : Grows (net.conns c) (f (net.conns c)))
    (n : Nat) : Grows (net.conns n) ((net.updateConn c f).conns n) := by
  rcases eq_or_ne n c with rfl | apart
  · rw [Net.updateConn]
    change Grows _ (Function.update net.conns n _ n)
    rw [Function.update_self]
    exact grows
  · rw [Net.updateConn]
    change Grows _ (Function.update net.conns c _ n)
    rw [Function.update_of_ne apart]
    exact .refl _

theorem conn_rely {K : Contract} {c : Nat} {f : Conn → Conn}
    (grows : Grows (w.net.conns c) (f (w.net.conns c))) :
    ServerRely K w { w with net := w.net.updateConn c f } :=
  ⟨⟨.refl _, rfl, Or.inl rfl, id, le_rfl, .refl _⟩,
    ⟨rfl, rfl, rfl, rfl, rfl, updateConn_grows grows⟩, fun keep => ⟨keep.ring, keep.ended, keep.pid⟩⟩

theorem Outside.allowed {K : Contract} (move : Outside w v) : ServerRely K w v := by
  cases move with
  | pop count there =>
      refine ⟨⟨⟨rfl, rfl, rfl, rfl, Nat.le_add_right _ _⟩, rfl, Or.inr (Or.inl rfl),
        fun _ => Or.inl rfl, le_rfl, ⟨id, id, id, id, rfl, rfl, rfl⟩⟩,
        ⟨rfl, rfl, rfl, rfl, rfl, fun _ => .refl _⟩, ?_⟩
      intro keep
      refine ⟨⟨keep.ring.ring.release there, ?_, keep.ring.valid⟩, keep.ended, keep.pid⟩
      have before := keep.ring.pending
      rw [Layout.occupancy] at before ⊢
      exact le_trans (Nat.sub_le_sub_left (Nat.le_add_right _ _) _) before
  | notify =>
      exact ⟨⟨.refl _, rfl, Or.inl rfl, fun _ => Or.inr (Nat.succ_pos _), Nat.le_succ _,
        ⟨id, id, id, id, rfl, rfl, rfl⟩⟩, ⟨rfl, rfl, rfl, rfl, rfl, fun _ => .refl _⟩,
        fun keep => ⟨keep.ring, keep.ended, keep.pid⟩⟩
  | consume =>
      exact ⟨⟨.refl _, rfl, Or.inl rfl, id, le_rfl, .refl _⟩,
        ⟨rfl, rfl, rfl, rfl, rfl, fun _ => .refl _⟩, fun keep => ⟨keep.ring, keep.ended, keep.pid⟩⟩
  | arrive c bytes unfinished =>
      exact conn_rely ⟨rfl, rfl, rfl, rfl, List.prefix_append _ _,
        fun fin => absurd fin (by rw [unfinished]; simp), id⟩
  | finish c => exact conn_rely ⟨rfl, rfl, rfl, rfl, List.prefix_rfl, fun _ => ⟨rfl, rfl⟩, id⟩
  | «break» c =>
      exact conn_rely ⟨rfl, rfl, rfl, rfl, List.prefix_rfl, fun fin => ⟨fin, rfl⟩, fun _ => rfl⟩

theorem Outside.still (move : Outside w v) : Still w v :=
  (move.allowed : ServerRely ⟨0, fun _ _ => True⟩ w v).still

def ServerRun (setup : Setup) (w : World) (q : Proc Nat) (v : World) : Prop :=
  Prog.Reach World.exec Outside (run setup) w q v

theorem ServerRun.reached (launch : Launch setup w) (moment : ServerRun setup w q v) :
    Shared (anyReader setup) v ∧ (serverLogic (anyReader setup) setup).wp q
      (fun result v => Ended result v ∧ Shut v) v :=
  Logic.wp_reach launch.shared (run_rule rfl launch.toStarting) Outside.allowed moment

end

/-- A machine on which the server can be started. -/
def machine : World :=
  { net := { fds := fun fd =>
      if fd = 3 then some .spaceReady else if fd = 4 then some .signal else none } }

def machineSetup : Setup := { spaceReadyFd := 3, signalFd := 4, readerPid := 1 }

theorem machine_launch : Launch machineSetup machine where
  opened := rfl
  unpublished := rfl
  told := rfl
  clients := rfl
  accepted := rfl
  space := rfl
  signal := rfl
  alone := by
    intro fd c
    simp only [machine]
    split
    · nofun
    · split <;> nofun
  unwatched := fun _ _ => rfl
  orphan := fun _ _ => rfl
  nonneg := by
    intro fd there
    by_contra negative
    apply there
    simp only [machine]
    rw [if_neg (by omega), if_neg (by omega)]
  listener := by
    intro fd found
    simp only [machine] at found
    split at found
    · cases found
    · split at found <;> cases found
  state := rfl
  undrained := rfl
  ring := .initial _
  child := rfl
  pid := rfl

/-- The listening socket is descriptor 5 and epoll 6. The first connection is watched once
it is accepted, and its bytes are received as they arrive. -/
def visit (accepts : Nat → FdResult) (n : Nat) : (call : Call) → World → call.Resp
  | .net .socket, _ => .ok 5
  | .net .epollCreate, _ => .ok 6
  | .net (.accept4 _), w => accepts w.net.accepted
  | .net (.recv _), w => match (w.net.conns 0).inbound with
      | [] => if (w.net.conns 0).fin then .eof else .error .EAGAIN
      | bytes => .data bytes
  | .epollWait, w => .ready [⟨if w.net.accepted = 0 then 5 else 7, { readable := true }⟩]
  | call, w => Calm.answer n call w

def oneCaller : Nat → FdResult
  | 0 => .ok 7
  | _ => .error .EAGAIN

def sends (bytes : List UInt8) (w : World) : Option World :=
  if (w.net.conns 0).fin = false then
    some { w with net := w.net.updateConn 0 (fun conn => { conn with inbound := conn.inbound ++ bytes }) }
  else none

def shuts (w : World) : Option World :=
  some { w with net := w.net.updateConn 0 (fun conn => { conn with fin := true }) }

theorem sends_outside {bytes : List UInt8} {w v : World} (done : sends bytes w = some v) :
    Outside w v := by
  simp only [sends, Option.ite_none_right_eq_some, Option.some.injEq] at done
  rw [← done.2]
  exact .arrive 0 bytes done.1

theorem shuts_outside {w v : World} (done : shuts w = some v) : Outside w v := by
  rw [← Option.some.inj done]
  exact .finish 0

/-- A well-formed frame and one byte more. -/
def telegram : List UInt8 := [0x54, 0x4C, 0x52, 0x59, 0, 1, 0, 32] ++ List.replicate 24 0 ++ [7]

/-- What the server of this machine is seen to do can be reached. -/
theorem machine_shows (oracle : Nat → (call : Call) → World → call.Resp) (n : Nat)
    (stages : List (Nat × (World → Option World)))
    (allowed : ∀ stage ∈ stages, ∀ w v, stage.2 w = some v → Outside w v) (call : Call)
    (P : World → Prop) [DecidablePred P] (seen :
    (Prog.session World.exec oracle n stages (run machineSetup) machine).any
      (fun here => decide (here.1.next = some call) && decide (P here.2)) = true) :
    ∃ q v, ServerRun machineSetup machine q v ∧ q.Calls call ∧ P v :=
  Prog.session_shows oracle n allowed seen

/-- The client calls, sends its bytes and closes; the server reads them at its next event. -/
theorem visit_reaches (oracle : Nat → (call : Call) → World → call.Resp) (n : Nat) (call : Call)
    (P : World → Prop) [DecidablePred P] (seen :
    (Prog.session World.exec oracle n [(26, sends telegram), (0, shuts)]
      (run machineSetup) machine).any
      (fun here => decide (here.1.next = some call) && decide (P here.2)) = true) :
    ∃ q v, ServerRun machineSetup machine q v ∧ q.Calls call ∧ P v := by
  apply machine_shows oracle n _ ?_ call P seen
  intro stage member w v done
  simp only [List.mem_cons, List.not_mem_nil, or_false] at member
  rcases member with rfl | rfl
  · exact sends_outside done
  · exact shuts_outside done

end TelemetryServer.Server
