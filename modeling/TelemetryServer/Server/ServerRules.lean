import TelemetryServer.Server.ServerInvariant
import TelemetryServer.Storage.StoreSpec

namespace TelemetryServer.Server

open Protocol Ipc Atomic
open Storage (exec_log)

/-- A descriptor the server may close: one of its own that is still open. -/
def Closable (w : World) (fd : Int) : Prop :=
  w.net.fds fd = some .listener ∨ w.net.fds fd = some .epoll ∨
    ∃ c, w.net.fds fd = some (.client c) ∧ (w.net.conns c).closed = false

def InUse (w : World) : NetCall → Prop
  | .socket | .epollCreate => True
  | .setsockopt fd | .bind fd _ | .listen fd => w.net.fds fd = some .listener
  | .epollCtl _ fd _ => w.net.fds fd ≠ none
  | .accept4 fd => w.server.state = .running ∧ w.net.fds fd = some .listener
  | .recv fd => fd ∈ w.server.keys ∧
      ∃ c, w.net.fds fd = some (.client c) ∧ (w.net.conns c).closed = false
  | .close fd => Closable w fd

def Grantable (w : World) (fd : Int) : EpollOp → Prop
  | .add => w.net.fds fd ≠ none ∧ w.net.interest fd = none
  | .modify | .delete => (w.net.interest fd).isSome = true

/-- What must be true when the server makes a call. -/
def serverPre (setup : Setup) : Call → World → Prop
  | .point (.handling event), w => Serving setup w ∧ (w.server.state = .running →
      w.net.fds event.fd ≠ none ∧ w.net.fds event.fd = w.past.polled event.fd)
  | .point (.handled event ok), w => (ok = true → Serving setup w ∧
      (w.server.state = .running → ∀ fd ∈ w.past.snapshot, fd ≠ event.fd → fd ∈ w.server.keys)) ∧
      (ok = false → Broken w ∨ w.past.acceptFailed = true ∧ Serving setup w)
  | .point (.pushed span count), _ => count = (frames span).length ∧ kFrameSize ∣ span.length
  | .point (.watching op fd), w => Grantable w fd op
  | .point .drained, w => w.server.state = .draining ∧ w.ring.occupancy = 0
  | .net call, w => InUse w call
  | .epollWait, w => Serving setup w ∧
      (w.server.state = .draining → w.ring.occupancy ≠ 0 ∨ SpaceDue w)
  | .eventRead .spaceReady, w => 0 < w.spaceReady
  | .log .sharedRingFull, _ => False
  | .log (.inputBufferLimit _), _ => False
  | .waitpid, w => w.ring.producerClosed ≠ 0 ∧ (w.past.failed = false → w.past.dataOwed = false)
  | _, _ => True

/-- What a server that is draining leaves alone. -/
structure Final (w v : World) : Prop where
  state : v.server.state = .draining
  paused : v.server.ingressPaused = w.server.ingressPaused
  accepted : v.net.accepted = w.net.accepted
  published : v.ring.published = w.ring.published
  listenFd : w.server.listenFd = -1 → v.server.listenFd = -1
  clients : w.server.clients = [] → v.server.clients = []

/-- Connections only ever come, and a closed one stays closed. -/
structure Kept (w v : World) : Prop where
  accepted : w.net.accepted ≤ v.net.accepted
  closed : ∀ c, c < w.net.accepted → (w.net.conns c).closed = true → (v.net.conns c).closed = true

theorem Kept.of_same {w v : World} (net : v.net = w.net) : Kept w v := by
  constructor
  · rw [net]
  · rw [net]
    exact fun _ _ => id

theorem Kept.trans {w v u : World} (first : Kept w v) (second : Kept v u) : Kept w u :=
  ⟨first.accepted.trans second.accepted, fun c old closed =>
    second.closed c (lt_of_lt_of_le old first.accepted) (first.closed c old closed)⟩

theorem Kept.of_still {w v : World} (still : Still w v) : Kept w v :=
  ⟨le_of_eq still.accepted.symm, fun c _ closed => (still.conns c).closed.trans closed⟩

structure ServerGrant (K : Contract) (w v : World) : Prop extends ReaderRely K w v where
  final : w.server.state = .draining → Final w v
  kept : Kept w v

theorem Final.of_same {w v : World} (server : v.server = w.server)
    (accepted : v.net.accepted = w.net.accepted) (published : v.ring.published = w.ring.published) :
    w.server.state = .draining → Final w v := by
  intro draining
  refine ⟨?_, ?_, accepted, published, ?_, ?_⟩ <;> rw [server]
  · exact draining
  · exact id
  · exact id

theorem ServerGrant.refl {K : Contract} (w : World) : ServerGrant K w w :=
  ⟨.refl w, .of_same rfl rfl rfl, .of_same rfl⟩

def serverLogic (K : Contract) (setup : Setup) : Logic where
  inv := Shared K
  rely := ServerRely K
  guar := ServerGrant K
  pre := serverPre setup
  rely_refl := .refl
  rely_trans := .trans
  rely_inv := fun move keep => move.keeps keep
  guar_refl := .refl

structure Own (w v : World) : Prop where
  ring : v.ring = w.ring
  fs : v.fs = w.fs
  store : v.store = w.store
  child : v.child = w.child
  dataReady : v.dataReady = w.dataReady
  spaceReady : v.spaceReady = w.spaceReady
  readerPid : v.readerPid = w.readerPid
  dataOwed : v.past.dataOwed = w.past.dataOwed
  spaceOwed : v.past.spaceOwed = w.past.spaceOwed
  delivered : v.past.delivered = w.past.delivered
  noted : Noted w.past v.past

namespace Own

variable {K : Contract} {w v : World}

theorem refl (w : World) : Own w w := ⟨rfl, rfl, rfl, rfl, rfl, rfl, rfl, rfl, rfl, rfl, .refl _⟩

theorem drift (own : Own w v) : Drift w v := by
  have space : SpaceDue w → SpaceDue v := by
    rw [SpaceDue, SpaceDue, own.spaceOwed, own.spaceReady]
    exact id
  refine ⟨?_, own.dataOwed, ?_, space, le_of_eq own.spaceReady.symm, own.noted⟩
  · rw [own.ring]
    exact .refl _
  · rw [own.ring]
    exact Or.inl rfl

theorem keeps (own : Own w v) (keep : Shared K w) : Shared K v := by
  refine ⟨by rw [own.ring]; exact keep.ring, ?_, own.readerPid.trans keep.pid⟩
  rw [own.child, own.ring, own.fs]
  exact keep.ended

theorem grants (own : Own w v) : ReaderRely K w v := by
  have data : DataDue w → DataDue v := by
    rw [DataDue, DataDue, own.dataOwed, own.dataReady]
    exact id
  refine ⟨?_, own.fs, own.store, own.spaceOwed, own.delivered, Or.inl own.child, ?_, data, own.keeps⟩
  · rw [own.ring]
    exact .refl _
  · rw [own.ring]
    exact Or.inl ⟨rfl, rfl⟩

theorem rely (own : Own w v) (still : Still w v) : ServerRely K w v := ⟨own.drift, still, own.keeps⟩

end Own

def ownCall : Call → Bool
  | .net _ | .signalfd | .signalRead | .iteration _ => true
  | .log (.telemetry _) => false
  | .log _ => true
  | .point (.handled _ _) | .point (.pushed _ _) | .point (.watching _ _) => true
  | _ => false

theorem exec_fail (w : World) : Own w w.fail :=
  ⟨rfl, rfl, rfl, rfl, rfl, rfl, rfl, rfl, rfl, rfl,
    ⟨fun _ => rfl, id, id, id, rfl, rfl, rfl⟩⟩

theorem exec_net {call : NetCall} {w u : World} {r : call.Resp}
    (answer : World.exec (.net call) w r = some u) :
    ∃ net, call.exec w.net r = some net ∧ u = { w with
      net := net
      past := { w.past with
        failed := w.past.failed || World.netFails w.net call r
        acceptFailed := w.past.acceptFailed || World.acceptFails call r } } := by
  simp only [World.exec, Option.map_eq_some_iff] at answer
  rcases answer with ⟨net, done, same⟩
  exact ⟨net, done, same.symm⟩

theorem exec_own {call : Call} (own : ownCall call = true) {w u : World} {r : call.Resp}
    (answer : World.exec call w r = some u) : Own w u := by
  have marked : ∀ a b c d : Bool, Noted w.past { w.past with
      failed := w.past.failed || a
      acceptFailed := w.past.acceptFailed || b
      readerGone := w.past.readerGone || c
      shutdown := w.past.shutdown || d } := by
    intro a b c d
    refine ⟨?_, ?_, ?_, ?_, rfl, rfl, rfl⟩ <;> intro before <;> simp [before]
  cases call with
  | net call =>
      rcases exec_net answer with ⟨net, _, rfl⟩
      have noted := marked (World.netFails w.net call r) (World.acceptFails call r) false false
      simp only [Bool.or_false] at noted
      exact ⟨rfl, rfl, rfl, rfl, rfl, rfl, rfl, rfl, rfl, rfl, noted⟩
  | signalfd =>
      simp only [World.exec, Option.some.injEq] at answer
      rw [← answer]
      split
      · exact .refl w
      · exact exec_fail w
  | signalRead =>
      cases r with
      | info record =>
          rw [← Option.some.inj answer]
          have noted := marked false false (w.endsReader record) (World.endsServer record)
          simp only [Bool.or_false] at noted
          exact ⟨rfl, rfl, rfl, rfl, rfl, rfl, rfl, rfl, rfl, rfl, noted⟩
      | eof =>
          rw [← Option.some.inj answer]
          exact exec_fail w
      | error e =>
          cases e with
          | EAGAIN =>
              rw [← Option.some.inj answer]
              exact .refl w
          | EINTR =>
              rw [← Option.some.inj answer]
              exact .refl w
          | ECONNABORTED =>
              rw [← Option.some.inj answer]
              exact exec_fail w
          | EMFILE =>
              rw [← Option.some.inj answer]
              exact exec_fail w
          | other code =>
              rw [← Option.some.inj answer]
              exact exec_fail w
  | iteration keys =>
      simp only [World.exec, Option.ite_none_right_eq_some] at answer
      rw [← Option.some.inj answer.2]
      exact .refl w
  | log line =>
      have same : u = w := by
        cases line with
        | telemetry record => cases own
        | cout text => exact (Option.some.inj answer).symm
        | cerr text => exact (Option.some.inj answer).symm
        | perror text => exact (Option.some.inj answer).symm
        | received fd record => exact (Option.some.inj answer).symm
        | sharedRingFull => exact (Option.some.inj answer).symm
        | inputBufferLimit fd => exact (Option.some.inj answer).symm
        | invalidIpcFrame error => exact (Option.some.inj answer).symm
      rw [same]
      exact .refl w
  | point p =>
      rw [← Option.some.inj answer]
      cases p with
      | handled event ok => exact ⟨rfl, rfl, rfl, rfl, rfl, rfl, rfl, rfl, rfl, rfl, .refl _⟩
      | pushed span count => exact ⟨rfl, rfl, rfl, rfl, rfl, rfl, rfl, rfl, rfl, rfl,
          ⟨id, id, id, id, rfl, rfl, rfl⟩⟩
      | watching op fd => exact ⟨rfl, rfl, rfl, rfl, rfl, rfl, rfl, rfl, rfl, rfl, .refl _⟩
      | handling event => cases own
      | drained => cases own
      | popped fs => cases own
      | staging offset => cases own
      | appending batch => cases own
      | appended batch => cases own
  | epollWait => cases own
  | ring call => cases own
  | eventRead fd => cases own
  | eventWrite fd => cases own
  | fs call => cases own
  | kill => cases own
  | waitpid => cases own
  | exit code => cases own

/-- Only `accept4` adds a connection. -/
theorem exec_accepted {call : NetCall} {net net' : Net} {r : call.Resp}
    (done : call.exec net r = some net') (other : ∀ fd, call ≠ .accept4 fd) :
    net'.accepted = net.accepted := by
  cases call with
  | accept4 fd => exact absurd rfl (other fd)
  | close fd =>
      rw [← Option.some.inj done]
      rw [Net.closeFd]
      split <;> rfl
  | setsockopt fd => rw [← Option.some.inj done]
  | bind fd port => rw [← Option.some.inj done]
  | listen fd => rw [← Option.some.inj done]
  | socket =>
      cases r with
      | ok fd =>
          simp only [NetCall.exec, Option.ite_none_right_eq_some, Option.some.injEq] at done
          rw [← done.2]
          rfl
      | error e => rw [← Option.some.inj done]
  | epollCreate =>
      cases r with
      | ok fd =>
          simp only [NetCall.exec, Option.ite_none_right_eq_some, Option.some.injEq] at done
          rw [← done.2]
          rfl
      | error e => rw [← Option.some.inj done]
  | epollCtl op fd mask =>
      cases r with
      | false => cases op <;> rw [← Option.some.inj done]
      | true =>
          cases op <;>
            simp only [NetCall.exec, Option.ite_none_right_eq_some, Option.some.injEq] at done <;>
            rw [← done.2]
          · rw [Net.register]
            split <;> rfl
          · rfl
          · rfl
  | recv fd =>
      cases r with
      | data bytes =>
          simp only [NetCall.exec] at done
          split at done
          · simp only [Option.ite_none_right_eq_some, Option.some.injEq] at done
            rw [← done.2]
            rfl
          · cases done
      | eof =>
          simp only [NetCall.exec] at done
          split at done
          · simp only [Option.ite_none_right_eq_some, Option.some.injEq] at done
            rw [← done.2]
            rfl
          · cases done
      | error e =>
          cases e <;> simp only [NetCall.exec] at done
          case EINTR => rw [← Option.some.inj done]
          all_goals
            split at done
            · simp only [Option.ite_none_right_eq_some, Option.some.injEq] at done
              rw [← done.2]
            · cases done
/-- No call touches the memory of the server, and only a call on sockets touches these. -/
theorem exec_same {call : Call} (own : ownCall call = true) {w u : World} {r : call.Resp}
    (answer : World.exec call w r = some u) :
    u.server = w.server ∧ ((∃ c, call = .net c) ∨ u.net = w.net) := by
  cases call with
  | net call =>
      rcases exec_net answer with ⟨net, done, rfl⟩
      exact ⟨rfl, Or.inl ⟨call, rfl⟩⟩
  | signalfd =>
      rw [← Option.some.inj answer]
      split <;> exact ⟨rfl, Or.inr rfl⟩
  | signalRead =>
      cases r with
      | info record =>
          rw [← Option.some.inj answer]
          exact ⟨rfl, Or.inr rfl⟩
      | eof =>
          rw [← Option.some.inj answer]
          exact ⟨rfl, Or.inr rfl⟩
      | error e => cases e <;> rw [← Option.some.inj answer] <;> exact ⟨rfl, Or.inr rfl⟩
  | iteration keys =>
      simp only [World.exec, Option.ite_none_right_eq_some, Option.some.injEq] at answer
      rw [← answer.2]
      exact ⟨rfl, Or.inr rfl⟩
  | log line => cases line <;> rw [← Option.some.inj answer] <;> exact ⟨rfl, Or.inr rfl⟩
  | point p =>
      rw [← Option.some.inj answer]
      exact ⟨rfl, Or.inr rfl⟩
  | epollWait => cases own
  | ring call => cases own
  | eventRead fd => cases own
  | eventWrite fd => cases own
  | fs call => cases own
  | kill => cases own
  | waitpid => cases own
  | exit code => cases own

theorem update_closed {conns : Nat → Conn} {c : Nat} {conn : Conn}
    (keeps : (conns c).closed = true → conn.closed = true) (n : Nat)
    (closed : (conns n).closed = true) : (Function.update conns c conn n).closed = true := by
  rcases eq_or_ne n c with rfl | apart
  · rw [Function.update_self]
    exact keeps closed
  · rwa [Function.update_of_ne apart]

/-- A connection is closed once and for all. -/
theorem exec_conns {call : NetCall} {net net' : Net} {r : call.Resp}
    (done : call.exec net r = some net') (n : Nat) (old : n < net.accepted)
    (closed : (net.conns n).closed = true) : (net'.conns n).closed = true := by
  cases call with
  | close fd =>
      rw [← Option.some.inj done, Net.closeFd]
      split
      · change (Function.update net.conns _ _ n).closed = true
        exact update_closed (fun _ => rfl) n closed
      · exact closed
  | accept4 fd =>
      cases r with
      | ok new =>
          simp only [NetCall.exec, Option.ite_none_right_eq_some, Option.some.injEq] at done
          rw [← done.2]
          change (Function.update net.conns net.accepted {} n).closed = true
          rwa [Function.update_of_ne (Nat.ne_of_lt old)]
      | error e => rwa [← Option.some.inj done]
  | setsockopt fd => rwa [← Option.some.inj done]
  | bind fd port => rwa [← Option.some.inj done]
  | listen fd => rwa [← Option.some.inj done]
  | socket =>
      cases r with
      | ok fd =>
          simp only [NetCall.exec, Option.ite_none_right_eq_some, Option.some.injEq] at done
          rw [← done.2]
          exact closed
      | error e => rwa [← Option.some.inj done]
  | epollCreate =>
      cases r with
      | ok fd =>
          simp only [NetCall.exec, Option.ite_none_right_eq_some, Option.some.injEq] at done
          rw [← done.2]
          exact closed
      | error e => rwa [← Option.some.inj done]
  | epollCtl op fd mask =>
      cases r with
      | false => cases op <;> rwa [← Option.some.inj done]
      | true =>
          cases op <;>
            simp only [NetCall.exec, Option.ite_none_right_eq_some, Option.some.injEq] at done <;>
            rw [← done.2]
          · rw [Net.register]
            split
            · change (Function.update net.conns _ _ n).closed = true
              exact update_closed (fun still => by exact still) n closed
            · exact closed
          · exact closed
          · exact closed
  | recv fd =>
      cases r with
      | data bytes =>
          simp only [NetCall.exec] at done
          split at done
          · simp only [Option.ite_none_right_eq_some, Option.some.injEq] at done
            rw [← done.2]
            change (Function.update net.conns _ _ n).closed = true
            exact update_closed (fun still => by exact still) n closed
          · cases done
      | eof =>
          simp only [NetCall.exec] at done
          split at done
          · simp only [Option.ite_none_right_eq_some, Option.some.injEq] at done
            rw [← done.2]
            change (Function.update net.conns _ _ n).closed = true
            exact update_closed (fun still => by exact still) n closed
          · cases done
      | error e =>
          cases e <;> simp only [NetCall.exec] at done
          case EINTR => rwa [← Option.some.inj done]
          all_goals
            split at done
            · simp only [Option.ite_none_right_eq_some, Option.some.injEq] at done
              rwa [← done.2]
            · cases done

theorem exec_final {setup : Setup} {call : Call} (own : ownCall call = true) {w u : World}
    {r : call.Resp} (ready : serverPre setup call w) (answer : World.exec call w r = some u) :
    w.server.state = .draining → Final w u := by
  rcases exec_same own answer with ⟨server, which⟩
  have ring := congrArg Layout.published (exec_own own answer).ring
  intro draining
  apply Final.of_same server ?_ ring draining
  rcases which with ⟨call, rfl⟩ | same
  · rcases exec_net answer with ⟨net, done, rfl⟩
    apply exec_accepted done
    rintro fd rfl
    have running := ready.1
    rw [draining] at running
    cases running
  · rw [same]

theorem exec_kept {call : Call} (own : ownCall call = true) {w u : World} {r : call.Resp}
    (answer : World.exec call w r = some u) : Kept w u := by
  rcases (exec_same own answer).2 with ⟨call, rfl⟩ | same
  · rcases exec_net answer with ⟨net, done, rfl⟩
    refine ⟨?_, exec_conns done⟩
    by_cases accepts : ∃ fd, call = .accept4 fd
    · rcases accepts with ⟨fd, rfl⟩
      cases r with
      | ok new =>
          simp only [NetCall.exec, Option.ite_none_right_eq_some, Option.some.injEq] at done
          rw [← done.2]
          exact Nat.le_succ _
      | error e => rw [← Option.some.inj done]
    · exact le_of_eq (exec_accepted done (fun fd same => accepts ⟨fd, same⟩)).symm
  · exact .of_same same

section

variable {K : Contract} {setup : Setup} {α : Type}
  {Q : α → World → Prop} {w : World}

theorem own_rule (call : Call) {k : call.Resp → Proc α} (own : ownCall call = true)
    (ready : ∀ v, ServerRely K w v → Shared K v → serverPre setup call v)
    (rest : ∀ v r u, ServerRely K w v → World.exec call v r = some u → Shared K u → Drift w u →
      (serverLogic K setup).wp (k r) Q u) :
    (serverLogic K setup).wp (Proc.call call >>= k) Q w := by
  intro v move keep
  refine ⟨ready v move keep, ?_⟩
  intro r u answer
  have step := exec_own own answer
  exact ⟨step.keeps keep, ⟨step.grants, exec_final own (ready v move keep) answer, exec_kept own answer⟩,
    rest v r u move answer (step.keeps keep) (move.drift.trans step.drift)⟩

theorem log_rule {line : Line} {k : Unit → Proc α} (plain : line.plain = true)
    (rest : ∀ v, ServerRely K w v → Shared K v → (serverLogic K setup).wp (k ()) Q v) :
    (serverLogic K setup).wp (Proc.log line >>= k) Q w := by
  intro v move keep
  constructor
  · cases line <;> trivial
  · intro r u answer
    have same := exec_log plain answer
    subst u
    exact ⟨keep, .refl v, rest v move keep⟩

theorem last_log {line : Line} {Q : Unit → World → Prop} (plain : line.plain = true)
    (done : ∀ v, ServerRely K w v → Shared K v → Q () v) :
    (serverLogic K setup).wp (Proc.log line) Q w := by
  have same : Proc.log line = (Proc.log line >>= fun _ => pure ()) := rfl
  rw [same]
  apply log_rule plain
  intro v move _ u later keep
  exact done u (move.trans later) keep

/-- Saying which descriptor epoll is about to be told of changes nothing. -/
theorem watching_rule {op : EpollOp} {fd : Int} {k : Unit → Proc α}
    (ready : ∀ v, ServerRely K w v → serverPre setup (.point (.watching op fd)) v)
    (rest : ∀ v, ServerRely K w v → Shared K v → (serverLogic K setup).wp (k ()) Q v) :
    (serverLogic K setup).wp (Proc.point (.watching op fd) >>= k) Q w := by
  intro v move keep
  refine ⟨ready v move, ?_⟩
  intro r u answer
  have same : v = u := Option.some.inj answer
  subst same
  exact ⟨keep, .refl v, rest v move keep⟩

theorem memory_rule {k : Memory → Proc α}
    (rest : ∀ v, ServerRely K w v → Shared K v → (serverLogic K setup).wp (k w.server) Q v) :
    (serverLogic K setup).wp (memory >>= k) Q w := by
  intro v move keep
  refine ⟨keep, .refl v, ?_⟩
  have next := rest v move keep
  rw [← move.still.server] at next
  exact next

/-- The parts of the history that the two processes or the handling of events depend on. -/
structure Recalls (a b : History) : Prop where
  dataOwed : b.dataOwed = a.dataOwed
  spaceOwed : b.spaceOwed = a.spaceOwed
  delivered : b.delivered = a.delivered
  shutdown : b.shutdown = a.shutdown

theorem Recalls.grants {past : History} (recalls : Recalls w.past past) :
    (Shared K w → Shared K { w with past := past }) ∧ ServerGrant K w { w with past := past } := by
  have keeps : Shared K w → Shared K { w with past := past } :=
    fun keep => ⟨keep.ring, keep.ended, keep.pid⟩
  have data : DataDue w → DataDue { w with past := past } := by
    rw [DataDue, DataDue, recalls.dataOwed]
    exact id
  exact ⟨keeps, ⟨.refl _, rfl, rfl, recalls.spaceOwed, recalls.delivered, Or.inl rfl,
    Or.inl ⟨rfl, rfl⟩, data, keeps⟩, .of_same rfl rfl rfl, .of_same rfl⟩

theorem Serving.recall {past : History} (serving : Serving setup w) (recalls : Recalls w.past past)
    (undrained : past.drained = w.past.drained) : Serving setup { w with past := past } := by
  have still : Still w { w with past := past } := ⟨rfl, rfl, rfl, rfl, rfl, fun _ => .refl _⟩
  refine ⟨⟨serving.base.still still (.refl _), recalls.dataOwed.trans serving.told, serving.room, ?_,
    undrained.trans serving.undrained⟩, ?_⟩
  · intro draining
    have done := serving.draining draining
    exact ⟨done.1, done.2.1, recalls.shutdown.trans done.2.2⟩
  · intro running paused
    rcases serving.waits running paused with full | due
    · exact Or.inl full
    · right
      rwa [SpaceDue, recalls.spaceOwed]

theorem point_rule {p : Point} {k : Unit → Proc α}
    (recalls : ∀ v, Recalls (World.past v) (v.passing p).past)
    (ready : ∀ v, ServerRely K w v → Shared K v → serverPre setup (.point p) v)
    (rest : ∀ v, ServerRely K w v → Shared K (v.passing p) →
      (serverLogic K setup).wp (k ()) Q (v.passing p)) :
    (serverLogic K setup).wp (Proc.point p >>= k) Q w := by
  intro v move keep
  refine ⟨ready v move keep, ?_⟩
  intro _ u answer
  rw [← Option.some.inj answer]
  have step := (recalls v).grants (K := K)
  exact ⟨step.1 keep, step.2, rest v move (step.1 keep)⟩

theorem update_own (f : Memory → Memory) (w : World) : Own w { w with server := f w.server } :=
  ⟨rfl, rfl, rfl, rfl, rfl, rfl, rfl, rfl, rfl, rfl, .refl _⟩

/-- A change of memory must respect that draining is final. -/
theorem update_rule {f : Memory → Memory} {k : Unit → Proc α}
    (final : w.server.state = .draining → Final w { w with server := f w.server })
    (rest : ∀ v, ServerRely K w v → Shared K { v with server := f v.server } →
      (serverLogic K setup).wp (k ()) Q { v with server := f v.server }) :
    (serverLogic K setup).wp (update f >>= k) Q w := by
  intro v move keep
  have step := update_own f v
  have later : v.server.state = .draining → Final v { v with server := f v.server } := by
    rw [move.still.server]
    intro draining
    have before := final draining
    refine ⟨before.state, ?_, rfl, rfl, ?_, ?_⟩ <;> rw [move.still.server]
    · exact before.paused
    · exact before.listenFd
    · exact before.clients
  exact ⟨step.keeps keep, ⟨step.grants, later, .of_same rfl⟩, rest v move (step.keeps keep)⟩

theorem kPauseIngressBytes_eq : kPauseIngressBytes = 3145728 := by decide

theorem maxPending_eq : maxPending = 98431 := by decide

/-- The frames the server may publish in one batch. -/
structure Publishable (w : World) (fs : List Frame) : Prop where
  valid : ∀ frame ∈ fs, frame.Valid
  room : Room w
  few : fs.length ≤ 128
  running : w.server.state = .running

theorem RingOk.publish {l : Layout} {fs : List Frame} (ring : RingOk l)
    (valid : ∀ frame ∈ fs, frame.Valid) (less : kFrameSize * l.occupancy < kPauseIngressBytes)
    (short : fs.length ≤ 128) (holds : RingInv.Holds l fs) (origin : Nat)
    (room : l.published.length + fs.length ≤ l.released + capacityFrames) :
    RingOk { l with
      head := u64 (l.head + fs.length)
      published := l.published ++ fs.map (fun frame => (origin, frame)) } := by
  refine ⟨ring.ring.publish holds origin room, ?_, ?_⟩
  · rw [kFrameSize, kPauseIngressBytes_eq, Layout.occupancy] at less
    rw [maxPending_eq, Layout.occupancy, List.length_append, List.length_map]
    change l.published.length + fs.length - l.released ≤ _
    omega
  · intro entry member
    rcases List.mem_append.mp member with old | new
    · exact ring.valid entry old
    · rcases List.mem_map.mp new with ⟨frame, inside, rfl⟩
      exact valid frame inside

theorem server_produces : Produces (serverLogic K setup) Publishable where
  ring := fun keep => keep.ring.ring
  view := fun move => move.drift.view
  own := fun move => ⟨move.still.lastRecv, move.drift.dataOwed⟩
  loads := fun _ => ⟨trivial, trivial, trivial⟩
  slot := by
    intro w i frame keep free
    have after : Shared K w → Shared K (w.putSlot i frame) := fun keep =>
      ⟨⟨keep.ring.ring.putSlot free frame, keep.ring.pending, keep.ring.valid⟩, keep.ended,
        keep.pid⟩
    exact ⟨trivial, after keep, ⟨⟨rfl, rfl, List.prefix_rfl, fun closed => ⟨closed, rfl⟩⟩, rfl, rfl,
      rfl, rfl, Or.inl rfl, Or.inl ⟨rfl, rfl⟩, id, after⟩, .of_same rfl rfl rfl, .of_same rfl⟩
  publish := by
    intro w fs keep ok opened _ holds room
    have after : Shared K w → Shared K (w.publish fs) := fun keep =>
      ⟨keep.ring.publish ok.valid ok.room ok.few holds w.net.lastRecv room,
        fun exited => absurd opened (keep.ended exited).1, keep.pid⟩
    have running : w.server.state ≠ .draining := by
      rw [ok.running]
      nofun
    exact ⟨trivial, after keep, ⟨⟨rfl, rfl, List.prefix_append _ _, fun closed => absurd opened closed⟩,
      rfl, rfl, rfl, rfl, Or.inl rfl, Or.inr (Or.inl rfl), fun _ => Or.inl rfl, after⟩,
      fun draining => absurd draining running, .of_same rfl⟩

/-- A load of the occupancy, between `w` and `v`. -/
def Loaded (K : Contract) (w : World) (n : Nat) (v : World) :
    Prop :=
  ∃ t, ServerRely K w t ∧ ServerRely K t v ∧ n = t.ring.occupancy

theorem pendingFrames_rule : (serverLogic K setup).wp pendingFrames (Loaded K w) w := by
  apply pendingFrames_producer server_produces
  · intro v move _
    exact ⟨v, move, .refl v, rfl⟩
  · rintro n v u move _ ⟨t, before, after, count⟩
    exact ⟨t, before, after.trans move, count⟩

theorem empty_rule (keep : Shared K w) : (serverLogic K setup).wp empty (fun none v =>
    ∃ l, ServerRely K w l ∧ ServerRely K l v ∧ none = (l.ring.occupancy == 0)) w := by
  apply Logic.wp_seq keep pendingFrames_rule
  rintro n v _ ⟨l, before, after, rfl⟩ u move _
  exact ⟨l, before, after.trans move, rfl⟩

theorem pendingBytes_rule (keep : Shared K w) : (serverLogic K setup).wp pendingBytes
    (fun n v => ∃ frames, n = kFrameSize * frames ∧ Loaded K w frames v) w := by
  apply Logic.wp_seq keep pendingFrames_rule
  rintro n v keepV ⟨t, before, after, count⟩ u move keepU
  refine ⟨n, ?_, t, before, after.trans move, count⟩
  have bound := (before.keeps keep).ring.pending
  rw [← count, maxPending_eq] at bound
  rw [u64, kFrameSize]
  omega

def World.told (w : World) : World := { w with past := { w.past with dataOwed := false } }

theorem notifyEvent_rule : (serverLogic K setup).wp (notifyEvent .dataReady)
    (fun ok v => if ok then ServerRely K (World.told w) v else
      ServerRely K w v ∧ v.past.failed = true) w := by
  apply Logic.wp_iterate (fun _ v => ServerRely K w v)
  · exact fun t move _ => move
  intro _ v keep since t move keepT
  have sinceT := since.trans move
  refine ⟨trivial, ?_⟩
  intro r u answer
  cases r with
  | ok =>
      simp only [World.exec, eventfdWrite, Option.map_eq_some_iff, Option.ite_none_right_eq_some]
        at answer
      rcases answer with ⟨value, ⟨_, counted⟩, rfl⟩
      rw [← Option.some.inj counted]
      have after : Shared K t → Shared K { t with
          dataReady := t.dataReady + 1, past := { t.past with dataOwed := false } } :=
        fun keep => ⟨keep.ring, keep.ended, keep.pid⟩
      refine ⟨after keepT, ⟨⟨.refl _, rfl, rfl, rfl, rfl, Or.inl rfl, Or.inl ⟨rfl, rfl⟩,
        fun _ => Or.inr (Nat.succ_pos _), after⟩, .of_same rfl rfl rfl, .of_same rfl⟩, ?_⟩
      intro x move' _
      have told : ServerRely K (World.told w) { t with
          dataReady := t.dataReady + 1, past := { t.past with dataOwed := false } } := by
        have drift := sinceT.drift
        have still := sinceT.still
        exact ⟨⟨drift.view, rfl, drift.freed, drift.space, drift.counter,
          drift.noted.owing false false⟩,
          ⟨still.server, still.fds, still.interest, still.accepted, still.lastRecv, still.conns⟩,
          fun keep => after (sinceT.keeps ⟨keep.ring, keep.ended, keep.pid⟩)⟩
      exact told.trans move'
  | eintr =>
      simp only [World.exec, eventfdWrite, Option.map_some, Option.some.injEq] at answer
      subst u
      exact ⟨keepT, .refl t, fun x move' _ => sinceT.trans move'⟩
  | error =>
      simp only [World.exec, eventfdWrite, Option.map_some, Option.some.injEq] at answer
      subst u
      have step : Own t (World.fail t) := exec_fail t
      refine ⟨step.keeps keepT, ⟨step.grants, .of_same rfl rfl rfl, .of_same rfl⟩, ?_⟩
      apply log_rule rfl
      intro x move' keepX y move'' _
      have since' : ServerRely K w (World.fail t) := by
        have still := sinceT.still
        exact ⟨sinceT.drift.trans step.drift,
          ⟨still.server, still.fds, still.interest, still.accepted, still.lastRecv, still.conns⟩,
          fun keep => step.keeps (sinceT.keeps keep)⟩
      have all := (since'.trans move').trans move''
      exact ⟨all, (move'.trans move'').drift.noted.failed rfl⟩

end

end TelemetryServer.Server
