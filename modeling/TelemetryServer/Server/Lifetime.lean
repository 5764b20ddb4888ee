import TelemetryServer.Server.Framing

/-! What ends the server, and what becomes of its descriptors. -/

namespace TelemetryServer.Server

open Protocol Ipc Atomic

/-- No client event stops the server or costs another client its connection: `handleEvent`
returns true, whoever was in the map when it was called is still there but for the client of
the event, and a server that has ended was told to. -/
def Unstoppable (q : Proc Nat) (v : World) : Prop :=
  (∀ event ok, q.Calls (.point (.handled event ok)) → ok = true ∧
    (v.server.state = .running → ∀ fd ∈ v.past.snapshot, fd ≠ event.fd → fd ∈ v.server.keys)) ∧
  ∀ result, q = .pure result → result = EXIT_SUCCESS ∧ v.past.shutdown = true

section

variable {setup : Setup} {w v : World} {q : Proc Nat}

/-- Clients cannot stop the server as long as no `accept4` reports an error of a pending
connection or of the descriptor table. -/
theorem clients_cannot_stop (launch : Launch setup w) (moment : ServerRun setup w q v)
    (own : v.past.failed = false) (reader : v.past.readerGone = false)
    (accepts : v.past.acceptFailed = false) : Unstoppable q v := by
  rcases moment.reached launch with ⟨keep, holds⟩
  constructor
  · intro event ok next
    have known := Logic.wp_pre keep holds next
    cases ok with
    | true => exact ⟨rfl, (known.1 rfl).2⟩
    | false =>
        rcases known.2 rfl with broken | ⟨refused, _⟩
        · exact absurd broken.failed (by rw [own]; nofun)
        · exact absurd refused (by rw [accepts]; nofun)
  · intro result done
    subst done
    have ended := (Logic.wp_post keep holds).1
    have success : result = EXIT_SUCCESS := by
      by_contra bad
      rcases ended.failure bad with failed | refused | gone
      · exact absurd failed (by rw [own]; nofun)
      · exact absurd refused (by rw [accepts]; nofun)
      · exact absurd gone (by rw [reader]; nofun)
    exact ⟨success, (ended.success success).1⟩

theorem clients_cannot_stop_visit : ∃ q v event, ServerRun machineSetup machine q v ∧
    q.Calls (.point (.handled event true)) ∧ v.net.accepted = 1 ∧ Unstoppable q v := by
  rcases visit_reaches (visit oneCaller) 32 (.point (.handled ⟨7, { readable := true }⟩ true))
    (fun v => v.net.accepted = 1 ∧ v.past.failed = false ∧ v.past.readerGone = false ∧
      v.past.acceptFailed = false) (by decide +kernel) with
    ⟨q, v, moment, returns, one, own, reader, accepts⟩
  exact ⟨q, v, _, moment, returns, one, clients_cannot_stop machine_launch moment own reader accepts⟩

end

/-- The first connection is reset before it is accepted. -/
def abortedCaller : Nat → FdResult := fun _ => .error .ECONNABORTED

/-- A client that gives up before it is accepted stops the server. -/
theorem aborted_caller_stops : ¬ ∀ q v, ServerRun machineSetup machine q v →
    v.past.failed = false → v.past.readerGone = false → Unstoppable q v := by
  intro claim
  rcases machine_shows (visit abortedCaller) 19 [] (by simp)
    (.point (.handled ⟨5, { readable := true }⟩ false))
    (fun v => v.past.failed = false ∧ v.past.readerGone = false) (by decide +kernel) with
    ⟨q, v, moment, returns, own, reader⟩
  have returned := ((claim q v moment own reader).1 _ false returns).1
  cases returned

/-- The client map, the open descriptors and what epoll watches agree. -/
structure InStep (w : World) : Prop where
  clients : ∀ fd, fd ∈ w.server.keys ↔ ∃ c, c < w.net.accepted ∧ w.net.fds fd = some (.client c)
  watched : w.server.state = .running → ∀ fd ∈ w.server.keys,
    (w.net.interest fd).isSome = !w.server.ingressPaused
  listener : w.server.state = .running → ∃ mask,
    w.net.interest w.server.listenFd = some mask ∧ mask.readable = !w.server.ingressPaused

section

variable {setup : Setup} {w v : World} {q : Proc Nat}

theorem Serving.inStep (serving : Serving setup w) : InStep w := by
  have base := serving.base
  constructor
  · intro fd
    constructor
    · intro member
      rcases base.client member with ⟨_, c, _, _, connected⟩
      exact ⟨c, (base.table fd c connected.fd).2, connected.fd⟩
    · rintro ⟨c, _, there⟩
      exact (base.table fd c there).1 nofun
  · exact fun _ fd member => base.asked fd member nofun
  · exact fun running => (base.listening running).2

/-- The descriptors of the server. Between events its tables agree; no request of a pause or a
resume is one that epoll must refuse; every call is made on a descriptor that is open and is
what the call takes it for, also when its number was handed out before; an event is handled
only while its descriptor is still the one epoll reported; a connection is closed only while
it is open and stays closed; and none is open when `run` has returned. -/
theorem descriptors_in_step (launch : Launch setup w) (moment : ServerRun setup w q v) :
    (Boundary q → InStep v) ∧
    (∀ op fd, q.Calls (.point (.watching op fd)) → Grantable v fd op) ∧
    (∀ call, q.Calls (.net call) → InUse v call) ∧
    (∀ event, q.Calls (.point (.handling event)) → v.server.state = .running →
      v.net.fds event.fd ≠ none ∧ v.net.fds event.fd = v.past.polled event.fd) ∧
    (∀ c q' u, c < v.net.accepted → (v.net.conns c).closed = true →
      Prog.Reach World.exec Outside q v q' u → (u.net.conns c).closed = true) ∧
    (∀ result, q = .pure result → Shut v) := by
  rcases moment.reached launch with ⟨keep, holds⟩
  refine ⟨?_, ?_, ?_, ?_, ?_, ?_⟩
  · exact fun boundary => (moment.serving launch boundary).inStep
  · exact fun op fd next => Logic.wp_pre keep holds next
  · exact fun call next => Logic.wp_pre keep holds next
  · exact fun event next running => (Logic.wp_pre keep holds next).2 running
  · intro c q' u old closed later
    have kept : Kept v u := Logic.reach_closed keep holds Outside.allowed (fun _ => .of_same rfl)
      Kept.trans (fun granted => granted.kept) (fun move => .of_still move.still) later
    exact kept.closed c old closed
  · rintro result rfl
    exact (Logic.wp_post keep holds).2

theorem descriptors_in_step_visit : ∃ q v, ServerRun machineSetup machine q v ∧ Boundary q ∧
    v.net.accepted = 1 ∧ (v.net.conns 0).closed = true ∧ InStep v := by
  rcases visit_reaches (visit oneCaller) 35 .epollWait
    (fun v => v.net.accepted = 1 ∧ (v.net.conns 0).closed = true) (by decide +kernel) with
    ⟨q, v, moment, waits, one, closed⟩
  have boundary : Boundary q := .waiting waits
  exact ⟨q, v, moment, boundary, one, closed,
    (descriptors_in_step machine_launch moment).1 boundary⟩

theorem Final.trans {u : World} (first : Final w v) (second : Final v u) : Final w u :=
  ⟨second.state, second.paused.trans first.paused, second.accepted.trans first.accepted,
    second.published.trans first.published, second.listenFd ∘ first.listenFd,
    second.clients ∘ first.clients⟩

end

end TelemetryServer.Server
