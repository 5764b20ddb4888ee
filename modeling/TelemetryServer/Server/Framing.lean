import TelemetryServer.Lib.Interleaving
import TelemetryServer.Server.Runs

namespace TelemetryServer.Server

open Protocol Ipc Atomic Interleaving

/-- The frames of a connection that may be published: those received before the first one
that is malformed. -/
def acceptable (conn : Conn) : List Frame :=
  (frames conn.received).takeWhile (fun frame => decide frame.Valid)

/-- The server stands between two events. -/
inductive Boundary : Proc Nat → Prop
  | waiting {q : Proc Nat} : q.Calls .epollWait → Boundary q
  | before {q : Proc Nat} (event : Event) : q.Calls (.point (.handling event)) → Boundary q
  | after {q : Proc Nat} (event : Event) : q.Calls (.point (.handled event true)) → Boundary q

structure Framed (w : World) : Prop where
  published : ∀ c < w.net.accepted, fromConn w.ring.published c = acceptable (w.net.conns c)
  removed : ∀ c < w.net.accepted, (∃ frame ∈ frames (w.net.conns c).received, ¬ frame.Valid) →
    (w.net.conns c).closed = true ∧ ∀ fd, w.net.fds fd ≠ some (.client c)
  unread : ∀ c fd, w.net.fds fd = some (.client c) → ∃ buffer, (fd, buffer) ∈ w.server.clients ∧
    buffer.unread = (w.net.conns c).received.drop
      (kFrameSize * ((w.net.conns c).received.length / kFrameSize))
  interleaved : Interleaves
    (fun c => if c < w.net.accepted then acceptable (w.net.conns c) else []) w.ring.frames

section

variable {setup : Setup} {w v : World} {q : Proc Nat} {K : Contract}

theorem ServerRun.serving (launch : Launch setup w) (moment : ServerRun setup w q v)
    (boundary : Boundary q) : Serving setup v := by
  rcases moment.reached launch with ⟨keep, holds⟩
  cases boundary with
  | waiting next => exact (Logic.wp_pre keep holds next).1
  | before event next => exact (Logic.wp_pre keep holds next).1
  | after event next => exact ((Logic.wp_pre keep holds next).1 rfl).1

/-- Where a handler has returned and no descriptor of the server's own has failed, the
server stands between two events. -/
theorem ServerRun.returned {event : Event} {ok : Bool} (launch : Launch setup w)
    (moment : ServerRun setup w q v) (returns : q.Calls (.point (.handled event ok)))
    (fine : ok = false → v.past.failed = false) : Serving setup v := by
  rcases moment.reached launch with ⟨keep, holds⟩
  have known := Logic.wp_pre keep holds returns
  cases ok with
  | true => exact (known.1 rfl).1
  | false =>
      rcases known.2 rfl with broken | ⟨_, serving⟩
      · exact absurd broken.failed (by rw [fine rfl]; nofun)
      · exact serving

/-- An open connection has its frames published up to the bytes in its buffer. -/
theorem Base.open_conn {asked : Int → Bool} {fd : Int} {c : Nat} (keep : Shared K w)
    (base : Base setup none asked w) (there : w.net.fds fd = some (.client c)) :
    (∃ buffer, (fd, buffer) ∈ w.server.clients ∧
      (w.net.conns c).received = bytesOf (fromConn w.ring.published c) ++ buffer.unread ∧
      buffer.unread.length < kFrameSize) ∧
    frames (w.net.conns c).received = fromConn w.ring.published c ∧
    (∀ frame ∈ frames (w.net.conns c).received, frame.Valid) := by
  rcases base.client ((base.table fd c there).1 nofun) with ⟨buffer, c', inside, small, connected⟩
  have same : c' = c := by
    have equal := connected.fd.symm.trans there
    exact Handle.client.inj (Option.some.inj equal)
  subst same
  have all : frames (w.net.conns c').received = fromConn w.ring.published c' := by
    rw [connected.received, frames_bytesOf_append, frames_of_lt small.2, List.append_nil]
  refine ⟨⟨buffer, inside, connected.received, small.2⟩, all, ?_⟩
  rw [all]
  intro frame member
  simpa using fromConn_valid keep c' frame member

theorem Base.published {asked : Int → Bool} (keep : Shared K w) (base : Base setup none asked w)
    {c : Nat} (old : c < w.net.accepted) :
    fromConn w.ring.published c = acceptable (w.net.conns c) := by
  by_cases opened : ∃ fd, w.net.fds fd = some (.client c)
  · rcases opened with ⟨fd, there⟩
    rcases base.open_conn keep there with ⟨_, all, valid⟩
    rw [acceptable, List.takeWhile_eq_self_iff.mpr (by simpa using valid), all]
  · exact (base.gone c old (not_exists.mp opened)).2.published

theorem Base.framed {asked : Int → Bool} (keep : Shared K w) (base : Base setup none asked w) :
    Framed w := by
  constructor
  · exact fun c old => base.published keep old
  · rintro c old ⟨frame, member, invalid⟩
    have none : ∀ fd, w.net.fds fd ≠ some (.client c) := by
      intro fd there
      exact invalid ((base.open_conn keep there).2.2 frame member)
    exact ⟨(base.gone c old none).1, none⟩
  · intro c fd there
    rcases (base.open_conn keep there).1 with ⟨buffer, inside, received, short⟩
    refine ⟨buffer, inside, ?_⟩
    have whole : (w.net.conns c).received.length / kFrameSize =
        (fromConn w.ring.published c).length := by
      rw [received, List.length_append, bytesOf_length, Nat.mul_add_div (by decide),
        Nat.div_eq_of_lt short, Nat.add_zero]
    rw [whole, ← bytesOf_length, received, List.drop_left]
  · have parts : (fun c => if c < w.net.accepted then acceptable (w.net.conns c) else []) =
        part w.ring.published := by
      funext c
      split
      · next old => exact (base.published keep old).symm
      · next new =>
          rw [part, List.filter_eq_nil_iff.mpr, List.map_nil]
          intro entry member
          have less := base.origins entry member
          simp only [decide_eq_true_eq]
          omega
    rw [parts]
    exact interleaves_part _

/-- At every return of `handleEvent`, what a connection has published depends only on the
bytes received from it. -/
theorem framing_independent {event : Event} {ok : Bool} (launch : Launch setup w)
    (moment : ServerRun setup w q v) (returns : q.Calls (.point (.handled event ok)))
    (fine : ok = false → v.past.failed = false) : Framed v :=
  (moment.returned launch returns fine).base.framed (moment.reached launch).1

theorem framing_independent_visit : ∃ q v event, ServerRun machineSetup machine q v ∧
    q.Calls (.point (.handled event true)) ∧ (v.net.conns 0).received = telegram ∧ Framed v := by
  rcases visit_reaches (visit oneCaller) 32 (.point (.handled ⟨7, { readable := true }⟩ true))
    (fun v => (v.net.conns 0).received = telegram) (by decide +kernel) with
    ⟨q, v, moment, returns, received⟩
  exact ⟨q, v, _, moment, returns, received, framing_independent machine_launch moment returns nofun⟩

/-- Backpressure keeps the ring from overflowing: it holds less than the pause threshold
whenever ingress is open between two events, and never more than one batch above it. -/
theorem ring_never_overflows (launch : Launch setup w) (moment : ServerRun setup w q v) :
    kFrameSize * v.ring.occupancy ≤ kPauseIngressBytes + 4064 ∧
    (Boundary q → v.server.ingressPaused = false →
      kFrameSize * v.ring.occupancy < kPauseIngressBytes) ∧
    (∀ span count, q.Calls (.point (.pushed span count)) →
      kFrameSize ∣ span.length ∧ count = (frames span).length) ∧
    ¬ q.Calls (.log .sharedRingFull) := by
  rcases moment.reached launch with ⟨keep, holds⟩
  refine ⟨?_, ?_, ?_, ?_⟩
  · calc kFrameSize * v.ring.occupancy
      _ ≤ kFrameSize * maxPending := Nat.mul_le_mul_left _ keep.ring.pending
      _ ≤ kPauseIngressBytes + 4064 := Nat.mul_div_le _ _
  · intro boundary unpaused
    exact (moment.serving launch boundary).room unpaused
  · intro span count next
    have known := Logic.wp_pre keep holds next
    exact ⟨known.2, known.1⟩
  · intro next
    exact Logic.wp_pre keep holds next

theorem ring_never_overflows_visit : ∃ q v, ServerRun machineSetup machine q v ∧ Boundary q ∧
    v.ring.occupancy = 1 ∧ v.server.ingressPaused = false ∧
    kFrameSize * v.ring.occupancy < kPauseIngressBytes := by
  rcases visit_reaches (visit oneCaller) 35 .epollWait
    (fun v => v.ring.occupancy = 1 ∧ v.server.ingressPaused = false) (by decide +kernel) with
    ⟨q, v, moment, waits, one, unpaused⟩
  have boundary : Boundary q := .waiting waits
  exact ⟨q, v, moment, boundary, one, unpaused,
    (ring_never_overflows machine_launch moment).2.1 boundary unpaused⟩

/-- A client that sends only well-formed frames is removed only after all of its bytes and
its end of stream have been received. This is about what the handlers remove; the clean-up when
the event loop has ended, which closes whatever is left, is not covered. -/
theorem finished_sender_kept {c : Nat} (launch : Launch setup w) (moment : ServerRun setup w q v)
    (boundary : Boundary q) (running : v.server.state = .running) (old : c < v.net.accepted)
    (client : (v.net.conns c).registered = true) (fine : (v.net.conns c).broken = false)
    (valid : ∀ frame ∈ frames ((v.net.conns c).received ++ (v.net.conns c).inbound), frame.Valid)
    (removed : (v.net.conns c).closed = true) :
    (v.net.conns c).inbound = [] ∧ (v.net.conns c).eofRead = true ∧
      fromConn v.ring.published c = frames (v.net.conns c).received := by
  have base := (moment.serving launch boundary).base
  have none : ∀ fd, v.net.fds fd ≠ some (.client c) := by
    intro fd there
    rcases base.client ((base.table fd c there).1 nofun) with ⟨_, c', _, _, connected⟩
    have equal := connected.fd.symm.trans there
    have same : c' = c := Handle.client.inj (Option.some.inj equal)
    rw [← same, connected.opened] at removed
    cases removed
  rcases (base.gone c old none).2 with ⟨published, reason⟩
  have received : ∀ frame ∈ frames (v.net.conns c).received, frame.Valid := by
    intro frame member
    exact valid frame ((frames_front _ _).subset member)
  cases reason with
  | rejected frame member invalid => exact absurd (received frame member) invalid
  | finished read fin empty =>
      refine ⟨empty, read, published.trans ?_⟩
      exact List.takeWhile_eq_self_iff.mpr (by simpa using received)
  | broken bad => exact absurd bad (by rw [fine]; nofun)
  | unregistered never => exact absurd client (by rw [never]; nofun)
  | draining state => exact absurd state (by rw [running]; nofun)

theorem finished_sender_kept_visit : ∃ q v, ServerRun machineSetup machine q v ∧ Boundary q ∧
    (v.net.conns 0).closed = true ∧ (v.net.conns 0).received = telegram ∧
    (v.net.conns 0).eofRead = true ∧ fromConn v.ring.published 0 = frames telegram := by
  rcases visit_reaches (visit oneCaller) 35 .epollWait
    (fun v => v.server.state = .running ∧ 0 < v.net.accepted ∧ (v.net.conns 0).registered = true ∧
      (v.net.conns 0).broken = false ∧ (v.net.conns 0).closed = true ∧
      (v.net.conns 0).received = telegram ∧
      ∀ frame ∈ frames ((v.net.conns 0).received ++ (v.net.conns 0).inbound), frame.Valid)
    (by decide +kernel) with
    ⟨q, v, moment, waits, running, old, client, fine, removed, received, valid⟩
  have boundary : Boundary q := .waiting waits
  have kept := finished_sender_kept machine_launch moment boundary running old client fine valid
    removed
  rw [received] at kept
  exact ⟨q, v, moment, boundary, removed, received, kept.2⟩

end

end TelemetryServer.Server
