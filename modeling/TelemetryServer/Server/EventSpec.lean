import TelemetryServer.Server.ReadSpec

namespace TelemetryServer.Server

open Protocol Ipc Atomic

/-- What a handler of an event on `fd` leaves. It answers false only after a failure. -/
def Handled (setup : Setup) (fd : Int) (w : World) (ok : Bool) (v : World) : Prop :=
  if ok = true then Serving setup v ∧ Passed setup fd w v
  else Broken v ∨ v.past.acceptFailed = true ∧ Serving setup v

section

variable {K : Contract} {setup : Setup} {t w v : World} {fd : Int}

theorem Passed.rely (passed : Passed setup fd t w) (move : ServerRely K w v) : Passed setup fd t v :=
  passed.trans (.of_still fd move.still move.drift.noted move.drift.counter)

theorem Handled.rely {ok : Bool} {u : World} (handled : Handled setup fd w ok v)
    (move : ServerRely K v u) : Handled setup fd w ok u := by
  cases ok with
  | true => exact ⟨handled.1.rely move, handled.2.rely move⟩
  | false =>
      rcases handled with broken | ⟨refused, serving⟩
      · exact Or.inl (broken.rely move)
      · exact Or.inr ⟨move.drift.noted.acceptFailed refused, serving.rely move⟩

/-- A server whose own descriptor has failed. -/
theorem Awake.broken (awake : Awake setup w) (failed : w.past.failed = true) : Broken w :=
  ⟨failed, awake.accounted, awake.undrained⟩

/-- Handling an own descriptor ends with the check of its error bits. -/
theorem ownError_rule {event : Event} {p : Proc Bool} {message : String}
    {Q : Bool → World → Prop} (keep : Shared K w) (first : (serverLogic K setup).wp p Q w)
    (stable : ∀ {ok v u}, ServerRely K v u → Q ok v → Q ok u)
    (failing : event.events.failed = true → ∀ v, Q true v → Q false v) :
    (serverLogic K setup).wp (do
      if ← p then
        if event.events.failed then
          Proc.log (.cerr message)
          return false
        else
          return true
      else
        return false) Q w := by
  apply Logic.wp_seq keep first
  intro ok a _ done
  cases ok with
  | false => exact fun v move _ => stable move done
  | true =>
      cases error : event.events.failed with
      | false => exact fun v move _ => stable move done
      | true =>
          apply log_rule rfl
          intro b toB _ v move _
          exact failing error v (stable (toB.trans move) done)

theorem handleListener_rule {event : Event} (serving : Serving setup w)
    (pending : Pending setup w event) (mine : event.fd = w.server.listenFd) :
    (serverLogic K setup).wp (handleListener event) (Handled setup event.fd w) w := by
  have running : w.server.state = .running := by
    cases state : w.server.state with
    | running => rfl
    | draining =>
        have nonneg := pending.nonneg
        rw [mine, (serving.draining state).1] at nonneg
        omega
  apply memory_rule
  intro a toA keepA
  apply ownError_rule keepA
  · split
    · next accepts =>
        have unpaused : w.server.ingressPaused = false := by
          cases paused : w.server.ingressPaused with
          | false => rfl
          | true => simp [paused] at accepts
        have ingress := (serving.ingress running unpaused).rely toA
        rw [← toA.still.server]
        apply Logic.wp_mono (acceptClients_rule event.fd ingress)
        rintro ok v _ ⟨accepted, refused⟩
        have passed : Passed setup event.fd w v :=
          ((Passed.refl setup event.fd w).rely toA).trans accepted.passed
        cases ok with
        | true => exact ⟨accepted.ingress.serving, passed⟩
        | false => exact Or.inr ⟨refused rfl, accepted.ingress.serving⟩
    · intro v move _
      have since := toA.trans move
      exact ⟨serving.rely since, (Passed.refl setup event.fd w).rely since⟩
  · exact fun move handled => handled.rely move
  · intro error v handled
    exact Or.inl (handled.1.broken
      (handled.2.noted.failed (pending.failed (Or.inr (Or.inr mine)) error)))

/-- The counter that was found nonzero can be read without waiting. -/
theorem consumeEvent_rule (awake : Awake setup w) (passed : Passed setup setup.spaceReadyFd t w)
    (counted : 0 < w.spaceReady) :
    (serverLogic K setup).wp (consumeEvent .spaceReady) (fun ok v => if ok = true then
      Awake setup v ∧ Passed setup setup.spaceReadyFd t v else Broken v) w := by
  apply Logic.wp_iterate (fun _ v => ServerRely K w v)
  · exact fun v move _ => move
  intro _ a _ since b move keepB
  have sinceB := since.trans move
  have awakeB := awake.rely sinceB
  have passedB := passed.rely sinceB
  refine ⟨lt_of_lt_of_le counted sinceB.drift.counter, ?_⟩
  intro r u answer
  cases r with
  | ok =>
      simp only [World.exec, eventfdRead, Option.map_eq_some_iff, Option.ite_none_right_eq_some]
        at answer
      rcases answer with ⟨value, ⟨_, counted⟩, rfl⟩
      rw [← Option.some.inj counted]
      have after : Shared K b → Shared K { b with spaceReady := 0 } :=
        fun keep => ⟨keep.ring, keep.ended, keep.pid⟩
      refine ⟨after keepB, ⟨⟨.refl _, rfl, rfl, rfl, rfl, Or.inl rfl, Or.inl ⟨rfl, rfl⟩, id, after⟩,
        .of_same rfl rfl rfl, .of_same rfl⟩, ?_⟩
      intro v later _
      have still : Still b { b with spaceReady := 0 } :=
        ⟨rfl, rfl, rfl, rfl, rfl, fun _ => .refl _⟩
      have awakeC : Awake setup { b with spaceReady := 0 } :=
        ⟨awakeB.base.still still (.refl _), awakeB.told, awakeB.room, awakeB.draining,
          awakeB.undrained⟩
      have passedC : Passed setup setup.spaceReadyFd t { b with spaceReady := 0 } :=
        ⟨passedB.noted, passedB.accepted, passedB.running, passedB.others, passedB.ended,
          fun apart => absurd rfl apart⟩
      exact ⟨awakeC.rely later, passedC.rely later⟩
  | eintr =>
      simp only [World.exec, eventfdRead, Option.map_some, Option.some.injEq] at answer
      subst u
      exact ⟨keepB, .refl b, fun v later _ => sinceB.trans later⟩
  | error =>
      simp only [World.exec, eventfdRead, Option.map_some, Option.some.injEq] at answer
      subst u
      have step : Own b (World.fail b) := exec_fail b
      refine ⟨step.keeps keepB, ⟨step.grants, .of_same rfl rfl rfl, .of_same rfl⟩, ?_⟩
      have still : Still b (World.fail b) := ⟨rfl, rfl, rfl, rfl, rfl, fun _ => .refl _⟩
      have broken : Broken (World.fail b) := ⟨rfl, awakeB.accounted.still still, awakeB.undrained⟩
      apply log_rule rfl
      intro d toD _ v later _
      exact broken.rely (toD.trans later)

/-- The end of a pause or a resume, once epoll watches what it should. -/
theorem switched_rule (enabled : Bool) {line : Nat → Line} (plain : ∀ n, (line n).plain = true)
    (base : Base setup none (fun _ => enabled) w) (told : w.past.dataOwed = false)
    (running : w.server.state = .running) (undrained : w.past.drained = false)
    (room : enabled = true → Room w) (waits : enabled = false → Waits w) (passed : Passed setup fd t w) :
    (serverLogic K setup).wp (do
      update (fun m => { m with ingressPaused := !enabled })
      let pending ← pendingBytes
      Proc.log (line pending)
      return true) (Handled setup fd t) w := by
  apply update_rule
  · intro draining
    rw [running] at draining
    cases draining
  intro a toA keepB
  have baseA := base.still toA.still toA.drift.view
  have passedA := passed.rely toA
  have drift := toA.drift.trans (update_own (fun m => { m with ingressPaused := !enabled }) a).drift
  have serving : Serving setup { a with server := { a.server with ingressPaused := !enabled } } := by
    refine ⟨⟨?_, ?_, ?_, ?_, toA.drift.noted.drained.trans undrained⟩, ?_⟩
    · have known := baseA.remember (m := { a.server with ingressPaused := !enabled }) rfl rfl rfl id id
      rw [show (fun _ : Int => enabled) = fun _ => !!enabled by simp] at known
      exact known
    · exact toA.drift.dataOwed.trans told
    · intro on
      exact (room (by simpa using on)).drift drift
    · intro draining
      rw [toA.still.server, running] at draining
      cases draining
    · intro _ off
      exact (waits (by simpa using off)).drift drift
  have passedB : Passed setup fd t { a with server := { a.server with ingressPaused := !enabled } } :=
    ⟨passedA.noted, passedA.accepted, passedA.running, passedA.others, passedA.ended, passedA.counter⟩
  apply Logic.wp_seq keepB (pendingBytes_rule keepB)
  rintro n b _ ⟨_, _, l, toL, toB, _⟩
  apply log_rule (plain n)
  intro d toD _ v move _
  have since := ((toL.trans toB).trans toD).trans move
  exact ⟨serving.rely since, passedB.rely since⟩

theorem kResume_lt_kPause : kResumeIngressBytes < kPauseIngressBytes := by decide

/-- The resume test either turns ingress on again or finds that a wake-up will follow. -/
theorem resumeIngress_rule (awake : Awake setup w) (passed : Passed setup fd t w) :
    (serverLogic K setup).wp resumeIngress (Handled setup fd t) w := by
  apply memory_rule
  intro a toA keepA
  have awakeA := awake.rely toA
  have passedA := passed.rely toA
  split
  case isFalse other =>
    intro v move _
    refine ⟨⟨awakeA.rely move, ?_⟩, passedA.rely move⟩
    intro running paused
    rw [(toA.trans move).still.server] at running paused
    exact absurd ⟨running, paused⟩ other
  next paused =>
  apply Logic.wp_seq keepA (pendingBytes_rule keepA)
  rintro _ b keepB ⟨_, rfl, l, toL, toB, rfl⟩
  have toB' := (toA.trans toL).trans toB
  have awakeB := awake.rely toB'
  have passedB := passed.rely toB'
  split
  case isFalse full =>
    have waits : Waits l := Or.inl (Nat.lt_of_not_le full)
    exact fun v move _ => ⟨⟨awakeB.rely move, fun _ _ => waits.drift (toB.trans move).drift⟩,
      passedB.rely move⟩
  next low =>
  have server : b.server = w.server := toB'.still.server
  have base : Base setup none (fun _ => !true) b := by
    have known := awakeB.base
    rw [server, paused.2] at known
    exact known
  have running : b.server.state = .running := by rw [server, paused.1]
  apply Logic.wp_seq keepB (updateIngressInterest_rule fd true base awakeB.undrained running)
  intro ok d keepD result
  cases ok with
  | false =>
      apply log_rule rfl
      exact fun e toE _ v move _ => Or.inl (Broken.rely result (toE.trans move))
  | true =>
      rcases result with ⟨baseD, aside⟩
      have room : Room l := lt_of_le_of_lt low kResume_lt_kPause
      exact switched_rule true (fun _ => rfl) baseD (aside.drift.dataOwed.trans awakeB.told)
        (by rw [aside.server, running]) (aside.drift.noted.drained.trans awakeB.undrained)
        (fun _ => room.drift (toB.drift.trans aside.drift)) nofun
        (passedB.trans aside.passed)

theorem pauseIngress_rule (keep : Shared K w) (filled : Filled setup w)
    (passed : Passed setup fd t w) :
    (serverLogic K setup).wp pauseIngress (Handled setup fd t) w := by
  apply Logic.wp_seq keep
    (updateIngressInterest_rule fd false filled.base filled.undrained filled.running)
  intro ok a _ result
  cases ok with
  | false =>
      apply log_rule rfl
      exact fun e toE _ v move _ => Or.inl (Broken.rely result (toE.trans move))
  | true =>
      rcases result with ⟨base, aside⟩
      exact switched_rule false (fun _ => rfl) base (aside.drift.dataOwed.trans filled.told)
        (by rw [aside.server, filled.running]) (aside.drift.noted.drained.trans filled.undrained)
        nofun (fun _ => filled.waits.drift aside.drift)
        (passed.trans aside.passed)

theorem handleSpace_rule {event : Event} (keep : Shared K w) (serving : Serving setup w)
    (pending : Pending setup w event) (mine : event.fd = setup.spaceReadyFd) :
    (serverLogic K setup).wp (handleSpace event) (Handled setup event.fd w) w := by
  apply ownError_rule keep
  · split
    · next readable =>
        rw [mine]
        apply Logic.wp_seq keep (consumeEvent_rule serving.toAwake (.refl setup setup.spaceReadyFd w)
          (pending.space mine readable))
        intro ok a _ result
        cases ok with
        | false => exact fun v move _ => Or.inl (Broken.rely result move)
        | true => exact resumeIngress_rule result.1 result.2
    · exact fun v move _ => ⟨serving.rely move, (Passed.refl setup event.fd w).rely move⟩
  · exact fun move handled => handled.rely move
  · intro error v handled
    exact Or.inl (handled.1.broken (handled.2.noted.failed (pending.failed (Or.inl mine) error)))

/-- While ingress is on, a client that has hung up is removed unless it may still be read. -/
theorem handleHangup_rule {event : Event} (serving : Serving setup w)
    (passed : Passed setup event.fd t w)
    (broken : w.server.ingressPaused = false → event.events.hangup = true →
      ∀ c, w.net.fds event.fd = some (.client c) → (w.net.conns c).broken = true) :
    (serverLogic K setup).wp (handleHangup event) (Handled setup event.fd t) w := by
  have stay : ∀ a, ServerRely K w a →
      (serverLogic K setup).wp (pure true) (Handled setup event.fd t) a := fun a toA v move _ =>
    ⟨serving.rely (toA.trans move), passed.rely (toA.trans move)⟩
  apply memory_rule
  intro a toA keepA
  split
  · exact stay a toA
  next on =>
  split
  · next leaves =>
      have unpaused : w.server.ingressPaused = false := by simpa using on
      have running : w.server.state = .running := by
        cases state : w.server.state with
        | running => rfl
        | draining =>
            have member := leaves.2
            rw [Memory.keys, (serving.draining state).2.1] at member
            cases member
      have ingress := (serving.ingress running unpaused).rely toA
      have reason : ∀ c, a.net.fds event.fd = some (.client c) → Reason a c := by
        intro c found
        rw [toA.still.fds] at found
        exact .broken ((toA.still.conns c).broken (broken unpaused leaves.1 c found))
      have member : event.fd ∈ a.server.keys := by
        rw [toA.still.server]
        exact leaves.2
      apply Logic.wp_seq keepA (remove_rule keepA ingress member (passed.rely toA) reason)
      rintro _ b _ finished v move _
      have last : Finished setup t event.fd (true, false) v := Finished.rely finished move
      exact ⟨last.2.1, last.1⟩
  · exact stay a toA

theorem handleClient_rule {event : Event} (config : ServerConfig)
    (serving : Serving setup w) (pending : Pending setup w event) :
    (serverLogic K setup).wp (handleClient config event) (Handled setup event.fd w) w := by
  apply memory_rule
  intro a toA keepA
  have servingA := serving.rely toA
  split
  · next reads =>
      have parts : w.server.ingressPaused = false ∧ event.events.readable = true := by
        simpa using reads
      have unpaused : a.server.ingressPaused = false := by rw [toA.still.server, parts.1]
      apply Logic.wp_seq keepA (readClient_rule config servingA unpaused)
      rintro ⟨ok, pause⟩ b keepB finished
      cases ok with
      | false => exact fun v move _ => Or.inl (Broken.rely finished move)
      | true =>
          have passed : Passed setup event.fd w b :=
            ((Passed.refl setup event.fd w).rely toA).trans finished.1
          cases pause with
          | true => exact pauseIngress_rule keepB finished.2 passed
          | false =>
              rcases finished.2 with ⟨servingB, _, clear⟩
              apply handleHangup_rule servingB passed
              intro _ hangup c found
              rcases clear c found with ⟨before, broken⟩
              have was : w.net.fds event.fd = some (.client c) := by rw [← toA.still.fds, before]
              have grows := toA.still.conns c
              rcases (pending.hangup c was hangup).1 with fin | bad
              · exact broken (Or.inl (grows.fin fin).1)
              · exact broken (Or.inr (grows.broken bad))
  · next skips =>
      apply handleHangup_rule servingA ((Passed.refl setup event.fd w).rely toA)
      intro unpaused hangup c found
      rw [toA.still.server] at unpaused
      rw [toA.still.fds] at found
      have unreadable : event.events.readable = false := by
        cases readable : event.events.readable with
        | false => rfl
        | true => simp [unpaused, readable] at skips
      exact (toA.still.conns c).broken ((pending.hangup c found hangup).2 unreadable)

theorem Pending.rely {event : Event} (pending : Pending setup w event) (move : ServerRely K w v) :
    Pending setup v event := by
  have still := move.still
  constructor
  · exact pending.nonneg
  · rw [still.server, still.fds]
    exact pending.there
  · rw [still.server, still.fds, move.drift.noted.polled]
    exact pending.same
  · intro c found hangup
    rw [still.fds] at found
    have grows := still.conns c
    rcases pending.hangup c found hangup with ⟨ended, unreadable⟩
    refine ⟨?_, fun no => grows.broken (unreadable no)⟩
    rcases ended with fin | bad
    · exact Or.inl (grows.fin fin).1
    · exact Or.inr (grows.broken bad)
  · exact fun mine readable => lt_of_lt_of_le (pending.space mine readable) move.drift.counter
  · rw [still.server]
    exact fun own error => move.drift.noted.failed (pending.failed own error)

/-- What is known of an event outlives the handling of another. -/
theorem Pending.passed {event : Event} (pending : Pending setup w event)
    (base : Base setup none (fun _ => !w.server.ingressPaused) w) (serving : Serving setup v)
    (passed : Passed setup fd w v) (apart : event.fd ≠ fd) : Pending setup v event := by
  constructor
  · exact pending.nonneg
  · intro running
    have there := pending.there (passed.running running).1
    rw [passed.others _ apart there running]
    exact there
  · intro running
    have before := (passed.running running).1
    rw [passed.others _ apart (pending.there before) running, passed.noted.polled]
    exact pending.same before
  · intro c found hangup
    have running : v.server.state = .running := by
      cases state : v.server.state with
      | running => rfl
      | draining =>
          have member := (serving.base.table _ c found).1 nofun
          rw [Memory.keys, (serving.draining state).2.1] at member
          cases member
    have there := pending.there (passed.running running).1
    rw [passed.others _ apart there running] at found
    have ended := passed.ended c (base.table _ c found).2
    rcases pending.hangup c found hangup with ⟨before, unreadable⟩
    exact ⟨before.imp ended.1 ended.2, fun no => ended.2 (unreadable no)⟩
  · intro mine readable
    have other : fd ≠ setup.spaceReadyFd := fun same => apart (mine.trans same.symm)
    exact lt_of_lt_of_le (pending.space mine readable) (passed.counter other)
  · intro own error
    apply passed.noted.failed (pending.failed _ error)
    rcases own with space | signal | listener
    · exact Or.inl space
    · exact Or.inr (Or.inl signal)
    · right
      right
      cases state : v.server.state with
      | running => rw [listener, (passed.running state).2]
      | draining =>
          have nonneg := pending.nonneg
          rw [listener, (serving.draining state).1] at nonneg
          omega

theorem Handled.before {ok : Bool} {u : World} (passed : Passed setup fd w v)
    (handled : Handled setup fd v ok u) : Handled setup fd w ok u := by
  cases ok with
  | true => exact ⟨handled.1, passed.trans handled.2⟩
  | false => exact handled

theorem handleEvent_rule {event : Event} (serving : Serving setup w)
    (pending : Pending setup w event) :
    (serverLogic K setup).wp (handleEvent setup event) (Handled setup event.fd w) w := by
  apply memory_rule
  intro a toA keepA
  have servingA := serving.rely toA
  have pendingA := pending.rely toA
  have passed : Passed setup event.fd w a := (Passed.refl setup event.fd w).rely toA
  have after : (serverLogic K setup).wp (if event.fd = w.server.listenFd then handleListener event
      else if event.fd = setup.spaceReadyFd then handleSpace event
      else handleClient setup.config event) (Handled setup event.fd a) a := by
    split
    · next mine => exact handleListener_rule servingA pendingA (by rw [mine, toA.still.server])
    split
    · next mine => exact handleSpace_rule keepA servingA pendingA mine
    · exact handleClient_rule setup.config servingA pendingA
  exact Logic.wp_mono after (fun _ _ _ handled => handled.before passed)

end

end TelemetryServer.Server
