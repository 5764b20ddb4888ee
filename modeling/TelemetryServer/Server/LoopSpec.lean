import TelemetryServer.Server.EventSpec

namespace TelemetryServer.Server

open Protocol Ipc Atomic

section

variable {K : Contract} {setup : Setup} {t w v : World}

/-- What the signals read so far stand for. -/
structure Noticed (state : SignalState) (past : History) : Prop where
  shutdown : state.shutdownRequested = true → past.shutdown = true
  reader : state.readerTerminated = true → past.readerGone = true

theorem Noticed.keep {state : SignalState} {a b : History} (noticed : Noticed state a)
    (noted : Noted a b) : Noticed state b :=
  ⟨noted.shutdown ∘ noticed.shutdown, noted.readerGone ∘ noticed.reader⟩

theorem noteSignal_rule {state : SignalState} {info : SignalInfo} (noticed : Noticed state w.past)
    (shutdown : World.endsServer info = true → w.past.shutdown = true)
    (reader : info.signo = World.SIGCHLD → info.pid = setup.readerPid →
      (info.code = World.CLD_EXITED ∨ info.code = World.CLD_KILLED ∨ info.code = World.CLD_DUMPED) →
      w.past.readerGone = true) :
    (serverLogic K setup).wp (noteSignal setup state info)
      (fun state' v => ServerRely K w v ∧ Noticed state' v.past) w := by
  have stay : (serverLogic K setup).wp (pure state)
      (fun state' v => ServerRely K w v ∧ Noticed state' v.past) w :=
    fun v move _ => ⟨move, noticed.keep move.drift.noted⟩
  have say : ∀ (line : Line) (state' : SignalState), line.plain = true → Noticed state' w.past →
      (serverLogic K setup).wp (do
        Proc.log line
        return state') (fun state' v => ServerRely K w v ∧ Noticed state' v.past) w := by
    intro line state' plain next
    apply log_rule plain
    intro a toA _ v move _
    have since := toA.trans move
    exact ⟨since, next.keep since.drift.noted⟩
  rw [noteSignal]
  split
  · next ends =>
      apply say _ _ rfl
      refine ⟨fun _ => shutdown ?_, noticed.reader⟩
      simpa [World.endsServer] using ends
  split
  · next child =>
      have gone : ∀ code, info.code = code → (code = World.CLD_EXITED ∨ code = World.CLD_KILLED ∨
          code = World.CLD_DUMPED) → Noticed { state with readerTerminated := true } w.past := by
        intro code same which
        exact ⟨noticed.shutdown, fun _ => reader child.1 child.2 (same ▸ which)⟩
      split
      · next code => exact say _ _ rfl (gone _ code (Or.inl rfl))
      split
      · next code => exact say _ _ rfl (gone _ code (Or.inr (Or.inl rfl)))
      split
      · next code => exact say _ _ rfl (gone _ code (Or.inr (Or.inr rfl)))
      split
      · exact say _ _ rfl noticed
      split
      · exact say _ _ rfl noticed
      · exact stay
  · exact stay

theorem exec_signalRead {r : SignalResult} (answer : World.exec .signalRead w r = some v) :
    Still w v := by
  have kept : v.net = w.net ∧ v.server = w.server := by
    cases r with
    | info record => exact ⟨by rw [← Option.some.inj answer], by rw [← Option.some.inj answer]⟩
    | eof => exact ⟨by rw [← Option.some.inj answer]; rfl, by rw [← Option.some.inj answer]; rfl⟩
    | error e =>
        cases e <;>
          exact ⟨by rw [← Option.some.inj answer]; try rfl, by rw [← Option.some.inj answer]; try rfl⟩
  rcases kept with ⟨net, server⟩
  refine ⟨server, ?_, ?_, ?_, ?_, ?_⟩ <;> rw [net]
  exact fun _ => .refl _

theorem handleSignalFd_rule (pid : K.readerPid = setup.readerPid) :
    (serverLogic K setup).wp (handleSignalFd setup) (fun r v => ServerRely K w v ∧ match r with
      | none => v.past.failed = true
      | some state => Noticed state v.past) w := by
  apply Logic.wp_iterate (fun state v => ServerRely K w v ∧ Noticed state v.past)
  · exact fun v move _ => ⟨move, nofun, nofun⟩
  rintro state a _ ⟨since, noticed⟩
  apply own_rule .signalRead rfl (fun _ _ _ => trivial)
  intro b r d toB answer keepD _
  have own := exec_own rfl answer
  have toD : ServerRely K a d := toB.trans (own.rely (exec_signalRead answer))
  have noticedD := noticed.keep toD.drift.noted
  have sinceD := since.trans toD
  have stop : ∀ line : Line, line.plain = true → d.past.failed = true →
      (serverLogic K setup).wp (do
        Proc.log line
        return (.inr none : SignalState ⊕ Option SignalState)) (fun x u => match x with
          | .inl state => ServerRely K w u ∧ Noticed state u.past
          | .inr r => ServerRely K w u ∧ match r with
            | none => u.past.failed = true
            | some state => Noticed state u.past) d := by
    intro line plain failed
    apply log_rule plain
    intro e toE _ v move _
    have later := toE.trans move
    exact ⟨sinceD.trans later, later.drift.noted.failed failed⟩
  cases r with
  | info record =>
      have same := Option.some.inj answer
      have shutdown : World.endsServer record = true → d.past.shutdown = true := by
        intro ends
        rw [← same]
        simp [ends]
      have reader : record.signo = World.SIGCHLD → record.pid = setup.readerPid →
          (record.code = World.CLD_EXITED ∨ record.code = World.CLD_KILLED ∨
            record.code = World.CLD_DUMPED) → d.past.readerGone = true := by
        intro child about code
        have known : b.readerPid = setup.readerPid := by
          rw [← own.readerPid, keepD.pid, pid]
        rw [← same]
        simp [World.endsReader, child, about, known, or_assoc, code]
      apply Logic.wp_seq keepD (noteSignal_rule noticedD shutdown reader)
      rintro state' e _ ⟨toE, noticedE⟩ v move _
      exact ⟨(sinceD.trans toE).trans move, noticedE.keep move.drift.noted⟩
  | eof => exact stop (.cerr "[server] unexpected signalfd EOF\n") rfl (by rw [← Option.some.inj answer]; rfl)
  | error e =>
      cases e with
      | EAGAIN => exact fun v move _ => ⟨sinceD.trans move, noticedD.keep move.drift.noted⟩
      | EINTR => exact fun v move _ => ⟨sinceD.trans move, noticedD.keep move.drift.noted⟩
      | ECONNABORTED => exact stop (.perror "read(signalfd)") rfl (by rw [← Option.some.inj answer]; rfl)
      | EMFILE => exact stop (.perror "read(signalfd)") rfl (by rw [← Option.some.inj answer]; rfl)
      | other code => exact stop (.perror "read(signalfd)") rfl (by rw [← Option.some.inj answer]; rfl)

theorem Passed.of_draining {fd : Int} (draining : v.server.state = .draining)
    (noted : Noted w.past v.past) (accepted : w.net.accepted ≤ v.net.accepted)
    (ended : ∀ c, c < w.net.accepted →
      ((w.net.conns c).fin = true → (v.net.conns c).fin = true) ∧
      ((w.net.conns c).broken = true → (v.net.conns c).broken = true))
    (counter : fd ≠ setup.spaceReadyFd → w.spaceReady ≤ v.spaceReady) : Passed setup fd w v := by
  refine ⟨noted, accepted, ?_, ?_, ended, counter⟩
  · intro running
    rw [draining] at running
    cases running
  · intro _ _ _ running
    rw [draining] at running
    cases running

/-- The way into the draining state, since `t`. -/
structure Closing (setup : Setup) (t w : World) : Prop where
  base : Base setup none (fun _ => !w.server.ingressPaused) w
  told : w.past.dataOwed = false
  room : w.server.ingressPaused = false → Room w
  draining : w.server.state = .draining
  shutdown : w.past.shutdown = true
  passed : Passed setup setup.signalFd t w
  undrained : w.past.drained = false

theorem Closing.rely (closing : Closing setup t w) (move : ServerRely K w v) : Closing setup t v := by
  have server := move.still.server
  have base := closing.base.still move.still move.drift.view
  refine ⟨by rwa [server], move.drift.dataOwed.trans closing.told, ?_, by rw [server, closing.draining],
    move.drift.noted.shutdown closing.shutdown, closing.passed.rely move,
    move.drift.noted.drained.trans closing.undrained⟩
  intro unpaused
  rw [server] at unpaused
  exact (closing.room unpaused).drift move.drift

theorem Closing.without {fd : Int} (keep : Shared K w) (closing : Closing setup t w)
    (member : fd ∈ w.server.keys) (drift : Drift w v) (still : Still (without w fd) v) :
    Closing setup t v := by
  rcases closing.base.client member with ⟨buffer, c, _, small, connected⟩
  have leaving := connected.leaving keep small.2 (.draining closing.draining)
  have base := ((closing.base.focus fd).without connected.fd leaving).still still drift.view
  have server : v.server = w.server.erase fd := still.server
  have draining : v.server.state = .draining := by
    rw [server]
    exact closing.draining
  have step : Passed setup fd w v := Passed.without drift still
  refine ⟨?_, drift.dataOwed.trans closing.told, ?_, draining, drift.noted.shutdown closing.shutdown, ?_,
    drift.noted.drained.trans closing.undrained⟩
  · rw [server]
    exact base
  · rw [server]
    exact fun unpaused => (closing.room unpaused).drift drift
  · exact closing.passed.trans
      (.of_draining draining step.noted step.accepted step.ended (fun _ => drift.counter))

/-- The world once the listener, on `fd`, is closed. -/
def unlistened (w : World) (fd : Int) : World :=
  { w with net := w.net.closeFd fd, server := { w.server with listenFd := -1 } }

theorem Base.unlisten {asked : Int → Bool} {fd : Int} (base : Base setup none asked w)
    (mine : w.net.fds fd = some .listener) (draining : w.server.state = .draining)
    (same : ∀ c, Same w (unlistened w fd) c) : Base setup none asked (unlistened w fd) := by
  have keeps : ∀ {other handle}, w.net.fds other = some handle → handle ≠ .listener →
      other ≠ fd ∧ (w.net.closeFd fd).fds other = some handle :=
    fun found different => Net.closeFd_fds_keeps mine found different
  have accepted : (unlistened w fd).net.accepted = w.net.accepted := Net.closeFd_accepted w.net fd
  constructor
  · exact base.opened
  · exact base.keys
  · intro other c found
    have table := base.table other c (Net.of_closeFd_fds found).2
    exact ⟨table.1, lt_of_lt_of_eq table.2 accepted.symm⟩
  · exact fun first second c one two =>
      base.unique first second c (Net.of_closeFd_fds one).2 (Net.of_closeFd_fds two).2
  · exact (keeps base.space nofun).2
  · exact (keeps base.signal nofun).2
  · intro running
    exact absurd (draining.symm.trans running) nofun
  · intro other found
    rcases Net.of_closeFd_fds found with ⟨apart, before⟩
    exact absurd ((base.listener other before).trans (base.listener fd mine).symm) apart
  · exact fun some => absurd rfl some
  · exact (keeps base.epoll nofun).2
  · intro other member _
    rcases base.client member with ⟨_, c, _, _, connected⟩
    change ((w.net.closeFd fd).interest other).isSome = _
    rw [Net.closeFd_interest_of_ne (keeps connected.fd nofun).1]
    exact base.asked other member nofun
  · intro other missing
    change (w.net.closeFd fd).interest other = none
    rcases eq_or_ne other fd with rfl | different
    · rw [Net.closeFd_interest, Function.update_self]
    · rw [Net.closeFd_interest_of_ne different]
      exact base.orphan other ((Net.closeFd_fds_of_ne different).symm.trans missing)
  · intro other there
    rcases Option.ne_none_iff_exists'.mp there with ⟨handle, found⟩
    exact base.nonneg other (by rw [(Net.of_closeFd_fds found).2]; nofun)
  · intro entry member
    exact lt_of_lt_of_eq (base.origins entry member) accepted.symm
  · intro entry member _
    rcases base.connected entry member nofun with ⟨small, c, connected⟩
    exact ⟨small, c, connected.keep (same c)
      ((keeps connected.fd nofun).2.trans connected.fd.symm)⟩
  · intro c old none
    have none' : ∀ other, w.net.fds other ≠ some (.client c) :=
      fun other found => none other (keeps found nofun).2
    rcases base.gone c (lt_of_lt_of_eq old accepted) none' with ⟨gone, leaving⟩
    exact ⟨(same c).conn.closed.trans gone, leaving.keep (same c)⟩

/-- The listener may be closed once the server no longer runs. -/
theorem Closing.unlisten {fd : Int} (closing : Closing setup t w)
    (mine : w.net.fds fd = some .listener) (drift : Drift w v)
    (still : Still { w with net := w.net.closeFd fd } v) :
    Closing setup t { v with server := { v.server with listenFd := -1 } } := by
  have same : ∀ c, Same w (unlistened w fd) c := by
    intro c
    refine ⟨?_, rfl, id⟩
    change Grows _ ((w.net.closeFd fd).conns c)
    rw [Net.closeFd_other w.net fd (by rw [mine]; nofun)]
    exact .refl _
  have closed := closing.base.unlisten mine closing.draining same
  have server : v.server = w.server := still.server
  have after : Still (unlistened w fd) { v with server := { v.server with listenFd := -1 } } := by
    refine ⟨?_, still.fds, still.interest, still.accepted, still.lastRecv, still.conns⟩
    change { v.server with listenFd := -1 } = { w.server with listenFd := -1 }
    rw [server]
  have draining : v.server.state = .draining := by rw [server, closing.draining]
  have paused : v.server.ingressPaused = w.server.ingressPaused := by rw [server]
  refine ⟨?_, drift.dataOwed.trans closing.told, ?_, draining, drift.noted.shutdown closing.shutdown, ?_,
    drift.noted.drained.trans closing.undrained⟩
  · have kept := closed.still after drift.view
    change Base setup none (fun _ => !v.server.ingressPaused) _
    rw [paused]
    exact kept
  · intro unpaused
    have room : Room v := (closing.room (paused.symm.trans unpaused)).drift drift
    exact room
  · have accepted : v.net.accepted = w.net.accepted :=
      still.accepted.trans (Net.closeFd_accepted w.net fd)
    refine closing.passed.trans (.of_draining draining drift.noted (le_of_eq accepted.symm) ?_
      (fun _ => drift.counter))
    intro c _
    have grows := (same c).conn.trans (still.conns c)
    exact ⟨fun fin => (grows.fin fin).1, grows.broken⟩

theorem Closing.start (serving : Serving setup w) (shutdown : w.past.shutdown = true)
    (passed : Passed setup setup.signalFd t w) :
    Closing setup t { w with server := { w.server with state := .draining } } :=
  ⟨serving.base.remember rfl rfl rfl (fun _ => rfl) nofun, serving.told, serving.room, rfl, shutdown,
    .of_draining rfl passed.noted passed.accepted passed.ended passed.counter, serving.undrained⟩

theorem Closing.serving (closing : Closing setup t w) (listenFd : w.server.listenFd = -1)
    (clients : w.server.clients = []) : Serving setup w := by
  refine ⟨⟨closing.base, closing.told, closing.room, fun _ => ⟨listenFd, clients, closing.shutdown⟩,
    closing.undrained⟩, ?_⟩
  intro running
  exact absurd (closing.draining.symm.trans running) (by simp)

/-- Why the event loop may be left with a failure. -/
def Stopped (setup : Setup) (v : World) : Prop :=
  Broken v ∨ (v.past.acceptFailed = true ∨ v.past.readerGone = true) ∧ Serving setup v

theorem Stopped.rely (stopped : Stopped setup w) (move : ServerRely K w v) : Stopped setup v := by
  have noted := move.drift.noted
  rcases stopped with broken | ⟨why, serving⟩
  · exact Or.inl (broken.rely move)
  · exact Or.inr ⟨why.imp noted.acceptFailed noted.readerGone, serving.rely move⟩

def Responded (setup : Setup) (fd : Int) (w : World) (ok : Bool) (v : World) : Prop :=
  if ok = true then Serving setup v ∧ Passed setup fd w v else Stopped setup v

theorem Responded.rely {fd : Int} {ok : Bool} {u : World} (responded : Responded setup fd w ok v)
    (move : ServerRely K v u) : Responded setup fd w ok u := by
  cases ok with
  | true => exact ⟨responded.1.rely move, responded.2.rely move⟩
  | false => exact Stopped.rely responded move

/-- All that is left of the way into the draining state once the listener is closed. -/
theorem removeAll_closing (closing : Closing setup t w) (listenFd : w.server.listenFd = -1) :
    (serverLogic K setup).wp removeAllClients
      (fun _ v => Serving setup v ∧ Passed setup setup.signalFd t v) w := by
  apply Logic.wp_mono (removeAllClients_rule
    (fun v => Closing setup t v ∧ v.server.listenFd = -1) ⟨closing, listenFd⟩ _ _ _)
  · rintro _ v _ ⟨⟨closed, listener⟩, clients⟩
    exact ⟨closed.serving listener clients, closed.passed⟩
  · rintro a b move ⟨closed, listener⟩
    exact ⟨closed.rely move, by rw [move.still.server, listener]⟩
  · rintro a fd ⟨closed, _⟩ member
    exact (closed.base.accounted nofun).held fd member
  · rintro a b fd keep ⟨closed, listener⟩ member drift still
    refine ⟨closed.without keep member drift still, ?_⟩
    rw [still.server]
    exact listener

theorem beginDraining_rule (closing : Closing setup t w)
    (listening : w.net.fds w.server.listenFd = some .listener) :
    (serverLogic K setup).wp beginDraining
      (fun _ v => Serving setup v ∧ Passed setup setup.signalFd t v) w := by
  have there : w.server.listenFd ≠ -1 := by
    have nonneg := closing.base.nonneg w.server.listenFd (by rw [listening]; nofun)
    omega
  apply memory_rule
  intro a toA _
  rw [if_pos there]
  have closingA := closing.rely toA
  have mine : a.net.fds w.server.listenFd = some .listener := by rw [toA.still.fds, listening]
  apply giveUpFd_rule w.server.listenFd (Or.inl mine)
  intro b _ drift still
  apply update_rule
  · exact fun draining => ⟨draining, rfl, rfl, rfl, fun _ => rfl, id⟩
  intro d toD _
  have closingE := closingA.unlisten mine (drift.trans toD.drift) (still.trans toD.still)
  apply log_rule rfl
  intro e toE _
  apply removeAll_closing (closingE.rely toE)
  rw [toE.still.server]

theorem applySignals_rule {signals : SignalState} (serving : Serving setup w)
    (passed : Passed setup setup.signalFd t w) (noticed : Noticed signals w.past) :
    (serverLogic K setup).wp (applySignals signals) (Responded setup setup.signalFd t) w := by
  rw [applySignals]
  split
  · next gone =>
      apply log_rule rfl
      intro a toA _ v move _
      have since := toA.trans move
      exact Or.inr ⟨Or.inr (since.drift.noted.readerGone (noticed.reader gone)), serving.rely since⟩
  apply memory_rule
  intro a toA _
  split
  · next drains =>
      apply log_rule rfl
      intro b toB _
      have toB' := toA.trans toB
      apply update_rule
      · exact fun _ => ⟨rfl, rfl, rfl, rfl, id, id⟩
      intro d toD keepE
      have since := toB'.trans toD
      have servingD := serving.rely since
      have closing := Closing.start servingD
        (since.drift.noted.shutdown (noticed.shutdown drains.1)) (passed.rely since)
      have listening : d.net.fds d.server.listenFd = some .listener := by
        rw [since.still.fds, since.still.server]
        exact (serving.base.listening drains.2).1
      apply Logic.wp_seq keepE (beginDraining_rule closing listening)
      rintro _ e _ ⟨servingE, passedE⟩ v move _
      exact ⟨servingE.rely move, passedE.rely move⟩
  · intro v move _
    have since := toA.trans move
    exact ⟨serving.rely since, passed.rely since⟩

theorem readSignals_rule (pid : K.readerPid = setup.readerPid) (keep : Shared K w)
    (serving : Serving setup w) :
    (serverLogic K setup).wp (readSignals setup) (Responded setup setup.signalFd w) w := by
  apply Logic.wp_seq keep (handleSignalFd_rule pid)
  rintro r a _ ⟨toA, result⟩
  cases r with
  | none =>
      have broken : Broken a := (serving.rely toA).broken result
      exact fun v move _ => Or.inl (broken.rely move)
  | some signals =>
      have passed : Passed setup setup.signalFd w a := (Passed.refl setup setup.signalFd w).rely toA
      exact applySignals_rule (serving.rely toA) passed result

theorem handleSignalEvent_rule {event : Event} (pid : K.readerPid = setup.readerPid)
    (keep : Shared K w) (serving : Serving setup w) (pending : Pending setup w event)
    (mine : event.fd = setup.signalFd) :
    (serverLogic K setup).wp (handleSignalEvent setup event) (Responded setup event.fd w) w := by
  rw [mine]
  apply ownError_rule keep
  · split
    · exact readSignals_rule pid keep serving
    · exact fun v move _ => ⟨serving.rely move, (Passed.refl setup setup.signalFd w).rely move⟩
  · exact fun move responded => responded.rely move
  · intro error v responded
    exact Or.inl (responded.1.broken
      (responded.2.noted.failed (pending.failed (Or.inr (Or.inl mine)) error)))

/-- Only the client of the event may have left. -/
theorem Handled.snapshot {event : Event} (serving : Serving setup w)
    (noted : w.past.snapshot = w.server.keys) (handled : Handled setup event.fd w true v) :
    v.server.state = .running → ∀ fd ∈ v.past.snapshot, fd ≠ event.fd → fd ∈ v.server.keys := by
  intro running fd member apart
  rw [handled.2.noted.snapshot, noted] at member
  rcases serving.base.client member with ⟨_, c, _, _, connected⟩
  have kept := handled.2.others fd apart (by rw [connected.fd]; nofun) running
  exact (handled.1.base.table fd c (kept.trans connected.fd)).1 nofun

def Continued (setup : Setup) (fd : Int) (w : World) (ok : Bool) (v : World) : Prop :=
  if ok = true then Serving setup v ∧
    ∀ event, event.fd ≠ fd → Pending setup w event → Pending setup v event
  else Stopped setup v

theorem Responded.continued {fd : Int} {ok : Bool} (serving : Serving setup w)
    (responded : Responded setup fd w ok v) : Continued setup fd w ok v := by
  cases ok with
  | false => exact responded
  | true => exact ⟨responded.1, fun event apart pending =>
      pending.passed serving.base responded.1 responded.2 apart⟩

theorem handleOther_rule {event : Event} {Q : Bool → World → Prop} {k : Bool → Proc Bool}
    (serving : Serving setup w) (pending : Pending setup w event)
    (rest : ∀ ok v, Shared K v → Continued setup event.fd w ok v →
      (serverLogic K setup).wp (k ok) Q v) :
    (serverLogic K setup).wp (do
      Proc.point (.handling event)
      let ok ← handleEvent setup event
      Proc.point (.handled event ok)
      k ok) Q w := by
  apply point_rule (p := .handling event) (fun _ => ⟨rfl, rfl, rfl, rfl⟩)
  · intro v move _
    have later := pending.rely move
    exact ⟨serving.rely move, fun running => ⟨later.there running, later.same running⟩⟩
  intro a toA keepB
  have servingB : Serving setup (a.passing (.handling event)) :=
    (serving.rely toA).recall ⟨rfl, rfl, rfl, rfl⟩ rfl
  have pendingB : ∀ other, Pending setup w other → Pending setup (a.passing (.handling event)) other := by
    intro other before
    have known := before.rely toA
    exact ⟨known.nonneg, known.there, known.same, known.hangup, known.space, known.failed⟩
  apply Logic.wp_seq keepB (handleEvent_rule servingB (pendingB event pending))
  intro ok d _ handled
  apply own_rule (.point (.handled event ok)) rfl
  · intro v move _
    have later : Handled setup event.fd (a.passing (.handling event)) ok v := handled.rely move
    cases ok with
    | true => exact ⟨fun _ => ⟨later.1, later.snapshot servingB rfl⟩, nofun⟩
    | false => exact ⟨nofun, fun _ => later⟩
  intro e _ f toE answer keepF _
  have own := exec_own rfl answer
  have still : Still e f := by
    rw [← Option.some.inj answer]
    exact ⟨rfl, rfl, rfl, rfl, rfl, fun _ => .refl _⟩
  have since : ServerRely K d f := toE.trans (own.rely still)
  have later : Handled setup event.fd (a.passing (.handling event)) ok f := handled.rely since
  apply rest ok f keepF
  cases ok with
  | false =>
      rcases later with broken | ⟨refused, serving'⟩
      · exact Or.inl broken
      · exact Or.inr ⟨Or.inl refused, serving'⟩
  | true => exact ⟨later.1, fun other apart before =>
      (pendingB other before).passed servingB.base later.1 later.2 apart⟩

def Round (setup : Setup) (ok : Bool) (v : World) : Prop :=
  if ok = true then Serving setup v else Stopped setup v

theorem handleEvents_rule (pid : K.readerPid = setup.readerPid) (events : List Event)
    (distinct : (events.map Event.fd).Nodup) (keep : Shared K w) (serving : Serving setup w)
    (pending : ∀ event ∈ events, Pending setup w event) :
    (serverLogic K setup).wp (handleEvents setup events) (Round setup) w := by
  induction events generalizing w with
  | nil => exact fun v move _ => serving.rely move
  | cons event rest ih =>
      have unique := List.nodup_cons.mp distinct
      have mine := pending event List.mem_cons_self
      have next : ∀ ok v, Shared K v → Continued setup event.fd w ok v →
          (serverLogic K setup).wp (if ok = true then handleEvents setup rest else pure false)
            (Round setup) v := by
        intro ok v keepV continued
        cases ok with
        | false => exact fun u move _ => Stopped.rely continued move
        | true =>
            apply ih unique.2 keepV continued.1
            intro other member
            have apart : other.fd ≠ event.fd := fun same =>
              unique.1 (same ▸ List.mem_map_of_mem member)
            exact continued.2 other apart (pending other (List.mem_cons_of_mem event member))
      rw [handleEvents]
      split
      · next signal =>
          apply Logic.wp_seq keep (handleSignalEvent_rule pid keep serving mine signal)
          exact fun ok v keepV responded => next ok v keepV (responded.continued serving)
      · exact handleOther_rule serving mine next

/-- A draining server has something left to do, or will be told that it has not. -/
def Busy (w : World) : Prop := w.ring.occupancy ≠ 0 ∨ SpaceDue w

theorem Busy.drift (busy : Busy w) (drift : Drift w v) : Busy v := by
  rcases drift.freed with same | due
  · rcases busy with some | due
    · left
      rwa [Layout.occupancy, drift.view.published, same]
    · exact Or.inr (drift.space due)
  · exact Or.inr due

structure Drained (w : World) : Prop where
  draining : w.server.state = .draining
  told : w.past.dataOwed = false
  shutdown : w.past.shutdown = true
  seen : w.past.drained = true
  accounted : Accounted w

theorem Drained.rely (drained : Drained w) (move : ServerRely K w v) : Drained v :=
  ⟨by rw [move.still.server, drained.draining], move.drift.dataOwed.trans drained.told,
    move.drift.noted.shutdown drained.shutdown, move.drift.noted.drained.trans drained.seen,
    drained.accounted.still move.still⟩

theorem drained_rule (serving : Serving setup w) :
    (serverLogic K setup).wp drained (fun done v => if done = true then Drained v
      else Serving setup v ∧ (v.server.state = .draining → Busy v)) w := by
  apply memory_rule
  intro a toA keepA
  split
  · next draining =>
      apply Logic.wp_seq keepA (empty_rule keepA)
      rintro _ b keepB ⟨l, toL, toB, rfl⟩
      have since := (toA.trans toL).trans toB
      have servingB := serving.rely since
      cases none : l.ring.occupancy == 0 with
      | true =>
          have still : ∀ v, ServerRely K b v → v.server.state = .draining := by
            intro v move
            rw [(since.trans move).still.server, draining]
          apply point_rule (p := .drained) (fun _ => ⟨rfl, rfl, rfl, rfl⟩)
          · intro v move _
            have zero : l.ring.occupancy = 0 := by simpa using none
            have less := (toB.trans move).drift.occupancy
            exact ⟨still v move, by omega⟩
          intro v move _ x later _
          have servingV := servingB.rely move
          have same : Still v (v.passing .drained) := ⟨rfl, rfl, rfl, rfl, rfl, fun _ => .refl _⟩
          have passed : Drained (v.passing .drained) :=
            ⟨still v move, servingV.told, (servingV.draining (still v move)).2.2, rfl,
              servingV.accounted.still same⟩
          exact passed.rely later
      | false =>
          have busy : Busy l := Or.inl (by simpa using none)
          exact fun v move _ =>
            ⟨servingB.rely move, fun _ => busy.drift (toB.trans move).drift⟩
  · next other =>
      intro v move _
      have since := toA.trans move
      refine ⟨serving.rely since, ?_⟩
      intro draining
      rw [since.still.server] at draining
      exact absurd draining other

/-- Every event of a reported batch is what it says. -/
theorem Serving.reported {events : List Event} (serving : Serving setup w)
    (reportable : w.reportable events = true) :
    (events.map Event.fd).Nodup ∧ ∀ event ∈ events,
      Pending setup (w.polling events) event := by
  simp only [World.reportable, Bool.and_eq_true, decide_eq_true_eq, List.all_eq_true] at reportable
  rcases reportable with ⟨⟨_, distinct⟩, reports⟩
  refine ⟨distinct, ?_⟩
  intro event member
  have base := serving.base
  have report := reports event member
  rw [Net.reports] at report
  have there : w.net.fds event.fd ≠ none := by
    intro none
    rw [base.orphan _ none] at report
    cases report
  have nonneg := base.nonneg _ there
  rcases Option.ne_none_iff_exists'.mp (show w.net.interest event.fd ≠ none by
    intro none
    rw [none] at report
    cases report) with ⟨asked, watched⟩
  rw [watched] at report
  simp only [Bool.and_eq_true, decide_eq_true_eq] at report
  rcases report with ⟨_, bits⟩
  constructor
  · exact nonneg
  · exact fun _ => there
  · exact fun _ => rfl
  · intro c found hangup
    change w.net.fds event.fd = _ at found
    rw [found] at bits
    simp only [Bool.and_eq_true, decide_eq_true_eq] at bits
    have raised : event.events.rdhup = true ∨ event.events.hup = true ∨ event.events.err = true := by
      simpa [Mask.hangup, or_assoc] using hangup
    have ended := bits.2 raised
    refine ⟨ended, fun unreadable => ?_⟩
    rcases ended with fin | broken
    · rw [bits.1 (Or.inr fin)] at unreadable
      cases unreadable
    · exact broken
  · intro mine readable
    rw [mine, base.space] at bits
    exact of_decide_eq_true bits readable
  · change event.fd = _ ∨ event.fd = _ ∨ event.fd = w.server.listenFd → _
    intro own error
    have notClient : ∀ c, w.net.fds event.fd ≠ some (.client c) := by
      intro c found
      rcases own with space | signal | listener
      · rw [space, base.space] at found
        cases found
      · rw [signal, base.signal] at found
        cases found
      · cases state : w.server.state with
        | running =>
            rw [listener, (base.listening state).1] at found
            cases found
        | draining =>
            rw [listener, (serving.draining state).1] at nonneg
            omega
    have noticed : w.ownError events = true := by
      rw [World.ownError, List.any_eq_true]
      refine ⟨event, member, ?_⟩
      rw [Bool.and_eq_true]
      refine ⟨error, ?_⟩
      split
      · next c found => exact absurd found (notClient c)
      · rfl
    change (_ || w.ownError events) = true
    rw [noticed, Bool.or_true]

structure Ended (result : Nat) (w : World) : Prop where
  told : w.past.failed = false → w.past.dataOwed = false
  success : result = EXIT_SUCCESS → w.past.shutdown = true ∧ w.server.state = .draining
  failure : result ≠ EXIT_SUCCESS → w.past.failed = true ∨ w.past.acceptFailed = true ∨
    w.past.readerGone = true
  drained : result = EXIT_SUCCESS ↔ w.past.drained = true

theorem Ended.drift {result : Nat} (ended : Ended result w) (drift : Drift w v)
    (state : v.server.state = w.server.state) : Ended result v := by
  have noted := drift.noted
  refine ⟨?_, ?_, ?_, ?_⟩
  · intro fine
    have before : w.past.failed = false := by
      cases failed : w.past.failed with
      | false => rfl
      | true => exact absurd (noted.failed failed) (by rw [fine]; nofun)
    exact drift.dataOwed.trans (ended.told before)
  · intro ok
    rw [state]
    exact ⟨noted.shutdown (ended.success ok).1, (ended.success ok).2⟩
  · intro bad
    exact (ended.failure bad).imp noted.failed (Or.imp noted.acceptFailed noted.readerGone)
  · rw [noted.drained]
    exact ended.drained

theorem Drained.ended (drained : Drained w) : Ended EXIT_SUCCESS w :=
  ⟨fun _ => drained.told, fun _ => ⟨drained.shutdown, drained.draining⟩, fun bad => absurd rfl bad,
    fun _ => drained.seen, fun _ => rfl⟩

theorem Ended.failed (failed : w.past.failed = true) (undrained : w.past.drained = false) :
    Ended EXIT_FAILURE w := by
  refine ⟨fun fine => absurd failed (by rw [fine]; nofun), nofun, fun _ => Or.inl failed, nofun, ?_⟩
  rw [undrained]
  nofun

theorem Stopped.ended (stopped : Stopped setup w) : Ended EXIT_FAILURE w ∧ Accounted w := by
  rcases stopped with broken | ⟨why, serving⟩
  · exact ⟨.failed broken.failed broken.undrained, broken.accounted⟩
  · refine ⟨⟨fun _ => serving.told, nofun, fun _ => Or.inr why, nofun, ?_⟩, serving.accounted⟩
    rw [serving.undrained]
    nofun

theorem eventLoop_rule (pid : K.readerPid = setup.readerPid) (serving : Serving setup w) :
    (serverLogic K setup).wp (eventLoop setup) (fun result v => Ended result v ∧ Accounted v) w := by
  apply Logic.wp_iterate (fun _ v => Serving setup v)
  · exact fun v move _ => serving.rely move
  intro _ a keepA servingA
  apply Logic.wp_seq keepA (drained_rule servingA)
  intro done b _ result
  cases done with
  | true =>
      intro v move _
      have drained : Drained v := Drained.rely result move
      exact ⟨drained.ended, drained.accounted⟩
  | false =>
      rcases result with ⟨servingB, rest⟩
      intro d toD keepD
      have servingD := servingB.rely toD
      refine ⟨⟨servingD, ?_⟩, ?_⟩
      · intro draining
        rw [toD.still.server] at draining
        exact (rest draining).drift toD.drift
      intro r e answer
      cases r with
      | ready events =>
          simp only [World.exec, Option.ite_none_right_eq_some, Option.some.injEq] at answer
          rcases answer with ⟨reportable, rfl⟩
          rcases servingD.reported reportable with ⟨distinct, pending⟩
          have recalls : Recalls d.past (d.polling events).past := ⟨rfl, rfl, rfl, rfl⟩
          have step := recalls.grants (K := K)
          have keepE := step.1 keepD
          refine ⟨keepE, step.2, ?_⟩
          apply Logic.wp_seq keepE
            (handleEvents_rule pid events distinct keepE (servingD.recall recalls rfl) pending)
          intro ok g _ round
          cases ok with
          | true => exact fun v move _ => Serving.rely round move
          | false => exact fun v move _ => (Stopped.rely round move).ended
      | eintr =>
          rw [← Option.some.inj answer]
          exact ⟨keepD, .refl d, fun v move _ => servingD.rely move⟩
      | error =>
          rw [← Option.some.inj answer]
          have step := exec_fail d
          have still : Still d (World.fail d) := ⟨rfl, rfl, rfl, rfl, rfl, fun _ => .refl _⟩
          have broken : Broken (World.fail d) :=
            ⟨rfl, servingD.accounted.still still, servingD.undrained⟩
          refine ⟨step.keeps keepD, ⟨step.grants, .of_same rfl rfl rfl, .of_same rfl⟩, ?_⟩
          apply log_rule rfl
          intro g toG _ v move _
          have later := broken.rely (toG.trans move)
          exact ⟨.failed later.failed later.undrained, later.accounted⟩

end

end TelemetryServer.Server
