import TelemetryServer.Server.LoopSpec

namespace TelemetryServer.Server

open Protocol Ipc Atomic

/-- The server before its loop: no client yet, no listener but on `socket`, and nothing
watched but `watched`. -/
structure Starting (setup : Setup) (socket : Option Int) (watched : List Int) (w : World) : Prop where
  opened : w.ring.producerClosed = 0
  unpublished : w.ring.published = []
  told : w.past.dataOwed = false
  clients : w.server.clients = []
  accepted : w.net.accepted = 0
  space : w.net.fds setup.spaceReadyFd = some .spaceReady
  signal : w.net.fds setup.signalFd = some .signal
  alone : ∀ fd c, w.net.fds fd ≠ some (.client c)
  unwatched : ∀ fd, fd ∉ watched → w.net.interest fd = none
  orphan : ∀ fd, w.net.fds fd = none → w.net.interest fd = none
  nonneg : ∀ fd, w.net.fds fd ≠ none → 0 ≤ fd
  listener : ∀ fd, w.net.fds fd = some .listener → socket = some fd
  state : w.server.state = .running
  undrained : w.past.drained = false

section

variable {K : Contract} {setup : Setup} {socket : Option Int} {watched : List Int} {w v : World}

theorem Starting.still (starting : Starting setup socket watched w) (still : Still w v)
    (view : ProducerView w.ring v.ring) (owed : v.past.dataOwed = w.past.dataOwed)
    (drained : v.past.drained = w.past.drained) : Starting setup socket watched v := by
  constructor
  · exact view.closed.trans starting.opened
  · exact view.published.trans starting.unpublished
  · exact owed.trans starting.told
  · rw [still.server, starting.clients]
  · rw [still.accepted, starting.accepted]
  · rw [still.fds, starting.space]
  · rw [still.fds, starting.signal]
  · rw [still.fds]
    exact starting.alone
  · rw [still.interest]
    exact starting.unwatched
  · rw [still.fds, still.interest]
    exact starting.orphan
  · rw [still.fds]
    exact starting.nonneg
  · rw [still.fds]
    exact starting.listener
  · rw [still.server, starting.state]
  · exact drained.trans starting.undrained

theorem Starting.rely (starting : Starting setup socket watched w) (move : ServerRely K w v) :
    Starting setup socket watched v :=
  starting.still move.still move.drift.view move.drift.dataOwed move.drift.noted.drained

theorem Starting.openAs {fd : Int} {handle : Handle} {past : History} {socket' : Option Int}
    (starting : Starting setup socket watched w) (fresh : w.net.Fresh fd) (own : ∀ c, handle ≠ .client c)
    (told : past.dataOwed = false) (undrained : past.drained = false)
    (before : socket = none ∨ socket' = socket) (new : handle = .listener → socket' = some fd) :
    Starting setup socket' watched { w with net := w.net.openAs fd handle, past := past } := by
  have other : ∀ key, w.net.fds key ≠ none → key ≠ fd := by
    rintro key there rfl
    exact there fresh.2
  have kept : ∀ key, key ≠ fd → (w.net.openAs fd handle).fds key = w.net.fds key :=
    fun key apart => Function.update_of_ne apart _ _
  have mine : (w.net.openAs fd handle).fds fd = some handle := Function.update_self _ _ _
  refine ⟨starting.opened, starting.unpublished, told, starting.clients, starting.accepted,
    ?_, ?_, ?_, starting.unwatched, ?_, ?_, ?_, starting.state, undrained⟩
  · exact (kept _ (other _ (by rw [starting.space]; nofun))).trans starting.space
  · exact (kept _ (other _ (by rw [starting.signal]; nofun))).trans starting.signal
  · intro key c found
    rcases eq_or_ne key fd with rfl | apart
    · exact own c (Option.some.inj (mine.symm.trans found))
    · exact starting.alone key c ((kept key apart).symm.trans found)
  · intro key none
    have apart : key ≠ fd := by
      rintro rfl
      exact absurd (mine.symm.trans none) nofun
    exact starting.orphan key ((kept key apart).symm.trans none)
  · intro key there
    rcases eq_or_ne key fd with rfl | apart
    · exact fresh.1
    · exact starting.nonneg key (fun none => there ((kept key apart).trans none))
  · intro key found
    rcases eq_or_ne key fd with rfl | apart
    · exact new (Option.some.inj (mine.symm.trans found))
    · have old := starting.listener key ((kept key apart).symm.trans found)
      rcases before with none | same
      · rw [none] at old
        cases old
      · rw [same, old]

/-- One of the server's own descriptors is given to epoll. -/
theorem add_rule {α : Type} {Q : α → World → Prop} {k : Bool → Proc α} {fd : Int} {handle : Handle}
    (mask : Mask) (starting : Starting setup socket watched w) (new : fd ∉ watched)
    (mine : w.net.fds fd = some handle)
    (granted : ∀ v, Shared K v → Starting setup socket (fd :: watched) v → v.net.fds = w.net.fds →
      (∀ key ∈ watched, v.net.interest key = w.net.interest key) →
      v.net.interest fd = some mask → (serverLogic K setup).wp (k true) Q v)
    (refused : ∀ v, Shared K v → Starting setup socket watched v → v.net.fds = w.net.fds →
      v.past.failed = true → (serverLogic K setup).wp (k false) Q v) :
    (serverLogic K setup).wp (addEpollFd fd mask >>= k) Q w := by
  apply own_rule (.net (.epollCtl .add fd mask)) rfl
  · intro v move _
    change v.net.fds fd ≠ none
    rw [move.still.fds, mine]
    nofun
  intro a ok b toA answer keepB _
  have startingA := starting.rely toA
  have here : a.net.fds fd = some handle := by rw [toA.still.fds, mine]
  have off : a.net.interest fd = none := startingA.unwatched fd new
  rcases exec_net answer with ⟨net, done, same⟩
  cases ok with
  | false =>
      have own := exec_own rfl answer
      have still := exec_refused answer
      have view : ProducerView a.ring b.ring := by
        rw [own.ring]
        exact .refl _
      apply refused b keepB (startingA.still still view own.dataOwed own.noted.drained)
      · rw [still.fds, toA.still.fds]
      · rw [same]
        simp [World.netFails, here, off]
  | true =>
      simp only [NetCall.exec, Option.ite_none_right_eq_some, Option.some.injEq] at done
      rcases done with ⟨_, rfl⟩
      have register : a.net.register fd mask = a.net.setInterest fd (some mask) := by
        rw [Net.register, here]
        cases handle with
        | client c => exact absurd here (startingA.alone fd c)
        | listener | epoll | signal | dataReady | spaceReady => rfl
      rw [register] at same
      have apart : ∀ key, key ≠ fd → b.net.interest key = a.net.interest key := by
        intro key different
        rw [same]
        exact Function.update_of_ne different _ _
      subst same
      apply granted _ keepB
      · refine ⟨startingA.opened, startingA.unpublished, startingA.told, startingA.clients,
          startingA.accepted, startingA.space, startingA.signal, startingA.alone, ?_, ?_,
          startingA.nonneg, startingA.listener, startingA.state, startingA.undrained⟩
        · intro key outside
          rw [apart key (fun equal => outside (equal ▸ List.mem_cons_self))]
          exact startingA.unwatched key (fun inside => outside (List.mem_cons_of_mem fd inside))
        · intro key gone
          rw [apart key (fun equal => absurd ((equal ▸ here).symm.trans gone) nofun)]
          exact startingA.orphan key gone
      · exact toA.still.fds
      · intro key inside
        rw [apart key (fun equal => new (equal ▸ inside)), toA.still.interest]
      · exact Function.update_self _ _ _

theorem close_rule {α : Type} {Q : α → World → Prop} {k : Unit → Proc α} {fd : Int}
    (own : w.net.fds fd = some .listener ∨ w.net.fds fd = some .epoll)
    (rest : ∀ v, Shared K v → Drift w v → v.server = w.server →
      v.net.accepted = w.net.accepted →
      (∀ c, (v.net.conns c).closed = (w.net.conns c).closed) →
      v.net.fds = Function.update w.net.fds fd none → (serverLogic K setup).wp (k ()) Q v) :
    (serverLogic K setup).wp (closeFd fd >>= k) Q w := by
  have closable : Closable w fd := own.imp_right Or.inl
  apply own_rule (.net (.close fd)) rfl (fun v move _ => closable.rely move)
  intro a _ b toA answer keepB drift
  rcases exec_net answer with ⟨net, done, same⟩
  simp only [NetCall.exec, Option.some.injEq] at done
  subst net
  have notClient : ∀ c, a.net.fds fd ≠ some (.client c) := by
    rw [toA.still.fds]
    intro c found
    rcases own with mine | mine <;>
      · rw [mine] at found
        cases found
  apply rest b keepB drift
  · rw [same]
    exact toA.still.server
  · rw [same]
    exact (Net.closeFd_accepted a.net fd).trans toA.still.accepted
  · intro c
    rw [same]
    change ((a.net.closeFd fd).conns c).closed = _
    rw [Net.closeFd_other a.net fd (notClient c)]
    exact (toA.still.conns c).closed
  · rw [same]
    change (a.net.closeFd fd).fds = _
    rw [Net.closeFd_fds, toA.still.fds]

theorem closeAll_rule (fds : List Int) (distinct : fds.Nodup)
    (own : ∀ fd ∈ fds, w.net.fds fd = some .listener ∨ w.net.fds fd = some .epoll) :
    (serverLogic K setup).wp (fds.forM closeFd) (fun _ v => Drift w v ∧ v.server = w.server ∧
      v.net.accepted = w.net.accepted ∧
      ∀ fd, v.net.fds fd = if fd ∈ fds then none else w.net.fds fd) w := by
  induction fds generalizing w with
  | nil =>
      intro v move _
      refine ⟨move.drift, move.still.server, move.still.accepted, fun fd => ?_⟩
      rw [move.still.fds]
      simp
  | cons fd rest ih =>
      have unique := List.nodup_cons.mp distinct
      apply close_rule (own fd List.mem_cons_self)
      intro a _ drift server accepted _ closed
      have later : ∀ other ∈ rest, a.net.fds other = some .listener ∨ a.net.fds other = some .epoll := by
        intro other member
        have apart : other ≠ fd := fun same => unique.1 (same ▸ member)
        rw [closed, Function.update_of_ne apart]
        exact own other (List.mem_cons_of_mem fd member)
      apply Logic.wp_mono (ih unique.2 later)
      rintro _ v _ ⟨drift', server', accepted', closed'⟩
      refine ⟨drift.trans drift', server'.trans server, accepted'.trans accepted, fun other => ?_⟩
      rw [closed' other, closed]
      rcases eq_or_ne other fd with rfl | apart
      · simp
      · simp [apart]

structure Shut (w : World) : Prop where
  closed : ∀ c, c < w.net.accepted → (w.net.conns c).closed = true
  clients : ∀ fd c, w.net.fds fd ≠ some (.client c)
  listener : ∀ fd, w.net.fds fd ≠ some .listener

theorem Shut.still (shut : Shut w) (still : Still w v) : Shut v := by
  constructor
  · intro c old
    rw [still.accepted] at old
    exact (still.conns c).closed.trans (shut.closed c old)
  · rw [still.fds]
    exact shut.clients
  · rw [still.fds]
    exact shut.listener

theorem Ended.rely {result : Nat} (ended : Ended result w) (move : ServerRely K w v) :
    Ended result v := ended.drift move.drift (by rw [move.still.server])

theorem giveUp_rule (message : String) (fds : List Int) (starting : Starting setup socket watched w)
    (failed : w.past.failed = true) (distinct : fds.Nodup)
    (own : ∀ fd ∈ fds, w.net.fds fd = some .listener ∨ w.net.fds fd = some .epoll)
    (all : ∀ fd, socket = some fd → fd ∈ fds) :
    (serverLogic K setup).wp (giveUp message fds) (fun result v => Ended result v ∧ Shut v) w := by
  apply log_rule rfl
  intro a toA keepA
  have startingA := starting.rely toA
  apply Logic.wp_seq keepA (closeAll_rule fds distinct (by rw [toA.still.fds]; exact own))
  rintro _ b _ ⟨drift, server, accepted, closed⟩ v move _
  have noted := drift.noted
  have ended : Ended EXIT_FAILURE b :=
    .failed (noted.failed (toA.drift.noted.failed failed)) (noted.drained.trans startingA.undrained)
  have shut : Shut b := by
    constructor
    · intro c old
      rw [accepted, startingA.accepted] at old
      exact absurd old (Nat.not_lt_zero c)
    · intro fd c found
      rw [closed fd] at found
      split at found
      · cases found
      · exact startingA.alone fd c found
    · intro fd found
      rw [closed fd] at found
      split at found
      · cases found
      · next outside => exact outside (all fd (startingA.listener fd found))
  exact ⟨ended.rely move, shut.still move.still⟩

/-- Removing a client keeps the books in order. -/
theorem Accounted.without {fd : Int} (accounted : Accounted w) (member : fd ∈ w.server.keys) :
    Accounted (Server.without w fd) := by
  rcases accounted.held fd member with ⟨c, mine, _⟩
  have keys := w.server.erase_keys fd
  have conns : ∀ n, n ≠ c → (w.net.closeFd fd).conns n = w.net.conns n := by
    intro n apart
    apply Net.closeFd_other
    rw [mine]
    exact fun equal => apart (Handle.client.inj (Option.some.inj equal)).symm
  constructor
  · change (w.server.erase fd).keys.Nodup
    rw [keys]
    exact accounted.keys.filter _
  · intro other n found
    rcases Net.of_closeFd_fds found with ⟨apart, before⟩
    have table := accounted.table other n before
    refine ⟨?_, lt_of_lt_of_eq table.2 (Net.closeFd_accepted w.net fd).symm⟩
    change other ∈ (w.server.erase fd).keys
    rw [keys]
    exact List.mem_filter.mpr ⟨table.1, by simpa using apart⟩
  · intro first second n found found'
    exact accounted.unique first second n (Net.of_closeFd_fds found).2 (Net.of_closeFd_fds found').2
  · intro other inside
    change other ∈ (w.server.erase fd).keys at inside
    rw [keys] at inside
    have apart : other ≠ fd := by simpa using (List.mem_filter.mp inside).2
    rcases accounted.held other (List.mem_of_mem_filter inside) with ⟨n, found, opened⟩
    refine ⟨n, (Net.closeFd_fds_of_ne apart).trans found, ?_⟩
    have different : n ≠ c := by
      rintro rfl
      exact apart (accounted.unique other fd n found mine)
    change ((w.net.closeFd fd).conns n).closed = false
    rw [conns n different]
    exact opened
  · intro n old none
    change ((w.net.closeFd fd).conns n).closed = true
    rcases eq_or_ne n c with rfl | different
    · rw [w.net.closeFd_client fd mine]
    · rw [conns n different]
      apply accounted.gone n (lt_of_lt_of_eq old (Net.closeFd_accepted w.net fd))
      intro other found
      have unequal : Handle.client n ≠ .client c := fun same => different (Handle.client.inj same)
      exact none other (Net.closeFd_fds_keeps mine found unequal).2
  · intro other found
    exact accounted.listener other (Net.of_closeFd_fds found).2
  · exact fun some => (Net.closeFd_fds_keeps mine (accounted.listens some) nofun).2
  · exact (Net.closeFd_fds_keeps mine accounted.epoll nofun).2
  · intro other there
    rcases Option.ne_none_iff_exists'.mp there with ⟨handle, found⟩
    exact accounted.nonneg other (by rw [(Net.of_closeFd_fds found).2]; nofun)

theorem Starting.serving {listenFd epollFd : Int} (starting : Starting setup (some listenFd) watched w)
    (listening : w.net.fds listenFd = some .listener) (epoll : w.net.fds epollFd = some .epoll)
    (on : w.net.interest listenFd = some listenMask) :
    Serving setup { w with server := { w.server with
      listenFd := listenFd, epollFd := epollFd, state := .running, ingressPaused := false } } := by
  have base : Base setup none (fun _ => true) { w with server := { w.server with
      listenFd := listenFd, epollFd := epollFd, state := .running, ingressPaused := false } } := by
    have keys : w.server.keys = [] := by rw [Memory.keys, starting.clients, List.map_nil]
    constructor
    · exact starting.opened
    · change w.server.keys.Nodup
      rw [keys]
      exact List.nodup_nil
    · exact fun fd c found => absurd found (starting.alone fd c)
    · exact fun fd _ c found => absurd found (starting.alone fd c)
    · exact starting.space
    · exact starting.signal
    · exact fun _ => ⟨listening, listenMask, on, rfl⟩
    · exact fun fd found => (Option.some.inj (starting.listener fd found)).symm
    · exact fun _ => listening
    · exact epoll
    · intro fd member
      change fd ∈ w.server.keys at member
      rw [keys] at member
      cases member
    · exact starting.orphan
    · exact starting.nonneg
    · intro entry member
      change entry ∈ w.ring.published at member
      rw [starting.unpublished] at member
      cases member
    · intro entry member
      change entry ∈ w.server.clients at member
      rw [starting.clients] at member
      cases member
    · intro c old
      change c < w.net.accepted at old
      rw [starting.accepted] at old
      exact absurd old (Nat.not_lt_zero c)
  refine ⟨⟨base, starting.told, fun _ => ?_, by simp, starting.undrained⟩, by simp⟩
  change kFrameSize * (w.ring.published.length - w.ring.released) < kPauseIngressBytes
  rw [starting.unpublished]
  simp [kPauseIngressBytes]

/-- With its clients removed the server has only its own descriptors left to close. -/
theorem Accounted.empty (accounted : Accounted w) (none : w.server.clients = []) :
    (∀ c, c < w.net.accepted → (w.net.conns c).closed = true) ∧
      ∀ fd c, w.net.fds fd ≠ some (.client c) := by
  have clients : ∀ fd c, w.net.fds fd ≠ some (.client c) := by
    intro fd c found
    have member := (accounted.table fd c found).1
    rw [Memory.keys, none] at member
    cases member
  exact ⟨fun c old => accounted.gone c old (fun fd => clients fd c), clients⟩

theorem shutDown_rule {result : Nat} (keep : Shared K w) (ended : Ended result w)
    (accounted : Accounted w) :
    (serverLogic K setup).wp (shutDown result) (fun result v => Ended result v ∧ Shut v) w := by
  apply Logic.wp_seq keep (removeAllClients_rule (fun v => Ended result v ∧ Accounted v)
    ⟨ended, accounted⟩ _ _ _)
  · rintro _ a _ ⟨⟨endedA, accountedA⟩, none⟩
    apply memory_rule
    intro b toB _
    have accountedB := accountedA.still toB.still
    have endedB := endedA.rely toB
    have server : a.server = b.server := toB.still.server.symm
    rcases accountedB.empty (by rw [← server, none]) with ⟨closed, clients⟩
    rw [server]
    split
    · next present =>
        have listens := accountedB.listens present
        have apart : b.server.epollFd ≠ b.server.listenFd := by
          intro same
          have epoll := accountedB.epoll
          rw [same, listens] at epoll
          cases epoll
        apply close_rule (Or.inl listens)
        intro d _ driftD serverD acceptedD closedD fdsD
        have epollD : d.net.fds b.server.epollFd = some .epoll := by
          rw [fdsD, Function.update_of_ne apart]
          exact accountedB.epoll
        apply close_rule (Or.inr epollD)
        intro e _ driftE serverE acceptedE closedE fdsE v move _
        have back : ∀ fd handle, e.net.fds fd = some handle →
            fd ≠ b.server.listenFd ∧ b.net.fds fd = some handle := by
          intro fd handle found
          rw [fdsE] at found
          rcases eq_or_ne fd b.server.epollFd with rfl | other
          · rw [Function.update_self] at found
            cases found
          rw [Function.update_of_ne other, fdsD] at found
          rcases eq_or_ne fd b.server.listenFd with rfl | different
          · rw [Function.update_self] at found
            cases found
          · rw [Function.update_of_ne different] at found
            exact ⟨different, found⟩
        have shut : Shut e := by
          constructor
          · intro c old
            rw [acceptedE, acceptedD] at old
            rw [closedE, closedD]
            exact closed c old
          · exact fun fd c found => clients fd c (back fd _ found).2
          · intro fd found
            have before := back fd _ found
            exact before.1 (accountedB.listener fd before.2)
        have endedE := (endedB.drift driftD (by rw [serverD])).drift driftE (by rw [serverE])
        exact ⟨endedE.rely move, shut.still move.still⟩
    · next gone =>
        apply close_rule (Or.inr accountedB.epoll)
        intro e _ driftE serverE acceptedE closedE fdsE v move _
        have back : ∀ fd handle, e.net.fds fd = some handle → b.net.fds fd = some handle := by
          intro fd handle found
          rw [fdsE] at found
          rcases eq_or_ne fd b.server.epollFd with rfl | other
          · rw [Function.update_self] at found
            cases found
          · rwa [Function.update_of_ne other] at found
        have shut : Shut e := by
          constructor
          · intro c old
            rw [acceptedE] at old
            rw [closedE]
            exact closed c old
          · exact fun fd c found => clients fd c (back fd _ found)
          · intro fd found
            have before := back fd _ found
            have nonneg := accountedB.nonneg fd (by rw [before]; nofun)
            have same := accountedB.listener fd before
            omega
        exact ⟨(endedB.drift driftE (by rw [serverE])).rely move, shut.still move.still⟩
  · rintro a b move ⟨endedA, accountedA⟩
    exact ⟨endedA.rely move, accountedA.still move.still⟩
  · rintro a fd ⟨_, accountedA⟩ member
    exact accountedA.held fd member
  · rintro a b fd _ ⟨endedA, accountedA⟩ member drift still
    exact ⟨endedA.drift drift (by rw [still.server]; rfl), (accountedA.without member).still still⟩

theorem serve_rule {listenFd epollFd : Int} (pid : K.readerPid = setup.readerPid)
    (starting : Starting setup (some listenFd) [] w)
    (listening : w.net.fds listenFd = some .listener) (epoll : w.net.fds epollFd = some .epoll) :
    (serverLogic K setup).wp (serve setup listenFd epollFd)
      (fun result v => Ended result v ∧ Shut v) w := by
  have apart : ∀ {first second : Int} {one two : Handle}, w.net.fds first = some one →
      w.net.fds second = some two → one ≠ two → first ≠ second := by
    rintro first _ one two found found' different rfl
    exact different (Option.some.inj (found.symm.trans found'))
  have spaceListen := apart starting.space listening nofun
  have signalListen := apart starting.signal listening nofun
  have signalSpace := apart starting.signal starting.space nofun
  have epollListen := apart epoll listening nofun
  -- whichever registration fails, both descriptors are closed again
  have stop : ∀ {watched message v}, Starting setup (some listenFd) watched v → v.net.fds = w.net.fds →
      v.past.failed = true → (serverLogic K setup).wp (giveUp message [epollFd, listenFd])
        (fun result v => Ended result v ∧ Shut v) v := by
    intro watched message v startingV fds failed
    apply giveUp_rule message _ startingV failed
    · simpa using epollListen
    · intro fd member
      simp only [List.mem_cons, List.not_mem_nil, or_false] at member
      rw [fds]
      rcases member with rfl | rfl
      · exact Or.inr epoll
      · exact Or.inl listening
    · intro fd mine
      rw [← Option.some.inj mine]
      simp
  apply add_rule listenMask starting List.not_mem_nil listening
  case refused => exact fun v _ startingV fds failed => stop startingV fds failed
  intro a _ startingA fdsA _ onA
  apply add_rule listenMask startingA (by simpa using spaceListen) startingA.space
  case refused => exact fun v _ startingV fds failed => stop startingV (fds.trans fdsA) failed
  intro b _ startingB fdsB keptB onB
  apply add_rule listenMask startingB (by simp [signalListen, signalSpace]) startingB.signal
  case refused =>
    exact fun v _ startingV fds failed => stop startingV ((fds.trans fdsB).trans fdsA) failed
  intro c _ startingC fdsC keptC _
  apply log_rule rfl
  intro d toD _
  have startingD := startingC.rely toD
  have fds : d.net.fds = w.net.fds := by rw [toD.still.fds, fdsC, fdsB, fdsA]
  have on : d.net.interest listenFd = some listenMask := by
    rw [toD.still.interest, keptC listenFd (by simp), keptB listenFd (by simp), onA]
  apply update_rule
  · intro draining
    rw [startingD.state] at draining
    cases draining
  intro e toE keepE
  have serving := (startingD.rely toE).serving (by rw [toE.still.fds, fds, listening])
    (by rw [toE.still.fds, fds, epoll]) (by rw [toE.still.interest, on])
  apply Logic.wp_seq keepE (eventLoop_rule pid serving)
  rintro result g keepG ⟨ended, accounted⟩
  exact shutDown_rule keepG ended accounted

theorem plain_rule {α : Type} {Q : α → World → Prop} (call : NetCall) {k : call.Resp → Proc α}
    (quiet : ∀ net net' r, call.exec net r = some net' → net' = net)
    (starting : Starting setup socket watched w)
    (ready : ∀ v, v.net.fds = w.net.fds → InUse v call)
    (rest : ∀ v r, Shared K v → Starting setup socket watched v → v.net.fds = w.net.fds →
      (World.netFails v.net call r = true → v.past.failed = true) → (serverLogic K setup).wp (k r) Q v) :
    (serverLogic K setup).wp (Proc.call (.net call) >>= k) Q w := by
  apply own_rule (.net call) rfl (fun v move _ => ready v move.still.fds)
  intro a r b toA answer keepB _
  have own := exec_own rfl answer
  rcases exec_net answer with ⟨net, done, same⟩
  have kept := quiet _ _ _ done
  subst kept
  have move : ServerRely K a b := own.unmoved same
  apply rest b r keepB ((starting.rely toA).rely move)
  · rw [move.still.fds, toA.still.fds]
  · intro fails
    rw [same] at fails ⊢
    change (_ || _) = true
    rw [fails, Bool.or_true]

/-- A failure behind `socket` closes the listening socket. -/
theorem giveUp_listener {listenFd : Int} {message : String}
    (starting : Starting setup (some listenFd) [] w) (listening : w.net.fds listenFd = some .listener)
    (failed : w.past.failed = true) :
    (serverLogic K setup).wp (giveUp message [listenFd]) (fun result v => Ended result v ∧ Shut v) w := by
  apply giveUp_rule message _ starting failed (List.nodup_singleton _)
  · intro fd member
    rw [List.mem_singleton.mp member]
    exact Or.inl listening
  · intro fd mine
    rw [← Option.some.inj mine]
    simp

theorem listening_rule {listenFd : Int} (pid : K.readerPid = setup.readerPid)
    (starting : Starting setup (some listenFd) [] w)
    (listening : w.net.fds listenFd = some .listener) :
    (serverLogic K setup).wp (do
      match ← (Proc.call (.net .epollCreate) : Proc FdResult) with
      | .error _ => giveUp "epoll_create1" [listenFd]
      | .ok epollFd => serve setup listenFd epollFd) (fun result v => Ended result v ∧ Shut v) w := by
  apply own_rule (.net .epollCreate) rfl (fun _ _ _ => trivial)
  intro a r b toA answer keepB _
  have startingA := starting.rely toA
  have listeningA : a.net.fds listenFd = some .listener := by rw [toA.still.fds, listening]
  have own := exec_own rfl answer
  rcases exec_net answer with ⟨net, done, same⟩
  cases r with
  | error e =>
      simp only [NetCall.exec, Option.some.injEq] at done
      subst net
      have move : ServerRely K a b := own.unmoved same
      apply giveUp_listener (startingA.rely move) (by rw [move.still.fds, listeningA])
      rw [same]
      simp [World.netFails]
  | ok epollFd =>
      simp only [NetCall.exec, Option.ite_none_right_eq_some, Option.some.injEq] at done
      rcases done with ⟨fresh, rfl⟩
      have startingB : Starting setup (some listenFd) [] b := by
        rw [same]
        exact startingA.openAs fresh (by simp) startingA.told startingA.undrained (Or.inr rfl) (by simp)
      have apart : listenFd ≠ epollFd := by
        rintro rfl
        exact absurd (fresh.2.symm.trans listeningA) (by simp)
      apply serve_rule pid startingB
      · rw [same]
        exact (Function.update_of_ne apart _ _).trans listeningA
      · rw [same]
        exact Function.update_self _ _ _

theorem run_rule (pid : K.readerPid = setup.readerPid) (starting : Starting setup none [] w) :
    (serverLogic K setup).wp (run setup) (fun result v => Ended result v ∧ Shut v) w := by
  apply own_rule (.net .socket) rfl (fun _ _ _ => trivial)
  intro a r b toA answer keepB _
  have startingA := starting.rely toA
  have own := exec_own rfl answer
  rcases exec_net answer with ⟨net, done, same⟩
  cases r with
  | error e =>
      simp only [NetCall.exec, Option.some.injEq] at done
      subst net
      have move : ServerRely K a b := own.unmoved same
      apply giveUp_rule "createSocket" [] (startingA.rely move) ?_ List.nodup_nil (by simp) (by simp)
      rw [same]
      simp [World.netFails]
  | ok listenFd =>
      simp only [NetCall.exec, Option.ite_none_right_eq_some, Option.some.injEq] at done
      rcases done with ⟨fresh, rfl⟩
      have startingB : Starting setup (some listenFd) [] b := by
        rw [same]
        exact startingA.openAs fresh (by simp) startingA.told startingA.undrained (Or.inl rfl) (fun _ => rfl)
      have listeningB : b.net.fds listenFd = some .listener := by
        rw [same]
        exact Function.update_self _ _ _
      apply plain_rule (.setsockopt listenFd) (fun _ _ _ done => (Option.some.inj done).symm) startingB
        (fun v fds => by rw [InUse, fds, listeningB])
      intro c ok _ startingC fdsC failsC
      have listeningC : c.net.fds listenFd = some .listener := by rw [fdsC, listeningB]
      cases ok with
      | false => exact giveUp_listener startingC listeningC (failsC rfl)
      | true =>
      apply plain_rule (.bind listenFd setup.config.port)
        (fun _ _ _ done => (Option.some.inj done).symm) startingC
        (fun v fds => by rw [InUse, fds, listeningC])
      intro d ok _ startingD fdsD failsD
      have listeningD : d.net.fds listenFd = some .listener := by rw [fdsD, listeningC]
      cases ok with
      | false => exact giveUp_listener startingD listeningD (failsD rfl)
      | true =>
      apply plain_rule (.listen listenFd) (fun _ _ _ done => (Option.some.inj done).symm) startingD
        (fun v fds => by rw [InUse, fds, listeningD])
      intro e ok _ startingE fdsE failsE
      have listeningE : e.net.fds listenFd = some .listener := by rw [fdsE, listeningD]
      cases ok with
      | false => exact giveUp_listener startingE listeningE (failsE rfl)
      | true => exact listening_rule pid startingE listeningE

end

end TelemetryServer.Server
