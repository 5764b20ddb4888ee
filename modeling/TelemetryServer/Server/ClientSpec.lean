import Mathlib.Data.List.TakeWhile
import TelemetryServer.Server.ServerRules

namespace TelemetryServer.Server

open Protocol Ipc Atomic

namespace Net

variable (net : Net) (fd : Int)

theorem closeFd_fds : (net.closeFd fd).fds = Function.update net.fds fd none := by
  rw [closeFd]
  split <;> rfl

theorem closeFd_interest : (net.closeFd fd).interest = Function.update net.interest fd none := by
  rw [closeFd]
  split <;> rfl

theorem closeFd_accepted : (net.closeFd fd).accepted = net.accepted := by
  rw [closeFd]
  split <;> rfl

theorem closeFd_lastRecv : (net.closeFd fd).lastRecv = net.lastRecv := by
  rw [closeFd]
  split <;> rfl

theorem closeFd_other {c : Nat} (apart : net.fds fd ≠ some (.client c)) :
    (net.closeFd fd).conns c = net.conns c := by
  rw [closeFd]
  split
  · next other found =>
      have different : c ≠ other := fun same => apart (by rw [found, same])
      exact Function.update_of_ne different _ _
  · rfl

theorem closeFd_client {c : Nat} (mine : net.fds fd = some (.client c)) :
    (net.closeFd fd).conns c = { net.conns c with closed := true } := by
  rw [closeFd, mine]
  exact Function.update_self _ _ _

theorem closeFd_fds_self : (net.closeFd fd).fds fd = none := by
  rw [closeFd_fds, Function.update_self]

variable {net fd}

theorem closeFd_fds_of_ne {other : Int} (apart : other ≠ fd) :
    (net.closeFd fd).fds other = net.fds other := by
  rw [closeFd_fds, Function.update_of_ne apart]

theorem closeFd_interest_of_ne {other : Int} (apart : other ≠ fd) :
    (net.closeFd fd).interest other = net.interest other := by
  rw [closeFd_interest, Function.update_of_ne apart]

/-- What is open after a close was open before. -/
theorem of_closeFd_fds {other : Int} {handle : Handle}
    (found : (net.closeFd fd).fds other = some handle) :
    other ≠ fd ∧ net.fds other = some handle := by
  rcases eq_or_ne other fd with rfl | apart
  · rw [closeFd_fds_self] at found
    cases found
  · exact ⟨apart, (closeFd_fds_of_ne apart).symm.trans found⟩

theorem closeFd_fds_keeps {other : Int} {handle mine : Handle} (closed : net.fds fd = some mine)
    (found : net.fds other = some handle) (different : handle ≠ mine) :
    other ≠ fd ∧ (net.closeFd fd).fds other = some handle := by
  have apart : other ≠ fd := by
    rintro rfl
    exact different (Option.some.inj (found.symm.trans closed))
  exact ⟨apart, (closeFd_fds_of_ne apart).trans found⟩

end Net

theorem Grows.close {a b : Conn} (grows : Grows a b) :
    Grows { a with closed := true } { b with closed := true } :=
  ⟨grows.received, grows.eofRead, grows.registered, rfl, grows.inbound, grows.fin, grows.broken⟩

/-- Closing a descriptor hides what was done to its interest before. -/
theorem closeFd_conns {a b : Net} (fd : Int) (fds : b.fds = a.fds)
    (conns : ∀ c, Grows (a.conns c) (b.conns c)) (c : Nat) :
    Grows ((a.closeFd fd).conns c) ((b.closeFd fd).conns c) := by
  by_cases mine : a.fds fd = some (.client c)
  · have mine' : b.fds fd = some (.client c) := by rw [fds, mine]
    rw [a.closeFd_client fd mine, b.closeFd_client fd mine']
    exact (conns c).close
  · have apart : b.fds fd ≠ some (.client c) := by rwa [fds]
    rw [a.closeFd_other fd mine, b.closeFd_other fd apart]
    exact conns c

def without (w : World) (fd : Int) : World :=
  { w with net := w.net.closeFd fd, server := w.server.erase fd }

theorem Memory.erase_keys (m : Memory) (fd : Int) :
    (m.erase fd).keys = m.keys.filter (fun key => key ≠ fd) := by
  simp [Memory.erase, Memory.keys, List.filter_map, Function.comp_def]

section

variable {K : Contract} {setup : Setup} {w v : World}

theorem Closable.keep {fd : Int} (closable : Closable w fd) (fds : v.net.fds = w.net.fds)
    (closed : ∀ c, (v.net.conns c).closed = (w.net.conns c).closed) : Closable v fd := by
  simp only [Closable, fds, closed]
  exact closable

theorem Closable.there {fd : Int} (closable : Closable w fd) : w.net.fds fd ≠ none := by
  rcases closable with found | found | ⟨c, found, _⟩ <;>
    · rw [found]
      nofun

theorem Closable.rely {fd : Int} (closable : Closable w fd) (move : ServerRely K w v) :
    Closable v fd :=
  closable.keep move.still.fds (fun c => (move.still.conns c).closed)

/-- What a refused or granted request to drop a descriptor leaves. -/
theorem exec_delete {fd : Int} {mask : Mask} {ok : Bool} {u : World}
    (answer : World.exec (.net (.epollCtl .delete fd mask)) w ok = some u) :
    u.server = w.server ∧ u.net.fds = w.net.fds ∧ u.net.accepted = w.net.accepted ∧
      u.net.lastRecv = w.net.lastRecv ∧ u.net.conns = w.net.conns ∧
      ∀ other, other ≠ fd → u.net.interest other = w.net.interest other := by
  rcases exec_net answer with ⟨net, done, rfl⟩
  cases ok with
  | false =>
      simp only [NetCall.exec, Option.some.injEq] at done
      subst net
      exact ⟨rfl, rfl, rfl, rfl, rfl, fun _ _ => rfl⟩
  | true =>
      simp only [NetCall.exec, Option.ite_none_right_eq_some, Option.some.injEq] at done
      rw [← done.2]
      exact ⟨rfl, rfl, rfl, rfl, rfl, fun other apart => Function.update_of_ne apart _ _⟩

/-- The two calls that give up a descriptor, with or without a watch on it. -/
theorem giveUpFd_rule {α : Type} {Q : α → World → Prop} {k : Unit → Proc α} (fd : Int)
    (closable : Closable w fd)
    (rest : ∀ v, Shared K v → Drift w v → Still { w with net := w.net.closeFd fd } v →
      (serverLogic K setup).wp (k ()) Q v) :
    (serverLogic K setup).wp (removeEpollFd fd >>= fun _ => closeFd fd >>= k) Q w := by
  apply own_rule (.net (.epollCtl .delete fd {})) rfl (fun v move _ => (closable.rely move).there)
  intro a ok b toA deleted keepB _
  have dropped := exec_delete deleted
  have drop := exec_own rfl deleted
  have closableB : Closable b fd :=
    (closable.rely toA).keep dropped.2.1 (fun c => by rw [dropped.2.2.2.2.1])
  apply own_rule (.net (.close fd)) rfl (fun v move _ => closableB.rely move)
  intro c _ d toC closed keepD _
  rcases exec_net closed with ⟨net, done, same⟩
  simp only [NetCall.exec, Option.some.injEq] at done
  subst net
  have close := exec_own rfl closed
  apply rest d keepD
  · exact (toA.drift.trans drop.drift).trans (toC.drift.trans close.drift)
  have fds : c.net.fds = w.net.fds := toC.still.fds.trans (dropped.2.1.trans toA.still.fds)
  have conns : ∀ n, Grows (w.net.conns n) (c.net.conns n) := by
    intro n
    refine (toA.still.conns n).trans ?_
    rw [← dropped.2.2.2.2.1]
    exact toC.still.conns n
  have watched : ∀ other, other ≠ fd → c.net.interest other = w.net.interest other := by
    intro other apart
    rw [toC.still.interest, dropped.2.2.2.2.2 other apart, toA.still.interest]
  subst same
  constructor
  · exact toC.still.server.trans (dropped.1.trans toA.still.server)
  · change (c.net.closeFd fd).fds = (w.net.closeFd fd).fds
    rw [Net.closeFd_fds, Net.closeFd_fds, fds]
  · change (c.net.closeFd fd).interest = (w.net.closeFd fd).interest
    rw [Net.closeFd_interest, Net.closeFd_interest]
    funext other
    rcases eq_or_ne other fd with rfl | apart
    · rw [Function.update_self, Function.update_self]
    · rw [Function.update_of_ne apart, Function.update_of_ne apart, watched other apart]
  · change (c.net.closeFd fd).accepted = (w.net.closeFd fd).accepted
    rw [Net.closeFd_accepted, Net.closeFd_accepted, toC.still.accepted, dropped.2.2.1,
      toA.still.accepted]
  · change (c.net.closeFd fd).lastRecv = (w.net.closeFd fd).lastRecv
    rw [Net.closeFd_lastRecv, Net.closeFd_lastRecv, toC.still.lastRecv, dropped.2.2.2.1,
      toA.still.lastRecv]
  · exact closeFd_conns fd fds conns

theorem Final.erase (fd : Int) : w.server.state = .draining →
    Final w { w with server := w.server.erase fd } := by
  intro draining
  refine ⟨draining, rfl, rfl, rfl, id, ?_⟩
  intro none
  change w.server.clients.filter _ = []
  rw [none, List.filter_nil]

theorem removeClient_rule {fd : Int} {c : Nat} (mine : w.net.fds fd = some (.client c))
    (opened : (w.net.conns c).closed = false) : (serverLogic K setup).wp (removeClient fd)
      (fun _ v => Drift w v ∧ Still (without w fd) v) w := by
  apply giveUpFd_rule fd (Or.inr (Or.inr ⟨c, mine, opened⟩))
  intro a _ drift still
  apply update_rule (Final.erase fd)
  intro b toB _
  apply last_log rfl
  intro v move _
  have closed := still.trans toB.still
  have erased := (update_own (fun m => m.erase fd) b).drift
  refine ⟨((drift.trans toB.drift).trans erased).trans move.drift, ?_⟩
  have step : Still (without w fd) { b with server := b.server.erase fd } := by
    refine ⟨?_, closed.fds, closed.interest, closed.accepted, closed.lastRecv, closed.conns⟩
    change b.server.erase fd = w.server.erase fd
    rw [closed.server]
  exact step.trans move.still

theorem Base.close {asked : Int → Bool} {fd : Int} {c : Nat}
    (base : Base setup (some fd) asked w) (mine : w.net.fds fd = some (.client c))
    (leaving : Leaving w c) : Base setup (some fd) asked { w with net := w.net.closeFd fd } := by
  have apart : ∀ other, other ≠ c → w.net.fds fd ≠ some (.client other) := by
    intro other different found
    rw [mine] at found
    exact different (Handle.client.inj (Option.some.inj found)).symm
  have closed := w.net.closeFd_client fd mine
  apply base.around mine
  · constructor
    · rfl
    · exact fun _ _ => rfl
    · exact fun _ member => Or.inl member
    · rfl
    · exact fun _ member _ => member
    · rfl
    · rfl
    · rfl
    · exact w.net.closeFd_accepted fd
    · exact fun _ different => Net.closeFd_fds_of_ne different
    · exact fun _ different => Net.closeFd_interest_of_ne different
    · intro other different
      change Grows _ ((w.net.closeFd fd).conns other)
      rw [Net.closeFd_other w.net fd (apart other different)]
      exact .refl _
  · right
    refine ⟨?_, ?_, ?_, ?_⟩
    · exact w.net.closeFd_fds_self fd
    · change (w.net.closeFd fd).interest fd = none
      rw [Net.closeFd_interest, Function.update_self]
    · change ((w.net.closeFd fd).conns c).closed = true
      rw [closed]
    · constructor
      · change fromConn w.ring.published c =
          (frames ((w.net.closeFd fd).conns c).received).takeWhile _
        rw [closed]
        exact leaving.published
      · cases leaving.reason with
        | rejected frame member invalid => exact .rejected frame (by simpa [closed] using member) invalid
        | finished read fin none =>
            exact .finished (by simpa [closed] using read) (by simpa [closed] using fin)
              (by simpa [closed] using none)
        | broken bad => exact .broken (by simpa [closed] using bad)
        | unregistered never => exact .unregistered (by simpa [closed] using never)
        | draining state => exact .draining state

theorem Base.without {asked : Int → Bool} {fd : Int} {c : Nat}
    (base : Base setup (some fd) asked w) (mine : w.net.fds fd = some (.client c))
    (leaving : Leaving w c) : Base setup none asked (without w fd) := by
  have closed := base.close mine leaving
  have keys := w.server.erase_keys fd
  have free := w.net.closeFd_fds_self fd
  have missing : fd ∉ (w.server.erase fd).keys := by
    rw [keys]
    simp
  refine Base.forget (?_ : Base setup (some fd) asked (Server.without w fd)) free missing
  have same : ∀ n, Same { w with net := w.net.closeFd fd } (Server.without w fd) n :=
    fun n => ⟨.refl _, rfl, id⟩
  refine { closed with keys := ?_, table := ?_, asked := ?_, connected := ?_, gone := ?_ }
  · change (w.server.erase fd).keys.Nodup
    rw [keys]
    exact base.keys.filter _
  · intro other n there
    refine ⟨fun apart => ?_, (closed.table other n there).2⟩
    change other ∈ (w.server.erase fd).keys
    rw [keys]
    have different : other ≠ fd := fun same => apart (by rw [same])
    exact List.mem_filter.mpr ⟨(closed.table other n there).1 apart, by simpa using different⟩
  · intro other member apart
    change other ∈ (w.server.erase fd).keys at member
    rw [keys] at member
    exact closed.asked other (List.mem_of_mem_filter member) apart
  · intro entry member apart
    have inside : entry ∈ w.server.clients := List.mem_of_mem_filter member
    rcases closed.connected entry inside apart with ⟨short, n, connected⟩
    exact ⟨short, n, connected.keep (same n) rfl⟩
  · intro n old none
    rcases closed.gone n old none with ⟨gone, left⟩
    exact ⟨gone, left.keep (same n)⟩

theorem fromConn_valid (keep : Shared K w) (c : Nat) :
    ∀ frame ∈ fromConn w.ring.published c, decide frame.Valid = true := by
  intro frame member
  rcases List.mem_map.mp member with ⟨entry, inside, rfl⟩
  have ok := keep.ring.valid entry (List.mem_of_mem_filter inside)
  simpa using ok

/-- A client in the map whose stream has a clean end may leave for any reason. -/
theorem Connected.leaving {fd : Int} {tail : List UInt8} {c : Nat} (keep : Shared K w)
    (connected : Connected w fd tail c) (short : tail.length < kFrameSize) (reason : Reason w c) :
    Leaving w c := by
  refine ⟨?_, reason⟩
  have all : frames (w.net.conns c).received = fromConn w.ring.published c := by
    rw [connected.received, frames_bytesOf_append, frames_of_lt short, List.append_nil]
  rw [all, List.takeWhile_eq_self_iff.mpr (fromConn_valid keep c)]

/-- A client may leave once the next of its frames is malformed. -/
theorem Connected.rejected {fd : Int} {tail : List UInt8} {c : Nat} {frame : Frame}
    {rest : List Frame} (keep : Shared K w) (connected : Connected w fd tail c)
    (next : frames tail = frame :: rest) (invalid : ¬ frame.Valid) : Leaving w c := by
  have all : frames (w.net.conns c).received =
      fromConn w.ring.published c ++ frame :: rest := by
    rw [connected.received, frames_bytesOf_append, next]
  refine ⟨?_, .rejected frame ?_ invalid⟩
  · rw [all, List.takeWhile_append_of_pos (fromConn_valid keep c), List.takeWhile_cons_of_neg
      (by simpa using invalid), List.append_nil]
  · rw [all]
    simp

theorem Passed.without {fd : Int} (drift : Drift w v) (still : Still (without w fd) v) :
    Passed setup fd w v := by
  have fds : v.net.fds = Function.update w.net.fds fd none := by
    rw [still.fds]
    exact Net.closeFd_fds w.net fd
  refine ⟨drift.noted, ?_, ?_, ?_, ?_, fun _ => drift.counter⟩
  · rw [still.accepted]
    exact le_of_eq (Net.closeFd_accepted w.net fd).symm
  · intro running
    rw [still.server] at running ⊢
    exact ⟨running, rfl⟩
  · intro other apart _ _
    rw [fds, Function.update_of_ne apart]
  · intro c _
    have grows := still.conns c
    change Grows ((w.net.closeFd fd).conns c) _ at grows
    by_cases mine : w.net.fds fd = some (.client c)
    · rw [w.net.closeFd_client fd mine] at grows
      exact ⟨fun fin => (grows.fin fin).1, grows.broken⟩
    · rw [w.net.closeFd_other fd mine] at grows
      exact ⟨fun fin => (grows.fin fin).1, grows.broken⟩

theorem removeAllClients_rule (I : World → Prop) (here : I w)
    (stable : ∀ {v u}, ServerRely K v u → I v → I u)
    (held : ∀ {v fd}, I v → fd ∈ v.server.keys →
      ∃ c, v.net.fds fd = some (.client c) ∧ (v.net.conns c).closed = false)
    (pass : ∀ {v u fd}, Shared K v → I v → fd ∈ v.server.keys → Drift v u →
      Still (Server.without v fd) u → I u) :
    (serverLogic K setup).wp removeAllClients (fun _ v => I v ∧ v.server.clients = []) w := by
  apply Logic.wp_iterate (fun _ v => I v)
  · exact fun t move _ => stable move here
  intro _ a _ holds
  apply memory_rule
  intro b toB _
  apply own_rule (.iteration a.server.keys) rfl (fun _ _ _ => trivial)
  intro c order d toC answer keepD _
  simp only [World.exec, Option.ite_none_right_eq_some, Option.some.injEq] at answer
  rcases answer with ⟨perm, rfl⟩
  have toC' := toB.trans toC
  have holdsC := stable toC' holds
  cases order with
  | nil =>
      intro u move _
      refine ⟨stable move holdsC, ?_⟩
      have none : a.server.keys = [] := List.nil_perm.mp perm
      rw [move.still.server, toC'.still.server]
      simpa [Memory.keys] using none
  | cons fd rest =>
      have member : fd ∈ c.server.keys := by
        rw [toC'.still.server]
        exact perm.subset List.mem_cons_self
      rcases held holdsC member with ⟨n, mine, opened⟩
      apply Logic.wp_seq keepD (removeClient_rule mine opened)
      rintro _ u keepU ⟨drift, still⟩ x move _
      exact stable move (pass keepD holdsC member drift still)

/-- Between `w` and `v` only what epoll watches has changed by the server's doing. -/
structure Aside (setup : Setup) (event : Int) (w v : World) : Prop where
  drift : Drift w v
  server : v.server = w.server
  passed : Passed setup event w v

theorem Aside.of_rely {event : Int} (move : ServerRely K w v) : Aside setup event w v :=
  ⟨move.drift, move.still.server, .of_still event move.still move.drift.noted move.drift.counter⟩

theorem Aside.trans {event : Int} {u : World} (first : Aside setup event w v)
    (second : Aside setup event v u) : Aside setup event w u :=
  ⟨first.drift.trans second.drift, second.server.trans first.server, first.passed.trans second.passed⟩

/-- From `w` to `v` epoll has been told to watch a descriptor, or no longer to. -/
structure Watched (fd : Int) (mask : Option Mask) (w v : World) : Prop where
  own : Own w v
  server : v.server = w.server
  fds : v.net.fds = w.net.fds
  accepted : v.net.accepted = w.net.accepted
  conns : v.net.conns = w.net.conns
  interest : v.net.interest = Function.update w.net.interest fd mask

theorem Watched.aside {event fd : Int} {mask : Option Mask} (watched : Watched fd mask w v) :
    Aside setup event w v := by
  refine ⟨watched.own.drift, watched.server, watched.own.noted, le_of_eq watched.accepted.symm, ?_,
    ?_, ?_, fun _ => watched.own.drift.counter⟩
  · rw [watched.server]
    exact fun running => ⟨running, rfl⟩
  · rw [watched.fds]
    exact fun _ _ _ _ => rfl
  · rw [watched.conns]
    exact fun _ _ => ⟨id, id⟩

theorem Watched.base {asked : Int → Bool} {fd : Int} {mask : Option Mask} {on : Bool}
    {handle : Handle} (base : Base setup none asked w) (watched : Watched fd mask w v)
    (here : w.net.fds fd = some handle)
    (client : ∀ c, handle = .client c → mask.isSome = on)
    (listener : handle = .listener → ∃ m, mask = some m ∧ m.readable = on) :
    Base setup none (Function.update asked fd on) v := by
  have interest := watched.interest
  apply base.rewatch watched.server watched.fds watched.accepted
  · rw [watched.conns]
    exact fun _ => .refl _
  · rw [watched.own.ring]
    exact .refl _
  · intro running
    rw [interest]
    rcases eq_or_ne w.server.listenFd fd with same | apart
    · have listening := (base.listening running).1
      rw [same, here] at listening
      rw [same, Function.update_self, Function.update_self]
      exact listener (Option.some.inj listening)
    · rw [Function.update_of_ne apart, Function.update_of_ne apart]
      exact (base.listening running).2
  · intro other member _
    rw [interest]
    rcases eq_or_ne other fd with rfl | apart
    · rcases base.client member with ⟨_, c, _, _, connected⟩
      rw [Function.update_self, Function.update_self]
      exact client c (Option.some.inj (here.symm.trans connected.fd))
    · rw [Function.update_of_ne apart, Function.update_of_ne apart]
      exact base.asked other member nofun
  · intro other none
    have apart : other ≠ fd := by
      rintro rfl
      rw [here] at none
      cases none
    rw [interest, Function.update_of_ne apart]
    exact base.orphan other none

theorem exec_refused {op : EpollOp} {fd : Int} {mask : Mask}
    (answer : World.exec (.net (.epollCtl op fd mask)) w false = some v) : Still w v := by
  rcases exec_net answer with ⟨net, done, rfl⟩
  cases op <;>
    · rw [← Option.some.inj done]
      exact ⟨rfl, rfl, rfl, rfl, rfl, fun _ => .refl _⟩

theorem Base.refused {asked : Int → Bool} {op : EpollOp} {fd : Int} {mask : Mask}
    (base : Base setup none asked w) (undrained : w.past.drained = false)
    (answer : World.exec (.net (.epollCtl op fd mask)) w false = some v)
    (failed : v.past.failed = true) : Broken v := by
  have own := exec_own rfl answer
  exact ⟨failed, (base.accounted nofun).still (exec_refused answer),
    own.noted.drained.trans undrained⟩

theorem exec_add_client {fd : Int} {mask : Mask} {c : Nat} {ok : Bool}
    (answer : World.exec (.net (.epollCtl .add fd mask)) w ok = some v)
    (client : w.net.fds fd = some (.client c)) (registered : (w.net.conns c).registered = true)
    (off : (w.net.interest fd).isSome = false) :
    if ok = true then Watched fd (some mask) w v else v.past.failed = true := by
  have own := exec_own rfl answer
  rcases exec_net answer with ⟨net, done, rfl⟩
  cases ok with
  | false => simp [World.netFails, client, Option.isNone_iff_eq_none.mpr (by simpa using off)]
  | true =>
      simp only [NetCall.exec, Option.ite_none_right_eq_some, Option.some.injEq] at done
      rcases done with ⟨_, rfl⟩
      have conns : (w.net.register fd mask).conns = w.net.conns := by
        rw [Net.register, client]
        change Function.update w.net.conns c _ = _
        rw [Function.update_eq_self_iff, ← registered]
      have rest : (w.net.register fd mask).fds = w.net.fds ∧
          (w.net.register fd mask).accepted = w.net.accepted ∧
          (w.net.register fd mask).interest = Function.update w.net.interest fd (some mask) := by
        rw [Net.register, client]
        exact ⟨rfl, rfl, rfl⟩
      exact ⟨own, rfl, rest.1, rest.2.1, conns, rest.2.2⟩

theorem exec_delete_client {fd : Int} {mask : Mask} {ok : Bool}
    (answer : World.exec (.net (.epollCtl .delete fd mask)) w ok = some v)
    (on : (w.net.interest fd).isSome = true) :
    if ok = true then Watched fd none w v else v.past.failed = true := by
  have own := exec_own rfl answer
  rcases exec_net answer with ⟨net, done, rfl⟩
  cases ok with
  | false => simp [World.netFails, on]
  | true =>
      simp only [NetCall.exec, Option.ite_none_right_eq_some, Option.some.injEq] at done
      rcases done with ⟨_, rfl⟩
      exact ⟨own, rfl, rfl, rfl, rfl, rfl⟩

theorem exec_modify {fd : Int} {mask : Mask} {ok : Bool}
    (answer : World.exec (.net (.epollCtl .modify fd mask)) w ok = some v)
    (on : (w.net.interest fd).isSome = true) :
    if ok = true then Watched fd (some mask) w v else v.past.failed = true := by
  have own := exec_own rfl answer
  rcases exec_net answer with ⟨net, done, rfl⟩
  cases ok with
  | false => simp [World.netFails, on]
  | true =>
      simp only [NetCall.exec, Option.ite_none_right_eq_some, Option.some.injEq] at done
      rcases done with ⟨_, rfl⟩
      exact ⟨own, rfl, rfl, rfl, rfl, rfl⟩

/-- One registration or deregistration of a client in the map. -/
theorem watch_rule {α : Type} {Q : α → World → Prop} {k : Bool → Proc α} {asked : Int → Bool}
    {fd : Int} (event : Int) (enabled : Bool) (base : Base setup none asked w)
    (undrained : w.past.drained = false)
    (member : fd ∈ w.server.keys) (before : asked fd = !enabled)
    (granted : ∀ v, Shared K v → Base setup none (Function.update asked fd enabled) v →
      Aside setup event w v → (serverLogic K setup).wp (k true) Q v)
    (refused : ∀ v, Shared K v → Broken v → (serverLogic K setup).wp (k false) Q v) :
    (serverLogic K setup).wp
      ((if enabled = true then addEpollFd fd clientMask else removeEpollFd fd) >>= k) Q w := by
  rcases base.client member with ⟨buffer, c, _, _, connected⟩
  have here : ∀ {a}, ServerRely K w a → a.net.fds fd = some (.client c) := by
    intro a toA
    rw [toA.still.fds, connected.fd]
  have baseA : ∀ {a}, ServerRely K w a → Base setup none asked a :=
    fun toA => base.still toA.still toA.drift.view
  have undrainedA : ∀ {a}, ServerRely K w a → a.past.drained = false :=
    fun toA => toA.drift.noted.drained.trans undrained
  have watched : ∀ a, ServerRely K w a → (a.net.interest fd).isSome = !enabled := by
    intro a toA
    rw [toA.still.interest, ← before]
    exact base.asked fd member nofun
  have open_ : ∀ v, ServerRely K w v → Shared K v → v.net.fds fd ≠ none := by
    intro v move _
    rw [here move]
    nofun
  cases enabled with
  | true =>
      apply own_rule (.net (.epollCtl .add fd clientMask)) rfl open_
      intro a ok b toA answer keepB _
      have registered := (toA.still.conns c).registered.trans connected.registered
      have result := exec_add_client answer (here toA) registered (watched a toA)
      cases ok with
      | false => exact refused b keepB ((baseA toA).refused (undrainedA toA) answer result)
      | true =>
          have watches : Watched fd (some clientMask) a b := result
          exact granted b keepB (watches.base (baseA toA) (here toA) (fun _ _ => rfl) nofun)
            ((Aside.of_rely toA).trans watches.aside)
  | false =>
      apply own_rule (.net (.epollCtl .delete fd {})) rfl open_
      intro a ok b toA answer keepB _
      have result := exec_delete_client answer (watched a toA)
      cases ok with
      | false => exact refused b keepB ((baseA toA).refused (undrainedA toA) answer result)
      | true =>
          have watches : Watched fd none a b := result
          exact granted b keepB (watches.base (baseA toA) (here toA) (fun _ _ => rfl) nofun)
            ((Aside.of_rely toA).trans watches.aside)

theorem Base.reask {asked asked' : Int → Bool} {busy : Option Int} (base : Base setup busy asked w)
    (agree : ∀ fd ∈ w.server.keys, asked fd = asked' fd)
    (listener : asked w.server.listenFd = asked' w.server.listenFd) : Base setup busy asked' w :=
  { base with
    asked := fun fd member apart => (base.asked fd member apart).trans (agree fd member)
    listening := fun running => listener ▸ base.listening running }

/-- What the clients in the map are asked for is never asked twice. -/
theorem Base.grantable {asked : Int → Bool} {fd : Int} (base : Base setup none asked w)
    (enabled : Bool) (member : fd ∈ w.server.keys) (before : asked fd = !enabled) :
    Grantable w fd (if enabled = true then .add else .delete) := by
  have watched := base.asked fd member nofun
  rw [before] at watched
  cases enabled with
  | true =>
      rcases base.client member with ⟨_, c, _, _, connected⟩
      refine ⟨?_, by simpa using watched⟩
      rw [connected.fd]
      nofun
  | false => exact watched

theorem updateClients_rule (event : Int) (enabled : Bool) (fds : List Int) (distinct : fds.Nodup)
    {asked : Int → Bool} (base : Base setup none asked w) (undrained : w.past.drained = false)
    (members : ∀ fd ∈ fds, fd ∈ w.server.keys ∧ asked fd = !enabled) :
    (serverLogic K setup).wp (updateClients enabled fds) (fun ok v => if ok = true then
      Base setup none (fun fd => if fd ∈ fds then enabled else asked fd) v ∧ Aside setup event w v
      else Broken v) w := by
  induction fds generalizing w asked with
  | nil =>
      intro v move _
      exact ⟨by simpa using base.still move.still move.drift.view, .of_rely move⟩
  | cons fd rest ih =>
      have unique := List.nodup_cons.mp distinct
      have first := members fd List.mem_cons_self
      apply watching_rule
      · intro v move
        exact (base.still move.still move.drift.view).grantable enabled
          (by rw [move.still.server]; exact first.1) first.2
      intro a toA _
      apply watch_rule event enabled (base.still toA.still toA.drift.view)
        (toA.drift.noted.drained.trans undrained) (by rw [toA.still.server]; exact first.1) first.2
      · intro v _ baseV fromA
        have aside := (Aside.of_rely toA).trans fromA
        have later : ∀ other ∈ rest, other ∈ v.server.keys ∧
            Function.update asked fd enabled other = !enabled := by
          intro other member
          have apart : other ≠ fd := fun same => unique.1 (same ▸ member)
          rw [aside.server, Function.update_of_ne apart]
          exact members other (List.mem_cons_of_mem fd member)
        apply Logic.wp_mono (ih unique.2 baseV (aside.drift.noted.drained.trans undrained) later)
        intro ok u _ result
        cases ok with
        | false => exact result
        | true =>
            have agree : ∀ other, (if other ∈ rest then enabled else Function.update asked fd enabled other) =
                if other ∈ fd :: rest then enabled else asked other := by
              intro other
              rcases eq_or_ne other fd with rfl | apart
              · simp [unique.1]
              · simp [apart]
            exact ⟨result.1.reask (fun other _ => agree other) (agree _), aside.trans result.2⟩
      · exact fun v _ broken u move _ => broken.rely move

theorem updateIngressInterest_rule (event : Int) (enabled : Bool)
    (base : Base setup none (fun _ => !enabled) w) (undrained : w.past.drained = false)
    (running : w.server.state = .running) :
    (serverLogic K setup).wp (updateIngressInterest enabled) (fun ok v => if ok = true then
      Base setup none (fun _ => enabled) v ∧ Aside setup event w v else Broken v) w := by
  apply memory_rule
  intro x toX _
  have listening := base.listening running
  have on : (w.net.interest w.server.listenFd).isSome = true := by
    rcases listening.2 with ⟨mask, watched, _⟩
    rw [watched]
    rfl
  apply watching_rule
  · intro v move
    change (v.net.interest w.server.listenFd).isSome = true
    rw [(toX.trans move).still.interest, on]
  intro a fromX _
  have toA := toX.trans fromX
  apply own_rule (.net (.epollCtl .modify w.server.listenFd { ownMask with readable := enabled })) rfl
  · intro v move _
    change v.net.fds w.server.listenFd ≠ none
    rw [(toA.trans move).still.fds, listening.1]
    nofun
  intro b ok c toB answer _ _
  have toB' := toA.trans toB
  have result := exec_modify answer (by rw [toB'.still.interest]; exact on)
  have baseB := base.still toB'.still toB'.drift.view
  have undrainedB := toB'.drift.noted.drained.trans undrained
  cases ok with
  | false => exact fun v move _ => (baseB.refused undrainedB answer result).rely move
  | true =>
      have watches : Watched w.server.listenFd (some { ownMask with readable := enabled }) b c := result
      have here : b.net.fds w.server.listenFd = some .listener := by
        rw [toB'.still.fds]
        exact listening.1
      have baseC : Base setup none (Function.update (fun _ => !enabled) w.server.listenFd enabled) c :=
        watches.base baseB here nofun (fun _ => ⟨_, rfl, rfl⟩)
      have aside : Aside setup event w c := (Aside.of_rely toB').trans watches.aside
      apply own_rule (.iteration w.server.keys) rfl (fun _ _ _ => trivial)
      intro d order e toD listed _ _
      simp only [World.exec, Option.ite_none_right_eq_some, Option.some.injEq] at listed
      rcases listed with ⟨perm, rfl⟩
      have baseD := baseC.still toD.still toD.drift.view
      have asideD := aside.trans (.of_rely toD)
      have members : ∀ fd ∈ order, fd ∈ d.server.keys ∧
          Function.update (fun _ : Int => !enabled) w.server.listenFd enabled fd = !enabled := by
        intro fd member
        have inside : fd ∈ w.server.keys := perm.subset member
        have apart : fd ≠ w.server.listenFd := by
          rcases base.client inside with ⟨_, _, _, _, connected⟩
          rintro rfl
          rw [connected.fd] at listening
          cases listening.1
        rw [asideD.server, Function.update_of_ne apart]
        exact ⟨inside, rfl⟩
      apply Logic.wp_mono (updateClients_rule event enabled order (perm.nodup_iff.mpr base.keys) baseD
        (asideD.drift.noted.drained.trans undrained) members)
      intro ok v _ final
      cases ok with
      | false => exact final
      | true =>
          have asideV := asideD.trans final.2
          refine ⟨final.1.reask ?_ ?_, asideV⟩
          · intro fd member
            have inside : fd ∈ order := by
              rw [asideV.server] at member
              exact perm.symm.subset member
            simp [inside]
          · rw [asideV.server]
            simp

/-- The server between two events with ingress on. -/
structure Ingress (setup : Setup) (w : World) : Prop where
  base : Base setup none (fun _ => true) w
  told : w.past.dataOwed = false
  room : Room w
  running : w.server.state = .running
  unpaused : w.server.ingressPaused = false
  undrained : w.past.drained = false

theorem Ingress.serving (ingress : Ingress setup w) : Serving setup w := by
  refine ⟨⟨?_, ingress.told, fun _ => ingress.room, ?_, ingress.undrained⟩, ?_⟩
  · rw [ingress.unpaused]
    exact ingress.base
  · intro draining
    rw [ingress.running] at draining
    cases draining
  · intro _ paused
    rw [ingress.unpaused] at paused
    cases paused

theorem Serving.ingress (serving : Serving setup w) (running : w.server.state = .running)
    (unpaused : w.server.ingressPaused = false) : Ingress setup w := by
  refine ⟨?_, serving.told, serving.room unpaused, running, unpaused, serving.undrained⟩
  have base := serving.base
  rw [unpaused] at base
  exact base

theorem Ingress.rely (ingress : Ingress setup w) (move : ServerRely K w v) : Ingress setup v := by
  have serving := ingress.serving.rely move
  apply serving.ingress
  · rw [move.still.server]
    exact ingress.running
  · rw [move.still.server]
    exact ingress.unpaused

structure Joined (fd : Int) (t w : World) : Prop where
  drift : Drift t w
  running : w.server.state = t.server.state
  listenFd : w.server.listenFd = t.server.listenFd
  unpaused : w.server.ingressPaused = t.server.ingressPaused
  accepted : t.net.accepted ≤ w.net.accepted
  fds : ∀ other, other ≠ fd → w.net.fds other = t.net.fds other
  conns : ∀ c, c < t.net.accepted → Grows (t.net.conns c) (w.net.conns c)

theorem Joined.rely {fd : Int} {t : World} (joined : Joined fd t w) (move : ServerRely K w v) :
    Joined fd t v := by
  have still := move.still
  refine ⟨joined.drift.trans move.drift, ?_, ?_, ?_, ?_, ?_, ?_⟩
  · rw [still.server, joined.running]
  · rw [still.server, joined.listenFd]
  · rw [still.server, joined.unpaused]
  · rw [still.accepted]
    exact joined.accepted
  · intro other apart
    rw [still.fds, joined.fds other apart]
  · exact fun c old => (joined.conns c old).trans (still.conns c)

theorem Joined.passed {fd : Int} {t : World} (event : Int) (joined : Joined fd t w)
    (fresh : t.net.fds fd = none) : Passed setup event t w := by
  refine ⟨joined.drift.noted, joined.accepted, ?_, ?_, ?_, fun _ => joined.drift.counter⟩
  · intro running
    exact ⟨joined.running.symm.trans running, joined.listenFd⟩
  · intro other _ there _
    exact joined.fds other (fun same => there (by rw [same, fresh]))
  · intro c old
    have grows := joined.conns c old
    exact ⟨fun fin => (grows.fin fin).1, grows.broken⟩

theorem Base.accept {asked : Int → Bool} {fd : Int} (base : Base setup none asked w)
    (fresh : w.net.Fresh fd) : Base setup (some fd) asked { w with net := w.net.accept fd } := by
  have fds : ∀ other, other ≠ fd → (w.net.accept fd).fds other = w.net.fds other :=
    fun other apart => Function.update_of_ne apart _ _
  have mine : (w.net.accept fd).fds fd = some (.client w.net.accepted) := Function.update_self _ _ _
  have there : ∀ other handle, w.net.fds other = some handle → other ≠ fd := by
    rintro other handle found rfl
    rw [fresh.2] at found
    cases found
  have same : ∀ c, c < w.net.accepted → Same w { w with net := w.net.accept fd } c := by
    intro c old
    refine ⟨?_, rfl, id⟩
    change Grows _ (Function.update w.net.conns w.net.accepted {} c)
    rw [Function.update_of_ne (Nat.ne_of_lt old)]
    exact .refl _
  have client : ∀ other c, (w.net.accept fd).fds other = some (.client c) →
      other = fd ∧ c = w.net.accepted ∨ other ≠ fd ∧ w.net.fds other = some (.client c) := by
    intro other c found
    rcases eq_or_ne other fd with rfl | apart
    · rw [mine] at found
      exact Or.inl ⟨rfl, (Handle.client.inj (Option.some.inj found)).symm⟩
    · rw [fds other apart] at found
      exact Or.inr ⟨apart, found⟩
  constructor
  · exact base.opened
  · exact base.keys
  · intro other c found
    rcases client other c found with ⟨rfl, rfl⟩ | ⟨_, old⟩
    · exact ⟨fun apart => absurd rfl apart, Nat.lt_succ_self _⟩
    · exact ⟨fun _ => (base.table other c old).1 (by simp), Nat.lt_succ_of_lt (base.table other c old).2⟩
  · intro first second c found found'
    rcases client first c found with ⟨rfl, rfl⟩ | ⟨_, old⟩
    · rcases client second _ found' with ⟨rfl, _⟩ | ⟨_, old'⟩
      · rfl
      · exact absurd (base.table second _ old').2 (lt_irrefl _)
    · rcases client second c found' with ⟨rfl, rfl⟩ | ⟨_, old'⟩
      · exact absurd (base.table first _ old).2 (lt_irrefl _)
      · exact base.unique first second c old old'
  · exact (fds _ (there _ _ base.space)).trans base.space
  · exact (fds _ (there _ _ base.signal)).trans base.signal
  · intro running
    have listening := base.listening running
    exact ⟨(fds _ (there _ _ listening.1)).trans listening.1, listening.2⟩
  · intro other found
    rcases eq_or_ne other fd with rfl | apart
    · exact absurd (mine.symm.trans found) (by simp)
    · exact base.listener other ((fds other apart).symm.trans found)
  · intro some
    have listens := base.listens some
    exact (fds _ (there _ _ listens)).trans listens
  · exact (fds _ (there _ _ base.epoll)).trans base.epoll
  · exact fun other member _ => base.asked other member (by simp)
  · intro other none
    have apart : other ≠ fd := by
      rintro rfl
      exact absurd (mine.symm.trans none) (by simp)
    exact base.orphan other ((fds other apart).symm.trans none)
  · intro other found
    rcases eq_or_ne other fd with rfl | apart
    · exact fresh.1
    · exact base.nonneg other (fun none => found ((fds other apart).trans none))
  · exact fun entry member => Nat.lt_succ_of_lt (base.origins entry member)
  · intro entry member _
    rcases base.connected entry member (by simp) with ⟨short, c, connected⟩
    exact ⟨short, c, connected.keep (same c (base.table _ c connected.fd).2)
      (fds _ (there _ _ connected.fd))⟩
  · intro c old none
    have apart : c ≠ w.net.accepted := by
      rintro rfl
      exact none fd mine
    have before : c < w.net.accepted := lt_of_le_of_ne (Nat.le_of_lt_succ old) apart
    have none' : ∀ other, w.net.fds other ≠ some (.client c) := by
      intro other found
      exact none other ((fds other (there _ _ found)).trans found)
    rcases base.gone c before none' with ⟨closed, leaving⟩
    have kept := same c before
    exact ⟨kept.conn.closed.trans closed, leaving.keep kept⟩

/-- A connection that has been accepted and is not in the client map yet. -/
structure Arriving (setup : Setup) (t w : World) (fd : Int) (c : Nat) (on : Bool) : Prop where
  base : Base setup (some fd) (fun _ => true) w
  joined : Joined fd t w
  mine : w.net.fds fd = some (.client c)
  late : t.net.accepted ≤ c
  received : (w.net.conns c).received = []
  opened : (w.net.conns c).closed = false
  registered : (w.net.conns c).registered = on
  watched : (w.net.interest fd).isSome = on
  unpublished : fromConn w.ring.published c = []
  missing : fd ∉ w.server.keys

namespace Arriving

variable {t : World} {fd : Int} {c : Nat} {on : Bool}

theorem rely (arriving : Arriving setup t w fd c on) (move : ServerRely K w v) :
    Arriving setup t v fd c on := by
  have still := move.still
  have conn := still.conns c
  constructor
  · exact arriving.base.still still move.drift.view
  · exact arriving.joined.rely move
  · rw [still.fds, arriving.mine]
  · exact arriving.late
  · rw [conn.received, arriving.received]
  · rw [conn.closed, arriving.opened]
  · rw [conn.registered, arriving.registered]
  · rw [still.interest, arriving.watched]
  · rw [move.drift.view.published, arriving.unpublished]
  · rw [still.server]
    exact arriving.missing

theorem accept (base : Base setup none (fun _ => true) w) (fresh : w.net.Fresh fd) {past : History}
    (own : Own w { w with net := w.net.accept fd, past := past }) :
    Arriving setup w { w with net := w.net.accept fd, past := past } fd w.net.accepted false := by
  have conn : (w.net.accept fd).conns w.net.accepted = {} := Function.update_self _ _ _
  have accepted := base.accept fresh
  have same : Still { w with net := w.net.accept fd } { w with net := w.net.accept fd, past := past } :=
    ⟨rfl, rfl, rfl, rfl, rfl, fun _ => .refl _⟩
  constructor
  · exact accepted.still same (.refl _)
  · refine ⟨own.drift, rfl, rfl, rfl, Nat.le_succ _, ?_, ?_⟩
    · exact fun other apart => Function.update_of_ne apart _ _
    · intro c old
      change Grows _ (Function.update w.net.conns w.net.accepted {} c)
      rw [Function.update_of_ne (Nat.ne_of_lt old)]
      exact .refl _
  · exact Function.update_self _ _ _
  · exact le_rfl
  · exact congrArg Conn.received conn
  · exact congrArg Conn.closed conn
  · exact congrArg Conn.registered conn
  · change (w.net.interest fd).isSome = false
    rw [base.orphan fd fresh.2]
    rfl
  · rw [fromConn, List.map_eq_nil_iff, List.filter_eq_nil_iff]
    intro entry member
    have before := base.origins entry member
    simpa using Nat.ne_of_lt before
  · intro member
    rcases base.client member with ⟨_, _, _, _, connected⟩
    exact absurd (fresh.2.symm.trans connected.fd) (by simp)

theorem register (arriving : Arriving setup t w fd c false) (mask : Mask) {past : History}
    (own : Own w { w with net := w.net.register fd mask, past := past }) :
    Arriving setup t { w with net := w.net.register fd mask, past := past } fd c true := by
  have net : w.net.register fd mask =
      { w.net with
        conns := Function.update w.net.conns c { w.net.conns c with registered := true }
        interest := Function.update w.net.interest fd (some mask) } := by
    rw [Net.register, arriving.mine]
    rfl
  rw [net] at own ⊢
  have conn : Function.update w.net.conns c { w.net.conns c with registered := true } c =
      { w.net.conns c with registered := true } := Function.update_self _ _ _
  constructor
  · refine arriving.base.around arriving.mine ?_ (Or.inl arriving.mine)
    refine ⟨rfl, fun _ _ => rfl, fun _ member => Or.inl member, rfl, fun _ member _ => member, rfl,
      rfl, rfl, rfl, fun _ _ => rfl, ?_, ?_⟩
    · exact fun other apart => Function.update_of_ne apart _ _
    · intro other apart
      change Grows _ (Function.update w.net.conns c _ other)
      rw [Function.update_of_ne apart]
      exact .refl _
  · have joined := arriving.joined
    refine ⟨joined.drift.trans own.drift, joined.running, joined.listenFd, joined.unpaused,
      joined.accepted, joined.fds, ?_⟩
    intro other old
    have apart : other ≠ c := Nat.ne_of_lt (lt_of_lt_of_le old arriving.late)
    change Grows _ (Function.update w.net.conns c _ other)
    rw [Function.update_of_ne apart]
    exact joined.conns other old
  · exact arriving.mine
  · exact arriving.late
  · exact (congrArg Conn.received conn).trans arriving.received
  · exact (congrArg Conn.closed conn).trans arriving.opened
  · exact congrArg Conn.registered conn
  · change (Function.update w.net.interest fd (some mask) fd).isSome = true
    rw [Function.update_self]
    rfl
  · exact arriving.unpublished
  · exact arriving.missing

theorem emplace (arriving : Arriving setup t w fd c true) :
    Base setup none (fun _ => true) { w with server := w.server.emplace fd } := by
  have clients : w.server.emplace fd =
      { w.server with clients := w.server.clients ++ [(fd, {})] } := by
    rw [Memory.emplace, if_neg arriving.missing]
  have keys : (w.server.emplace fd).keys = w.server.keys ++ [fd] := by
    rw [clients]
    simp [Memory.keys]
  have state : (w.server.emplace fd).state = w.server.state := by rw [clients]
  have listenFd : (w.server.emplace fd).listenFd = w.server.listenFd := by rw [clients]
  have epollFd : (w.server.emplace fd).epollFd = w.server.epollFd := by rw [clients]
  have base := arriving.base
  have same : ∀ n, Same w { w with server := w.server.emplace fd } n :=
    fun n => ⟨.refl _, rfl, fun draining => state.trans draining⟩
  have busy : Base setup (some fd) (fun _ => true) { w with server := w.server.emplace fd } := by
    refine { base with
      keys := ?_, table := ?_, listening := ?_, listener := ?_, listens := ?_, epoll := ?_,
      asked := ?_, connected := ?_, gone := ?_ }
    · change (w.server.emplace fd).keys.Nodup
      rw [keys]
      exact List.nodup_append.mpr ⟨base.keys, List.pairwise_singleton _ fd, by
        intro a inside b last equal
        rw [List.mem_singleton.mp last] at equal
        exact arriving.missing (equal ▸ inside)⟩
    · intro other n there
      refine ⟨fun apart => ?_, (base.table other n there).2⟩
      change other ∈ (w.server.emplace fd).keys
      rw [keys]
      exact List.mem_append_left _ ((base.table other n there).1 apart)
    · change (w.server.emplace fd).state = .running →
        w.net.fds (w.server.emplace fd).listenFd = some .listener ∧
        ∃ mask, w.net.interest (w.server.emplace fd).listenFd = some mask ∧ mask.readable = true
      rw [state, listenFd]
      exact base.listening
    · exact listenFd ▸ base.listener
    · exact listenFd ▸ base.listens
    · exact epollFd ▸ base.epoll
    · intro other member apart
      change other ∈ (w.server.emplace fd).keys at member
      rw [keys] at member
      rcases List.mem_append.mp member with old | new
      · exact base.asked other old apart
      · exact absurd (by rw [List.mem_singleton.mp new]) apart
    · intro entry member apart
      change entry ∈ (w.server.emplace fd).clients at member
      rw [clients] at member
      rcases List.mem_append.mp member with old | new
      · rcases base.connected entry old apart with ⟨short, n, connected⟩
        exact ⟨short, n, connected.keep (same n) rfl⟩
      · exact absurd (by rw [List.mem_singleton.mp new]) apart
    · intro n old none
      rcases base.gone n old none with ⟨closed, leaving⟩
      exact ⟨closed, leaving.keep (same n)⟩
  apply busy.unfocus
  · change fd ∈ (w.server.emplace fd).keys
    rw [keys]
    exact List.mem_append_right _ (List.mem_singleton.mpr rfl)
  · exact arriving.watched
  · intro entry member here
    change entry ∈ (w.server.emplace fd).clients at member
    rw [clients] at member
    rcases List.mem_append.mp member with old | new
    · exact absurd (here ▸ List.mem_map_of_mem old) arriving.missing
    · rw [List.mem_singleton.mp new]
      refine ⟨⟨le_rfl, show 0 < kFrameSize by decide⟩, c, arriving.mine, arriving.opened, arriving.registered, ?_⟩
      change (w.net.conns c).received = bytesOf (fromConn w.ring.published c) ++ []
      rw [arriving.received, arriving.unpublished]
      rfl

theorem close (arriving : Arriving setup t w fd c false) :
    Base setup none (fun _ => true) { w with net := w.net.closeFd fd } := by
  have leaving : Leaving w c := by
    refine ⟨?_, .unregistered arriving.registered⟩
    rw [arriving.unpublished, arriving.received, frames_of_lt (by decide)]
    rfl
  apply (arriving.base.close arriving.mine leaving).forget
  · exact w.net.closeFd_fds_self fd
  · exact arriving.missing

end Arriving

theorem Joined.ingress {fd : Int} {t : World} (ingress : Ingress setup t) (joined : Joined fd t w)
    (base : Base setup none (fun _ => true) w) : Ingress setup w :=
  ⟨base, joined.drift.dataOwed.trans ingress.told, ingress.room.drift joined.drift,
    joined.running.trans ingress.running, joined.unpaused.trans ingress.unpaused,
    joined.drift.noted.drained.trans ingress.undrained⟩

structure Accepted (setup : Setup) (event : Int) (w v : World) : Prop where
  ingress : Ingress setup v
  passed : Passed setup event w v

theorem Accepted.rely {event : Int} {u : World} (accepted : Accepted setup event w v)
    (move : ServerRely K v u) : Accepted setup event w u :=
  ⟨accepted.ingress.rely move, accepted.passed.trans
    (.of_still event move.still move.drift.noted move.drift.counter)⟩

theorem Arriving.done {t : World} {fd event : Int} {c : Nat} {on : Bool}
    (arriving : Arriving setup t w fd c on) (own : Own w v) (ingress : Ingress setup t)
    (fresh : t.net.fds fd = none)
    (server : v.server.state = w.server.state ∧ v.server.listenFd = w.server.listenFd ∧
      v.server.ingressPaused = w.server.ingressPaused)
    (accepted : v.net.accepted = w.net.accepted)
    (fds : ∀ other, other ≠ fd → v.net.fds other = w.net.fds other)
    (conns : ∀ n, n ≠ c → v.net.conns n = w.net.conns n)
    (base : Base setup none (fun _ => true) v) : Accepted setup event t v := by
  have joined := arriving.joined
  have joinedV : Joined fd t v := by
    refine ⟨joined.drift.trans own.drift, server.1.trans joined.running,
      server.2.1.trans joined.listenFd, server.2.2.trans joined.unpaused, ?_, ?_, ?_⟩
    · rw [accepted]
      exact joined.accepted
    · exact fun other apart => (fds other apart).trans (joined.fds other apart)
    · intro n old
      rw [conns n (Nat.ne_of_lt (lt_of_lt_of_le old arriving.late))]
      exact joined.conns n old
  exact ⟨joinedV.ingress ingress base, joinedV.passed event fresh⟩

theorem Own.unmoved {past : History} (own : Own w v) (same : v = { w with past := past }) :
    ServerRely K w v := by
  apply own.rely
  rw [same]
  exact ⟨rfl, rfl, rfl, rfl, rfl, fun _ => .refl _⟩

section Newcomer

variable {t : World} {fd event : Int} {c : Nat} {Q : Unit ⊕ Bool → World → Prop}

theorem registered_rule (ingress : Ingress setup t) (fresh : t.net.fds fd = none)
    (registered : Arriving setup t w fd c true)
    (done : ∀ v, Accepted setup event t v → Q (.inl ()) v) : (serverLogic K setup).wp (do
      update (fun m => m.emplace fd)
      Proc.log (.cout ("[server] client connected fd=" ++ toString fd ++ "\n"))
      return .inl ()) Q w := by
  apply update_rule
  · intro draining
    rw [registered.joined.running, ingress.running] at draining
    cases draining
  intro g toG _
  have arrivingG := registered.rely toG
  apply log_rule rfl
  intro x toX _ y toY _
  have server : ∀ m : Memory, (m.emplace fd).state = m.state ∧
      (m.emplace fd).listenFd = m.listenFd ∧ (m.emplace fd).ingressPaused = m.ingressPaused := by
    intro m
    rw [Memory.emplace]
    split <;> exact ⟨rfl, rfl, rfl⟩
  have accepted : Accepted setup event t { g with server := g.server.emplace fd } :=
    arrivingG.done (update_own (fun m => m.emplace fd) g) ingress fresh (server g.server) rfl
      (fun _ _ => rfl) (fun _ _ => rfl) arrivingG.emplace
  exact done y (accepted.rely (toX.trans toY))

theorem refused_rule (ingress : Ingress setup t) (fresh : t.net.fds fd = none)
    (refused : Arriving setup t w fd c false)
    (done : ∀ v, Accepted setup event t v → Q (.inl ()) v) : (serverLogic K setup).wp (do
      Proc.log (.perror "epoll_ctl ADD client")
      closeFd fd
      return .inl ()) Q w := by
  apply log_rule rfl
  intro g toG _
  apply own_rule (.net (.close fd)) rfl
  · intro v move _
    have arrivingV := (refused.rely toG).rely move
    exact Or.inr (Or.inr ⟨_, arrivingV.mine, arrivingV.opened⟩)
  intro h _ i toH closed keepI _ x toX _
  have arrivingH := (refused.rely toG).rely toH
  have own := exec_own rfl closed
  rcases exec_net closed with ⟨net, closes, same⟩
  simp only [NetCall.exec, Option.some.injEq] at closes
  subst net
  have still : Still { h with net := h.net.closeFd fd } i := by
    rw [same]
    exact ⟨rfl, rfl, rfl, rfl, rfl, fun _ => .refl _⟩
  have base : Base setup none (fun _ => true) i := by
    apply arrivingH.close.still still
    rw [own.ring]
    exact .refl _
  have fds : i.net.fds = Function.update h.net.fds fd none := by
    rw [still.fds]
    exact Net.closeFd_fds h.net fd
  have conns : ∀ n, n ≠ c → i.net.conns n = h.net.conns n := by
    intro n apart
    rw [same]
    apply Net.closeFd_other
    rw [arrivingH.mine]
    exact fun equal => apart (Handle.client.inj (Option.some.inj equal)).symm
  have accepted : Accepted setup event t i := arrivingH.done own ingress fresh
    (by rw [still.server]; exact ⟨rfl, rfl, rfl⟩)
    (by rw [still.accepted]; exact Net.closeFd_accepted h.net fd)
    (fun other apart => by rw [fds, Function.update_of_ne apart]) conns base
  exact done x (accepted.rely toX)

/-- A connection that has been accepted is watched and kept, or closed again. -/
theorem newcomer_rule (ingress : Ingress setup t) (fresh : t.net.fds fd = none)
    (arriving : Arriving setup t w fd c false)
    (done : ∀ v, Accepted setup event t v → Q (.inl ()) v) : (serverLogic K setup).wp (do
      if ← addEpollFd fd clientMask then
        update (fun m => m.emplace fd)
        Proc.log (.cout ("[server] client connected fd=" ++ toString fd ++ "\n"))
        return .inl ()
      else
        Proc.log (.perror "epoll_ctl ADD client")
        closeFd fd
        return .inl ()) Q w := by
  apply own_rule (.net (.epollCtl .add fd clientMask)) rfl
  · intro v move _
    change v.net.fds fd ≠ none
    rw [(arriving.rely move).mine]
    simp
  intro e ok f toE added _ _
  have own := exec_own rfl added
  rcases exec_net added with ⟨net, adds, same⟩
  have arrivingE := arriving.rely toE
  cases ok with
  | true =>
      simp only [NetCall.exec, Option.ite_none_right_eq_some, Option.some.injEq] at adds
      rcases adds with ⟨_, rfl⟩
      rw [same] at own
      have registered := arrivingE.register clientMask own
      rw [← same] at registered
      exact registered_rule ingress fresh registered done
  | false =>
      simp only [NetCall.exec, Option.some.injEq] at adds
      subst net
      exact refused_rule ingress fresh (arrivingE.rely (Own.unmoved (K := K) own same)) done

end Newcomer

theorem acceptClients_rule (event : Int) (ingress : Ingress setup w) :
    (serverLogic K setup).wp (acceptClients w.server.listenFd) (fun ok v =>
      Accepted setup event w v ∧ (ok = false → v.past.acceptFailed = true)) w := by
  apply Logic.wp_iterate (fun _ v => Accepted setup event w v)
  · intro t move _
    exact Accepted.rely ⟨ingress, .refl setup event w⟩ move
  intro _ a _ since
  apply own_rule (.net (.accept4 w.server.listenFd)) rfl
  · intro v move _
    have ingressV := since.ingress.rely move
    have same := ((since.rely move).passed.running ingressV.running).2
    refine ⟨ingressV.running, ?_⟩
    rw [← same]
    exact (ingressV.base.listening ingressV.running).1
  intro b r d toB answer keepD _
  have own := exec_own rfl answer
  have sinceB := since.rely toB
  have ingressB := sinceB.ingress
  rcases exec_net answer with ⟨net, done, same⟩
  cases r with
  | ok fd =>
      simp only [NetCall.exec, Option.ite_none_right_eq_some, Option.some.injEq] at done
      rcases done with ⟨⟨_, fresh⟩, rfl⟩
      rw [same] at own
      have arriving := Arriving.accept ingressB.base fresh own
      rw [← same] at arriving
      have finish : ∀ v, Accepted setup event b v → Accepted setup event w v :=
        fun v accepted => ⟨accepted.ingress, sinceB.passed.trans accepted.passed⟩
      exact newcomer_rule ingressB fresh.2 arriving finish
  | error e =>
      simp only [NetCall.exec, Option.some.injEq] at done
      subst net
      have sinceD : Accepted setup event w d := sinceB.rely (Own.unmoved (K := K) own same)
      have stop : World.acceptFails (.accept4 w.server.listenFd) (.error e) = true →
          ∀ Q : Unit ⊕ Bool → World → Prop,
          (∀ u, Accepted setup event w u → u.past.acceptFailed = true → Q (.inr false) u) →
          (serverLogic K setup).wp (do
            Proc.log (.perror "accept4")
            return (.inr false : Unit ⊕ Bool)) Q d := by
        intro fails Q rest
        have failed : d.past.acceptFailed = true := by
          rw [same]
          simp [fails]
        apply log_rule rfl
        intro x toX _ y toY _
        have move := toX.trans toY
        exact rest y (sinceD.rely move) (move.drift.noted.acceptFailed failed)
      cases e with
      | EAGAIN => exact fun x move _ => ⟨sinceD.rely move, by simp⟩
      | EINTR => exact fun x move _ => sinceD.rely move
      | ECONNABORTED => exact stop rfl _ fun u since failed => ⟨since, fun _ => failed⟩
      | EMFILE => exact stop rfl _ fun u since failed => ⟨since, fun _ => failed⟩
      | other code => exact stop rfl _ fun u since failed => ⟨since, fun _ => failed⟩

end

end TelemetryServer.Server
