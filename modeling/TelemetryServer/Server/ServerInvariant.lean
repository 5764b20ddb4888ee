import TelemetryServer.Ipc.ProducerSpec
import TelemetryServer.Server.Server

namespace TelemetryServer.Server

open Protocol Ipc

/-- The frames published from one connection, in order. -/
def fromConn (published : List (Nat × Frame)) (c : Nat) : List Frame :=
  (published.filter (fun entry => entry.1 = c)).map Prod.snd

theorem fromConn_append (old new : List (Nat × Frame)) (c : Nat) :
    fromConn (old ++ new) c = fromConn old c ++ fromConn new c := by
  simp [fromConn]

theorem fromConn_same (fs : List Frame) (c : Nat) :
    fromConn (fs.map (fun frame => (c, frame))) c = fs := by
  simp [fromConn, List.filter_map, Function.comp_def]

theorem fromConn_other (fs : List Frame) {c other : Nat} (apart : c ≠ other) :
    fromConn (fs.map (fun frame => (c, frame))) other = [] := by
  simp [fromConn, List.filter_map, Function.comp_def, apart]

/-- The most frames the ring can hold: less than the pause threshold, and one more batch. -/
def maxPending : Nat := (kPauseIngressBytes + 4064) / kFrameSize

structure RingOk (l : Layout) : Prop where
  ring : RingInv l
  pending : l.occupancy ≤ maxPending
  valid : ∀ entry ∈ l.published, entry.2.Valid

structure Grows (a b : Conn) : Prop where
  received : b.received = a.received
  eofRead : b.eofRead = a.eofRead
  registered : b.registered = a.registered
  closed : b.closed = a.closed
  inbound : a.inbound <+: b.inbound
  fin : a.fin = true → b.fin = true ∧ b.inbound = a.inbound
  broken : a.broken = true → b.broken = true

theorem Grows.refl (a : Conn) : Grows a a :=
  ⟨rfl, rfl, rfl, rfl, List.prefix_rfl, fun fin => ⟨fin, rfl⟩, id⟩

theorem Grows.trans {a b c : Conn} (first : Grows a b) (second : Grows b c) : Grows a c := by
  refine ⟨second.received.trans first.received, second.eofRead.trans first.eofRead,
    second.registered.trans first.registered, second.closed.trans first.closed,
    first.inbound.trans second.inbound, ?_, fun broken => second.broken (first.broken broken)⟩
  intro fin
  have middle := first.fin fin
  have last := second.fin middle.1
  exact ⟨last.1, last.2.trans middle.2⟩

/-- Nothing the server owns has changed between `w` and `v`. -/
structure Still (w v : World) : Prop where
  server : v.server = w.server
  fds : v.net.fds = w.net.fds
  interest : v.net.interest = w.net.interest
  accepted : v.net.accepted = w.net.accepted
  lastRecv : v.net.lastRecv = w.net.lastRecv
  conns : ∀ c, Grows (w.net.conns c) (v.net.conns c)

theorem Still.refl (w : World) : Still w w := ⟨rfl, rfl, rfl, rfl, rfl, fun _ => .refl _⟩

theorem Still.trans {w v u : World} (first : Still w v) (second : Still v u) : Still w u :=
  ⟨second.server.trans first.server, second.fds.trans first.fds,
    second.interest.trans first.interest, second.accepted.trans first.accepted,
    second.lastRecv.trans first.lastRecv, fun c => (first.conns c).trans (second.conns c)⟩

/-- What was noted stays noted. -/
structure Noted (a b : History) : Prop where
  failed : a.failed = true → b.failed = true
  acceptFailed : a.acceptFailed = true → b.acceptFailed = true
  readerGone : a.readerGone = true → b.readerGone = true
  shutdown : a.shutdown = true → b.shutdown = true
  snapshot : b.snapshot = a.snapshot
  polled : b.polled = a.polled
  drained : b.drained = a.drained

theorem Noted.refl (a : History) : Noted a a := ⟨id, id, id, id, rfl, rfl, rfl⟩

theorem Noted.trans {a b c : History} (first : Noted a b) (second : Noted b c) : Noted a c :=
  ⟨second.failed ∘ first.failed, second.acceptFailed ∘ first.acceptFailed,
    second.readerGone ∘ first.readerGone, second.shutdown ∘ first.shutdown,
    second.snapshot.trans first.snapshot, second.polled.trans first.polled,
    second.drained.trans first.drained⟩

/-- Owing a notification is no part of what is noted. -/
theorem Noted.owing {a b : History} (noted : Noted a b) (owed owed' : Bool) :
    Noted { a with dataOwed := owed } { b with dataOwed := owed' } :=
  ⟨noted.failed, noted.acceptFailed, noted.readerGone, noted.shutdown, noted.snapshot, noted.polled,
    noted.drained⟩

/-- A wake-up of the server is under way. -/
def SpaceDue (w : World) : Prop := w.past.spaceOwed = true ∨ 0 < w.spaceReady

/-- A wake-up of the reader is under way. -/
def DataDue (w : World) : Prop := w.past.dataOwed = true ∨ 0 < w.dataReady

/-- Between `w` and `v` the server has published nothing and consumed no notification. -/
structure Drift (w v : World) : Prop where
  view : ProducerView w.ring v.ring
  dataOwed : v.past.dataOwed = w.past.dataOwed
  freed : v.ring.released = w.ring.released ∨ SpaceDue v
  space : SpaceDue w → SpaceDue v
  counter : w.spaceReady ≤ v.spaceReady
  noted : Noted w.past v.past

theorem Drift.refl (w : World) : Drift w w :=
  ⟨.refl _, rfl, Or.inl rfl, id, le_rfl, .refl _⟩

theorem Drift.trans {w v u : World} (first : Drift w v) (second : Drift v u) : Drift w u := by
  refine ⟨first.view.trans second.view, second.dataOwed.trans first.dataOwed, ?_,
    second.space ∘ first.space, first.counter.trans second.counter,
    first.noted.trans second.noted⟩
  rcases second.freed with same | due
  · rcases first.freed with same' | due'
    · exact Or.inl (same.trans same')
    · exact Or.inr (second.space due')
  · exact Or.inr due

/-- What the two processes agree on: the reader's process id, and what a reader that has
ended well has made of the published frames. -/
structure Contract where
  readerPid : Nat
  stored : Storage.FileSystem → List (Nat × Frame) → Prop

section

variable (K : Contract)

structure Shared (w : World) : Prop where
  ring : RingOk w.ring
  ended : w.child = .exited 0 → w.ring.producerClosed ≠ 0 ∧ K.stored w.fs w.ring.published
  pid : w.readerPid = K.readerPid

/-- What the server sees of the reader, of the network and of the world outside. -/
structure ServerRely (w v : World) : Prop where
  drift : Drift w v
  still : Still w v
  keeps : Shared K w → Shared K v

/-- What the reader sees of the server and of the world outside. -/
structure ReaderRely (w v : World) : Prop where
  view : ConsumerView w.ring v.ring
  fs : v.fs = w.fs
  store : v.store = w.store
  spaceOwed : v.past.spaceOwed = w.past.spaceOwed
  delivered : v.past.delivered = w.past.delivered
  child : v.child = w.child ∨ ∃ signal, v.child = .signaled signal
  added : v.ring.published = w.ring.published ∧ v.ring.producerClosed = w.ring.producerClosed ∨
    DataDue v
  data : DataDue w → DataDue v
  keeps : Shared K w → Shared K v

variable {K}

theorem ServerRely.refl (w : World) : ServerRely K w w := ⟨.refl w, .refl w, id⟩

theorem ServerRely.trans {w v u : World} (first : ServerRely K w v) (second : ServerRely K v u) :
    ServerRely K w u :=
  ⟨first.drift.trans second.drift, first.still.trans second.still, second.keeps ∘ first.keeps⟩

theorem ReaderRely.refl (w : World) : ReaderRely K w w :=
  ⟨.refl _, rfl, rfl, rfl, rfl, Or.inl rfl, Or.inl ⟨rfl, rfl⟩, id, id⟩

theorem ReaderRely.trans {w v u : World} (first : ReaderRely K w v) (second : ReaderRely K v u) :
    ReaderRely K w u := by
  refine ⟨first.view.trans second.view, second.fs.trans first.fs, second.store.trans first.store,
    second.spaceOwed.trans first.spaceOwed, second.delivered.trans first.delivered, ?_, ?_,
    second.data ∘ first.data, second.keeps ∘ first.keeps⟩
  · rcases second.child with same | killed
    · rw [same]
      exact first.child
    · exact Or.inr killed
  · rcases second.added with same | due
    · rcases first.added with same' | due'
      · exact Or.inl ⟨same.1.trans same'.1, same.2.trans same'.2⟩
      · exact Or.inr (second.data due')
    · exact Or.inr due

end

/-- A paused server will be told when there is room again. -/
def Waits (w : World) : Prop :=
  kResumeIngressBytes < kFrameSize * w.ring.occupancy ∨ SpaceDue w

/-- There is room for one more batch of any client. -/
def Room (w : World) : Prop := kFrameSize * w.ring.occupancy < kPauseIngressBytes

theorem Drift.occupancy {w v : World} (drift : Drift w v) :
    v.ring.occupancy ≤ w.ring.occupancy := by
  have released := drift.view.released
  rw [Layout.occupancy, Layout.occupancy, drift.view.published]
  omega

theorem Room.drift {w v : World} (room : Room w) (drift : Drift w v) : Room v := by
  have less := Nat.mul_le_mul_left kFrameSize drift.occupancy
  exact lt_of_le_of_lt less room

theorem Waits.drift {w v : World} (waits : Waits w) (drift : Drift w v) : Waits v := by
  rcases drift.freed with same | due
  · rcases waits with full | due
    · left
      rwa [Layout.occupancy, drift.view.published, same]
    · exact Or.inr (drift.space due)
  · exact Or.inr due

def Buffer.Small (b : Buffer) : Prop := b.offset ≤ b.data.length ∧ b.unread.length < kFrameSize

/-- An open connection and its buffer, whose unread bytes follow what was published. -/
structure Connected (w : World) (fd : Int) (tail : List UInt8) (c : Nat) : Prop where
  fd : w.net.fds fd = some (.client c)
  opened : (w.net.conns c).closed = false
  registered : (w.net.conns c).registered = true
  received : (w.net.conns c).received = bytesOf (fromConn w.ring.published c) ++ tail

/-- Why a connection may have been closed. -/
inductive Reason (w : World) (c : Nat) : Prop
  | rejected (frame : Frame) :
      frame ∈ frames (w.net.conns c).received → ¬ frame.Valid → Reason w c
  | finished : (w.net.conns c).eofRead = true → (w.net.conns c).fin = true →
      (w.net.conns c).inbound = [] → Reason w c
  | broken : (w.net.conns c).broken = true → Reason w c
  | unregistered : (w.net.conns c).registered = false → Reason w c
  | draining : w.server.state = .draining → Reason w c

/-- All that was acceptable of a connection has been published, and it need not stay open. -/
structure Leaving (w : World) (c : Nat) : Prop where
  published : fromConn w.ring.published c =
    (frames (w.net.conns c).received).takeWhile (fun frame => decide frame.Valid)
  reason : Reason w c

/-- What `Connected` and `Leaving` depend on is as it was. -/
structure Same (w v : World) (c : Nat) : Prop where
  conn : Grows (w.net.conns c) (v.net.conns c)
  published : fromConn v.ring.published c = fromConn w.ring.published c
  state : w.server.state = .draining → v.server.state = .draining

theorem Reason.keep {w v : World} {c : Nat} (reason : Reason w c) (same : Same w v c) :
    Reason v c := by
  cases reason with
  | rejected frame member invalid => exact .rejected frame (by rwa [same.conn.received]) invalid
  | finished read fin none =>
      have ended := same.conn.fin fin
      exact .finished (same.conn.eofRead.trans read) ended.1 (ended.2.trans none)
  | broken bad => exact .broken (same.conn.broken bad)
  | unregistered never => exact .unregistered (same.conn.registered.trans never)
  | draining state => exact .draining (same.state state)

theorem Leaving.keep {w v : World} {c : Nat} (leaving : Leaving w c) (same : Same w v c) :
    Leaving v c :=
  ⟨by rw [same.published, same.conn.received, leaving.published], leaving.reason.keep same⟩

theorem Connected.keep {w v : World} {fd : Int} {tail : List UInt8} {c : Nat}
    (connected : Connected w fd tail c) (same : Same w v c)
    (kept : v.net.fds fd = w.net.fds fd) : Connected v fd tail c :=
  ⟨kept.trans connected.fd, same.conn.closed.trans connected.opened,
    same.conn.registered.trans connected.registered,
    by rw [same.conn.received, same.published, connected.received]⟩

/-- The client map, the descriptor table and the connections describe each other. The client
on descriptor `busy` is being worked on; `asked` tells which of the others epoll watches, and
whether it watches the listener for new connections. -/
structure Base (setup : Setup) (busy : Option Int) (asked : Int → Bool) (w : World) : Prop where
  opened : w.ring.producerClosed = 0
  keys : w.server.keys.Nodup
  table : ∀ fd c, w.net.fds fd = some (.client c) →
    (busy ≠ some fd → fd ∈ w.server.keys) ∧ c < w.net.accepted
  unique : ∀ fd other c, w.net.fds fd = some (.client c) → w.net.fds other = some (.client c) →
    fd = other
  space : w.net.fds setup.spaceReadyFd = some .spaceReady
  signal : w.net.fds setup.signalFd = some .signal
  listening : w.server.state = .running → w.net.fds w.server.listenFd = some .listener ∧
    ∃ mask, w.net.interest w.server.listenFd = some mask ∧ mask.readable = asked w.server.listenFd
  listener : ∀ fd, w.net.fds fd = some .listener → fd = w.server.listenFd
  listens : w.server.listenFd ≠ -1 → w.net.fds w.server.listenFd = some .listener
  epoll : w.net.fds w.server.epollFd = some .epoll
  asked : ∀ fd ∈ w.server.keys, busy ≠ some fd → (w.net.interest fd).isSome = asked fd
  orphan : ∀ fd, w.net.fds fd = none → w.net.interest fd = none
  nonneg : ∀ fd, w.net.fds fd ≠ none → 0 ≤ fd
  origins : ∀ entry ∈ w.ring.published, entry.1 < w.net.accepted
  connected : ∀ entry ∈ w.server.clients, busy ≠ some entry.1 →
    entry.2.Small ∧ ∃ c, Connected w entry.1 entry.2.unread c
  gone : ∀ c, c < w.net.accepted → (∀ fd, w.net.fds fd ≠ some (.client c)) →
    (w.net.conns c).closed = true ∧ Leaving w c

/-- Every open descriptor of the server is accounted for, whatever else may have failed. -/
structure Accounted (w : World) : Prop where
  keys : w.server.keys.Nodup
  table : ∀ fd c, w.net.fds fd = some (.client c) → fd ∈ w.server.keys ∧ c < w.net.accepted
  unique : ∀ fd other c, w.net.fds fd = some (.client c) → w.net.fds other = some (.client c) →
    fd = other
  held : ∀ fd ∈ w.server.keys, ∃ c, w.net.fds fd = some (.client c) ∧ (w.net.conns c).closed = false
  gone : ∀ c, c < w.net.accepted → (∀ fd, w.net.fds fd ≠ some (.client c)) →
    (w.net.conns c).closed = true
  listener : ∀ fd, w.net.fds fd = some .listener → fd = w.server.listenFd
  listens : w.server.listenFd ≠ -1 → w.net.fds w.server.listenFd = some .listener
  epoll : w.net.fds w.server.epollFd = some .epoll
  nonneg : ∀ fd, w.net.fds fd ≠ none → 0 ≤ fd

structure Awake (setup : Setup) (w : World) : Prop where
  base : Base setup none (fun _ => !w.server.ingressPaused) w
  told : w.past.dataOwed = false
  room : w.server.ingressPaused = false → Room w
  draining : w.server.state = .draining →
    w.server.listenFd = -1 ∧ w.server.clients = [] ∧ w.past.shutdown = true
  undrained : w.past.drained = false

/-- The state of the server between two events. -/
structure Serving (setup : Setup) (w : World) : Prop extends Awake setup w where
  waits : w.server.state = .running → w.server.ingressPaused = true → Waits w

/-- What is still true of an event when its turn comes. -/
structure Pending (setup : Setup) (w : World) (event : Event) : Prop where
  nonneg : 0 ≤ event.fd
  there : w.server.state = .running → w.net.fds event.fd ≠ none
  same : w.server.state = .running → w.net.fds event.fd = w.past.polled event.fd
  hangup : ∀ c, w.net.fds event.fd = some (.client c) → event.events.hangup = true →
    ((w.net.conns c).fin = true ∨ (w.net.conns c).broken = true) ∧
    (event.events.readable = false → (w.net.conns c).broken = true)
  space : event.fd = setup.spaceReadyFd → event.events.readable = true → 0 < w.spaceReady
  failed : event.fd = setup.spaceReadyFd ∨ event.fd = setup.signalFd ∨
    event.fd = w.server.listenFd → event.events.failed = true → w.past.failed = true

/-- What handling an event on `fd` leaves of the others. -/
structure Passed (setup : Setup) (fd : Int) (w v : World) : Prop where
  noted : Noted w.past v.past
  accepted : w.net.accepted ≤ v.net.accepted
  running : v.server.state = .running →
    w.server.state = .running ∧ v.server.listenFd = w.server.listenFd
  others : ∀ other, other ≠ fd → w.net.fds other ≠ none → v.server.state = .running →
    v.net.fds other = w.net.fds other
  ended : ∀ c, c < w.net.accepted → ((w.net.conns c).fin = true → (v.net.conns c).fin = true) ∧
    ((w.net.conns c).broken = true → (v.net.conns c).broken = true)
  counter : fd ≠ setup.spaceReadyFd → w.spaceReady ≤ v.spaceReady

theorem Passed.refl (setup : Setup) (fd : Int) (w : World) : Passed setup fd w w :=
  ⟨.refl _, le_rfl, fun running => ⟨running, rfl⟩, fun _ _ _ _ => rfl, fun _ _ => ⟨id, id⟩,
    fun _ => le_rfl⟩

theorem Passed.trans {setup : Setup} {fd : Int} {w v u : World} (first : Passed setup fd w v)
    (second : Passed setup fd v u) : Passed setup fd w u := by
  refine ⟨first.noted.trans second.noted, first.accepted.trans second.accepted, ?_, ?_, ?_,
    fun apart => (first.counter apart).trans (second.counter apart)⟩
  · intro running
    have middle := second.running running
    have start := first.running middle.1
    exact ⟨start.1, middle.2.trans start.2⟩
  · intro other apart there running
    have same := first.others other apart there (second.running running).1
    have there' : v.net.fds other ≠ none := by rwa [same]
    exact (second.others other apart there' running).trans same
  · intro c old
    have start := first.ended c old
    have rest := second.ended c (lt_of_lt_of_le old first.accepted)
    exact ⟨rest.1 ∘ start.1, rest.2 ∘ start.2⟩

theorem Passed.of_still {setup : Setup} (fd : Int) {w v : World} (still : Still w v)
    (noted : Noted w.past v.past) (counter : w.spaceReady ≤ v.spaceReady) :
    Passed setup fd w v := by
  refine ⟨noted, le_of_eq still.accepted.symm, ?_, ?_, ?_, fun _ => counter⟩
  · intro running
    rw [still.server] at running ⊢
    exact ⟨running, rfl⟩
  · intro other _ _ _
    rw [still.fds]
  · intro c _
    exact ⟨fun fin => ((still.conns c).fin fin).1, (still.conns c).broken⟩

/-- Only descriptor `fd`, its buffer and its connection `c` differ between `w` and `v`. -/
structure Around (fd : Int) (c : Nat) (w v : World) : Prop where
  opened : v.ring.producerClosed = w.ring.producerClosed
  published : ∀ other, other ≠ c → fromConn v.ring.published other = fromConn w.ring.published other
  origins : ∀ entry ∈ v.ring.published, entry ∈ w.ring.published ∨ entry.1 = c
  keys : v.server.keys = w.server.keys
  entries : ∀ entry ∈ v.server.clients, entry.1 ≠ fd → entry ∈ w.server.clients
  state : v.server.state = w.server.state
  listenFd : v.server.listenFd = w.server.listenFd
  epollFd : v.server.epollFd = w.server.epollFd
  accepted : v.net.accepted = w.net.accepted
  fds : ∀ other, other ≠ fd → v.net.fds other = w.net.fds other
  interest : ∀ other, other ≠ fd → v.net.interest other = w.net.interest other
  conns : ∀ other, other ≠ c → Grows (w.net.conns other) (v.net.conns other)

theorem Around.same {fd : Int} {c other : Nat} {w v : World} (around : Around fd c w v)
    (apart : other ≠ c) : Same w v other :=
  ⟨around.conns other apart, around.published other apart, fun state => around.state.trans state⟩

namespace Base

variable {setup : Setup} {busy : Option Int} {asked : Int → Bool} {w v : World} {fd : Int} {c : Nat}

theorem focus (base : Base setup none asked w) (fd : Int) : Base setup (some fd) asked w :=
  { base with
    table := fun other c there => ⟨fun _ => (base.table other c there).1 nofun,
      (base.table other c there).2⟩
    asked := fun other member _ => base.asked other member nofun
    connected := fun entry member _ => base.connected entry member nofun }

theorem rewatch {asked' : Int → Bool} (base : Base setup busy asked w)
    (server : v.server = w.server) (fds : v.net.fds = w.net.fds)
    (accepted : v.net.accepted = w.net.accepted)
    (conns : ∀ c, Grows (w.net.conns c) (v.net.conns c)) (view : ProducerView w.ring v.ring)
    (listening : w.server.state = .running → ∃ mask,
      v.net.interest w.server.listenFd = some mask ∧ mask.readable = asked' w.server.listenFd)
    (watched : ∀ fd ∈ w.server.keys, busy ≠ some fd → (v.net.interest fd).isSome = asked' fd)
    (orphan : ∀ fd, w.net.fds fd = none → v.net.interest fd = none) :
    Base setup busy asked' v := by
  have same : ∀ c, Same w v c := fun c =>
    ⟨conns c, by rw [view.published], fun state => by rwa [server]⟩
  constructor
  · exact view.closed.trans base.opened
  · rw [server]
    exact base.keys
  · rw [server, fds, accepted]
    exact base.table
  · rw [fds]
    exact base.unique
  · rw [fds]
    exact base.space
  · rw [fds]
    exact base.signal
  · rw [server, fds]
    exact fun running => ⟨(base.listening running).1, listening running⟩
  · rw [server, fds]
    exact base.listener
  · rw [server, fds]
    exact base.listens
  · rw [server, fds]
    exact base.epoll
  · rw [server]
    exact watched
  · rw [fds]
    exact orphan
  · rw [fds]
    exact base.nonneg
  · rw [view.published, accepted]
    exact base.origins
  · intro entry member apart
    rw [server] at member
    rcases base.connected entry member apart with ⟨short, c, connected⟩
    exact ⟨short, c, connected.keep (same c) (by rw [fds])⟩
  · intro c old none
    rw [accepted] at old
    rw [fds] at none
    rcases base.gone c old none with ⟨closed, leaving⟩
    exact ⟨(conns c).closed.trans closed, leaving.keep (same c)⟩

theorem still (base : Base setup busy asked w) (still : Still w v)
    (view : ProducerView w.ring v.ring) : Base setup busy asked v := by
  apply base.rewatch still.server still.fds still.accepted still.conns view
  · rw [still.interest]
    exact fun running => (base.listening running).2
  · rw [still.interest]
    exact base.asked
  · rw [still.interest]
    exact base.orphan

theorem around (base : Base setup (some fd) asked w) (mine : w.net.fds fd = some (.client c))
    (around : Around fd c w v)
    (here : v.net.fds fd = some (.client c) ∨
      v.net.fds fd = none ∧ v.net.interest fd = none ∧ (v.net.conns c).closed = true ∧ Leaving v c) :
    Base setup (some fd) asked v := by
  have back : ∀ other handle, v.net.fds other = some handle → w.net.fds other = some handle := by
    intro other handle there
    rcases eq_or_ne other fd with rfl | apart
    · rcases here with same | ⟨none, _⟩
      · rw [mine, ← same, there]
      · rw [none] at there
        cases there
    · rwa [around.fds other apart] at there
  have own : ∀ other handle, w.net.fds other = some handle → (∀ c, handle ≠ .client c) →
      other ≠ fd := by
    intro other handle there notClient equal
    rw [equal, mine] at there
    exact notClient c (Option.some.inj there).symm
  have apartConn : ∀ other c', other ≠ fd → w.net.fds other = some (.client c') → c' ≠ c := by
    intro other c' apart there equal
    rw [equal] at there
    exact apart (base.unique other fd c there mine)
  constructor
  · exact around.opened.trans base.opened
  · rw [around.keys]
    exact base.keys
  · intro other c' there
    rw [around.keys, around.accepted]
    exact base.table other c' (back other _ there)
  · intro first second c' there there'
    exact base.unique first second c' (back first _ there) (back second _ there')
  · rw [around.fds _ (own _ _ base.space nofun)]
    exact base.space
  · rw [around.fds _ (own _ _ base.signal nofun)]
    exact base.signal
  · intro running
    rw [around.state] at running
    have listening := base.listening running
    have apart := own _ _ listening.1 nofun
    rw [around.listenFd, around.fds _ apart, around.interest _ apart]
    exact listening
  · intro other there
    rw [around.listenFd]
    exact base.listener other (back other _ there)
  · intro some
    rw [around.listenFd] at some ⊢
    have listens := base.listens some
    rw [around.fds _ (own _ _ listens nofun)]
    exact listens
  · rw [around.epollFd, around.fds _ (own _ _ base.epoll nofun)]
    exact base.epoll
  · intro other member apart
    rw [around.keys] at member
    have different : other ≠ fd := fun equal => apart (by rw [equal])
    rw [around.interest other different]
    exact base.asked other member apart
  · intro other none
    rcases eq_or_ne other fd with rfl | apart
    · rcases here with same | ⟨_, removed, _⟩
      · rw [same] at none
        cases none
      · exact removed
    · rw [around.fds other apart] at none
      rw [around.interest other apart]
      exact base.orphan other none
  · intro other there
    obtain ⟨handle, found⟩ := Option.ne_none_iff_exists'.mp there
    exact base.nonneg other (by rw [back other handle found]; nofun)
  · intro entry member
    rw [around.accepted]
    rcases around.origins entry member with old | new
    · exact base.origins entry old
    · rw [new]
      exact (base.table fd c mine).2
  · intro entry member apart
    have different : entry.1 ≠ fd := fun equal => apart (by rw [equal])
    rcases base.connected entry (around.entries entry member different) apart with
      ⟨short, c', connected⟩
    have kept := around.same (apartConn _ _ different connected.fd)
    exact ⟨short, c', connected.keep kept (around.fds _ different)⟩
  · intro c' old none
    rw [around.accepted] at old
    rcases eq_or_ne c' c with rfl | apart
    · rcases here with same | ⟨_, _, closed, leaving⟩
      · exact absurd same (none fd)
      · exact ⟨closed, leaving⟩
    · have none' : ∀ other, w.net.fds other ≠ some (.client c') := by
        intro other there
        have different : other ≠ fd := by
          intro equal
          rw [equal, mine] at there
          exact apart (Handle.client.inj (Option.some.inj there)).symm
        exact none other (by rw [around.fds other different]; exact there)
      rcases base.gone c' old none' with ⟨closed, leaving⟩
      exact ⟨(around.conns c' apart).closed.trans closed, leaving.keep (around.same apart)⟩

theorem unfocus (base : Base setup (some fd) asked w) (member : fd ∈ w.server.keys)
    (watched : (w.net.interest fd).isSome = asked fd)
    (connected : ∀ entry ∈ w.server.clients, entry.1 = fd →
      entry.2.Small ∧ ∃ c, Connected w entry.1 entry.2.unread c) :
    Base setup none asked w := by
  have or : ∀ other, other = fd ∨ some fd ≠ some other := by
    intro other
    rcases eq_or_ne other fd with same | apart
    · exact Or.inl same
    · exact Or.inr (fun equal => apart (Option.some.inj equal).symm)
  refine { base with table := ?_, asked := ?_, connected := ?_ }
  · intro other c there
    refine ⟨fun _ => ?_, (base.table other c there).2⟩
    rcases or other with rfl | apart
    · exact member
    · exact (base.table other c there).1 apart
  · intro other inside _
    rcases or other with rfl | apart
    · exact watched
    · exact base.asked other inside apart
  · intro entry inside _
    rcases or entry.1 with same | apart
    · exact connected entry inside same
    · exact base.connected entry inside apart

theorem forget (base : Base setup (some fd) asked w) (closed : w.net.fds fd = none)
    (missing : fd ∉ w.server.keys) : Base setup none asked w := by
  have different : ∀ other, other ∈ w.server.keys → some fd ≠ some other := by
    intro other member equal
    rw [← Option.some.inj equal] at member
    exact missing member
  refine { base with table := ?_, asked := ?_, connected := ?_ }
  · intro other c there
    refine ⟨fun _ => (base.table other c there).1 ?_, (base.table other c there).2⟩
    intro equal
    rw [← Option.some.inj equal, closed] at there
    cases there
  · exact fun other member _ => base.asked other member (different other member)
  · exact fun entry member _ => base.connected entry member
      (different entry.1 (List.mem_map_of_mem member))

theorem remember {m : Memory} (base : Base setup none asked w)
    (clients : m.clients = w.server.clients) (listenFd : m.listenFd = w.server.listenFd)
    (epollFd : m.epollFd = w.server.epollFd)
    (state : w.server.state = .draining → m.state = .draining)
    (running : m.state = .running → w.server.state = .running) :
    Base setup none asked { w with server := m } := by
  have keys : m.keys = w.server.keys := by rw [Memory.keys, Memory.keys, clients]
  have same : ∀ c, Same w { w with server := m } c := fun c => ⟨.refl _, rfl, state⟩
  refine { base with
    keys := ?_, table := ?_, listening := ?_, listener := ?_, listens := ?_, epoll := ?_,
    asked := ?_, connected := ?_, gone := ?_ }
  · exact keys ▸ base.keys
  · exact keys ▸ base.table
  · intro now
    change w.net.fds m.listenFd = _ ∧ ∃ mask, w.net.interest m.listenFd = some mask ∧ _
    rw [listenFd]
    exact base.listening (running now)
  · exact listenFd ▸ base.listener
  · exact listenFd ▸ base.listens
  · exact epollFd ▸ base.epoll
  · exact keys ▸ base.asked
  · intro entry member apart
    rcases base.connected entry (clients ▸ member) apart with ⟨small, c, connected⟩
    exact ⟨small, c, connected.keep (same c) rfl⟩
  · intro c old none
    rcases base.gone c old none with ⟨closed, leaving⟩
    exact ⟨closed, leaving.keep (same c)⟩

theorem accounted (base : Base setup busy asked w)
    (worked : ∀ fd, busy = some fd → fd ∈ w.server.keys ∧
      ∃ c, w.net.fds fd = some (.client c) ∧ (w.net.conns c).closed = false) : Accounted w := by
  constructor
  · exact base.keys
  · intro fd c there
    refine ⟨?_, (base.table fd c there).2⟩
    by_cases mine : busy = some fd
    · exact (worked fd mine).1
    · exact (base.table fd c there).1 mine
  · exact base.unique
  · intro fd member
    by_cases mine : busy = some fd
    · exact (worked fd mine).2
    · rcases List.mem_map.mp member with ⟨entry, inside, rfl⟩
      rcases base.connected entry inside mine with ⟨_, c, connected⟩
      exact ⟨c, connected.fd, connected.opened⟩
  · exact fun c old none => (base.gone c old none).1
  · exact base.listener
  · exact base.listens
  · exact base.epoll
  · exact base.nonneg

theorem client (base : Base setup none asked w) (member : fd ∈ w.server.keys) :
    ∃ buffer c, (fd, buffer) ∈ w.server.clients ∧ buffer.Small ∧
      Connected w fd buffer.unread c := by
  rcases List.mem_map.mp member with ⟨⟨_, buffer⟩, inside, rfl⟩
  rcases base.connected _ inside nofun with ⟨short, c, connected⟩
  exact ⟨buffer, c, inside, short, connected⟩

end Base

theorem Accounted.still {w v : World} (accounted : Accounted w) (still : Still w v) : Accounted v := by
  constructor
  · rw [still.server]
    exact accounted.keys
  · rw [still.server, still.fds, still.accepted]
    exact accounted.table
  · rw [still.fds]
    exact accounted.unique
  · intro fd member
    rw [still.server] at member
    rcases accounted.held fd member with ⟨c, there, opened⟩
    exact ⟨c, by rw [still.fds, there], (still.conns c).closed.trans opened⟩
  · intro c old none
    rw [still.accepted] at old
    rw [still.fds] at none
    exact (still.conns c).closed.trans (accounted.gone c old none)
  · rw [still.server, still.fds]
    exact accounted.listener
  · rw [still.server, still.fds]
    exact accounted.listens
  · rw [still.server, still.fds]
    exact accounted.epoll
  · rw [still.fds]
    exact accounted.nonneg

structure Broken (w : World) : Prop where
  failed : w.past.failed = true
  accounted : Accounted w
  undrained : w.past.drained = false

theorem Broken.rely {K : Contract} {w v : World} (broken : Broken w) (move : ServerRely K w v) :
    Broken v :=
  ⟨move.drift.noted.failed broken.failed, broken.accounted.still move.still,
    move.drift.noted.drained.trans broken.undrained⟩

theorem Awake.accounted {setup : Setup} {w : World} (awake : Awake setup w) : Accounted w :=
  awake.base.accounted nofun

theorem Awake.rely {K : Contract} {setup : Setup} {w v : World} (awake : Awake setup w)
    (move : ServerRely K w v) : Awake setup v := by
  have server := move.still.server
  have base := awake.base.still move.still move.drift.view
  constructor
  · rwa [server]
  · exact move.drift.dataOwed.trans awake.told
  · intro unpaused
    rw [server] at unpaused
    exact (awake.room unpaused).drift move.drift
  · intro draining
    rw [server] at draining ⊢
    have done := awake.draining draining
    exact ⟨done.1, done.2.1, move.drift.noted.shutdown done.2.2⟩
  · exact move.drift.noted.drained.trans awake.undrained

theorem Serving.rely {K : Contract} {setup : Setup} {w v : World} (serving : Serving setup w)
    (move : ServerRely K w v) : Serving setup v := by
  refine ⟨serving.toAwake.rely move, ?_⟩
  intro running paused
  rw [move.still.server] at running paused
  exact (serving.waits running paused).drift move.drift

end TelemetryServer.Server
