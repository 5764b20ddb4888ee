import Mathlib.Data.List.Nodup
import TelemetryServer.Server.ClientSpec

namespace TelemetryServer.Server

open Protocol Ipc Atomic

theorem Buffer.pendingBytes_eq (b : Buffer) : b.pendingBytes = b.unread.length := by
  rw [pendingBytes, unread, List.length_drop, empty]
  split <;> simp_all

theorem Buffer.compact_unread (b : Buffer) : (b.compact).unread = b.unread := by
  rw [compact]
  split
  · rfl
  split
  · next spent =>
      have none : b.unread = [] := List.drop_eq_nil_of_le (by simpa [empty] using spent)
      rw [none]
      rfl
  split
  · rw [unread, List.drop_zero, unread]
  · rfl

theorem Buffer.compact_sound {b : Buffer} (inside : b.offset ≤ b.data.length) :
    (b.compact).offset ≤ (b.compact).data.length := by
  rw [compact]
  split
  · exact inside
  split
  · exact le_rfl
  split
  · exact Nat.zero_le _
  · exact inside

theorem Buffer.insert_unread (b : Buffer) (chunk : List UInt8) (inside : b.offset ≤ b.data.length) :
    (b.insert chunk).unread = b.unread ++ chunk := by
  rw [insert, unread, unread, List.drop_append_of_le_length inside]

namespace Memory

variable {m : Memory} {fd : Int} {b : Buffer}

theorem modify_keys (m : Memory) (fd : Int) (f : Buffer → Buffer) : (m.modify fd f).keys = m.keys := by
  rw [modify, keys, keys, List.map_map]
  apply List.map_congr_left
  intro entry _
  simp only [Function.comp_apply]
  split <;> rfl

theorem modify_other {f : Buffer → Buffer} {entry : Int × Buffer}
    (member : entry ∈ (m.modify fd f).clients) (apart : entry.1 ≠ fd) : entry ∈ m.clients := by
  rcases List.mem_map.mp member with ⟨old, inside, rfl⟩
  split at apart
  · next same => exact absurd same apart
  · next other =>
      rw [if_neg other]
      exact inside

theorem modify_self (f : Buffer → Buffer) (member : (fd, b) ∈ m.clients) :
    (fd, f b) ∈ (m.modify fd f).clients :=
  List.mem_map.mpr ⟨(fd, b), member, if_pos rfl⟩

theorem entry_unique {other : Buffer} (distinct : m.keys.Nodup) (member : (fd, b) ∈ m.clients)
    (member' : (fd, other) ∈ m.clients) : other = b := by
  have same := List.inj_on_of_nodup_map distinct member' member rfl
  exact congrArg Prod.snd same

theorem buffer_eq (distinct : m.keys.Nodup) (member : (fd, b) ∈ m.clients) : m.buffer fd = b := by
  cases found : m.clients.lookup fd with
  | none =>
      have missing := List.lookup_eq_none_iff.mp found (fd, b) member
      simp at missing
  | some other =>
      rcases List.lookup_eq_some_iff.mp found with ⟨before, after, split, _⟩
      have member' : (fd, other) ∈ m.clients := by
        rw [split]
        simp
      rw [buffer, found]
      exact entry_unique distinct member member'

end Memory

/-- The client on `fd` is being read from since `t`: `tail` are the bytes received from it and
not published yet. -/
structure Reading (setup : Setup) (t w : World) (fd : Int) (c : Nat) (buffer : Buffer)
    (tail : List UInt8) : Prop where
  base : Base setup (some fd) (fun _ => true) w
  entry : (fd, buffer) ∈ w.server.clients
  connected : Connected w fd tail c
  watched : (w.net.interest fd).isSome = true
  running : w.server.state = .running
  unpaused : w.server.ingressPaused = false
  lastRecv : w.net.lastRecv = c
  origin : t.net.fds fd = some (.client c)
  passed : Passed setup fd t w
  undrained : w.past.drained = false

section

variable {K : Contract} {setup : Setup} {t w v : World}
  {fd : Int} {c : Nat} {buffer : Buffer} {tail : List UInt8}

namespace Reading

theorem member (reading : Reading setup t w fd c buffer tail) : fd ∈ w.server.keys :=
  List.mem_map.mpr ⟨_, reading.entry, rfl⟩

theorem buffer_eq (reading : Reading setup t w fd c buffer tail) : w.server.buffer fd = buffer :=
  Memory.buffer_eq reading.base.keys reading.entry

theorem rely (reading : Reading setup t w fd c buffer tail) (move : ServerRely K w v) :
    Reading setup t v fd c buffer tail := by
  have still := move.still
  constructor
  · exact reading.base.still still move.drift.view
  · rw [still.server]
    exact reading.entry
  · apply reading.connected.keep
    · exact ⟨still.conns c, by rw [move.drift.view.published], fun draining => by rwa [still.server]⟩
    · rw [still.fds]
  · rw [still.interest]
    exact reading.watched
  · rw [still.server]
    exact reading.running
  · rw [still.server]
    exact reading.unpaused
  · rw [still.lastRecv]
    exact reading.lastRecv
  · exact reading.origin
  · exact reading.passed.trans (.of_still fd still move.drift.noted move.drift.counter)
  · exact move.drift.noted.drained.trans reading.undrained

theorem modify (reading : Reading setup t w fd c buffer tail) (f : Buffer → Buffer) :
    Reading setup t { w with server := w.server.modify fd f } fd c (f buffer) tail := by
  have connected := reading.connected
  refine ⟨?_, Memory.modify_self f reading.entry, ⟨connected.fd, connected.opened,
    connected.registered, connected.received⟩, reading.watched, reading.running, reading.unpaused,
    reading.lastRecv, reading.origin, ?_, reading.undrained⟩
  · refine reading.base.around connected.fd ?_ (Or.inl connected.fd)
    exact ⟨rfl, fun _ _ => rfl, fun _ member => Or.inl member, Memory.modify_keys _ fd f,
      fun _ member apart => Memory.modify_other member apart, rfl, rfl, rfl, rfl, fun _ _ => rfl,
      fun _ _ => rfl, fun _ _ => .refl _⟩
  · have passed := reading.passed
    exact ⟨passed.noted, passed.accepted, passed.running, passed.others, passed.ended, passed.counter⟩

theorem told (reading : Reading setup t w fd c buffer tail) :
    Reading setup t (World.told w) fd c buffer tail := by
  have connected := reading.connected
  have passed := reading.passed
  have still : Still w (World.told w) := ⟨rfl, rfl, rfl, rfl, rfl, fun _ => .refl _⟩
  exact ⟨reading.base.still still (.refl _), reading.entry,
    ⟨connected.fd, connected.opened, connected.registered, connected.received⟩, reading.watched,
    reading.running, reading.unpaused, reading.lastRecv, reading.origin,
    ⟨passed.noted.owing _ false, passed.accepted, passed.running, passed.others,
      passed.ended, passed.counter⟩, reading.undrained⟩

theorem publish {span rest : List UInt8} (reading : Reading setup t w fd c buffer (span ++ rest))
    (pushed : Published w v span (frames span).length) (whole : bytesOf (frames span) = span)
    (still : Still w v) (noted : Noted w.past v.past) (counter : w.spaceReady ≤ v.spaceReady) :
    Reading setup t v fd c buffer rest := by
  have connected := reading.connected
  have added : v.ring.published = w.ring.published ++ (frames span).map (fun frame => (c, frame)) := by
    rw [pushed.published, List.take_length, reading.lastRecv]
  have mine : fromConn v.ring.published c = fromConn w.ring.published c ++ frames span := by
    rw [added, fromConn_append, fromConn_same]
  have conn := still.conns c
  constructor
  · refine reading.base.around connected.fd ?_ (Or.inl (by rw [still.fds, connected.fd]))
    constructor
    · exact pushed.closed
    · intro other apart
      rw [added, fromConn_append, fromConn_other _ apart.symm, List.append_nil]
    · intro entry member
      rw [added] at member
      rcases List.mem_append.mp member with old | new
      · exact Or.inl old
      · rcases List.mem_map.mp new with ⟨frame, _, rfl⟩
        exact Or.inr rfl
    · rw [still.server]
    · intro entry inside _
      rwa [still.server] at inside
    · rw [still.server]
    · rw [still.server]
    · rw [still.server]
    · exact still.accepted
    · intro other _
      rw [still.fds]
    · intro other _
      rw [still.interest]
    · exact fun other _ => still.conns other
  · rw [still.server]
    exact reading.entry
  · refine ⟨by rw [still.fds, connected.fd], conn.closed.trans connected.opened,
      conn.registered.trans connected.registered, ?_⟩
    rw [conn.received, connected.received, mine, bytesOf_append, whole, List.append_assoc]
  · rw [still.interest]
    exact reading.watched
  · rw [still.server]
    exact reading.running
  · rw [still.server]
    exact reading.unpaused
  · rw [still.lastRecv]
    exact reading.lastRecv
  · exact reading.origin
  · exact reading.passed.trans (.of_still fd still noted counter)
  · exact noted.drained.trans reading.undrained

theorem accounted (reading : Reading setup t w fd c buffer tail) : Accounted w := by
  apply reading.base.accounted
  intro other mine
  rw [← Option.some.inj mine]
  exact ⟨reading.member, c, reading.connected.fd, reading.connected.opened⟩

theorem final {m : Memory} (reading : Reading setup t w fd c buffer tail) :
    w.server.state = .draining → Final w { w with server := m } := by
  intro draining
  rw [reading.running] at draining
  cases draining

theorem done (reading : Reading setup t w fd c buffer tail) (small : buffer.Small)
    (same : buffer.unread = tail) : Base setup none (fun _ => true) w := by
  apply reading.base.unfocus reading.member reading.watched
  rintro ⟨key, b⟩ inside rfl
  have equal := Memory.entry_unique reading.base.keys reading.entry inside
  subst equal
  exact ⟨small, c, same ▸ reading.connected⟩

theorem leave (reading : Reading setup t w fd c buffer tail) (leaving : Leaving w c)
    (drift : Drift w v) (still : Still (without w fd) v) :
    Base setup none (fun _ => true) v ∧ v.server.state = .running ∧ v.server.ingressPaused = false ∧
      (∀ c, v.net.fds fd ≠ some (.client c)) ∧ Passed setup fd t v := by
  have base := (reading.base.without reading.connected.fd leaving).still still drift.view
  have passed : Passed setup fd w v := Passed.without drift still
  refine ⟨base, ?_, ?_, ?_, reading.passed.trans passed⟩
  · rw [still.server]
    exact reading.running
  · rw [still.server]
    exact reading.unpaused
  · intro n found
    rw [still.fds] at found
    exact absurd rfl (Net.of_closeFd_fds found).1

end Reading

structure Turn (setup : Setup) (t w : World) (fd : Int) : Prop where
  ingress : Ingress setup w
  passed : Passed setup fd t w
  member : fd ∈ w.server.keys
  fds : w.net.fds fd = t.net.fds fd

theorem Turn.rely (turn : Turn setup t w fd) (move : ServerRely K w v) : Turn setup t v fd :=
  ⟨turn.ingress.rely move,
    turn.passed.trans (.of_still fd move.still move.drift.noted move.drift.counter),
    by rw [move.still.server]; exact turn.member, by rw [move.still.fds, turn.fds]⟩

/-- Bytes have arrived: the client is out of step until they are put into its buffer. -/
theorem Turn.recv {bytes : List UInt8} {u : World} (turn : Turn setup t w fd)
    (answer : World.exec (.net (.recv fd)) w (.data bytes) = some u) :
    ∃ c buffer, Reading setup t u fd c buffer (buffer.unread ++ bytes) ∧ buffer.Small ∧
      bytes.length ≤ kReadBufferSize ∧ u.past.dataOwed = false ∧ Room u := by
  have own := exec_own rfl answer
  have ingress := turn.ingress
  rcases exec_net answer with ⟨net, done, same⟩
  rcases ingress.base.client turn.member with ⟨buffer, c, entry, small, connected⟩
  simp only [NetCall.exec, connected.fd, Option.ite_none_right_eq_some, Option.some.injEq] at done
  rcases done with ⟨⟨_, short, _⟩, rfl⟩
  have conn : (w.net.receive c bytes).conns c = { w.net.conns c with
      inbound := (w.net.conns c).inbound.drop bytes.length
      received := (w.net.conns c).received ++ bytes } := Function.update_self _ _ _
  have others : ∀ n, n ≠ c → (w.net.receive c bytes).conns n = w.net.conns n :=
    fun n apart => Function.update_of_ne apart _ _
  have told := own.dataOwed.trans ingress.told
  have room := ingress.room.drift own.drift
  refine ⟨c, buffer, ?_, small, short, told, room⟩
  have noted := own.noted
  subst same
  constructor
  · refine (ingress.base.focus fd).around connected.fd ?_ (Or.inl connected.fd)
    refine ⟨rfl, fun _ _ => rfl, fun _ inside => Or.inl inside, rfl, fun _ inside _ => inside, rfl,
      rfl, rfl, rfl, fun _ _ => rfl, fun _ _ => rfl, ?_⟩
    intro n apart
    change Grows _ ((w.net.receive c bytes).conns n)
    rw [others n apart]
    exact .refl _
  · exact entry
  · refine ⟨connected.fd, ?_, ?_, ?_⟩
    · exact (congrArg Conn.closed conn).trans connected.opened
    · exact (congrArg Conn.registered conn).trans connected.registered
    · refine (congrArg Conn.received conn).trans ?_
      change (w.net.conns c).received ++ bytes = _
      rw [connected.received, List.append_assoc]
  · exact ingress.base.asked fd turn.member (by simp)
  · exact ingress.running
  · exact ingress.unpaused
  · rfl
  · rw [← turn.fds, connected.fd]
  · apply turn.passed.trans
    refine ⟨noted, le_rfl, fun running => ⟨running, rfl⟩, fun _ _ _ _ => rfl, ?_, fun _ => le_rfl⟩
    intro n _
    rcases eq_or_ne n c with rfl | apart
    · change (_ → ((w.net.receive n bytes).conns n).fin = true) ∧
        (_ → ((w.net.receive n bytes).conns n).broken = true)
      rw [conn]
      exact ⟨id, id⟩
    · change (_ → ((w.net.receive c bytes).conns n).fin = true) ∧
        (_ → ((w.net.receive c bytes).conns n).broken = true)
      rw [others n apart]
      exact ⟨id, id⟩
  · exact noted.drained.trans ingress.undrained

theorem validate_rule (quiet : Bool) (fd : Int) (fs : List Frame) (keep : Shared K w) :
    (serverLogic K setup).wp (validate quiet fd fs) (fun r v => ServerRely K w v ∧
      r.1 = (fs.takeWhile (fun frame => decide frame.Valid)).length ∧
      (r.2 = .none ↔ ∀ frame ∈ fs, frame.Valid)) w := by
  induction fs generalizing w with
  | nil => exact fun v move _ => ⟨move, rfl, by simp⟩
  | cons frame rest ih =>
      have tail : ∀ a, ServerRely K w a → Shared K a → frame.Valid →
          (serverLogic K setup).wp (validate quiet fd rest >>= fun r =>
            return (r.1 + 1, r.2)) (fun r v => ServerRely K w v ∧
              r.1 = ((frame :: rest).takeWhile (fun frame => decide frame.Valid)).length ∧
              (r.2 = .none ↔ ∀ f ∈ frame :: rest, f.Valid)) a := by
        intro a toA keepA valid
        apply Logic.wp_seq keepA (ih keepA)
        rintro ⟨count, error⟩ b _ ⟨toB, counted, checked⟩ v move _
        refine ⟨(toA.trans toB).trans move, ?_, ?_⟩
        · simpa [valid] using counted
        · simp [valid, checked]
      rw [validate]
      split
      · next accepted =>
          cases quiet with
          | true => exact tail w (.refl w) keep accepted
          | false =>
              apply log_rule rfl
              intro a toA keepA
              exact tail a toA keepA accepted
      · next rejected =>
          intro v move _
          have invalid : ¬ frame.Valid := rejected
          refine ⟨move, by simp [invalid], ?_⟩
          have error : (decode frame.bytes).error ≠ .none := by
            simpa [DecodeResult.ok] using rejected
          simp [invalid, error]

/-- How the server stands after a batch: `owed` tells whether the reader must be notified,
`pause` whether ingress must be paused. -/
structure Batched (setup : Setup) (t w : World) (fd : Int) (c : Nat) (tail : List UInt8)
    (owed pause : Bool) : Prop where
  reading : ∃ buffer, Reading setup t w fd c buffer tail ∧ buffer.unread = tail ∧
    buffer.offset ≤ buffer.data.length
  owed : w.past.dataOwed = owed
  room : pause = false → Room w
  waits : pause = true → Waits w

theorem Batched.rely {owed pause : Bool} (batched : Batched setup t w fd c tail owed pause)
    (move : ServerRely K w v) : Batched setup t v fd c tail owed pause := by
  rcases batched.reading with ⟨buffer, reading, same, sound⟩
  exact ⟨⟨buffer, reading.rely move, same, sound⟩, move.drift.dataOwed.trans batched.owed,
    fun no => (batched.room no).drift move.drift, fun yes => (batched.waits yes).drift move.drift⟩

/-- What stays as it is while a batch is copied into the ring. -/
structure Copying (w v : World) : Prop where
  still : Still w v
  noted : Noted w.past v.past
  counter : w.spaceReady ≤ v.spaceReady

theorem Copying.rely {u : World} (copying : Copying w v) (move : ServerRely K v u) : Copying w u :=
  ⟨copying.still.trans move.still, copying.noted.trans move.drift.noted,
    copying.counter.trans move.drift.counter⟩

theorem Copying.framed (copying : Copying w v) (l : Layout) (owed : Bool) :
    Copying w { v with ring := l, past := { v.past with dataOwed := owed } } := by
  have still := copying.still
  exact ⟨⟨still.server, still.fds, still.interest, still.accepted, still.lastRecv, still.conns⟩,
    copying.noted.owing _ owed,
    copying.counter⟩

/-- Below the pause threshold a batch of at most 128 frames always fits. -/
theorem push_rule (span : List UInt8) (keep : Shared K w) (opened : w.ring.producerClosed = 0)
    (running : w.server.state = .running) (room : Room w) (aligned : kFrameSize ∣ span.length)
    (few : (frames span).length ≤ 128)
    (valid : ∀ frame ∈ frames span, frame.Valid) :
    (serverLogic K setup).wp (tryPushBatch span) (fun n v => n = (frames span).length ∧
      Published w v span n ∧ Copying w v) w := by
  have allowed : ∀ u count, Copying w u →
      ProducerView w.ring { u.ring with slots := w.ring.slots } →
      count ≤ (frames span).length → Publishable u ((frames span).take count) := by
    intro u count copying view _
    refine ⟨fun frame member => valid frame (List.mem_of_mem_take member), ?_, ?_, ?_⟩
    · have released := view.released
      have less : u.ring.occupancy ≤ w.ring.occupancy := by
        rw [Layout.occupancy, Layout.occupancy, ← view.published]
        exact Nat.sub_le_sub_left released _
      exact lt_of_le_of_lt (Nat.mul_le_mul_left _ less) room
    · rw [List.length_take]
      omega
    · rw [copying.still.server]
      exact running
  have start : Copying w w := ⟨.refl w, .refl _, le_rfl⟩
  apply Logic.wp_mono (tryPushBatch_spec server_produces (fun move copying => copying.rely move)
    (fun copying => copying.framed _ _) span start allowed)
  rintro n v _ ⟨⟨published, most⟩, copying⟩
  refine ⟨?_, published, copying⟩
  have enough := most opened (Nat.mod_eq_zero_of_dvd aligned)
  have below := keep.ring.pending
  have upper := published.count_le
  rw [capacityFrames_eq] at enough
  rw [maxPending_eq] at below
  omega

theorem publishFrames_rule {n : Nat}
    (batched : Batched setup t w fd c tail false false) (enough : n ≤ (frames tail).length)
    (few : n ≤ 128) (valid : ∀ frame ∈ (frames tail).take n, frame.Valid) :
    (serverLogic K setup).wp (publishFrames fd n) (fun r v => r.1 = true ∧
      Batched setup t v fd c (tail.drop (n * kFrameSize)) r.2.1 r.2.2) w := by
  rw [publishFrames]
  split
  case isFalse none =>
    have zero : n = 0 := by simpa using none
    subst zero
    rw [Nat.zero_mul, List.drop_zero]
    exact fun v move _ => ⟨rfl, batched.rely move⟩
  next some =>
  rcases frames_split enough with ⟨front, back, whole⟩
  have size : (tail.take (n * kFrameSize)).length = n * kFrameSize := by
    rw [← whole, bytesOf_length, front, List.length_take, Nat.min_eq_left enough, Nat.mul_comm]
  have count : (frames (tail.take (n * kFrameSize))).length = n := by
    rw [front, List.length_take, Nat.min_eq_left enough]
  apply memory_rule
  intro a toA keepA
  have batchedA := batched.rely toA
  rcases batchedA.reading with ⟨buffer, reading, same, sound⟩
  have found : w.server.buffer fd = buffer := by
    rw [← toA.still.server]
    exact reading.buffer_eq
  rw [found, same]
  have aligned : kFrameSize ∣ (tail.take (n * kFrameSize)).length := by
    rw [size]
    exact Nat.dvd_mul_left _ _
  have few' : (frames (tail.take (n * kFrameSize))).length ≤ 128 := by
    rw [count]
    exact few
  have valid' : ∀ frame ∈ frames (tail.take (n * kFrameSize)), frame.Valid := by
    rw [front]
    exact valid
  apply Logic.wp_seq keepA
    (push_rule _ keepA reading.base.opened reading.running (batchedA.room rfl) aligned few' valid')
  rintro k b keepB ⟨full, published, copying⟩
  rw [full] at published
  rw [count] at full
  subst full
  apply own_rule (.point (.pushed (tail.take (k * kFrameSize)) k)) rfl
  · exact fun v _ _ => ⟨count.symm, aligned⟩
  intro d _ e toD passing _ _
  have toE : ServerRely K b e := by
    have own := exec_own rfl passing
    rw [← Option.some.inj passing] at own ⊢
    exact toD.trans (own.rely ⟨rfl, rfl, rfl, rfl, rfl, fun _ => .refl _⟩)
  rw [← List.take_append_drop (k * kFrameSize) tail] at reading
  have readingB := reading.publish published whole copying.still copying.noted copying.counter
  have owed : b.past.dataOwed = true := by
    rw [published.dataOwed, count, batchedA.owed]
    simpa using some
  apply update_rule (readingB.rely toE).final
  intro g toG keepH
  have toG' := toE.trans toG
  have readingH := (readingB.rely toG').modify
    (fun b => { b with offset := b.offset + k * kFrameSize })
  rw [if_neg (by simp)]
  apply Logic.wp_seq keepH (pendingBytes_rule keepH)
  rintro _ x keepX ⟨_, rfl, l, toL, toX, rfl⟩ y toY _
  have moved := (toL.trans toX).trans toY
  have drift := (toX.trans toY).drift
  refine ⟨rfl, ⟨_, readingH.rely moved, ?_, ?_⟩, ?_, ?_, ?_⟩
  · rw [Buffer.unread, ← List.drop_drop, ← Buffer.unread, same]
  · have long := congrArg List.length same
    rw [Buffer.unread, List.length_drop] at long
    rw [List.length_take] at size
    change buffer.offset + k * kFrameSize ≤ buffer.data.length
    simp only [kFrameSize] at size ⊢
    omega
  · rw [moved.drift.dataOwed]
    change g.past.dataOwed = _
    rw [toG'.drift.dataOwed, owed]
    simpa using some
  · intro no
    have less : Room l := by
      simpa [Room] using no
    exact less.drift drift
  · intro yes
    have more : Waits l := by
      left
      have full : kPauseIngressBytes ≤ kFrameSize * l.ring.occupancy := by simpa using yes
      exact lt_of_lt_of_le (by decide) full
    exact more.drift drift

theorem Batched.told {owed pause : Bool} (batched : Batched setup t w fd c tail owed pause) :
    Batched setup t (World.told w) fd c tail false pause := by
  rcases batched.reading with ⟨buffer, reading, same, sound⟩
  exact ⟨⟨buffer, reading.told, same, sound⟩, rfl, batched.room, batched.waits⟩

theorem notifyPublished_rule {owed pause : Bool} (batched : Batched setup t w fd c tail owed pause) :
    (serverLogic K setup).wp (notifyPublished owed) (fun ok v => if ok = true then
      Batched setup t v fd c tail false pause else Broken v) w := by
  cases owed with
  | false => exact fun v move _ => batched.rely move
  | true =>
      apply Logic.wp_mono notifyEvent_rule
      intro ok v _ result
      cases ok with
      | true => exact batched.told.rely result
      | false =>
          rcases batched.reading with ⟨_, reading, _, _⟩
          exact ⟨result.2, reading.accounted.still result.1.still,
            result.1.drift.noted.drained.trans reading.undrained⟩

structure Filled (setup : Setup) (w : World) : Prop where
  base : Base setup none (fun _ => true) w
  told : w.past.dataOwed = false
  waits : Waits w
  running : w.server.state = .running
  unpaused : w.server.ingressPaused = false
  undrained : w.past.drained = false

/-- A client that had hung up at `t` and is still there has a pending error. -/
def Clear (fd : Int) (t v : World) : Prop :=
  ∀ c, v.net.fds fd = some (.client c) → t.net.fds fd = some (.client c) ∧
    ((t.net.conns c).fin = true ∨ (t.net.conns c).broken = true → (v.net.conns c).broken = true)

/-- How `readClient` may end: with false after a failure of an eventfd, else with or without
the request to pause. -/
def Finished (setup : Setup) (t : World) (fd : Int) (result : Bool × Bool) (v : World) : Prop :=
  if result.1 = true then
    Passed setup fd t v ∧ if result.2 = true then Filled setup v else
      Serving setup v ∧ v.server.ingressPaused = false ∧ Clear fd t v
  else Broken v

def Verdict.Holds (setup : Setup) (t : World) (fd : Int) : Verdict → World → Prop
  | none, v => Turn setup t v fd
  | some result, v => Finished setup t fd result v

theorem Finished.rely {result : Bool × Bool} {u : World} (finished : Finished setup t fd result v)
    (move : ServerRely K v u) : Finished setup t fd result u := by
  rcases result with ⟨ok, pause⟩
  cases ok with
  | false => exact Broken.rely finished move
  | true =>
      refine ⟨finished.1.trans (.of_still fd move.still move.drift.noted move.drift.counter), ?_⟩
      cases pause with
      | true =>
          have filled : Filled setup v := finished.2
          refine ⟨filled.base.still move.still move.drift.view, ?_, filled.waits.drift move.drift, ?_, ?_,
            move.drift.noted.drained.trans filled.undrained⟩
          · rw [move.drift.dataOwed, filled.told]
          · rw [move.still.server, filled.running]
          · rw [move.still.server, filled.unpaused]
      | false =>
          rcases finished.2 with ⟨serving, unpaused, clear⟩
          refine ⟨serving.rely move, by rw [move.still.server, unpaused], ?_⟩
          intro c found
          rw [move.still.fds] at found
          have before := clear c found
          exact ⟨before.1, fun ended => (move.still.conns c).broken (before.2 ended)⟩

theorem Batched.removed {pause : Bool} (batched : Batched setup t w fd c tail false pause)
    (leaving : Leaving w c) (drift : Drift w v) (still : Still (without w fd) v) :
    Finished setup t fd (true, pause) v := by
  rcases batched.reading with ⟨buffer, reading, _, _⟩
  rcases reading.leave leaving drift still with ⟨base, running, unpaused, gone, passed⟩
  have told := drift.dataOwed.trans batched.owed
  have undrained := drift.noted.drained.trans reading.undrained
  refine ⟨passed, ?_⟩
  cases pause with
  | true => exact ⟨base, told, (batched.waits rfl).drift drift, running, unpaused, undrained⟩
  | false =>
      have ingress : Ingress setup v :=
        ⟨base, told, (batched.room rfl).drift drift, running, unpaused, undrained⟩
      exact ⟨ingress.serving, unpaused, fun n found => absurd found (gone n)⟩

/-- The frames in front of the first malformed one, and what follows them. -/
theorem valid_prefix (fs : List Frame) {n : Nat}
    (count : n = (fs.takeWhile (fun frame => decide frame.Valid)).length) :
    n ≤ fs.length ∧ (∀ frame ∈ fs.take n, frame.Valid) ∧
      ((∀ frame ∈ fs, frame.Valid) ∨ ∃ frame rest, fs.drop n = frame :: rest ∧ ¬ frame.Valid) := by
  have split := List.takeWhile_append_dropWhile (p := fun frame : Frame => decide frame.Valid) (l := fs)
  have front : fs.take n = fs.takeWhile (fun frame => decide frame.Valid) := by
    conv_lhs => rw [← split, count]
    exact List.take_left
  have back : fs.drop n = fs.dropWhile (fun frame => decide frame.Valid) := by
    conv_lhs => rw [← split, count]
    exact List.drop_left
  refine ⟨?_, ?_, ?_⟩
  · rw [count]
    exact (List.takeWhile_prefix _).length_le
  · rw [front]
    intro frame member
    simpa using List.mem_takeWhile_imp member
  · rw [back]
    cases rest : fs.dropWhile (fun frame => decide frame.Valid) with
    | nil =>
        left
        intro frame member
        simpa using List.dropWhile_eq_nil_iff.mp rest frame member
    | cons frame more =>
        right
        have head := List.head_dropWhile_not (fun frame : Frame => decide frame.Valid) (l := fs)
          (by rw [rest]; nofun)
        simp only [rest, List.head_cons, decide_eq_false_iff_not] at head
        exact ⟨frame, more, rfl, head⟩

theorem settleChunk_rule (error : DecodeError) {owed pause : Bool} (keep : Shared K w)
    (batched : Batched setup t w fd c tail owed pause)
    (checked : error = .none → tail.length < kFrameSize)
    (rejects : error ≠ .none → ∃ frame rest, frames tail = frame :: rest ∧ ¬ frame.Valid) :
    (serverLogic K setup).wp (settleChunk fd error true owed pause) (Verdict.Holds setup t fd) w := by
  rw [settleChunk, if_neg (by simp)]
  apply Logic.wp_seq keep (notifyPublished_rule batched)
  intro ok a keepA result
  cases ok with
  | false => exact fun v move _ => Finished.rely result move
  | true =>
      have told : Batched setup t a fd c tail false pause := result
      change (serverLogic K setup).wp (if error ≠ .none then _ else _) _ a
      split
      · next wrong =>
          apply log_rule rfl
          intro b toB keepB
          have toldB := told.rely toB
          rcases toldB.reading with ⟨_, reading, _, _⟩
          apply Logic.wp_seq keepB
            (removeClient_rule reading.connected.fd reading.connected.opened)
          rintro _ d _ ⟨drift, still⟩ v move _
          rcases rejects wrong with ⟨frame, rest, next, invalid⟩
          have leaving := reading.connected.rejected keepB next invalid
          exact (toldB.removed leaving drift still).rely move
      · next right =>
          have short := checked (by simpa using right)
          apply update_rule
          · rcases told.reading with ⟨_, reading, _, _⟩
            exact reading.final
          intro b toB _
          have toldB := told.rely toB
          rcases toldB.reading with ⟨buffer, reading, unread, sound⟩
          have compacted := reading.modify Buffer.compact
          have small : buffer.compact.Small := by
            refine ⟨Buffer.compact_sound sound, ?_⟩
            rw [Buffer.compact_unread, unread]
            exact short
          have base := compacted.done small (by rw [Buffer.compact_unread, unread])
          cases pause with
          | true =>
              intro v move _
              apply Finished.rely _ move
              exact ⟨compacted.passed, base, toldB.owed, toldB.waits rfl, reading.running,
                reading.unpaused, reading.undrained⟩
          | false =>
              intro v move _
              have ingress : Ingress setup
                  { b with server := b.server.modify fd Buffer.compact } :=
                ⟨base, toldB.owed, toldB.room rfl, reading.running, reading.unpaused, reading.undrained⟩
              have turn : Turn setup t { b with server := b.server.modify fd Buffer.compact } fd :=
                ⟨ingress, compacted.passed, compacted.member,
                  compacted.connected.fd.trans compacted.origin.symm⟩
              exact turn.rely move

theorem processChunk_rule (config : ServerConfig) {bytes : List UInt8}
    (reading : Reading setup t w fd c buffer (buffer.unread ++ bytes)) (small : buffer.Small)
    (short : bytes.length ≤ kReadBufferSize) (told : w.past.dataOwed = false) (room : Room w) :
    (serverLogic K setup).wp (processChunk config fd bytes) (Verdict.Holds setup t fd) w := by
  apply update_rule reading.final
  intro a toA keepB
  have filled := Buffer.insert_unread buffer bytes small.1
  generalize tail_eq : buffer.unread ++ bytes = tail at reading filled
  have long : tail.length < kFrameSize + kReadBufferSize := by
    rw [← tail_eq, List.length_append]
    have less := small.2
    omega
  have batched : Batched setup t { a with server := a.server.modify fd (fun b => b.insert bytes) } fd c
      tail false false := by
    refine ⟨⟨_, (reading.rely toA).modify (fun b => b.insert bytes), filled, ?_⟩, ?_, ?_, nofun⟩
    · have inside := small.1
      change buffer.offset ≤ (buffer.data ++ bytes).length
      rw [List.length_append]
      omega
    · exact toA.drift.dataOwed.trans told
    · exact fun _ => (room.drift toA.drift : Room a)
  generalize ({ a with server := a.server.modify fd (fun b => b.insert bytes) } : World) = b
    at keepB batched ⊢
  apply memory_rule
  intro d toD keepD
  have batchedD := batched.rely toD
  rcases batchedD.reading with ⟨buffer', reading', unread, _⟩
  have found : b.server.buffer fd = buffer' := by
    rw [← toD.still.server]
    exact reading'.buffer_eq
  rw [found, Buffer.pendingBytes_eq, unread, ← frames_length]
  rw [if_neg (by simp only [kFrameSize, kReadBufferSize, kMaxClientBuffer] at long ⊢; omega)]
  simp only [List.take_length]
  apply Logic.wp_seq keepD (validate_rule config.quiet fd (frames tail) keepD)
  rintro ⟨n, error⟩ e keepE ⟨toE, count, checked⟩
  rcases valid_prefix (frames tail) count with ⟨enough, valid, rest⟩
  have few : n ≤ 128 := by
    rw [frames_length] at enough
    simp only [kFrameSize, kReadBufferSize] at long enough
    omega
  apply Logic.wp_seq keepE (publishFrames_rule (batchedD.rely toE) enough few valid)
  rintro ⟨fits, owed, pause⟩ g keepG ⟨allFit, batchedG⟩
  have fit : fits = true := allFit
  subst fit
  apply settleChunk_rule error keepG batchedG
  · intro none
    have all := checked.mp none
    have same : (frames tail).takeWhile (fun frame => decide frame.Valid) = frames tail :=
      List.takeWhile_eq_self_iff.mpr (fun frame member => decide_eq_true (all frame member))
    rw [same, frames_length] at count
    change n = _ at count
    change (tail.drop (n * kFrameSize)).length < kFrameSize
    rw [List.length_drop, count]
    have more := Nat.mod_lt tail.length (show 0 < kFrameSize by decide)
    have whole := Nat.div_add_mod' tail.length kFrameSize
    omega
  · intro some
    have back := (frames_split enough).2.1
    rcases rest with all | ⟨frame, more, next, invalid⟩
    · exact absurd (checked.mpr all) some
    · exact ⟨frame, more, back.trans next, invalid⟩

/-- Every error the client reports removes the client and no one else. -/
theorem remove_rule (keep : Shared K w) (ingress : Ingress setup w) (member : fd ∈ w.server.keys)
    (passed : Passed setup fd t w)
    (reason : ∀ c, w.net.fds fd = some (.client c) → Reason w c) :
    (serverLogic K setup).wp (removeClient fd) (fun _ v => Finished setup t fd (true, false) v) w := by
  rcases ingress.base.client member with ⟨buffer, c, _, small, connected⟩
  apply Logic.wp_mono (removeClient_rule connected.fd connected.opened)
  rintro _ v _ ⟨drift, still⟩
  have leaving := connected.leaving keep small.2 (reason c connected.fd)
  have base := ((ingress.base.focus fd).without connected.fd leaving).still still drift.view
  have server : v.server = w.server.erase fd := still.server
  have after : Ingress setup v := by
    refine ⟨base, drift.dataOwed.trans ingress.told, ingress.room.drift drift, ?_, ?_,
      drift.noted.drained.trans ingress.undrained⟩
    · rw [server]
      exact ingress.running
    · rw [server]
      exact ingress.unpaused
  refine ⟨passed.trans (Passed.without drift still), after.serving, after.unpaused, ?_⟩
  intro n found
  rw [still.fds] at found
  exact absurd rfl (Net.of_closeFd_fds found).1

/-- The end of the stream has been read: everything the peer sent has been received. -/
theorem Turn.eof {u : World} (turn : Turn setup t w fd)
    (answer : World.exec (.net (.recv fd)) w .eof = some u) :
    Turn setup t u fd ∧ ∀ c, u.net.fds fd = some (.client c) → Reason u c := by
  have own := exec_own rfl answer
  have ingress := turn.ingress
  have told := own.dataOwed.trans ingress.told
  have room := ingress.room.drift own.drift
  have noted := own.noted
  rcases exec_net answer with ⟨net, done, same⟩
  rcases ingress.base.client turn.member with ⟨buffer, c, entry, small, connected⟩
  simp only [NetCall.exec, connected.fd, Option.ite_none_right_eq_some, Option.some.injEq] at done
  rcases done with ⟨⟨none, fin⟩, rfl⟩
  have conn : (w.net.updateConn c (fun conn => { conn with eofRead := true })).conns c =
      { w.net.conns c with eofRead := true } := Function.update_self _ _ _
  have others : ∀ n, n ≠ c →
      (w.net.updateConn c (fun conn => { conn with eofRead := true })).conns n = w.net.conns n :=
    fun n apart => Function.update_of_ne apart _ _
  have grows : ∀ n, n ≠ c → Grows (w.net.conns n)
      ((w.net.updateConn c (fun conn => { conn with eofRead := true })).conns n) := by
    intro n apart
    rw [others n apart]
    exact .refl _
  subst same
  have busy := (ingress.base.focus fd).around connected.fd (v := { w with
      net := w.net.updateConn c (fun conn => { conn with eofRead := true })
      past := { w.past with
        failed := w.past.failed || World.netFails w.net (.recv fd) .eof
        acceptFailed := w.past.acceptFailed || World.acceptFails (.recv fd) .eof } })
    ⟨rfl, fun _ _ => rfl, fun _ inside => Or.inl inside, rfl, fun _ inside _ => inside, rfl, rfl, rfl,
      rfl, fun _ _ => rfl, fun _ _ => rfl, grows⟩
    (Or.inl connected.fd)
  have base := busy.unfocus turn.member (ingress.base.asked fd turn.member (by simp)) (by
    rintro ⟨key, b⟩ inside rfl
    have equal := Memory.entry_unique ingress.base.keys entry inside
    subst equal
    refine ⟨small, c, connected.fd, ?_, ?_, ?_⟩
    · exact (congrArg Conn.closed conn).trans connected.opened
    · exact (congrArg Conn.registered conn).trans connected.registered
    · exact (congrArg Conn.received conn).trans connected.received)
  refine ⟨⟨⟨base, told, room, ingress.running, ingress.unpaused,
    noted.drained.trans ingress.undrained⟩, ?_, turn.member, turn.fds⟩, ?_⟩
  · apply turn.passed.trans
    refine ⟨noted, le_rfl, fun running => ⟨running, rfl⟩, fun _ _ _ _ => rfl, ?_, fun _ => le_rfl⟩
    intro n _
    rcases eq_or_ne n c with rfl | apart
    · exact ⟨(congrArg Conn.fin conn).trans, (congrArg Conn.broken conn).trans⟩
    · have kept := others n apart
      exact ⟨(congrArg Conn.fin kept).trans, (congrArg Conn.broken kept).trans⟩
  · intro n found
    have equal : c = n := Handle.client.inj (Option.some.inj (connected.fd.symm.trans found))
    subst equal
    exact .finished (congrArg Conn.eofRead conn) ((congrArg Conn.fin conn).trans fin)
      ((congrArg Conn.inbound conn).trans none)

theorem leave_rule {Q : Unit ⊕ (Bool × Bool) → World → Prop} (keep : Shared K v)
    (turn : Turn setup w v fd) (reason : ∀ c, v.net.fds fd = some (.client c) → Reason v c)
    (done : ∀ u, Finished setup w fd (true, false) u → Q (.inr (true, false)) u) :
    (serverLogic K setup).wp (do
      removeClient fd
      return .inr (true, false)) Q v := by
  apply Logic.wp_seq keep (remove_rule keep turn.ingress turn.member turn.passed reason)
  exact fun _ _ _ finished u move _ => done u (Finished.rely finished move)

theorem Reason.rely {c : Nat} {u : World} (reason : Reason v c) (move : ServerRely K v u) : Reason u c :=
  reason.keep ⟨move.still.conns c, by rw [move.drift.view.published],
    fun draining => by rwa [move.still.server]⟩

/-- The end of the stream; the partial frame that may be left is only announced. -/
theorem eof_rule {Q : Unit ⊕ (Bool × Bool) → World → Prop} (turn : Turn setup w v fd)
    (reason : ∀ c, v.net.fds fd = some (.client c) → Reason v c)
    (done : ∀ u, Finished setup w fd (true, false) u → Q (.inr (true, false)) u) :
    (serverLogic K setup).wp (do
      let m ← memory
      if (m.buffer fd).pendingBytes ≠ 0 then
        Proc.log (.cerr ("[server] client fd=" ++ toString fd ++ " disconnected with partial frame: " ++
          toString (m.buffer fd).pendingBytes ++ " bytes\n"))
      removeClient fd
      return .inr (true, false)) Q v := by
  have moved : ∀ {g}, ServerRely K v g → ∀ c, g.net.fds fd = some (.client c) → Reason g c := by
    intro g toG c found
    rw [toG.still.fds] at found
    exact (reason c found).rely toG
  apply memory_rule
  intro g toG keepG
  dsimp only
  split
  · apply log_rule rfl
    intro h toH keepH
    exact leave_rule keepH (turn.rely (toG.trans toH)) (moved (toG.trans toH)) done
  · exact leave_rule keepG (turn.rely toG) (moved toG) done

theorem broken_rule {c : Nat} {Q : Unit ⊕ (Bool × Bool) → World → Prop} (turn : Turn setup w v fd)
    (mine : v.net.fds fd = some (.client c)) (bad : (v.net.conns c).broken = true)
    (done : ∀ u, Finished setup w fd (true, false) u → Q (.inr (true, false)) u) :
    (serverLogic K setup).wp (do
      Proc.log (.perror "recv")
      removeClient fd
      return .inr (true, false)) Q v := by
  apply log_rule rfl
  intro g toG keepG
  refine leave_rule keepG (turn.rely toG) (fun n found => ?_) done
  rw [toG.still.fds, mine] at found
  rw [← Handle.client.inj (Option.some.inj found)]
  exact .broken ((toG.still.conns c).broken bad)

theorem Turn.failed {d e : World} {error : Errno} (turn : Turn setup w d fd)
    (answer : World.exec (.net (.recv fd)) d (.error error) = some e) :
    ServerRely K d e ∧ e.net = d.net := by
  rcases exec_net answer with ⟨net, done, same⟩
  have kept : net = d.net := by
    rcases turn.ingress.base.client turn.member with ⟨_, c, _, _, connected⟩
    cases error <;>
      simp only [NetCall.exec, connected.fd, Option.ite_none_right_eq_some, Option.some.injEq] at done
    · exact done.2.symm
    · exact done.symm
    all_goals exact done.2.symm
  subst kept
  exact ⟨Own.unmoved (exec_own rfl answer) same, by rw [same]⟩

/-- Nothing more of the client has arrived. -/
theorem Turn.exhausted {c : Nat} (serving : Serving setup w) (turn : Turn setup w v fd)
    (mine : v.net.fds fd = some (.client c)) (unfinished : (v.net.conns c).fin = false) :
    Finished setup w fd (true, false) v := by
  refine ⟨turn.passed, turn.ingress.serving, turn.ingress.unpaused, ?_⟩
  intro n found
  have equal : c = n := Handle.client.inj (Option.some.inj (mine.symm.trans found))
  subst equal
  have origin : w.net.fds fd = some (.client c) := turn.fds ▸ mine
  have ended := turn.passed.ended c (serving.base.table fd c origin).2
  refine ⟨origin, ?_⟩
  rintro (fin | bad)
  · have now := ended.1 fin
    rw [unfinished] at now
    cases now
  · exact ended.2 bad

theorem readClient_rule (config : ServerConfig) (serving : Serving setup w)
    (unpaused : w.server.ingressPaused = false) :
    (serverLogic K setup).wp (readClient config fd) (Finished setup w fd) w := by
  apply memory_rule
  intro a toA _
  split
  · next unknown =>
      intro v move _
      have since := toA.trans move
      refine ⟨.of_still fd since.still since.drift.noted since.drift.counter, serving.rely since,
        by rw [since.still.server, unpaused], ?_⟩
      intro c found
      rw [since.still.fds] at found
      exact absurd ((serving.base.table fd c found).1 (by simp)) unknown
  next known =>
  have member : fd ∈ w.server.keys := by simpa using known
  have running : w.server.state = .running := by
    cases state : w.server.state with
    | running => rfl
    | draining =>
        rw [Memory.keys, (serving.draining state).2.1] at member
        cases member
  have start : Turn setup w w fd := ⟨serving.ingress running unpaused, .refl setup fd w, member, rfl⟩
  apply Logic.wp_iterate (fun _ v => Turn setup w v fd)
  · exact fun v move _ => start.rely (toA.trans move)
  intro _ b _ turn
  apply own_rule (.net (.recv fd)) rfl
  · intro v move _
    have turnV := turn.rely move
    rcases turnV.ingress.base.client turnV.member with ⟨_, c, _, _, connected⟩
    exact ⟨turnV.member, c, connected.fd, connected.opened⟩
  intro d r e toD answer keepE _
  have turnD := turn.rely toD
  cases r with
  | data bytes =>
      rcases turnD.recv answer with ⟨c, buffer, reading, small, short, told, room⟩
      apply Logic.wp_seq keepE (processChunk_rule config reading small short told room)
      intro verdict g _ result
      cases verdict with
      | none => exact fun v move _ => Turn.rely result move
      | some result' => exact fun v move _ => Finished.rely result move
  | eof =>
      rcases turnD.eof answer with ⟨turnE, reason⟩
      exact eof_rule turnE reason fun _ finished => finished
  | error error =>
      rcases turnD.failed (K := K) answer with ⟨move, net⟩
      have turnE := turnD.rely move
      rcases turnD.ingress.base.client turnD.member with ⟨_, c, _, _, connected⟩
      have mine : e.net.fds fd = some (.client c) := by rw [net, connected.fd]
      rcases exec_net answer with ⟨_, done, _⟩
      cases error with
      | EINTR => exact fun v move _ => turnE.rely move
      | EAGAIN =>
          simp only [NetCall.exec, connected.fd, Option.ite_none_right_eq_some] at done
          have finished : Finished setup w fd (true, false) e :=
            turnE.exhausted serving mine (by rw [net]; exact done.1.2)
          exact fun v move _ => Finished.rely finished move
      | ECONNABORTED =>
          simp only [NetCall.exec, connected.fd, Option.ite_none_right_eq_some] at done
          exact broken_rule turnE mine (by rw [net]; exact done.1) fun _ finished => finished
      | EMFILE =>
          simp only [NetCall.exec, connected.fd, Option.ite_none_right_eq_some] at done
          exact broken_rule turnE mine (by rw [net]; exact done.1) fun _ finished => finished
      | other code =>
          simp only [NetCall.exec, connected.fd, Option.ite_none_right_eq_some] at done
          exact broken_rule turnE mine (by rw [net]; exact done.1) fun _ finished => finished

end

end TelemetryServer.Server
