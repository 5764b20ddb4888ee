import TelemetryServer.Server.Conservation

/-! How much the client buffers hold: the framing loop bounds them itself. -/

namespace TelemetryServer.Server

open Protocol Ipc Atomic

/-- The bytes handed on end within the data, and the data within `limit`. -/
structure Buffer.Held (b : Buffer) (limit : Nat) : Prop where
  inside : b.offset ≤ b.data.length
  aligned : kFrameSize ∣ b.offset
  size : b.data.length ≤ limit

/-- The buffer of a client from which the next `recv` may take a chunk. -/
structure Buffer.Rested (b : Buffer) : Prop extends Buffer.Held b 4095 where
  short : b.data.length - b.offset < kFrameSize

namespace Buffer

variable {b : Buffer}

theorem Held.mono {n m : Nat} (held : b.Held n) (le : n ≤ m) : b.Held m :=
  ⟨held.inside, held.aligned, held.size.trans le⟩

theorem Rested.fresh : Rested {} := ⟨⟨le_rfl, Nat.dvd_zero _, Nat.zero_le _⟩, by decide⟩

/-- A chunk of at most `kReadBufferSize` bytes fits. -/
theorem Rested.insert {chunk : List UInt8} (rested : b.Rested)
    (fits : chunk.length ≤ kReadBufferSize) : (b.insert chunk).Held 8191 := by
  have inside := rested.inside
  have size := rested.size
  refine ⟨?_, rested.aligned, ?_⟩
  · simp only [Buffer.insert, List.length_append]
    omega
  · simp only [Buffer.insert, List.length_append, kReadBufferSize] at fits ⊢
    omega

theorem pendingBytes_sub (b : Buffer) : b.pendingBytes = b.data.length - b.offset := by
  rw [pendingBytes_eq, unread, List.length_drop]

/-- Whole frames taken off the front. -/
theorem Held.advance {n k : Nat} (held : b.Held n)
    (there : b.offset + k * kFrameSize ≤ b.data.length) :
    Held { b with offset := b.offset + k * kFrameSize } n :=
  ⟨there, Dvd.dvd.add held.aligned (Nat.dvd_mul_left _ _), held.size⟩

/-- Compaction: what it leaves in front of a short rest is below the threshold. -/
theorem Held.compact {n : Nat} (held : b.Held n)
    (short : b.data.length - b.offset < kFrameSize) : b.compact.Rested := by
  have inside := held.inside
  have aligned := held.aligned
  rw [Buffer.compact]
  simp only [kFrameSize] at short aligned
  split
  · next start =>
      refine ⟨⟨inside, held.aligned, ?_⟩, short⟩
      omega
  split
  · exact .fresh
  split
  · refine ⟨⟨Nat.zero_le _, Nat.dvd_zero _, ?_⟩, ?_⟩
    · rw [List.length_drop]
      omega
    · rw [List.length_drop]
      exact short
  · refine ⟨⟨inside, held.aligned, ?_⟩, short⟩
    omega

end Buffer

namespace Memory

variable {m : Memory} {fd other : Int}

theorem buffer_modify_other (apart : other ≠ fd) (f : Buffer → Buffer) :
    (m.modify fd f).buffer other = m.buffer other := by
  suffices same : (m.modify fd f).clients.lookup other = m.clients.lookup other by
    rw [buffer, same, buffer]
  rw [modify]
  induction m.clients with
  | nil => rfl
  | cons entry rest ih =>
      rcases entry with ⟨key, b⟩
      rcases eq_or_ne key fd with rfl | away
      · have differs : (other == key) = false := beq_eq_false_iff_ne.mpr apart
        simp only [List.map_cons, if_pos, List.lookup_cons, differs]
        exact ih
      · simp only [List.map_cons, if_neg away, List.lookup_cons]
        rw [ih]

theorem buffer_erase_other (apart : other ≠ fd) : (m.erase fd).buffer other = m.buffer other := by
  suffices same : (m.erase fd).clients.lookup other = m.clients.lookup other by
    rw [buffer, same, buffer]
  rw [erase]
  induction m.clients with
  | nil => rfl
  | cons entry rest ih =>
      rcases entry with ⟨key, b⟩
      rcases eq_or_ne key fd with rfl | away
      · have differs : (other == key) = false := beq_eq_false_iff_ne.mpr apart
        simp only [List.filter_cons, List.lookup_cons, differs]
        simpa using ih
      · simp only [List.filter_cons, List.lookup_cons, ne_eq, away, not_false_eq_true, decide_true,
          if_true]
        rw [ih]

/-- Every client's buffer is within the most that a chunk can make it. -/
def Holding (m : Memory) : Prop := ∀ fd ∈ m.keys, (m.buffer fd).Held 8191

def Resting (m : Memory) : Prop := ∀ fd ∈ m.keys, (m.buffer fd).Rested

theorem Resting.holding (resting : m.Resting) : m.Holding :=
  fun fd member => (resting fd member).toHeld.mono (by decide)

structure Serves (m : Memory) (fd : Int) : Prop where
  member : fd ∈ m.keys
  others : ∀ other ∈ m.keys, other ≠ fd → (m.buffer other).Rested

theorem Serves.modify (serves : m.Serves fd) (f : Buffer → Buffer) :
    (m.modify fd f).Serves fd := by
  constructor
  · rw [modify_keys]
    exact serves.member
  · intro other member apart
    rw [modify_keys] at member
    rw [buffer_modify_other apart]
    exact serves.others other member apart

theorem Serves.holding (serves : m.Serves fd) (held : (m.buffer fd).Held 8191) : m.Holding := by
  intro other member
  rcases eq_or_ne other fd with rfl | apart
  · exact held
  · exact (serves.others other member apart).toHeld.mono (by decide)

theorem Serves.resting (serves : m.Serves fd) (rested : (m.buffer fd).Rested) : m.Resting := by
  intro other member
  rcases eq_or_ne other fd with rfl | apart
  · exact rested
  · exact serves.others other member apart

theorem Serves.erase (serves : m.Serves fd) : (m.erase fd).Resting := by
  intro other member
  rw [erase_keys, List.mem_filter, decide_eq_true_eq] at member
  rw [buffer_erase_other member.2]
  exact serves.others other member.1 member.2

theorem Resting.serves (resting : m.Resting) (member : fd ∈ m.keys) : m.Serves fd :=
  ⟨member, fun other member _ => resting other member⟩

end Memory

/-- The calls, where every push takes its whole batch. -/
def completeExec : (call : Call) → World → call.Resp → Option World
  | .point (.pushed span count), w, r =>
      if count * kFrameSize = span.length then World.exec (.point (.pushed span count)) w r else none
  | call, w, r => World.exec call w r

theorem completeExec_exec {call : Call} {w v : World} {r : call.Resp}
    (answer : completeExec call w r = some v) : World.exec call w r = some v := by
  unfold completeExec at answer
  split at answer
  · rw [Option.ite_none_right_eq_some] at answer
    exact answer.2
  · exact answer

/-- The span of a push is a piece of a client's unread bytes. -/
def Memory.Offers (m : Memory) (span : List UInt8) : Prop :=
  ∃ fd ∈ m.keys, ∃ n, (m.buffer fd).offset + n * kFrameSize ≤ (m.buffer fd).data.length ∧
    span = ((m.buffer fd).data.drop (m.buffer fd).offset).take (n * kFrameSize)

def bufferPre : Call → World → Prop
  | .net (.recv fd), w => fd ∈ w.server.keys ∧ w.server.Resting
  | .log (.inputBufferLimit _), _ => False
  | .point (.pushed span _), w => w.server.Offers span
  | _, _ => True

/-- The logic of the buffers: the memory is the server's own. -/
def bufferLogic : Atomic.Logic completeExec where
  inv := fun w => w.server.Holding
  rely := fun w v => v.server = w.server
  guar := fun _ _ => True
  pre := bufferPre
  rely_refl := fun _ => rfl
  rely_trans := fun first second => second.trans first
  rely_inv := fun move keep => by rw [move]; exact keep
  guar_refl := fun _ => trivial

structure Idle (call : Call) : Prop where
  server : ∀ w r v, World.exec call w r = some v → v.server = w.server
  pre : ∀ w, bufferPre call w

section Rules

variable {α β : Type} {w : World} {Q : α → World → Prop}

theorem buffer_pure {a : α} (post : ∀ v, v.server = w.server → Q a v) :
    bufferLogic.wp (pure a) Q w := fun v move _ => post v move

theorem buffer_memory {k : Memory → Proc α}
    (rest : ∀ v, v.server = w.server → bufferLogic.wp (k w.server) Q v) :
    bufferLogic.wp (memory >>= k) Q w := by
  intro v move keep
  refine ⟨keep, trivial, ?_⟩
  have later := rest v move
  rw [← move] at later
  exact later

theorem buffer_update {f : Memory → Memory} {k : Unit → Proc α}
    (holding : (f w.server).Holding)
    (rest : ∀ v, v.server = f w.server → bufferLogic.wp (k ()) Q v) :
    bufferLogic.wp (update f >>= k) Q w := by
  intro v move _
  have same : f v.server = f w.server := congrArg f move
  refine ⟨?_, trivial, rest _ same⟩
  change (f v.server).Holding
  rw [same]
  exact holding

theorem buffer_call {c : Call} {k : c.Resp → Proc α} (before : bufferPre c w)
    (stable : ∀ v, v.server = w.server → bufferPre c w → bufferPre c v)
    (server : ∀ w r v, World.exec c w r = some v → v.server = w.server)
    (rest : ∀ v r u, v.server = w.server → completeExec c v r = some u → u.server = w.server →
      bufferLogic.wp (k r) Q u) : bufferLogic.wp (Proc.call c >>= k) Q w := by
  intro v move keep
  refine ⟨stable v move before, fun r u answer => ?_⟩
  have kept := (server v r u (completeExec_exec answer)).trans move
  refine ⟨?_, trivial, rest v r u move answer kept⟩
  change u.server.Holding
  rw [kept, ← move]
  exact keep

theorem buffer_idle {c : Call} {k : c.Resp → Proc α} (idle : Idle c)
    (rest : ∀ r u, u.server = w.server → bufferLogic.wp (k r) Q u) :
    bufferLogic.wp (Proc.call c >>= k) Q w :=
  buffer_call (idle.pre w) (fun v _ _ => idle.pre v) idle.server (fun _ r u _ _ same => rest r u same)

theorem buffer_last {c : Call} {Q : c.Resp → World → Prop} (idle : Idle c)
    (post : ∀ r v, v.server = w.server → Q r v) : bufferLogic.wp (Proc.call c) Q w := by
  intro v move keep
  refine ⟨idle.pre v, fun r u answer => ?_⟩
  have kept := (idle.server v r u (completeExec_exec answer)).trans move
  refine ⟨?_, trivial, fun x move' _ => post r x (Eq.trans move' kept)⟩
  change u.server.Holding
  rw [kept, ← move]
  exact keep

theorem buffer_plain {p : Proc β} {f : β → Proc α} (keep : w.server.Holding)
    (plain : Plain Idle p) (rest : ∀ b v, v.server = w.server → bufferLogic.wp (f b) Q v) :
    bufferLogic.wp (p >>= f) Q w := by
  have spec : bufferLogic.wp p (fun _ v => v.server = w.server) w := by
    apply Logic.wp_within (C := fun w v : World => v.server = w.server) (A := fun _ _ => False)
      (P := Idle)
      (fun first second => second.trans first) (fun move => move)
      (fun _ impossible => impossible.elim) ?_ plain.within plain.still
    intro w call keep idle
    refine ⟨idle.pre w, fun r t answer => ?_⟩
    have kept := idle.server w r t (completeExec_exec answer)
    refine ⟨?_, trivial, kept⟩
    change t.server.Holding
    rw [kept]
    exact keep
  exact Logic.wp_seq keep spec (fun b v _ same => rest b v same)

end Rules

theorem idle_ring (call : RingCall) : Idle (.ring call) := by
  refine ⟨fun w r v answer => ?_, fun _ => trivial⟩
  simp only [World.exec, Option.map_eq_some_iff] at answer
  rcases answer with ⟨l, _, rfl⟩
  rfl

theorem idle_eventWrite (fd : EventFd) : Idle (.eventWrite fd) :=
  ⟨fun _ _ _ answer => (exec_harmless _ rfl answer).1, fun _ => trivial⟩

theorem idle_log (line : Line) (other : ∀ w, bufferPre (.log line) w) : Idle (.log line) :=
  ⟨fun _ _ _ answer => (exec_harmless _ rfl answer).1, other⟩

theorem Plain.iterate {α β : Type} {P : Call → Prop} {body : β → Proc (β ⊕ α)} {b : β}
    (pass : ∀ b, Plain P (body b)) : Plain P (Prog.iterate body b) :=
  ⟨.iterate (fun b => (pass b).within), .iterate (fun b => (pass b).still)⟩

theorem Plain.mono {α : Type} {P P' : Call → Prop} {p : Proc α} (plain : Plain P p)
    (more : ∀ call, P call → P' call) : Plain P' p :=
  ⟨plain.within.mono more, plain.still⟩

theorem tryPushBatch_idle (span : List UInt8) : Plain Idle (tryPushBatch span) := by
  apply (tryPushBatch_plain span).mono
  intro call ring
  cases call with
  | ring call => exact idle_ring call
  | _ => cases ring

theorem pendingBytes_idle : Plain Idle pendingBytes :=
  .bind (.bind (.call (idle_ring _)) (fun _ => .bind (.call (idle_ring _)) (fun _ => .pure _)))
    (fun _ => .pure _)

theorem notifyPublished_idle (any : Bool) : Plain Idle (notifyPublished any) := by
  cases any with
  | false => exact .pure true
  | true =>
      apply Plain.iterate
      intro _
      apply Plain.bind (.call (idle_eventWrite .dataReady))
      intro r
      cases r with
      | ok => exact .pure _
      | eintr => exact .pure _
      | error => exact .bind (.call (idle_log (.perror _) (fun _ => trivial))) (fun _ => .pure _)

section Parts

variable {w : World} {fd : Int}

/-- The number of frames that decode is that of all frames when none is reported. -/
theorem validate_counts (quiet : Bool) (fs : List Frame) (keep : w.server.Holding) :
    bufferLogic.wp (validate quiet fd fs) (fun r v => v.server = w.server ∧ r.1 ≤ fs.length ∧
      (r.2 = .none → r.1 = fs.length)) w := by
  induction fs generalizing w with
  | nil => exact buffer_pure (fun v same => ⟨same, le_rfl, fun _ => rfl⟩)
  | cons frame rest ih =>
      have tail : ∀ v, v.server = w.server → bufferLogic.wp (validate quiet fd rest >>= fun r =>
          return (r.1 + 1, r.2)) (fun r u => u.server = w.server ∧
            r.1 ≤ (frame :: rest).length ∧ (r.2 = .none → r.1 = (frame :: rest).length)) v := by
        intro v same
        have keepV : v.server.Holding := same ▸ keep
        apply Logic.wp_seq keepV (ih keepV)
        rintro ⟨count, error⟩ u _ ⟨same', most, all⟩
        apply buffer_pure
        intro x same''
        refine ⟨(same''.trans same').trans same, Nat.succ_le_succ most, ?_⟩
        intro none
        rw [List.length_cons, ← all none]
      rw [validate]
      split
      · cases quiet with
        | true => exact tail w rfl
        | false => exact buffer_idle (idle_log (.received _ _) (fun _ => trivial)) (fun _ v same => tail v same)
      · next rejected =>
          apply buffer_pure
          intro v same
          refine ⟨same, Nat.zero_le _, fun none => ?_⟩
          have error : (decode frame.bytes).error = .none := none
          exact absurd (by rw [DecodeResult.ok, error]; rfl) rejected

/-- A complete push takes all the checked frames off the front. -/
theorem publishFrames_advances {n : Nat} (serves : w.server.Serves fd)
    (held : (w.server.buffer fd).Held 8191)
    (there : (w.server.buffer fd).offset + n * kFrameSize ≤ (w.server.buffer fd).data.length) :
    bufferLogic.wp (publishFrames fd n) (fun _ v => v.server.Serves fd ∧
      v.server.buffer fd = { w.server.buffer fd with
        offset := (w.server.buffer fd).offset + n * kFrameSize }) w := by
  have keep := serves.holding held
  rw [publishFrames]
  split
  · apply buffer_memory
    intro v same
    have keepV : v.server.Holding := same ▸ keep
    apply buffer_plain keepV (tryPushBatch_idle _)
    intro pushed u same'
    have sameU := same'.trans same
    have whole : ((w.server.buffer fd).unread.take (n * kFrameSize)).length = n * kFrameSize := by
      rw [List.length_take, Buffer.unread, List.length_drop]
      omega
    apply buffer_call (c := .point (.pushed _ pushed))
    · rw [bufferPre, sameU]
      exact ⟨fd, serves.member, n, there, rfl⟩
    · intro x same'' offers
      rw [bufferPre] at offers ⊢
      rwa [same'']
    · exact fun _ _ _ answer => (exec_harmless _ rfl answer).1
    · intro x _ y _ answer sameY
      rw [completeExec, Option.ite_none_right_eq_some, whole] at answer
      have all : pushed = n := Nat.eq_of_mul_eq_mul_right (by decide) answer.1
      have here := (sameY.trans same').trans same
      have moved : (y.server.modify fd (fun b =>
          { b with offset := b.offset + pushed * kFrameSize })).buffer fd =
          { w.server.buffer fd with offset := (w.server.buffer fd).offset + n * kFrameSize } := by
        rw [here, all, Memory.buffer_modify serves.member]
      have served : (y.server.modify fd (fun b =>
          { b with offset := b.offset + pushed * kFrameSize })).Serves fd := by
        rw [here]
        exact serves.modify _
      apply buffer_update (served.holding (by rw [moved]; exact held.advance there))
      intro z sameZ
      have settled : ∀ x : World, x.server = z.server → x.server.Serves fd ∧
          x.server.buffer fd = { w.server.buffer fd with
            offset := (w.server.buffer fd).offset + n * kFrameSize } := by
        intro x sameX
        rw [sameX, sameZ]
        exact ⟨served, moved⟩
      split
      · exact buffer_pure settled
      · apply buffer_plain
        · rw [sameZ]
          exact served.holding (by rw [moved]; exact held.advance there)
        · exact pendingBytes_idle
        · intro _ x sameX
          exact buffer_pure (fun a sameA => settled a (sameA.trans sameX))
  · next none =>
      have zero : n = 0 := not_not.mp none
      apply buffer_pure
      intro v same
      rw [same, zero, Nat.zero_mul, Nat.add_zero]
      exact ⟨serves, rfl⟩

/-- A client that is removed leaves the others as they were. -/
theorem removeClient_rests (serves : w.server.Serves fd) :
    bufferLogic.wp (removeClient fd) (fun _ v => v.server.Resting) w := by
  have gone := serves.erase
  apply buffer_idle (c := .net (.epollCtl .delete fd {}))
    ⟨fun _ _ _ answer => (exec_harmless _ rfl answer).1, fun _ => trivial⟩
  intro _ v same
  apply buffer_idle (c := .net (.close fd))
    ⟨fun _ _ _ answer => (exec_harmless _ rfl answer).1, fun _ => trivial⟩
  intro _ u same'
  have here := same'.trans same
  apply buffer_update
  · rw [here]
    exact gone.holding
  · intro x erased
    apply buffer_last (idle_log (.cout _) (fun _ => trivial))
    intro _ y sameY
    rw [sameY, erased, here]
    exact gone

theorem removal_rests {α : Type} {a : α} (serves : w.server.Serves fd)
    (held : (w.server.buffer fd).Held 8191) :
    bufferLogic.wp (removeClient fd >>= fun _ => pure a) (fun b v => b = a ∧ v.server.Resting) w := by
  apply Logic.wp_seq (serves.holding held) (removeClient_rests serves)
  intro _ v _ resting
  apply buffer_pure
  intro u same
  rw [same]
  exact ⟨rfl, resting⟩

theorem logged_removal_rests {α : Type} {a : α} (line : Line)
    (other : ∀ w, bufferPre (.log line) w) (serves : w.server.Serves fd)
    (held : (w.server.buffer fd).Held 8191) :
    bufferLogic.wp (Proc.log line >>= fun _ => removeClient fd >>= fun _ => pure a)
      (fun b v => b = a ∧ v.server.Resting) w := by
  apply buffer_idle (idle_log line other)
  intro _ v same
  rw [← same] at serves held
  exact removal_rests serves held

/-- What one chunk leaves, unless it stops the server. -/
structure Tidied (fd : Int) (verdict : Verdict) (w : World) : Prop where
  member : verdict = none → fd ∈ w.server.keys
  resting : (∀ pause, verdict ≠ some (false, pause)) → w.server.Resting

theorem settleChunk_tidies {error : DecodeError} {fits any pause : Bool}
    (serves : w.server.Serves fd) (held : (w.server.buffer fd).Held 8191)
    (short : error = .none →
      (w.server.buffer fd).data.length - (w.server.buffer fd).offset < kFrameSize) :
    bufferLogic.wp (settleChunk fd error fits any pause) (Tidied fd) w := by
  have keep := serves.holding held
  have stops : ∀ (w : World) (ok pause : Bool), ok = false → bufferLogic.wp
      (pure (some (ok, pause)) : Proc Verdict) (Tidied fd) w := by
    rintro w ok pause rfl
    exact buffer_pure (fun v _ => ⟨by simp, fun goes => absurd rfl (goes pause)⟩)
  rw [settleChunk]
  cases fits with
  | false =>
      apply buffer_plain keep (notifyPublished_idle any)
      intro ok v same
      cases ok with
      | false => exact stops v false pause rfl
      | true =>
          apply buffer_idle (idle_log .sharedRingFull (fun _ => trivial))
          exact fun _ u _ => stops u false pause rfl
  | true =>
      apply buffer_plain keep (notifyPublished_idle any)
      intro ok v same
      rw [← same] at serves held short
      cases ok with
      | false => exact stops v false pause rfl
      | true =>
          simp only [Bool.not_true, Bool.false_eq_true, if_false]
          split
          · apply Logic.wp_mono (logged_removal_rests (.cerr _) (fun _ => trivial) serves held)
            rintro _ u _ ⟨rfl, resting⟩
            exact ⟨by simp, fun _ => resting⟩
          · next fine =>
              have compacted : ((v.server.modify fd Buffer.compact).buffer fd).Rested := by
                rw [Memory.buffer_modify serves.member]
                exact held.compact (short (not_not.mp fine))
              have resting := (serves.modify Buffer.compact).resting compacted
              apply buffer_update resting.holding
              intro u settled
              have member : fd ∈ u.server.keys := by
                rw [settled, Memory.modify_keys]
                exact serves.member
              rw [← settled] at resting
              have ends : ∀ verdict : Verdict, bufferLogic.wp (pure verdict) (Tidied fd) u := by
                intro verdict
                apply buffer_pure
                intro x same
                rw [← same] at member resting
                exact ⟨fun _ => member, fun _ => resting⟩
              cases pause with
              | true => exact ends _
              | false => exact ends _

/-- The chunk fits, its checked frames go, and what is left is short. -/
theorem processChunk_tidies {config : ServerConfig} {bytes : List UInt8}
    (member : fd ∈ w.server.keys) (resting : w.server.Resting)
    (fits : bytes.length ≤ kReadBufferSize) :
    bufferLogic.wp (processChunk config fd bytes) (Tidied fd) w := by
  have serves := (resting.serves member).modify (fun b => b.insert bytes)
  have filled : (w.server.modify fd (fun b => b.insert bytes)).buffer fd =
      (w.server.buffer fd).insert bytes := Memory.buffer_modify member _
  have held : ((w.server.modify fd (fun b => b.insert bytes)).buffer fd).Held 8191 := by
    rw [filled]
    exact (resting fd member).insert fits
  rw [processChunk]
  apply buffer_update (serves.holding held)
  intro v inserted
  rw [← inserted] at serves held
  apply buffer_memory
  intro u same
  rw [← same] at serves held ⊢
  have inside := held.inside
  split
  · next beyond =>
      have size := held.size
      rw [Buffer.pendingBytes_sub, kMaxClientBuffer] at beyond
      omega
  · have all : (frames (u.server.buffer fd).unread).take
        ((u.server.buffer fd).pendingBytes / kFrameSize) = frames (u.server.buffer fd).unread := by
      rw [Buffer.pendingBytes_eq, ← frames_length, List.take_length]
    have count : (frames (u.server.buffer fd).unread).length =
        ((u.server.buffer fd).data.length - (u.server.buffer fd).offset) / kFrameSize := by
      rw [frames_length, Buffer.unread, List.length_drop]
    dsimp only
    rw [all]
    apply Logic.wp_seq (serves.holding held) (validate_counts config.quiet _ (serves.holding held))
    rintro ⟨n, error⟩ x _ ⟨sameX, most, whole⟩
    simp only at most whole
    rw [count] at most whole
    rw [← sameX] at serves held inside most whole
    have there : (x.server.buffer fd).offset + n * kFrameSize ≤ (x.server.buffer fd).data.length := by
      simp only [kFrameSize] at most ⊢
      omega
    apply Logic.wp_seq (serves.holding held) (publishFrames_advances serves held there)
    rintro ⟨taken, any, pause⟩ y _ ⟨served, moved⟩
    apply settleChunk_tidies served
    · rw [moved]
      exact held.advance there
    · intro none
      rw [moved]
      have every := whole none
      simp only [kFrameSize] at every ⊢
      omega

def Goes (fd : Int) : Unit ⊕ Bool × Bool → World → Prop
  | .inl _, w => fd ∈ w.server.keys ∧ w.server.Resting
  | .inr result, w => result.1 = true → w.server.Resting

theorem recv_fits {w v : World} {bytes : List UInt8}
    (answer : World.exec (.net (.recv fd)) w (.data bytes) = some v) :
    bytes.length ≤ kReadBufferSize := by
  simp only [World.exec, NetCall.exec, Option.map_eq_some_iff] at answer
  rcases answer with ⟨net, answer, _⟩
  split at answer
  · rw [Option.ite_none_right_eq_some] at answer
    exact answer.1.2.1
  · cases answer

theorem readClient_rests {config : ServerConfig} (resting : w.server.Resting) :
    bufferLogic.wp (readClient config fd) (fun result v =>
      result.1 = true → v.server.Resting) w := by
  rw [readClient]
  apply buffer_memory
  intro v same
  split
  · apply buffer_pure
    intro u same' _
    rw [same', same]
    exact resting
  next known =>
    have member : fd ∈ w.server.keys := not_not.mp known
    apply Logic.wp_iterate (fun _ u => fd ∈ u.server.keys ∧ u.server.Resting)
    · intro u move _
      rw [move, same]
      exact ⟨member, resting⟩
    rintro _ u _ ⟨memberU, restingU⟩
    apply Logic.wp_mono (Q := Goes fd) _ (by
      intro x z _ goes
      cases x with
      | inl _ => exact goes
      | inr result => exact goes)
    apply buffer_call (c := .net (.recv fd))
    · exact ⟨memberU, restingU⟩
    · rintro x sameX ⟨there, rested⟩
      rw [← sameX] at there rested
      exact ⟨there, rested⟩
    · exact fun _ _ _ answer => (exec_harmless _ rfl answer).1
    intro x answer y _ answered sameY
    rw [← sameY] at memberU restingU
    have serves := restingU.serves memberU
    have held := (restingU fd memberU).toHeld.mono (show 4095 ≤ 8191 by decide)
    have again : ∀ z : World, z.server = y.server → fd ∈ z.server.keys ∧ z.server.Resting := by
      intro z sameZ
      rw [sameZ]
      exact ⟨memberU, restingU⟩
    have removed : ∀ {p : Proc (Unit ⊕ Bool × Bool)} {z : World}, bufferLogic.wp p (fun b v =>
        b = .inr (true, false) ∧ v.server.Resting) z → bufferLogic.wp p (Goes fd) z := by
      intro p z removal
      apply Logic.wp_mono removal
      rintro _ z _ ⟨rfl, rested⟩ _
      exact rested
    cases answer with
    | data bytes =>
        apply Logic.wp_seq restingU.holding
          (processChunk_tidies memberU restingU (recv_fits (completeExec_exec answered)))
        intro verdict z _ tidied
        cases verdict with
        | none =>
            have rested := tidied.resting nofun
            have kept := tidied.member rfl
            apply buffer_pure
            intro a sameA
            rw [← sameA] at kept rested
            exact ⟨kept, rested⟩
        | some result =>
            apply buffer_pure
            intro a sameA ok
            rw [sameA]
            apply tidied.resting
            rintro pause ⟨⟩
            cases ok
    | eof =>
        apply buffer_memory
        intro z sameZ
        have ⟨memberZ, restingZ⟩ := again z sameZ
        rw [← sameZ] at serves held
        dsimp only
        split
        · exact removed (logged_removal_rests (.cerr _) (fun _ => trivial) serves held)
        · exact removed (removal_rests serves held)
    | error e =>
        cases e with
        | EINTR => exact buffer_pure (fun z sameZ => again z sameZ)
        | EAGAIN => exact buffer_pure (fun z sameZ _ => (again z sameZ).2)
        | ECONNABORTED => exact removed (logged_removal_rests (.perror _) (fun _ => trivial) serves held)
        | EMFILE => exact removed (logged_removal_rests (.perror _) (fun _ => trivial) serves held)
        | other code => exact removed (logged_removal_rests (.perror _) (fun _ => trivial) serves held)

end Parts

/-- Between two calls clients come, with empty buffers, and go. -/
def Turnover (m m' : Memory) : Prop :=
  ∀ fd ∈ m'.keys, (fd ∈ m.keys ∧ m'.buffer fd = m.buffer fd) ∨ m'.buffer fd = {}

/-- A call of `readClient` and what becomes of the clients before it. -/
structure Visit where
  fd : Int
  between : Memory → Memory
  fair : ∀ m, Turnover m (between m)

/-- Calls of `readClient` up to the first that stops the server. -/
def readClients (config : ServerConfig) : List Visit → Proc Bool
  | [] => return true
  | visit :: rest => do
      update visit.between
      let (ok, _) ← readClient config visit.fd
      if ok then readClients config rest else return false

theorem Turnover.resting {m m' : Memory} (turnover : Turnover m m') (resting : m.Resting) :
    m'.Resting := by
  intro fd member
  rcases turnover fd member with ⟨old, same⟩ | fresh
  · rw [same]
    exact resting fd old
  · rw [fresh]
    exact .fresh

theorem readClients_rest {config : ServerConfig} (visits : List Visit) {w : World}
    (resting : w.server.Resting) :
    bufferLogic.wp (readClients config visits) (fun ok v => ok = true → v.server.Resting) w := by
  induction visits generalizing w with
  | nil =>
      apply buffer_pure
      intro v same _
      rw [same]
      exact resting
  | cons visit rest ih =>
      have turned := (visit.fair w.server).resting resting
      apply buffer_update turned.holding
      intro v turnedV
      rw [← turnedV] at turned
      apply Logic.wp_seq turned.holding (readClient_rests turned)
      rintro ⟨ok, pause⟩ u _ rested
      cases ok with
      | true => exact ih (rested rfl)
      | false => exact buffer_pure (fun x _ impossible => by cases impossible)

/-- What holds of the buffers at a moment of a run: `q` is what is left to do. -/
structure BuffersBounded (q : Proc Bool) (v : World) : Prop where
  always : ∀ fd ∈ v.server.keys, (v.server.buffer fd).Held 8191
  between : ∀ fd, q.Calls (.net (.recv fd)) →
    ∀ other ∈ v.server.keys, (v.server.buffer other).Rested
  returned : q = .pure true → ∀ fd ∈ v.server.keys, (v.server.buffer fd).Rested
  /-- A chunk is inserted into a buffer that has room, and the frames found in it lie in it. -/
  inserted : ∀ fd bytes u, q.Calls (.net (.recv fd)) →
    completeExec (.net (.recv fd)) v (.data bytes) = some u → ∀ b,
    b = (u.server.buffer fd).insert bytes → b.Held 8191 ∧
      ∀ i < b.pendingBytes / kFrameSize, b.offset + (i + 1) * kFrameSize ≤ b.data.length
  unlimited : ∀ fd, ¬ q.Calls (.log (.inputBufferLimit fd))
  /-- The span handed to `tryPushBatch` is a piece of the data of a client. -/
  pushed : ∀ span count, q.Calls (.point (.pushed span count)) → ∃ fd ∈ v.server.keys, ∃ n,
    (v.server.buffer fd).offset + n * kFrameSize ≤ (v.server.buffer fd).data.length ∧
      span = ((v.server.buffer fd).data.drop (v.server.buffer fd).offset).take (n * kFrameSize)

theorem client_buffers_bounded {config : ServerConfig} {visits : List Visit} {w v : World}
    {q : Proc Bool} (start : ∀ fd ∈ w.server.keys, w.server.buffer fd = {})
    (run : Prog.Reach completeExec (fun w v => v.server = w.server) (readClients config visits)
      w q v) : BuffersBounded q v := by
  have resting : w.server.Resting := by
    intro fd member
    rw [start fd member]
    exact .fresh
  obtain ⟨keep, holds⟩ := Logic.wp_reach (L := bufferLogic) resting.holding
    (readClients_rest visits resting) (fun move => move) run
  constructor
  · exact keep
  · intro fd next
    exact (Logic.wp_pre keep holds next).2
  · intro done
    subst done
    exact Logic.wp_post keep holds rfl
  · intro fd bytes u next answer b filled
    obtain ⟨member, rested⟩ := Logic.wp_pre keep holds next
    have same := (exec_harmless (.net (.recv fd)) rfl (completeExec_exec answer)).1
    have held := (rested fd member).insert (recv_fits (completeExec_exec answer))
    rw [← same, ← filled] at held
    refine ⟨held, fun i there => ?_⟩
    have inside := held.inside
    rw [Buffer.pendingBytes_sub] at there
    simp only [kFrameSize] at there ⊢
    omega
  · intro fd next
    exact Logic.wp_pre keep holds next
  · intro span count next
    exact Logic.wp_pre keep holds next

/-- One call for the client on descriptor 7. -/
def soleVisit : Visit := ⟨7, id, fun _ _ member => Or.inl ⟨member, rfl⟩⟩

/-- The second `recv` of a client that has sent a frame and one byte more. -/
theorem client_buffers_bounded_desk : ∃ q v, q.Calls (.net (.recv 7)) ∧
    (v.server.buffer 7).data.length = 33 ∧ BuffersBounded q v := by
  have seen : (Prog.session completeExec (visit oneCaller) 21 [] (readClients {} [soleVisit]) desk).any
      (fun here => decide (here.1.next = some (.net (.recv 7))) &&
        decide ((here.2.server.buffer 7).data.length = 33)) = true := by
    decide +kernel
  have alone : ∀ stage ∈ ([] : List (Nat × (World → Option World))), ∀ s t, stage.2 s = some t →
      t.server = s.server := by
    intro stage member
    cases member
  have reached : ∃ q v, Prog.Reach completeExec (fun w v : World => v.server = w.server)
      (readClients {} [soleVisit]) desk q v ∧ q.Calls (.net (.recv 7)) ∧
      (v.server.buffer 7).data.length = 33 := Prog.session_shows (visit oneCaller) 21 alone seen
  rcases reached with ⟨q, v, run, next, size⟩
  have fresh : ∀ fd ∈ desk.server.keys, desk.server.buffer fd = {} := by
    intro fd member
    rw [List.mem_singleton.mp member]
    rfl
  exact ⟨q, v, next, size, client_buffers_bounded fresh run⟩

end TelemetryServer.Server
