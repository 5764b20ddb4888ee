import TelemetryServer.Main.ChildSpec
import TelemetryServer.Server.Framing
import TelemetryServer.Storage.Recovery

/-! Parent and child over one ring, two eventfds and one data directory, in any interleaving. -/

namespace TelemetryServer.Main

open Config Protocol Ipc Atomic Storage
open Server (Conn Grows Shared Serving Framed EXIT_SUCCESS DataDue SpaceDue)

/-- What neither process does: a client sends, shuts down or breaks its connection, or a signal
ends the reader. -/
inductive Outside (w : World) : World → Prop
  | client (c : Nat) (f : Conn → Conn) : Grows (w.net.conns c) (f (w.net.conns c)) →
      Outside w { w with net := w.net.updateConn c f }
  | strike (signal : Nat) : w.child = .running → Outside w { w with child := .signaled signal }

/-- Both processes behind the `fork`. Archives and bytes that are not synced are counted from
here. -/
structure Forked (config : AppConfig) (handles : Handles) (w : World) : Prop
    extends Server.Launch (setup config handles) w where
  delivered : w.past.delivered = []
  spaceOwed : w.past.spaceOwed = false
  archives : w.fs.archives = []
  unsynced : ∀ name file, w.fs.entries name = some file → file.unsynced = 0

abbrev Meeting (config : AppConfig) (handles : Handles) (w : World) (q : Proc Nat) (c : Proc Unit)
    (v : World) : Prop :=
  Prog.Par World.exec (fun v => v.child = .running) Outside (parent config handles) (child config)
    w q c v

def initially (config : AppConfig) (w : World) : List UInt8 :=
  w.fs.data (pathFilename config.dataFilePath)

abbrev agreed (config : AppConfig) (handles : Handles) (w : World) : Server.Contract :=
  contract config handles (initially config w)

section

variable {config : AppConfig} {handles : Handles} {w v : World} {q : Proc Nat} {c : Proc Unit}

/-- Neither process depends on what is outside of both. -/
theorem Outside.allowed {K : Server.Contract} (move : Outside w v) :
    MainRely K w v ∧ Server.ReaderRely K w v := by
  cases move with
  | client c f grows =>
      have server : Server.ServerRely K w { w with net := w.net.updateConn c f } :=
        Server.conn_rely grows
      exact ⟨⟨server, fun _ => rfl⟩,
        ⟨.refl _, rfl, rfl, rfl, rfl, Or.inl rfl, Or.inl ⟨rfl, rfl⟩, id, server.keeps⟩⟩
  | strike signal running =>
      have keeps : Shared K w → Shared K { w with child := .signaled signal } :=
        fun keep => ⟨keep.ring, by simp, keep.pid⟩
      exact ⟨⟨⟨⟨.refl _, rfl, Or.inl rfl, id, le_rfl, .refl _⟩,
        ⟨rfl, rfl, rfl, rfl, rfl, fun _ => .refl _⟩, keeps⟩, fun dead => absurd running dead⟩,
        ⟨.refl _, rfl, rfl, rfl, rfl, Or.inr ⟨signal, rfl⟩, Or.inl ⟨rfl, rfl⟩, id, keeps⟩⟩

namespace Forked

theorem shared (forked : Forked config handles w) (K : Server.Contract)
    (pid : K.readerPid = handles.readerPid) : Shared K w := by
  refine ⟨⟨forked.ring, ?_, ?_⟩, ?_, forked.pid.trans pid.symm⟩
  · rw [Layout.occupancy, forked.unpublished]
    exact le_of_eq_of_le (Nat.zero_sub _) (Nat.zero_le _)
  · rw [forked.unpublished]
    simp
  · rw [forked.child]
    simp

theorem tracked (forked : Forked config handles w) :
    Tracked (agreed config handles w) config (initially config w) w := by
  refine ⟨forked.shared (agreed config handles w) rfl, ?_, ?_⟩
  · rw [forked.delivered]
    exact List.nil_prefix
  · exact .opening _ forked.archives (.refl (forked.unsynced _))

theorem beginning (forked : Forked config handles w) :
    Beginning config (initially config w) w := by
  refine ⟨?_, forked.delivered, forked.spaceOwed, ?_, rfl, forked.archives, forked.unsynced⟩
  · intro code
    rw [forked.child]
    simp
  · have le := forked.ring.released_le
    rw [forked.unpublished] at le
    exact Nat.le_zero.mp le

/-- At every moment both processes are what they are to be. -/
theorem reached (forked : Forked config handles w) (moment : Meeting config handles w q c v) :
    Tracked (agreed config handles w) config (initially config w) v ∧
    (mainLogic (agreed config handles w) (setup config handles)).wp q Concluded v ∧
    (childLogic (agreed config handles w) config (initially config w)).wp c
      (fun _ v => v.child ≠ .running) v := by
  have keep := forked.shared (agreed config handles w) rfl
  have both := Logic.wp_par_while (L := mainLogic (agreed config handles w) (setup config handles))
    (M := childLogic (agreed config handles w) config (initially config w)) (fun granted => granted)
    (fun alive granted => ⟨granted, fun dead => absurd alive dead⟩)
    (fun move => move.allowed.1) (fun move => move.allowed.2) keep forked.tracked
    (parent_rule rfl forked.toStarting) (child_rule forked.tracked forked.beginning) moment
  exact ⟨both.2.1, both.1.2, both.2.2⟩

end Forked

def forkedMachine : World :=
  { Server.machine with
    fs := { entries := fun name => if name = "t" then some { data := [7] } else none } }

def quietConfig : AppConfig := { dataFilePath := "t", quiet := true }

def machineHandles : Handles :=
  { dataReadyFd := 2, spaceReadyFd := 3, signalFd := 4, readerPid := 1 }

theorem forkedMachine_forked : Forked quietConfig machineHandles forkedMachine := by
  have launch := Server.machine_launch
  have unsynced : ∀ name file, forkedMachine.fs.entries name = some file → file.unsynced = 0 := by
    intro name file entry
    simp only [forkedMachine, Option.ite_none_right_eq_some, Option.some.injEq] at entry
    rw [← entry.2]
  exact ⟨⟨⟨launch.opened, launch.unpublished, launch.told, launch.clients, launch.accepted,
    launch.space, launch.signal, launch.alone, launch.unwatched, launch.orphan, launch.nonneg,
    launch.listener, launch.state, launch.undrained⟩, launch.ring, launch.child, launch.pid⟩,
    rfl, rfl, rfl, unsynced⟩

/-- A client calls and sends its bytes, and then the service is told to stop. -/
def callThenStop (n : Nat) : (call : Call) → World → call.Resp
  | .epollWait, w =>
      let fd := if w.past.shutdown then 3 else if w.net.accepted = 0 then 5
        else if w.ring.head = 0 then 7 else 4
      .ready [⟨fd, { readable := true }⟩]
  | .signalRead, w =>
      if w.past.shutdown then .error .EAGAIN else .info { signo := World.SIGINT }
  | call, w => Server.visit Server.oneCaller n call w

def sends (n : Nat) (bytes : List UInt8) (w : World) : Option World :=
  if (w.net.conns n).fin = false then
    some { w with net := w.net.updateConn n (fun conn => { conn with inbound := conn.inbound ++ bytes }) }
  else none

theorem sends_outside {n : Nat} {bytes : List UInt8} (done : sends n bytes w = some v) :
    Outside w v := by
  simp only [sends, Option.ite_none_right_eq_some, Option.some.injEq] at done
  rw [← done.2]
  apply Outside.client n
  exact ⟨rfl, rfl, rfl, rfl, List.prefix_append _ _,
    fun fin => absurd fin (by rw [done.1]; simp), id⟩

/-- What both processes of this machine come to in turns, while the client sends. -/
theorem turns_show (oracle : Nat → (call : Call) → World → call.Resp) (turns : List (Prog.Turn World))
    (sending : ∀ move, Prog.Turn.env move ∈ turns → ∃ n bytes, move = sends n bytes)
    (P : Proc Nat → Proc Unit → World → Prop) [∀ q c v, Decidable (P q c v)] (seen :
    (Prog.duet World.exec oracle (fun v => v.child = .running) turns
      (parent quietConfig machineHandles) (child quietConfig) forkedMachine).any
      (fun here => decide (P here.1 here.2.1 here.2.2)) = true) :
    ∃ q c v, Meeting quietConfig machineHandles forkedMachine q c v ∧ P q c v := by
  apply Prog.duet_shows oracle _ seen
  intro move member w v done
  rcases sending move member with ⟨n, bytes, rfl⟩
  exact sends_outside done

/-- The server publishes a frame, the reader stores it, the server drains and both end. -/
def wholeRun : List (Prog.Turn World) :=
  [.left 27, .env (sends 0 Server.telegram), .left 56, .right 58, .left 24, .right 17, .left 1]

/-- From end to end: once the reader returns success, and so once `main` does, the files hold
what was there and all that was published, synced; and a frame that does not decode never
reaches the reader. -/
theorem processes_persist (forked : Forked config handles w) (moment : Meeting config handles w q c v) :
    (c.Calls (.exit EXIT_SUCCESS) ∨ v.child = .exited EXIT_SUCCESS ∨ q = .pure EXIT_SUCCESS →
      v.ring.producerClosed ≠ 0 ∧ (v.fs.archives.length ≤ 2 ^ 64 →
        Persisted (pathFilename config.dataFilePath) (initially config w) v.ring.published v.fs)) ∧
    (∀ frames, c.Calls (.point (.popped frames)) → ∀ frame ∈ frames, (decode frame.bytes).ok = true) ∧
    ∀ error, ¬ c.Calls (.log (.invalidIpcFrame error)) := by
  rcases forked.reached moment with ⟨keep, left, right⟩
  refine ⟨?_, ?_, ?_⟩
  · rintro (returns | exited | ended)
    · have finished := Logic.wp_pre keep right returns rfl
      exact ⟨finished.closed, finished.stored⟩
    · exact keep.ended exited
    · subst ended
      exact keep.ended ((Logic.wp_post keep.toShared left).success rfl).1
  · exact fun frames pops => Logic.wp_pre keep right pops
  · exact fun error complains => Logic.wp_pre keep right complains

theorem processes_persist_run : ∃ c v,
    Meeting quietConfig machineHandles forkedMachine (.pure EXIT_SUCCESS) c v ∧
    bytesOf v.ring.frames = Server.telegram.take kFrameSize ∧
    Persisted (pathFilename quietConfig.dataFilePath) (initially quietConfig forkedMachine)
      v.ring.published v.fs := by
  rcases turns_show callThenStop wholeRun (by simp [wholeRun]) (fun q _ v => q.result = some EXIT_SUCCESS ∧
    bytesOf v.ring.frames = Server.telegram.take kFrameSize ∧ v.fs.archives.length ≤ 2 ^ 64)
    (by decide +kernel) with ⟨q, c, v, moment, ended, published, few⟩
  obtain rfl := Prog.eq_pure_of_result ended
  have persist := (processes_persist forkedMachine_forked moment).1 (Or.inr (Or.inr rfl))
  exact ⟨c, v, moment, published, persist.2 few⟩

structure AtRest (q : Proc Nat) (v : World) : Prop where
  polls : q.Calls .epollWait
  empty : v.ring.occupancy = 0
  unpaused : v.server.ingressPaused = false
  running : v.server.state = .running
  opened : v.ring.producerClosed = 0

/-- The parent waits for its child, or for an event other than that there is space again. -/
def Waiting (q : Proc Nat) (v : World) : Prop :=
  q.Calls .epollWait ∧ v.spaceReady = 0 ∨ q.Calls .waitpid

theorem not_due (settled : v.past.dataOwed = false) (silent : v.dataReady = 0) : ¬ DataDue v := by
  rintro (owed | counted)
  · rw [settled] at owed
    cases owed
  · omega

/-- No wake-up is lost: both processes sleep only when nothing is left to be done. The server
asks for the notification of space only when there is one. -/
theorem processes_wake (forked : Forked config handles w) (moment : Meeting config handles w q c v) :
    (v.past.failed = false → c.Calls (.eventRead .dataReady) → v.dataReady = 0 → Waiting q v →
      AtRest q v) ∧
    (q.Calls (.eventRead .spaceReady) → 0 < v.spaceReady) := by
  rcases forked.reached moment with ⟨keep, left, right⟩
  refine ⟨?_, fun asks => Logic.wp_pre keep.toShared left asks⟩
  intro fine sleeps silent waiting
  rcases Logic.wp_pre keep right sleeps with ⟨_, told, empty, opened⟩
  rcases waiting with ⟨polls, still⟩ | awaits
  · rcases Logic.wp_pre keep.toShared left polls with ⟨serving, busy⟩
    have quiet := not_due serving.told silent
    have unasked : ¬ SpaceDue v := by
      rintro (owed | counted)
      · rw [told] at owed
        cases owed
      · omega
    have none := empty.resolve_right quiet
    have running : v.server.state = .running := by
      cases state : v.server.state with
      | running => rfl
      | draining =>
          rcases busy state with some | due
          · exact absurd none some
          · exact absurd due unasked
    have unpaused : v.server.ingressPaused = false := by
      cases paused : v.server.ingressPaused with
      | false => rfl
      | true =>
          rcases serving.waits running paused with full | due
          · rw [none] at full
            exact absurd full (Nat.not_lt_zero _)
          · exact absurd due unasked
    exact ⟨polls, none, unpaused, running, opened.resolve_right quiet⟩
  · have closed := Logic.wp_pre keep.toShared left awaits
    exact absurd (opened.resolve_right (not_due (closed.2 fine) silent)) closed.1

/-- A client calls and sends its bytes, and the server is then told of the space again. -/
def callThenRest (n : Nat) : (call : Call) → World → call.Resp
  | .epollWait, w =>
      let fd := if w.net.accepted = 0 then 5 else if w.ring.head = 0 then 7 else 3
      .ready [⟨fd, { readable := true }⟩]
  | call, w => Server.visit Server.oneCaller n call w

/-- A frame has been published and stored, and both notifications have been read. -/
theorem processes_wake_rest : ∃ q c v,
    Meeting quietConfig machineHandles forkedMachine q c v ∧ c.Calls (.eventRead .dataReady) ∧
    bytesOf v.ring.frames = Server.telegram.take kFrameSize ∧
    v.fs.data (pathFilename quietConfig.dataFilePath) = Server.telegram.take kFrameSize ∧
    AtRest q v := by
  rcases turns_show callThenRest [.left 27, .env (sends 0 Server.telegram), .left 28, .right 58, .left 9]
    (by simp) (fun q c v => q.next = some .epollWait ∧
      c.next = some (.eventRead .dataReady) ∧ v.past.failed = false ∧ v.dataReady = 0 ∧
      v.spaceReady = 0 ∧ bytesOf v.ring.frames = Server.telegram.take kFrameSize ∧
      v.fs.data (pathFilename quietConfig.dataFilePath) = Server.telegram.take kFrameSize)
    (by decide +kernel) with
    ⟨q, c, v, moment, polls, sleeps, fine, silent, still, published, stored⟩
  have waiting : Waiting q v := Or.inl ⟨Prog.calls_of_next polls, still⟩
  exact ⟨q, c, v, moment, Prog.calls_of_next sleeps, published, stored,
    (processes_wake forkedMachine_forked moment).1 fine (Prog.calls_of_next sleeps) silent waiting⟩

/-- The reader sleeps, and nothing is on the way to it. -/
theorem Forked.settled (forked : Forked config handles w) (moment : Meeting config handles w q c v)
    (polls : q.Calls .epollWait) (sleeps : c.Calls (.eventRead .dataReady))
    (silent : v.dataReady = 0) (few : v.fs.archives.length ≤ 2 ^ 64) :
    v.fs.log (pathFilename config.dataFilePath) =
      Blocks.cut kFrameSize (initially config w) ++ bytesOf v.ring.frames ∧ Framed v := by
  rcases forked.reached moment with ⟨keep, left, right⟩
  rcases Logic.wp_pre keep right sleeps with ⟨settled, _, empty, _⟩
  have serving := (Logic.wp_pre keep.toShared left polls).1
  have none : v.ring.occupancy = 0 := empty.resolve_right (not_due serving.told silent)
  have all : v.ring.frames.take v.ring.released = v.ring.frames := by
    apply List.take_of_length_le
    rw [frames_length_eq]
    rw [Layout.occupancy] at none
    omega
  refine ⟨?_, serving.base.framed keep.toShared⟩
  rw [settled.contents few, settled.taken, all]

/-- Whenever the server polls and the reader sleeps unasked, every frame of the bytes received
so far has reached the files: an interleaving of the connections follows what was there, and
less than one sync interval of it is not synced. -/
theorem processes_settle (forked : Forked config handles w) (moment : Meeting config handles w q c v)
    (polls : q.Calls .epollWait) (sleeps : c.Calls (.eventRead .dataReady))
    (silent : v.dataReady = 0) (few : v.fs.archives.length ≤ 2 ^ 64) :
    v.fs.log (pathFilename config.dataFilePath) =
      Blocks.cut kFrameSize (initially config w) ++ bytesOf v.ring.frames ∧ Framed v ∧
    (config.syncEveryBytes.toNat ≠ 0 → ∀ file,
      v.fs.entries (pathFilename config.dataFilePath) = some file →
      file.unsynced < config.syncEveryBytes.toNat) := by
  have settled := forked.settled moment polls sleeps silent few
  rcases forked.reached moment with ⟨keep, _, right⟩
  exact ⟨settled.1, settled.2, (Logic.wp_pre keep right sleeps).1.unsynced⟩

def storedRun : List (Prog.Turn World) :=
  [.left 27, .env (sends 0 Server.telegram), .left 28, .right 58]

theorem processes_settle_stored : ∃ q c v,
    Meeting quietConfig machineHandles forkedMachine q c v ∧
    (v.net.conns 0).received = Server.telegram ∧
    v.fs.log (pathFilename quietConfig.dataFilePath) =
      Blocks.cut kFrameSize (initially quietConfig forkedMachine) ++ bytesOf v.ring.frames ∧
    Framed v ∧ (quietConfig.syncEveryBytes.toNat ≠ 0 → ∀ file,
      v.fs.entries (pathFilename quietConfig.dataFilePath) = some file →
      file.unsynced < quietConfig.syncEveryBytes.toNat) := by
  rcases turns_show callThenStop storedRun (by simp [storedRun]) (fun q c v => q.next = some .epollWait ∧
    c.next = some (.eventRead .dataReady) ∧ (v.net.conns 0).received = Server.telegram ∧
    v.dataReady = 0 ∧ v.fs.archives.length ≤ 2 ^ 64) (by decide +kernel) with
    ⟨q, c, v, moment, polls, sleeps, received, silent, few⟩
  exact ⟨q, c, v, moment, received, processes_settle forkedMachine_forked moment
    (Prog.calls_of_next polls) (Prog.calls_of_next sleeps) silent few⟩

/-- Whole frames of a part of some frames are the first ones. -/
theorem cut_of_prefix {part : List UInt8} {fs : List Frame} (inside : part <+: bytesOf fs) :
    Blocks.cut kFrameSize part = bytesOf (fs.take (part.length / kFrameSize)) := by
  have short : kFrameSize * (part.length / kFrameSize) ≤ part.length := Nat.mul_div_le _ _
  have size := inside.length_le
  rw [bytesOf_length] at size
  have count : part.length / kFrameSize ≤ fs.length := Nat.div_le_of_le_mul size
  have first : (bytesOf (fs.take (part.length / kFrameSize))).length =
      kFrameSize * (part.length / kFrameSize) := by
    rw [bytesOf_length, List.length_take, min_eq_left count]
  have split : bytesOf fs = bytesOf (fs.take (part.length / kFrameSize)) ++
      bytesOf (fs.drop (part.length / kFrameSize)) := by
    rw [← bytesOf_append, List.take_append_drop]
  rcases inside with ⟨rest, same⟩
  calc
    Blocks.cut kFrameSize part = (bytesOf fs).take (kFrameSize * (part.length / kFrameSize)) := by
      rw [← same, Blocks.cut, List.take_append_of_le_length short]
    _ = bytesOf (fs.take (part.length / kFrameSize)) := by
      rw [split, ← first, List.take_left]

/-- The whole frames in the files are those that were there and the first ones published. -/
theorem Tracked.frames {K : Server.Contract} {initial : List UInt8}
    (tracked : Tracked K config initial v) (distinct : v.fs.archives.Nodup) :
    ∃ k, Blocks.cut kFrameSize (v.fs.log (pathFilename config.dataFilePath)) =
      Blocks.cut kFrameSize initial ++ bytesOf (v.ring.frames.take k) := by
  rcases tracked.recorded.contents distinct with ⟨none, same⟩ | ⟨part, inside, total⟩
  · refine ⟨0, ?_⟩
    have log : v.fs.log (pathFilename config.dataFilePath) = initial := by
      rw [← same, FileSystem.log, FileSystem.view, none]
      rfl
    rw [log, List.take_zero]
    exact (List.append_nil _).symm
  · rcases tracked.delivered with ⟨rest, more⟩
    have low : part <+: bytesOf v.ring.frames := by
      rw [← more, bytesOf_append]
      exact inside.trans (List.prefix_append _ _)
    refine ⟨part.length / kFrameSize, ?_⟩
    rw [total, Blocks.cut_append (Blocks.dvd_cut_length _ _), cut_of_prefix low]

/-- At every moment, whatever has failed and whoever has been killed: the files hold the frames
that were there and then first ones of those published, at most with a torn one at the end; the
archives are synced, and the active file lags behind by at most the sync interval. -/
theorem processes_record (forked : Forked config handles w) (moment : Meeting config handles w q c v) :
    (v.fs.archives.Nodup → ∃ k, Blocks.cut kFrameSize (v.fs.log (pathFilename config.dataFilePath)) =
      Blocks.cut kFrameSize (initially config w) ++ bytesOf (v.ring.frames.take k)) ∧
    (∀ a ∈ v.fs.archives, ∃ file, v.fs.entries a = some file ∧ file.unsynced = 0) ∧
    (config.syncEveryBytes.toNat ≠ 0 → ∀ file,
      v.fs.entries (pathFilename config.dataFilePath) = some file →
      file.unsynced ≤ roundUp config.syncEveryBytes.toNat) := by
  have tracked := (forked.reached moment).1
  exact ⟨tracked.frames, fun a member => (tracked.recorded.kept.there a member).2,
    tracked.recorded.unsynced⟩

theorem processes_record_unsynced : ∃ q c v,
    Meeting quietConfig machineHandles forkedMachine q c v ∧
    (v.fs.entries (pathFilename quietConfig.dataFilePath)).map File.unsynced = some kFrameSize ∧
    ∃ k, Blocks.cut kFrameSize (v.fs.log (pathFilename quietConfig.dataFilePath)) =
      Blocks.cut kFrameSize (initially quietConfig forkedMachine) ++ bytesOf (v.ring.frames.take k) := by
  rcases turns_show callThenStop storedRun (by simp [storedRun]) (fun _ _ v => v.fs.archives.Nodup ∧
    (v.fs.entries (pathFilename quietConfig.dataFilePath)).map File.unsynced = some kFrameSize)
    (by decide +kernel) with ⟨q, c, v, moment, distinct, unsynced⟩
  exact ⟨q, c, v, moment, unsynced, (processes_record forkedMachine_forked moment).1 distinct⟩

/-- After the moment at which both processes are killed, whatever it is, the next store that opens
the file finds all that was in the files but for a torn last frame: the frames that were there and
first ones of those published. -/
theorem processes_recover {storeConfig : FileStoreConfig} {x u : World}
    (forked : Forked config handles w) (moment : Meeting config handles w q c v)
    (distinct : v.fs.archives.Nodup) (attempts : Attempts config.dataFilePath v x)
    (opens : Prog.Reach World.exec (fun _ _ => False) (openFile config.dataFilePath)
      (restart storeConfig x) (.pure true) u) :
    u.fs.log (pathFilename config.dataFilePath) =
      Blocks.cut kFrameSize (v.fs.log (pathFilename config.dataFilePath)) ∧
    ∃ k, u.fs.log (pathFilename config.dataFilePath) =
      Blocks.cut kFrameSize (initially config w) ++ bytesOf (v.ring.frames.take k) := by
  have tracked := (forked.reached moment).1
  have torn : Torn (pathFilename config.dataFilePath)
      (Blocks.cut kFrameSize (v.fs.log (pathFilename config.dataFilePath))) v.fs :=
    ⟨distinct, tracked.recorded.kept, tracked.recorded.aligned distinct, rfl⟩
  have kept := attempts.opened torn opens
  refine ⟨kept, ?_⟩
  rw [kept]
  exact tracked.frames distinct

/-- As `callThenStop`, but no write takes more than twenty bytes. -/
def callAndTear (n : Nat) : (call : Call) → World → call.Resp
  | .fs (.write _ bytes), _ => .written (min 20 bytes.length)
  | call, w => callThenStop n call w

/-- Killed after eight bytes of the second frame. -/
theorem processes_recover_torn : ∃ q c, ∃ v u : World,
    Meeting quietConfig machineHandles forkedMachine q c v ∧
    (v.fs.data (pathFilename quietConfig.dataFilePath)).length = 40 ∧
    u.fs.log (pathFilename quietConfig.dataFilePath) =
      Blocks.cut kFrameSize (v.fs.log (pathFilename quietConfig.dataFilePath)) ∧
    ∃ k, u.fs.log (pathFilename quietConfig.dataFilePath) =
      Blocks.cut kFrameSize (initially quietConfig forkedMachine) ++ bytesOf (v.ring.frames.take k) := by
  rcases turns_show callAndTear [.left 27,
      .env (sends 0 (Server.telegram.take kFrameSize ++ Server.telegram)), .left 29, .right 46]
    (by simp) (fun _ _ v => v.fs.archives.Nodup ∧
      (v.fs.data (pathFilename quietConfig.dataFilePath)).length = 40 ∧
      ((Prog.replay World.exec Calm.answer 20 (openFile quietConfig.dataFilePath) (restart {} v)).any
        (fun here => decide (here.1.result = some true) && decide True)) = true)
    (by decide +kernel) with ⟨q, c, v, moment, distinct, size, opens⟩
  have opened : ∃ u, Prog.Reach World.exec (fun _ _ => False) (openFile quietConfig.dataFilePath)
      (restart {} v) (.pure true) u ∧ True := Prog.replay_ends (P := fun _ => True) Calm.answer 20 opens
  rcases opened with ⟨u, run, _⟩
  exact ⟨q, c, v, u, moment, size, processes_recover forkedMachine_forked moment distinct .none run⟩

/-- `main` does not return before its child has ended, unless a call has failed, and its value is
success only when the server was told to stop and has drained the ring, and the reader has
returned success. -/
theorem processes_conclude {result : Nat} (forked : Forked config handles w)
    (moment : Meeting config handles w (.pure result) c v) : Concluded result v :=
  Logic.wp_post (forked.reached moment).1.toShared (forked.reached moment).2.1

theorem processes_conclude_run : ∃ c v,
    Meeting quietConfig machineHandles forkedMachine (.pure EXIT_SUCCESS) c v ∧
    Concluded EXIT_SUCCESS v := by
  rcases turns_show callThenStop wholeRun (by simp [wholeRun]) (fun q _ _ => q.result = some EXIT_SUCCESS)
    (by decide +kernel) with ⟨q, c, v, moment, ended⟩
  obtain rfl := Prog.eq_pure_of_result ended
  exact ⟨c, v, moment, processes_conclude forkedMachine_forked moment⟩

end

end TelemetryServer.Main
