import TelemetryServer.Lib.Decimal
import TelemetryServer.Storage.Failures

namespace TelemetryServer.Storage

open Protocol Atomic
open Ipc (u64)

/-- What a rotation puts into the name of its archive. -/
structure Stamp where
  sec : Int
  nsec : Nat
  sequence : Nat
  deriving DecidableEq

def Stamp.name (fileName : String) (stamp : Stamp) : String :=
  archiveName fileName stamp.sec stamp.nsec stamp.sequence

/-- A reading of the clock, with the number of the rotation that asks for it. -/
def stamped : Happening → Option Stamp
  | ⟨before, .fs .clockGettime, .ok sec nsec⟩ => some ⟨sec, nsec, before.store.rotationSequence⟩
  | _ => none

/-- The target of a rename, and whether the rename was done. -/
def retitled : Happening → Option (String × Bool)
  | ⟨_, .fs (.renameat _ _ target), done⟩ => some (target, done)
  | _ => none

def stamps (events : List Happening) : List Stamp := events.filterMap stamped

def renames (events : List Happening) : List (String × Bool) := events.filterMap retitled

/-- The names rotations have given to archives, in order. -/
def targets (events : List Happening) : List String := (renames events).map Prod.fst

section Events

variable {first rest : List Happening}

@[simp] theorem stamps_append : stamps (first ++ rest) = stamps first ++ stamps rest :=
  List.filterMap_append

@[simp] theorem renames_append : renames (first ++ rest) = renames first ++ renames rest :=
  List.filterMap_append

@[simp] theorem targets_append : targets (first ++ rest) = targets first ++ targets rest := by
  rw [targets, renames_append, List.map_append]
  rfl

end Events

/-- A call that takes no part in the naming of archives. -/
def Aside : Call → Prop
  | .fs (.renameat _ _ _) => False
  | .fs .clockGettime => False
  | .fs _ => True
  | .log line => line.plain = true
  | _ => False

def SameName (w v : World) : Prop :=
  v.store.fileName = w.store.fileName ∧ v.store.rotationSequence = w.store.rotationSequence

/-- No more than other members of the store are changed. -/
structure Retained (w v : World) : Prop where
  sameName : SameName w v
  same : v = { w with store := v.store }

structure Idle (w : World) (events : List Happening) (v : World) : Prop where
  stamps : stamps events = []
  renames : renames events = []
  same : SameName w v

/-- A program that does nothing about archives. -/
structure Still {α : Type} (p : Proc α) : Prop where
  within : Prog.Within Aside p
  moves : Prog.Moves Retained p

section

variable {w u v : World} {events : List Happening} {r : Bool}

theorem Idle.start (w : World) : Idle w [] w := ⟨rfl, rfl, rfl, rfl⟩

theorem Idle.trans {first rest : List Happening} (one : Idle w first u) (two : Idle u rest v) :
    Idle w (first ++ rest) v := by
  constructor
  · rw [stamps_append, one.stamps, two.stamps]
    rfl
  · rw [renames_append, one.renames, two.renames]
    rfl
  · exact ⟨two.same.1.trans one.same.1, two.same.2.trans one.same.2⟩

theorem aside_idle {call : Call} {r : call.Resp} (aside : Aside call)
    (answer : World.exec call w r = some v) : Idle w [⟨w, call, r⟩] v := by
  cases call with
  | fs call =>
      rcases exec_fs answer with ⟨fs, _, rfl⟩
      cases call with
      | renameat directoryFd source target => exact aside.elim
      | clockGettime => exact aside.elim
      | _ => exact ⟨rfl, rfl, rfl, rfl⟩
  | log line =>
      rw [exec_log aside answer]
      exact ⟨rfl, rfl, rfl, rfl⟩
  | _ => exact aside.elim

theorem Still.idle {α : Type} {p : Proc α} {a : α} (run : Ran p w events a v) (still : Still p) :
    Idle w events v := by
  apply Prog.Among.closed (C := Idle) (A := Retained) (P := Aside) _ _ aside_idle Idle.trans
    (Prog.Trace.among_iff.mp run) still.moves still.within
  · rintro s _ rfl
    exact Idle.start s
  · intro s t retained
    exact ⟨rfl, rfl, retained.sameName⟩

end

section Still

theorem Still.pure {α : Type} (a : α) : Still (Pure.pure a : Proc α) := ⟨trivial, trivial⟩

theorem Still.bind {α β : Type} {p : Proc β} {f : β → Proc α} (first : Still p)
    (rest : ∀ b, Still (f b)) : Still (p >>= f) :=
  ⟨first.within.bind fun b => (rest b).within, first.moves.bind fun b => (rest b).moves⟩

theorem Still.iterate {α β : Type} {body : β → Proc (β ⊕ α)} {b : β} (pass : ∀ b, Still (body b)) :
    Still (Prog.iterate body b) :=
  ⟨.iterate fun b => (pass b).within, .iterate fun b => (pass b).moves⟩

theorem Still.check {α : Type} {p : Proc Bool} {bad : α} {next : Proc α} (first : Still p)
    (rest : Still next) : Still (p >>= fun ok => if (!ok) = true then Pure.pure bad else next) := by
  apply first.bind
  intro ok
  cases ok with
  | false => exact .pure bad
  | true => exact rest

theorem members_still : Still members :=
  ⟨fun _ => trivial, fun _ => ⟨⟨rfl, rfl⟩, rfl⟩, fun _ => trivial⟩

theorem Still.update {α : Type} {f : FileStore → FileStore} {p : Unit → Proc α}
    (rest : ∀ u, Still (p u))
    (same : ∀ m, (f m).fileName = m.fileName ∧ (f m).rotationSequence = m.rotationSequence) :
    Still (Storage.update f >>= p) :=
  ⟨fun u => (rest u).within, fun w => ⟨same w.store, rfl⟩, fun u => (rest u).moves⟩

theorem call_still (call : FsCall) (aside : Aside (.fs call)) :
    Still (Proc.call (.fs call) : Proc call.Resp) :=
  ⟨⟨aside, fun _ => trivial⟩, fun _ => trivial⟩

theorem log_still {line : Line} (plain : line.plain = true) : Still (Proc.log line) :=
  ⟨⟨plain, fun _ => trivial⟩, fun _ => trivial⟩

theorem refuse_still {line : Line} (plain : line.plain = true) : Still (refuse line) :=
  (log_still plain).bind fun _ => .pure false

theorem retrySync_still (call : FsCall) {answer : call.Resp → SyncResult} {message : String}
    (aside : Aside (.fs call)) : Still (retrySync call answer message) := by
  apply Still.iterate
  intro u
  apply (call_still _ aside).bind
  intro r
  cases answer r with
  | ok => exact .pure _
  | eintr => exact .pure _
  | error => exact (log_still rfl).bind fun _ => .pure _

theorem sync_still : Still sync := by
  apply members_still.bind
  intro m
  split
  · exact .pure false
  · apply (retrySync_still (.fdatasync m.fd) trivial).bind
    intro ok
    cases ok with
    | true => exact .update (fun _ => .pure true) fun _ => ⟨rfl, rfl⟩
    | false => exact .pure false

theorem syncDirectory_still : Still syncDirectory := by
  apply members_still.bind
  intro m
  split
  · exact .pure false
  · exact retrySync_still (.fsync m.directoryFd) trivial

theorem syncIfDue_still : Still syncIfDue := by
  apply members_still.bind
  intro m
  split
  · exact sync_still
  · exact .pure true

theorem validateConfig_still : Still validateConfig := by
  apply members_still.bind
  intro m
  split
  · exact refuse_still rfl
  split
  · exact refuse_still rfl
  split
  · exact refuse_still rfl
  · exact .pure true

theorem truncatePartialTail_still (fd : Int) (size : Nat) : Still (truncatePartialTail fd size) := by
  rw [truncatePartialTail]
  split
  · apply (log_still rfl).bind
    intro _
    apply (call_still (.ftruncate fd _) trivial).bind
    intro ok
    cases ok with
    | true => exact sync_still
    | false => exact refuse_still rfl
  · exact .pure true

theorem recoverPartialFrame_still : Still recoverPartialFrame := by
  apply members_still.bind
  intro m
  apply (call_still (.fstat m.fd) trivial).bind
  intro status
  cases status with
  | error => exact refuse_still rfl
  | ok size regular =>
      cases regular with
      | false => exact refuse_still rfl
      | true =>
          apply (truncatePartialTail_still m.fd size).check
          exact .update (fun _ => .pure true) fun _ => ⟨rfl, rfl⟩

theorem openAppend_still : Still openAppend := by
  have opened : ∀ {fd : Int} {created : Bool}, Still (do
      update (fun m => { m with fd := fd })
      return some created) := .update (fun _ => .pure _) fun _ => ⟨rfl, rfl⟩
  have failed : ∀ {message : String}, Still (do
      update (fun m => { m with fd := -1 })
      Proc.log (.perror message)
      return (none : Option Bool)) :=
    .update (fun _ => (log_still rfl).bind fun _ => .pure none) fun _ => ⟨rfl, rfl⟩
  apply members_still.bind
  intro m
  apply (call_still (.openCreate m.directoryFd m.fileName) trivial).bind
  intro created
  cases created with
  | ok fd => exact opened
  | error => exact failed
  | eexist =>
      apply (call_still (.openExisting m.directoryFd m.fileName) trivial).bind
      intro existing
      cases existing with
      | ok fd => exact opened
      | eexist => exact failed
      | error => exact failed

theorem openActiveFile_still : Still openActiveFile := by
  apply openAppend_still.bind
  intro opened
  cases opened with
  | none => exact .pure false
  | some created =>
      cases created with
      | false => exact recoverPartialFrame_still
      | true =>
          apply syncDirectory_still.bind
          intro ok
          cases ok with
          | true => exact recoverPartialFrame_still
          | false => exact .pure false

theorem closeActiveFile_still : Still closeActiveFile := by
  apply members_still.bind
  intro m
  split
  · exact .pure true
  · refine .update (fun _ => ?_) fun _ => ⟨rfl, rfl⟩
    apply (call_still (.close m.fd) trivial).bind
    intro ok
    cases ok with
    | true => exact .pure true
    | false => exact refuse_still rfl

theorem writeAll_still (fd : Int) (bytes : List UInt8) : Still (writeAll fd bytes) := by
  have failed : Still (do
      Proc.log (.perror "write telemetry file")
      return .inr false : Proc (Nat ⊕ Bool)) := (log_still rfl).bind fun _ => .pure _
  apply Still.iterate
  intro written
  rw [writeTurn]
  split
  · apply (call_still (.write fd (bytes.drop written)) trivial).bind
    intro answer
    cases answer with
    | written count =>
        dsimp only
        split
        · exact .pure _
        · exact failed
    | eintr => exact .pure _
    | error => exact failed
  · exact .pure _

theorem closeIfOpen_still (fd : Int) : Still (closeIfOpen fd) := by
  rw [closeIfOpen]
  split
  · exact (call_still (.close fd) trivial).bind fun _ => .pure ()
  · exact .pure ()

theorem destroy_still : Still destroy :=
  members_still.bind fun m => (closeIfOpen_still m.fd).bind fun _ => closeIfOpen_still m.directoryFd

end Still

/-- The active file is `name`, and the next rotation is number `n`. -/
structure Names (name : String) (n : Nat) (w : World) : Prop where
  fileName : w.store.fileName = name
  next : w.store.rotationSequence = u64 n

/-- Each rename is to the name its stamp gives, and the stamps are numbered from `n` on. -/
structure Named (name : String) (n : Nat) (events : List Happening) (v : World) : Prop where
  targets : targets events = (stamps events).map (Stamp.name name)
  numbers : (stamps events).map Stamp.sequence = (List.range' n (stamps events).length).map u64
  names : Names name (n + (stamps events).length) v

section

variable {name : String} {n : Nat} {w u v : World} {events first rest : List Happening} {r : Bool}

theorem Idle.named (start : Names name n w) (idle : Idle w events v) : Named name n events v := by
  constructor
  · rw [Storage.targets, idle.renames, idle.stamps]
    rfl
  · rw [idle.stamps]
    rfl
  · rw [idle.stamps]
    exact ⟨idle.same.1.trans start.fileName, idle.same.2.trans start.next⟩

theorem Named.trans (one : Named name n first u)
    (two : Named name (n + (stamps first).length) rest v) : Named name n (first ++ rest) v := by
  have length : (stamps (first ++ rest)).length = (stamps first).length + (stamps rest).length := by
    rw [stamps_append, List.length_append]
  constructor
  · rw [targets_append, stamps_append, List.map_append, one.targets, two.targets]
  · rw [length, ← List.range'_append_1, stamps_append, List.map_append, List.map_append, one.numbers,
      two.numbers]
  · rw [length, ← Nat.add_assoc]
    exact two.names

theorem Still.named {α : Type} {p : Proc α} {a : α} (start : Names name n w)
    (run : Ran p w events a v) (still : Still p) : Named name n events v :=
  (still.idle run).named start

theorem Named.check {α : Type} {p : Proc Bool} {bad a : α} {next : Proc α}
    (run : Ran (p >>= fun ok => if (!ok) = true then pure bad else next) w events a v)
    (first : ∀ {events ok u}, Ran p w events ok u → Named name n events u)
    (second : ∀ {n events u}, Names name n u → Ran next u events a v → Named name n events v) :
    Named name n events v := by
  rcases ran_check run with ⟨failed, _⟩ | ⟨u, first', rest', done, next, rfl⟩
  · exact first failed
  · have before := first done
    exact before.trans (second before.names next)

theorem makeArchiveName_named {archive : String} (run : Ran makeArchiveName w events archive v) :
    (archive = "" ∧ Idle w events v) ∨
    ∃ stamp, stamps events = [stamp] ∧ renames events = [] ∧ archive = stamp.name w.store.fileName ∧
      stamp.sequence = w.store.rotationSequence ∧ v.store.fileName = w.store.fileName ∧
      v.store.rotationSequence = u64 (w.store.rotationSequence + 1) := by
  rcases ran_fs .clockGettime run with ⟨time, fs, rest, _, next, rfl⟩
  cases time with
  | error =>
      rcases ran_log rfl next with ⟨_, last, rfl⟩
      rcases ran_pure last with ⟨rfl, rfl, rfl⟩
      exact Or.inl ⟨rfl, rfl, rfl, rfl, rfl⟩
  | ok sec nsec =>
      have last := ran_update (ran_members next)
      rcases ran_pure last with ⟨rfl, rfl, rfl⟩
      exact Or.inr ⟨⟨sec, nsec, w.store.rotationSequence⟩, rfl, rfl, rfl, rfl, rfl, rfl⟩

/-- The stamp, the rename, and nothing else. -/
theorem archiving_events {stamp : Stamp} {directoryFd : Int} {source target : String} {ok : Bool}
    (once : stamps first = [stamp]) (none : renames first = []) (idle : Idle u rest v) :
    stamps (first ++ ⟨w, .fs (.renameat directoryFd source target), ok⟩ :: rest) = [stamp] ∧
      targets (first ++ ⟨w, .fs (.renameat directoryFd source target), ok⟩ :: rest) = [target] := by
  constructor
  · rw [stamps_append, once]
    change [stamp] ++ stamps rest = _
    rw [idle.stamps]
    rfl
  · rw [targets_append, targets, none]
    change target :: (renames rest).map Prod.fst = _
    rw [idle.renames]
    rfl

theorem u64_next (n : Nat) : u64 (u64 n + 1) = u64 (n + 1) := Nat.mod_add_mod _ _ _

theorem rotate_named (start : Names name n w) (run : Ran rotate w events r v) :
    Named name n events v := by
  have run₀ := ran_members run
  split at run₀
  · exact Still.named start run₀ (.pure false)
  apply Named.check run₀ (fun done => sync_still.named start done)
  intro n events w₁ start₁ run₁
  apply Named.check run₁ (fun done => closeActiveFile_still.named start₁ done)
  intro n events w₂ start₂ run₂
  rcases Prog.Trace.bind_iff.mp run₂ with ⟨archive, w₃, first, last, named, run₃, rfl⟩
  rcases makeArchiveName_named named with ⟨rfl, idle⟩ | ⟨stamp, once, none, rfl, number, same, next⟩
  · have none : "".isEmpty = true := by decide
    rw [if_pos none] at run₃
    have before := idle.named start₂
    exact before.trans (Still.named before.names run₃ (.pure false))
  · have filled : (stamp.name w₂.store.fileName).isEmpty = false := archiveName_nonempty _ _ _ _
    simp only [filled, Bool.false_eq_true, if_false] at run₃
    rcases ran_fs (.renameat _ _ _) run₃ with ⟨ok, fs, tail, _, run₄, rfl⟩
    have idle : Idle { w₃ with fs := fs } tail v := by
      apply Still.idle run₄
      cases ok with
      | false => exact refuse_still rfl
      | true =>
          apply syncDirectory_still.check
          refine .update (fun _ => ?_) fun _ => ⟨rfl, rfl⟩
          exact openActiveFile_still.check ((log_still rfl).bind fun _ => .pure true)
    rcases archiving_events once none idle with ⟨stamped, targeted⟩
    constructor
    · rw [stamped, targeted, start₂.fileName]
      rfl
    · rw [stamped]
      change [stamp.sequence] = [u64 n]
      rw [number, start₂.next]
    · rw [stamped]
      constructor
      · exact idle.same.1.trans (same.trans start₂.fileName)
      · rw [idle.same.2]
        change w₃.store.rotationSequence = _
        rw [next, start₂.next, u64_next]
        rfl

theorem rotateIfFull_named (start : Names name n w) (run : Ran rotateIfFull w events r v) :
    Named name n events v := by
  have rest := ran_members run
  split at rest
  · exact rotate_named start rest
  · exact Still.named start rest (.pure true)

theorem appendChunk_named {frames : List UInt8} {offset : Nat} {next : Option Nat}
    (start : Names name n w) (run : Ran (appendChunk frames offset) w events next v) :
    Named name n events v := by
  apply Named.check run (fun done => rotateIfFull_named start done)
  intro n events w₁ start₁ run₁
  apply Still.named start₁ run₁
  apply syncIfDue_still.check
  apply members_still.bind
  intro m
  apply (writeAll_still _ _).check
  refine .update (fun _ => ?_) fun _ => ⟨rfl, rfl⟩
  exact syncIfDue_still.check (.pure _)

theorem appendFrames_named {frames : List UInt8} (start : Names name n w)
    (run : Ran (appendFrames frames) w events r v) : Named name n events v := by
  have run₀ := ran_members run
  split at run₀
  · exact Still.named start run₀ (.pure false)
  split at run₀
  · exact Still.named start run₀ (refuse_still rfl)
  apply Prog.Trace.iterate_induct (fun _ s seen => Named name n seen s)
    (Q := fun _ v seen => Named name n seen v) run₀ ((Idle.start w).named start)
  intro offset s seen events x t before pass
  rw [appendTurn] at pass
  split at pass
  · rcases Prog.Trace.bind_iff.mp pass with ⟨next, u, first, last, appended, tail, rfl⟩
    have after := before.trans (appendChunk_named before.names appended)
    cases next with
    | none =>
        rcases ran_pure tail with ⟨rfl, rfl, rfl⟩
        rw [List.append_nil]
        exact after
    | some m =>
        rcases ran_pure tail with ⟨rfl, rfl, rfl⟩
        rw [List.append_nil]
        exact after
  · rcases ran_pure pass with ⟨rfl, rfl, rfl⟩
    rw [List.append_nil]
    exact before

end

end TelemetryServer.Storage
