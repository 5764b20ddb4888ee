import TelemetryServer.Lib.Trace
import TelemetryServer.Storage.AppendSpec

namespace TelemetryServer.Storage

open Protocol Atomic

abbrev Ran {α : Type} (p : Proc α) (w : World) (events : List Happening) (a : α) (v : World) : Prop :=
  Prog.Trace World.exec p w events a v

section Steps

variable {α : Type} {w v : World} {events : List Happening} {a : α}

theorem ran_members_iff {k : FileStore → Proc α} :
    Ran (members >>= k) w events a v ↔ Ran (k w.store) w events a v :=
  Prog.Trace.act_iff

theorem ran_members {k : FileStore → Proc α} (run : Ran (members >>= k) w events a v) :
    Ran (k w.store) w events a v :=
  ran_members_iff.mp run

theorem ran_update {f : FileStore → FileStore} {k : Unit → Proc α}
    (run : Ran (update f >>= k) w events a v) :
    Ran (k ()) { w with store := f w.store } events a v :=
  Prog.Trace.act_iff.mp run

theorem ran_pure {b : α} (run : Ran (pure b : Proc α) w events a v) :
    events = [] ∧ a = b ∧ v = w :=
  Prog.Trace.pure_iff.mp run

theorem ran_log {line : Line} {k : Unit → Proc α} (plain : line.plain = true)
    (run : Ran (Proc.log line >>= k) w events a v) :
    ∃ rest, Ran (k ()) w rest a v ∧ events = ⟨w, .log line, ()⟩ :: rest := by
  rcases Prog.Trace.call_iff.mp run with ⟨_, u, rest, answer, next, same⟩
  rw [exec_log plain answer] at next
  exact ⟨rest, next, same⟩

theorem ran_fs (call : FsCall) {k : call.Resp → Proc α}
    (run : Ran ((Proc.call (.fs call) : Proc call.Resp) >>= k) w events a v) :
    ∃ r fs rest, call.exec w.fs r = some fs ∧ Ran (k r) { w with fs := fs } rest a v ∧
      events = ⟨w, .fs call, r⟩ :: rest := by
  rcases Prog.Trace.call_iff.mp run with ⟨r, u, rest, answer, next, same⟩
  rcases exec_fs answer with ⟨fs, done, rfl⟩
  exact ⟨r, fs, rest, done, next, same⟩

theorem ran_refuse {line : Line} {r : Bool} (plain : line.plain = true)
    (run : Ran (refuse line) w events r v) : r = false ∧ v = w := by
  rcases ran_log plain run with ⟨rest, next, _⟩
  exact (ran_pure next).2

/-- An operation whose failure ends the caller as well. -/
theorem ran_check {p : Proc Bool} {bad : α} {rest : Proc α}
    (run : Ran (p >>= fun ok => if (!ok) = true then pure bad else rest) w events a v) :
    (Ran p w events false v ∧ a = bad) ∨
    ∃ u first last, Ran p w first true u ∧ Ran rest u last a v ∧ events = first ++ last :=
  Prog.Trace.check_iff.mp run

/-- A sync call that only changes the directory where it succeeds. -/
theorem retrySync_outcome (call : FsCall) {answer : call.Resp → SyncResult} {message : String}
    {r : Bool} (failed : ∀ r fs, call.exec w.fs r = some fs → answer r ≠ .ok → fs = w.fs)
    (run : Ran (retrySync call answer message) w events r v) :
    (r = true ∧ ∃ r' fs, call.exec w.fs r' = some fs ∧ answer r' = .ok ∧ v = { w with fs := fs }) ∨
    (r = false ∧ v = w) := by
  apply Prog.Trace.iterate_induct (fun _ s _ => s = w) (Q := fun r v _ =>
    (r = true ∧ ∃ r' fs, call.exec w.fs r' = some fs ∧ answer r' = .ok ∧ v = { w with fs := fs }) ∨
    (r = false ∧ v = w)) run rfl
  rintro _ _ _ _ x t rfl pass
  rcases ran_fs call pass with ⟨r', fs, rest, done, next, _⟩
  cases status : answer r' with
  | ok =>
      rw [status] at next
      rcases ran_pure next with ⟨_, rfl, rfl⟩
      exact Or.inl ⟨rfl, r', fs, done, status, rfl⟩
  | eintr =>
      rw [status] at next
      rcases ran_pure next with ⟨_, rfl, rfl⟩
      rw [failed r' fs done (by simp [status])]
      rfl
  | error =>
      rw [status] at next
      rcases ran_log rfl next with ⟨_, last, _⟩
      rcases ran_pure last with ⟨_, rfl, rfl⟩
      exact Or.inr ⟨rfl, by rw [failed r' fs done (by simp [status])]⟩

end Steps

/-- The store has its active file open; `excess` bytes of the file are not counted. -/
structure Attached (w : World) (file : File) (excess : Nat) : Prop where
  valid : w.store.config.Valid
  fd : w.store.fd ≠ -1
  directory : w.store.directoryFd ≠ -1
  opened : w.fs.fds w.store.fd = some (.file w.store.fileName)
  entry : w.fs.entries w.store.fileName = some file
  size : file.data.length = w.store.currentSize + excess
  aligned : kFrameSize ∣ w.store.currentSize
  whole : kFrameSize ∣ w.store.unsyncedBytes
  written : w.store.unsyncedBytes ≤ w.store.currentSize

section Open

variable {w v : World} {file : File} {excess : Nat} {events : List Happening} {r : Bool}

theorem Attached.found (held : Attached w file excess) :
    w.fs.opened w.store.fd = some (w.store.fileName, file) := by
  simp [FileSystem.opened, held.opened, held.entry]

theorem sync_closed (closed : w.store.fd = -1) (run : Ran sync w events r v) :
    r = false ∧ v = w ∧ events = [] := by
  have rest := ran_members run
  simp only [closed, if_true] at rest
  rcases ran_pure rest with ⟨none, answer, same⟩
  exact ⟨answer, same, none⟩

theorem sync_outcome (held : Attached w file excess) (run : Ran sync w events r v) :
    ∃ file', Attached v file' excess ∧ file'.data = file.data ∧
      v.store = { w.store with unsyncedBytes := if r then 0 else w.store.unsyncedBytes } := by
  have rest := ran_members run
  simp only [held.fd, if_false] at rest
  rcases Prog.Trace.bind_iff.mp rest with ⟨ok, u, first, last, done, next, _⟩
  have outcome : ∀ r fs, FsCall.exec (.fdatasync w.store.fd) w.fs r = some fs →
      (r = .ok ∧ fs = w.fs.setFile w.store.fileName { file with unsynced := 0 }) ∨
      (r ≠ .ok ∧ fs = w.fs) := by
    intro r fs answer
    cases r <;> simp_all [FsCall.exec, held.found]
  rcases retrySync_outcome (.fdatasync w.store.fd) (fun r fs answer wrong => by
    rcases outcome r fs answer with ⟨yes, _⟩ | ⟨_, same⟩
    · exact absurd yes wrong
    · exact same) done with ⟨rfl, r', fs, answer, yes, rfl⟩ | ⟨rfl, rfl⟩
  · rw [if_pos rfl] at next
    have after := ran_update next
    rcases ran_pure after with ⟨_, rfl, rfl⟩
    rcases outcome r' fs answer with ⟨_, rfl⟩ | ⟨wrong, _⟩
    · refine ⟨{ file with unsynced := 0 }, ⟨held.valid, held.fd, held.directory, held.opened,
        Function.update_self _ _ _, held.size, held.aligned, Nat.dvd_zero _, Nat.zero_le _⟩, rfl, rfl⟩
    · exact absurd yes wrong
  · rcases ran_pure next with ⟨_, rfl, rfl⟩
    exact ⟨file, held, rfl, rfl⟩

theorem syncDirectory_outcome (run : Ran syncDirectory w events r v) : v = w := by
  have rest := ran_members run
  split at rest
  · exact (ran_pure rest).2.2
  · have outcome : ∀ r fs, FsCall.exec (.fsync w.store.directoryFd) w.fs r = some fs → fs = w.fs :=
      fun r fs answer => (Option.some.inj answer).symm
    rcases retrySync_outcome (.fsync w.store.directoryFd) (fun r fs answer _ => outcome r fs answer)
      rest with ⟨_, r', fs, answer, _, same⟩ | ⟨_, same⟩
    · rw [same, outcome r' fs answer]
    · exact same

structure Opening (w : World) (file : File) : Prop extends Attached w file file.data.length where
  uncounted : w.store.currentSize = 0

theorem Opening.unsynced (held : Opening w file) : w.store.unsyncedBytes = 0 := by
  have bound := held.written
  rw [held.uncounted] at bound
  exact Nat.le_zero.mp bound

theorem truncatePartialTail_outcome (held : Opening w file)
    (run : Ran (truncatePartialTail w.store.fd file.data.length) w events r v) :
    ∃ file', Opening v file' ∧ v.store = w.store ∧ file'.data.length ≤ file.data.length ∧
      (r = true → file'.data.length = file.data.length - file.data.length % kFrameSize) := by
  rw [truncatePartialTail] at run
  by_cases whole : file.data.length % kFrameSize = 0
  · simp only [whole, ne_eq, not_true_eq_false, if_false] at run
    rcases ran_pure run with ⟨_, _, rfl⟩
    exact ⟨file, held, rfl, le_rfl, fun _ => by rw [whole, Nat.sub_zero]⟩
  · simp only [whole, ne_eq, not_false_eq_true, if_true] at run
    rcases ran_log rfl run with ⟨_, next, _⟩
    rcases ran_fs (.ftruncate _ _) next with ⟨ok, fs, _, done, last, _⟩
    cases ok with
    | false =>
        rcases ran_refuse rfl last with ⟨rfl, rfl⟩
        rw [← Option.some.inj done]
        exact ⟨file, held, rfl, le_rfl, fun wrong => absurd wrong (by simp)⟩
    | true =>
        simp only [FsCall.exec, held.found, Option.some.injEq] at done
        subst done
        have shorter : Opening { w with fs := w.fs.setFile w.store.fileName { file with
            data := file.data.take (file.data.length - file.data.length % kFrameSize) } }
            { file with data := file.data.take (file.data.length - file.data.length % kFrameSize) } := by
          refine ⟨⟨held.valid, held.fd, held.directory, held.opened, Function.update_self _ _ _, ?_,
            held.aligned, held.whole, held.written⟩, held.uncounted⟩
          rw [held.uncounted, Nat.zero_add]
        rcases sync_outcome shorter.toAttached last with ⟨file', after, data, store⟩
        have length : file'.data.length = file.data.length - file.data.length % kFrameSize := by
          rw [data, List.length_take]
          omega
        have same : v.store = w.store := by
          rw [store]
          have counted := held.unsynced
          cases stored : w.store with
          | mk =>
              rw [stored] at counted
              cases r <;> simp_all
        refine ⟨file', ⟨?_, by rw [same, held.uncounted]⟩, same, by omega, fun _ => length⟩
        rw [data]
        exact after

theorem fstat_cases {r : StatResult} {fs : FileSystem} (held : Attached w file excess)
    (done : FsCall.exec (.fstat w.store.fd) w.fs r = some fs) :
    fs = w.fs ∧ ∀ size regular, r = .ok size regular → size = file.data.length := by
  cases r with
  | error => exact ⟨(Option.some.inj done).symm, fun _ _ wrong => by cases wrong⟩
  | ok size regular =>
      simp only [FsCall.exec, held.found] at done
      split at done
      · next facts =>
          refine ⟨(Option.some.inj done).symm, ?_⟩
          intro size' regular' equal
          cases equal
          exact facts.1.symm
      · cases done

/-- Where an attempt to open the active file can lead: the counters are right if it
succeeds, and a file that is empty is counted right in any case. -/
structure Reattached (w v : World) (r : Bool) : Prop where
  config : v.store.config = w.store.config
  directoryFd : v.store.directoryFd = w.store.directoryFd
  fileName : v.store.fileName = w.store.fileName
  fate : (r = false ∧ v.store.fd = -1) ∨ ∃ file excess, Attached v file excess ∧
    (r = true → excess = 0) ∧ (w.fs.entries w.store.fileName = none → file.data = []) ∧
    v.store.unsyncedBytes = 0

theorem recoverPartialFrame_outcome (held : Opening w file)
    (run : Ran recoverPartialFrame w events r v) :
    ∃ file' excess currentSize, Attached v file' excess ∧ (r = true → excess = 0) ∧
      file'.data.length ≤ file.data.length ∧ v.store = { w.store with currentSize := currentSize } := by
  have kept : v.store = w.store → v.store = { w.store with currentSize := w.store.currentSize } := id
  rcases ran_fs (.fstat _) (ran_members run) with ⟨status, fs, _, done, next, _⟩
  rcases fstat_cases held.toAttached done with ⟨rfl, facts⟩
  cases status with
  | error =>
      rcases ran_refuse rfl next with ⟨rfl, rfl⟩
      exact ⟨file, _, _, held.toAttached, fun wrong => absurd wrong (by simp), le_rfl, kept rfl⟩
  | ok size regular =>
      have length := facts size regular rfl
      subst length
      cases regular with
      | false =>
          rcases ran_refuse rfl next with ⟨rfl, rfl⟩
          exact ⟨file, _, _, held.toAttached, fun wrong => absurd wrong (by simp), le_rfl, kept rfl⟩
      | true =>
          rcases ran_check next with ⟨failed, rfl⟩ | ⟨u, _, _, cut, last, _⟩
          · rcases truncatePartialTail_outcome held failed with ⟨file', after, same, shorter, _⟩
            exact ⟨file', _, _, after.toAttached, fun wrong => absurd wrong (by simp), shorter, kept same⟩
          · rcases truncatePartialTail_outcome held cut with ⟨file', after, same, shorter, exact⟩
            have length := exact rfl
            have counted := ran_update last
            rcases ran_pure counted with ⟨_, rfl, rfl⟩
            refine ⟨file', 0, file.data.length - file.data.length % kFrameSize, ⟨after.valid, after.fd,
              after.directory, after.opened, after.entry, length, ?_, after.whole, ?_⟩, fun _ => rfl,
              shorter, by rw [same]⟩
            · simp only [kFrameSize]
              omega
            · rw [after.unsynced]
              exact Nat.zero_le _

structure Prepared (w : World) : Prop where
  valid : w.store.config.Valid
  directory : w.store.directoryFd ≠ -1
  uncounted : w.store.currentSize = 0
  unsynced : w.store.unsyncedBytes = 0

theorem Prepared.opened (prepared : Prepared w) {fs : FileSystem} {fd : Int} (valid : 0 ≤ fd)
    (entry : fs.entries w.store.fileName = some file) :
    Opening { w with
      fs := fs.openAs fd (.file w.store.fileName)
      store := { w.store with fd := fd } } file := by
  refine ⟨⟨prepared.valid, ?_, prepared.directory, Function.update_self _ _ _, entry, ?_, ?_, ?_, ?_⟩,
    prepared.uncounted⟩
  · change fd ≠ -1
    omega
  · change _ = w.store.currentSize + _
    rw [prepared.uncounted, Nat.zero_add]
  · change _ ∣ w.store.currentSize
    rw [prepared.uncounted]
    exact Nat.dvd_zero _
  · change _ ∣ w.store.unsyncedBytes
    rw [prepared.unsynced]
    exact Nat.dvd_zero _
  · change w.store.unsyncedBytes ≤ _
    rw [prepared.unsynced]
    exact Nat.zero_le _

theorem openAppend_outcome {created : Option Bool} (prepared : Prepared w)
    (run : Ran openAppend w events created v) :
    (created = none ∧ v.store = { w.store with fd := -1 }) ∨
    (created.isSome ∧ ∃ file fd, Opening v file ∧ v.store = { w.store with fd := fd } ∧
      (w.fs.entries w.store.fileName = none → file.data = [])) := by
  rcases ran_fs (.openCreate _ _) (ran_members run) with ⟨answer, fs, _, done, next, _⟩
  rcases openCreate_cases done with ⟨fd, rfl, valid, none, rfl⟩ | ⟨rfl, rfl⟩ | ⟨rfl, rfl⟩
  · have stored := ran_update next
    rcases ran_pure stored with ⟨_, rfl, rfl⟩
    exact Or.inr ⟨rfl, {}, fd, prepared.opened valid (Function.update_self _ _ _), rfl, fun _ => rfl⟩
  · rcases ran_fs (.openExisting _ _) next with ⟨again, fs, _, done', next', _⟩
    rcases openExisting_cases done' with ⟨fd, file, rfl, valid, entry, rfl⟩ | ⟨refused, rfl⟩
    · have stored := ran_update next'
      rcases ran_pure stored with ⟨_, rfl, rfl⟩
      refine Or.inr ⟨rfl, file, fd, prepared.opened valid entry, rfl, ?_⟩
      intro missing
      rw [missing] at entry
      cases entry
    · cases again with
      | ok fd => exact absurd rfl (refused fd)
      | eexist =>
          rcases ran_log rfl (ran_update next') with ⟨_, last, _⟩
          rcases ran_pure last with ⟨_, rfl, rfl⟩
          exact Or.inl ⟨rfl, rfl⟩
      | error =>
          rcases ran_log rfl (ran_update next') with ⟨_, last, _⟩
          rcases ran_pure last with ⟨_, rfl, rfl⟩
          exact Or.inl ⟨rfl, rfl⟩
  · rcases ran_log rfl (ran_update next) with ⟨_, last, _⟩
    rcases ran_pure last with ⟨_, rfl, rfl⟩
    exact Or.inl ⟨rfl, rfl⟩

theorem openActiveFile_outcome (prepared : Prepared w) (run : Ran openActiveFile w events r v) :
    Reattached w v r := by
  rcases Prog.Trace.bind_iff.mp run with ⟨created, u, _, _, opening, next, _⟩
  rcases openAppend_outcome prepared opening with ⟨rfl, store⟩ | ⟨some, file, fd, held, store, empty⟩
  · rcases ran_pure next with ⟨_, rfl, rfl⟩
    exact ⟨by rw [store], by rw [store], by rw [store], Or.inl ⟨rfl, by rw [store]⟩⟩
  have recovers : ∀ {events r v}, Ran recoverPartialFrame u events r v → Reattached w v r := by
    intro events r v recovery
    rcases recoverPartialFrame_outcome held recovery with
      ⟨file', excess, size, after, right, shorter, stored⟩
    rw [store] at stored
    refine ⟨by rw [stored], by rw [stored], by rw [stored], Or.inr ⟨file', excess, after, right, ?_, ?_⟩⟩
    · intro missing
      rw [empty missing] at shorter
      exact List.eq_nil_of_length_eq_zero (Nat.le_zero.mp shorter)
    · rw [stored]
      exact prepared.unsynced
  rcases Option.isSome_iff_exists.mp some with ⟨fresh, rfl⟩
  cases fresh with
  | false => exact recovers next
  | true =>
      rcases Prog.Trace.bind_iff.mp next with ⟨ok, x, _, _, synced, last, _⟩
      rw [syncDirectory_outcome synced] at last
      cases ok with
      | true => exact recovers last
      | false =>
          rcases ran_pure last with ⟨_, rfl, rfl⟩
          refine ⟨by rw [store], by rw [store], by rw [store],
            Or.inr ⟨file, _, held.toAttached, fun wrong => absurd wrong (by simp), empty, held.unsynced⟩⟩

theorem closeActiveFile_outcome (held : Attached w file excess)
    (run : Ran closeActiveFile w events r v) :
    v.store = { w.store with fd := -1 } ∧ v.fs.entries = w.fs.entries := by
  have rest := ran_members run
  simp only [held.fd, if_false] at rest
  rcases ran_fs (.close _) (ran_update rest) with ⟨ok, fs, _, done, next, _⟩
  have same := Option.some.inj done
  subst same
  cases ok with
  | true =>
      rcases ran_pure next with ⟨_, _, rfl⟩
      exact ⟨rfl, rfl⟩
  | false =>
      rcases ran_refuse rfl next with ⟨_, rfl⟩
      exact ⟨rfl, rfl⟩

theorem makeArchiveName_outcome {archive : String} (run : Ran makeArchiveName w events archive v) :
    v.fs = w.fs ∧ ∃ sequence, v.store = { w.store with rotationSequence := sequence } ∧
      (archive.isEmpty = false → archive ≠ w.store.fileName) := by
  rcases ran_fs .clockGettime run with ⟨time, fs, _, done, next, _⟩
  have same := clock_same done
  subst same
  cases time with
  | error =>
      rcases ran_log rfl next with ⟨_, last, _⟩
      rcases ran_pure last with ⟨_, rfl, rfl⟩
      exact ⟨rfl, w.store.rotationSequence, rfl, fun wrong => absurd wrong (by decide)⟩
  | ok sec nsec =>
      have named := ran_update (ran_members next)
      rcases ran_pure named with ⟨_, rfl, rfl⟩
      exact ⟨rfl, _, rfl, fun _ => archiveName_ne _ _ _ _⟩

end Open

def Unwriting : Call → Prop
  | .fs (.write _ _) => False
  | .fs _ => True
  | .log _ => True
  | _ => False

def Quiet : Call → Prop
  | .fs (.renameat _ _ _) => False
  | call => Unwriting call

theorem Quiet.unwriting (call : Call) (quiet : Quiet call) : Unwriting call := by
  cases call with
  | fs call =>
      cases call with
      | renameat directoryFd source target => trivial
      | _ => exact quiet
  | _ => exact quiet

section Quiet

open Prog (Within)

theorem refuse_quiet (line : Line) : Within Quiet (refuse line) := ⟨trivial, fun _ => trivial⟩

theorem check_within {α : Type} {P : Call → Prop} {p : Proc Bool} {bad : α} {rest : Proc α}
    (first : Within P p) (next : Within P rest) :
    Within P (p >>= fun ok => if (!ok) = true then pure bad else rest) := by
  apply first.bind
  intro ok
  cases ok with
  | false => trivial
  | true => exact next

theorem retrySync_quiet (call : FsCall) {answer : call.Resp → SyncResult} {message : String}
    (quiet : Quiet (.fs call)) : Within Quiet (retrySync call answer message) := by
  apply Within.iterate
  intro _
  have called : Within Quiet (Proc.call (.fs call) : Proc call.Resp) := ⟨quiet, fun _ => trivial⟩
  apply called.bind
  intro r
  cases answer r with
  | ok => trivial
  | eintr => trivial
  | error => exact ⟨trivial, fun _ => trivial⟩

theorem sync_quiet : Within Quiet sync := by
  intro m
  change Within Quiet (if m.fd = -1 then _ else _)
  split
  · trivial
  · apply (retrySync_quiet (.fdatasync m.fd) trivial).bind
    intro ok
    cases ok with
    | true => exact fun _ => trivial
    | false => trivial

theorem syncDirectory_quiet : Within Quiet syncDirectory := by
  intro m
  change Within Quiet (if m.directoryFd = -1 then _ else _)
  split
  · trivial
  · exact retrySync_quiet (.fsync m.directoryFd) trivial

theorem truncatePartialTail_quiet (fd : Int) (size : Nat) : Within Quiet (truncatePartialTail fd size) := by
  rw [truncatePartialTail]
  split
  · refine ⟨trivial, fun _ => ⟨trivial, fun ok => ?_⟩⟩
    cases ok with
    | true => exact sync_quiet
    | false => exact refuse_quiet _
  · trivial

theorem recoverPartialFrame_quiet : Within Quiet recoverPartialFrame := by
  intro m
  refine ⟨trivial, fun status => ?_⟩
  cases status with
  | error => exact refuse_quiet _
  | ok size regular =>
      cases regular with
      | false => exact refuse_quiet _
      | true =>
          apply check_within (truncatePartialTail_quiet _ _)
          exact fun _ => trivial

theorem openAppend_quiet : Within Quiet openAppend := by
  intro m
  refine ⟨trivial, fun created => ?_⟩
  cases created with
  | ok fd => exact fun _ => trivial
  | error => exact fun _ => ⟨trivial, fun _ => trivial⟩
  | eexist =>
      refine ⟨trivial, fun existing => ?_⟩
      cases existing with
      | ok fd => exact fun _ => trivial
      | eexist => exact fun _ => ⟨trivial, fun _ => trivial⟩
      | error => exact fun _ => ⟨trivial, fun _ => trivial⟩

theorem openActiveFile_quiet : Within Quiet openActiveFile := by
  apply openAppend_quiet.bind
  intro opened
  cases opened with
  | none => trivial
  | some created =>
      cases created with
      | false => exact recoverPartialFrame_quiet
      | true =>
          apply syncDirectory_quiet.bind
          intro ok
          cases ok with
          | true => exact recoverPartialFrame_quiet
          | false => trivial

theorem closeActiveFile_quiet : Within Quiet closeActiveFile := by
  intro m
  change Within Quiet (if m.fd = -1 then _ else _)
  split
  · trivial
  · refine fun _ => ⟨trivial, fun ok => ?_⟩
    cases ok with
    | true => trivial
    | false => exact refuse_quiet _

theorem makeArchiveName_quiet : Within Quiet makeArchiveName := by
  refine ⟨trivial, fun time => ?_⟩
  cases time with
  | error => exact ⟨trivial, fun _ => trivial⟩
  | ok sec nsec => exact fun _ _ => trivial

theorem rotate_unwriting : Within Unwriting rotate := by
  intro m
  change Within Unwriting (if m.fd = -1 then _ else _)
  split
  · trivial
  apply check_within (sync_quiet.mono Quiet.unwriting)
  apply check_within (closeActiveFile_quiet.mono Quiet.unwriting)
  apply (makeArchiveName_quiet.mono Quiet.unwriting).bind
  intro archive
  split
  · trivial
  refine ⟨trivial, fun ok => ?_⟩
  cases ok with
  | false => exact (refuse_quiet _).mono Quiet.unwriting
  | true =>
      apply check_within (syncDirectory_quiet.mono Quiet.unwriting)
      intro _
      apply check_within (openActiveFile_quiet.mono Quiet.unwriting)
      exact ⟨trivial, fun _ => trivial⟩

end Quiet

/-- A call on the directory that has done what it was asked for; one that was interrupted
is repeated, and a file that exists need not be created. -/
def Granted : Happening → Prop
  | ⟨_, .fs (.openDirectory _), r⟩ => ∃ fd, r = .ok fd
  | ⟨_, .fs (.openCreate _ _), r⟩ => r ≠ .error
  | ⟨_, .fs (.openExisting _ _), r⟩ => ∃ fd, r = .ok fd
  | ⟨_, .fs (.fstat _), r⟩ => ∃ size, r = .ok size true
  | ⟨_, .fs (.ftruncate _ _), r⟩ => r = true
  | ⟨_, .fs (.write _ _), r⟩ => r ≠ .error ∧ r ≠ .written 0
  | ⟨_, .fs (.fdatasync _), r⟩ => r ≠ .error
  | ⟨_, .fs (.fsync _), r⟩ => r ≠ .error
  | ⟨_, .fs (.close _), r⟩ => r = true
  | ⟨_, .fs (.renameat _ _ _), r⟩ => r = true
  | ⟨_, .fs .clockGettime, r⟩ => r ≠ .error
  | _ => True

section Granted

variable {w v : World} {file : File} {excess : Nat} {events : List Happening} {r : Bool}

theorem granted_append {first rest : List Happening} :
    (∀ event ∈ first ++ rest, Granted event) ↔
      (∀ event ∈ first, Granted event) ∧ ∀ event ∈ rest, Granted event :=
  List.forall_mem_append

theorem granted_cons {event : Happening} {rest : List Happening} :
    (∀ e ∈ event :: rest, Granted e) ↔ Granted event ∧ ∀ e ∈ rest, Granted e :=
  List.forall_mem_cons

theorem retrySync_granted (call : FsCall) {answer : call.Resp → SyncResult} {message : String}
    (failing : ∀ s r, Granted ⟨s, .fs call, r⟩ → answer r ≠ .error)
    (run : Ran (retrySync call answer message) w events r v)
    (granted : ∀ event ∈ events, Granted event) : r = true := by
  apply Prog.Trace.iterate_induct (fun _ _ _ => True) (Q := fun r _ seen =>
    (∀ event ∈ seen, Granted event) → r = true) run trivial _ granted
  intro _ s seen events x t _ pass
  rcases ran_fs call pass with ⟨r', fs, rest, done, next, rfl⟩
  cases status : answer r' with
  | ok =>
      rw [status] at next
      rcases ran_pure next with ⟨_, rfl, _⟩
      exact fun _ => rfl
  | eintr =>
      rw [status] at next
      rcases ran_pure next with ⟨_, rfl, _⟩
      trivial
  | error =>
      rw [status] at next
      rcases ran_log rfl next with ⟨_, last, _⟩
      rcases ran_pure last with ⟨_, rfl, _⟩
      intro all
      exact absurd status (failing s r' (all _ (by simp)))

theorem sync_granted (opened : w.store.fd ≠ -1) (run : Ran sync w events r v)
    (granted : ∀ event ∈ events, Granted event) : r = true := by
  have rest := ran_members run
  simp only [opened, if_false] at rest
  rcases Prog.Trace.bind_iff.mp rest with ⟨ok, u, first, last, done, next, rfl⟩
  have yes := retrySync_granted (.fdatasync w.store.fd) (fun _ _ fine => fine) done
    (granted_append.mp granted).1
  subst yes
  rw [if_pos rfl] at next
  have counted := ran_update next
  exact (ran_pure counted).2.1

theorem syncDirectory_granted (opened : w.store.directoryFd ≠ -1) (run : Ran syncDirectory w events r v)
    (granted : ∀ event ∈ events, Granted event) : r = true := by
  have rest := ran_members run
  simp only [opened, if_false] at rest
  exact retrySync_granted (.fsync w.store.directoryFd) (fun _ _ fine => fine) rest granted

theorem truncatePartialTail_granted {fd : Int} {size : Nat} (opened : w.store.fd ≠ -1)
    (run : Ran (truncatePartialTail fd size) w events r v)
    (granted : ∀ event ∈ events, Granted event) : r = true := by
  rw [truncatePartialTail] at run
  split at run
  · rcases ran_log rfl run with ⟨rest, next, rfl⟩
    rcases ran_fs (.ftruncate _ _) next with ⟨ok, fs, tail, done, last, rfl⟩
    rcases granted_cons.mp (granted_cons.mp granted).2 with ⟨yes, later⟩
    have true' : ok = true := yes
    subst true'
    rw [if_pos rfl] at last
    refine sync_granted ?_ last later
    exact opened
  · exact (ran_pure run).2.1

theorem recoverPartialFrame_granted (opened : w.store.fd ≠ -1)
    (run : Ran recoverPartialFrame w events r v) (granted : ∀ event ∈ events, Granted event) :
    r = true := by
  rcases ran_fs (.fstat _) (ran_members run) with ⟨status, fs, rest, done, next, rfl⟩
  rcases granted_cons.mp granted with ⟨⟨size, rfl⟩, later⟩
  rcases ran_check next with ⟨failed, rfl⟩ | ⟨u, first, tail, cut, last, rfl⟩
  · refine truncatePartialTail_granted ?_ failed later
    exact opened
  · have counted := ran_update last
    exact (ran_pure counted).2.1

theorem openAppend_granted {created : Option Bool} (run : Ran openAppend w events created v)
    (granted : ∀ event ∈ events, Granted event) : created.isSome = true := by
  rcases ran_fs (.openCreate _ _) (ran_members run) with ⟨answer, fs, rest, done, next, rfl⟩
  rcases granted_cons.mp granted with ⟨fine, later⟩
  cases answer with
  | error => exact absurd rfl fine
  | ok fd =>
      have stored := ran_update next
      rw [(ran_pure stored).2.1]
      rfl
  | eexist =>
      rcases ran_fs (.openExisting _ _) next with ⟨again, fs', rest', done', next', rfl⟩
      rcases granted_cons.mp later with ⟨⟨fd, rfl⟩, _⟩
      have stored := ran_update next'
      rw [(ran_pure stored).2.1]
      rfl

theorem openActiveFile_granted (prepared : Prepared w) (run : Ran openActiveFile w events r v)
    (granted : ∀ event ∈ events, Granted event) : r = true := by
  rcases Prog.Trace.bind_iff.mp run with ⟨created, u, first, last, opening, next, rfl⟩
  rcases granted_append.mp granted with ⟨grantedFirst, grantedLast⟩
  have some := openAppend_granted opening grantedFirst
  rcases openAppend_outcome prepared opening with ⟨rfl, _⟩ | ⟨_, file, fd, held, store, _⟩
  · cases some
  rcases Option.isSome_iff_exists.mp some with ⟨fresh, rfl⟩
  cases fresh with
  | false => exact recoverPartialFrame_granted held.fd next grantedLast
  | true =>
      rcases Prog.Trace.bind_iff.mp next with ⟨ok, x, second, third, synced, tail, rfl⟩
      rcases granted_append.mp grantedLast with ⟨grantedSecond, grantedThird⟩
      have yes := syncDirectory_granted held.directory synced grantedSecond
      subst yes
      rw [syncDirectory_outcome synced] at tail
      exact recoverPartialFrame_granted held.fd tail grantedThird

end Granted

end TelemetryServer.Storage
