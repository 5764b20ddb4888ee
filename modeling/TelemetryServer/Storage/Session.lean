import TelemetryServer.Calm
import TelemetryServer.Storage.AppendSpec

namespace TelemetryServer.Storage

open Protocol Atomic Segmented

inductive StoreCommand
  | appendFrames (batch : List UInt8)
  | appendFrame (frame : List UInt8)
  | sync

def StoreCommand.data : StoreCommand → List UInt8
  | .appendFrames batch => batch
  | .appendFrame frame => frame
  | .sync => []

/-- An append, noting that it starts and that it has returned true. -/
def noted (batch : List UInt8) (append : Proc Bool) : Proc Bool := do
  Proc.point (.appending batch)
  if ← append then
    Proc.point (.appended batch)
    return true
  else
    return false

def StoreCommand.run : StoreCommand → Proc Bool
  | .appendFrames batch => noted batch (Storage.appendFrames batch)
  | .appendFrame frame => noted frame (Storage.appendFrame frame)
  | .sync => Storage.sync

def runCommands : List StoreCommand → Proc Bool
  | [] => return true
  | command :: rest => do
      if !(← command.run) then return false
      runCommands rest

def session (path : String) (commands : List StoreCommand) : Proc Bool := do
  if !(← openFile path) then return false
  runCommands commands

def commandData (commands : List StoreCommand) : List UInt8 :=
  (commands.map StoreCommand.data).flatten

structure Fresh (config : FileStoreConfig) (w : World) : Prop where
  store : w.store = { config := config }
  archives : w.fs.archives = []
  replaced : w.fs.replaced = false
  unsynced : ∀ name file, w.fs.entries name = some file → file.unsynced = 0
  offered : w.past.offered = []
  appended : w.past.appended = []

/-- What a kill may leave behind: the file as it was, or the recovered file followed by a
part of what was offered that has all that was acknowledged. -/
def Consistent (name : String) (initial : List UInt8) (w : World) : Prop :=
  (w.fs.archives = [] ∧ w.fs.data name = initial ∧ w.past.appended = []) ∨
  ∃ part, w.past.appended <+: part ∧ part <+: w.past.offered ∧
    w.fs.log name = Blocks.cut kFrameSize initial ++ part

structure CrashInv (name : String) (initial : List UInt8) (w : World) : Prop where
  consistent : w.fs.replaced = false → Consistent name initial w
  aligned : w.fs.replaced = false → ∀ a ∈ (w.fs.view name).archived, kFrameSize ∣ a.length
  whole : kFrameSize ∣ w.past.appended.length
  kept : w.fs.Kept name

/-- What holds between any two steps of a session. -/
structure SessionInv (config : FileStoreConfig) (name : String) (initial : List UInt8) (w : World) :
    Prop extends CrashInv name initial w where
  shape : w.fs.replaced = false →
    (w.fs.archives = [] ∧ w.fs.data name = initial) ∨
    Shape config.maxSegmentBytes (Blocks.cut kFrameSize initial) (w.fs.view name)
  unsynced : config.syncEveryBytes ≠ 0 → ∀ file, w.fs.entries name = some file →
    file.unsynced ≤ roundUp config.syncEveryBytes

/-- Renames wait for the sync of the renamed file. -/
def storePre : Call → World → Prop
  | .fs call, w => Ready w.fs call
  | _, _ => True

def sessionLogic (inv : World → Prop) : Logic where
  inv := inv
  rely := fun w v => v = w
  guar := fun _ _ => True
  pre := storePre
  rely_refl := fun _ => rfl
  rely_trans := fun first second => second.trans first
  rely_inv := fun move keep => move ▸ keep
  guar_refl := fun _ => trivial

/-- An invariant of the directory and the history grants all a store needs. -/
theorem sessionLogic_stores {inv : World → Prop} {F : World → Prop}
    (members : ∀ {w} store, inv w → inv { w with store := store })
    (framed : ∀ {w} fs store, F w → F { w with fs := fs, store := store }) :
    Stores (sessionLogic inv) (fun w fs => inv { w with fs := fs }) F where
  own := by
    intro w v same
    subst same
    exact ⟨rfl, rfl⟩
  member := fun store keep => ⟨members store keep, trivial⟩
  file := fun _ keep => ⟨keep, trivial⟩
  call := fun _ _ ready => ready
  line := fun _ _ _ => trivial
  stable := by
    intro w v same frame
    subst same
    exact frame
  framed := framed

section

variable {config : FileStoreConfig} {name : String} {initial : List UInt8} {w : World}

theorem SessionInv.members (store : FileStore) (keep : SessionInv config name initial w) :
    SessionInv config name initial { w with store := store } :=
  ⟨⟨keep.consistent, keep.aligned, keep.whole, keep.kept⟩, keep.shape, keep.unsynced⟩

/-- The history a moment of an append is seen with: `done` is acknowledged, `batch` is on
its way. -/
structure Appending (done batch : List UInt8) (w : World) : Prop where
  appended : w.past.appended = done
  offered : w.past.offered = done ++ batch
  whole : kFrameSize ∣ done.length

theorem Moment.sessionInv {done batch part : List UInt8} {fs : FileSystem} (valid : config.Valid)
    (frame : Appending done batch w) (inside : part <+: batch)
    (moment : Moment config name (Blocks.cut kFrameSize initial)
      (Blocks.cut kFrameSize initial ++ done ++ part) fs) :
    SessionInv config name initial { w with fs := fs } := by
  have distinct := moment.kept.distinct
  have archived : fs.replaced = false → ∀ a ∈ (fs.view name).archived, kFrameSize ∣ a.length :=
    fun unique =>
      (moment.shape (distinct unique)).archived_dvd valid.whole (Blocks.dvd_cut_length _ _)
  refine ⟨⟨?_, archived, ?_, moment.kept⟩, fun unique => Or.inr (moment.shape (distinct unique)),
    moment.unsynced⟩
  · intro unique
    right
    refine ⟨done ++ part, ?_, ?_, ?_⟩
    · rw [frame.appended]
      exact List.prefix_append _ _
    · rw [frame.offered]
      exact (List.prefix_append_right_inj done).mpr inside
    · rw [← List.append_assoc]
      exact moment.total (distinct unique)
  · rw [frame.appended]
    exact frame.whole

theorem Fresh.sessionInv (fresh : Fresh config w) :
    SessionInv config name (w.fs.data name) w := by
  refine ⟨⟨fun _ => Or.inl ⟨fresh.archives, rfl, fresh.appended⟩, ?_, ?_, .of_none fresh.archives⟩,
    fun _ => Or.inl ⟨fresh.archives, rfl⟩, ?_⟩
  · intro _ a member
    rw [FileSystem.view, fresh.archives] at member
    exact absurd member List.not_mem_nil
  · rw [fresh.appended]
    exact Nat.dvd_zero _
  · intro _ file entry
    rw [fresh.unsynced name file entry]
    exact Nat.zero_le _

/-- The first recovery finds an old file and no archives. -/
theorem Fresh.reopening {fs : FileSystem} {v : World} (fresh : Fresh config w)
    (reopening : Reopening w.fs name fs) (past : v.past = w.past) :
    SessionInv config name (w.fs.data name) { v with fs := fs } := by
  have none : fs.archives = [] := reopening.archives.trans fresh.archives
  have view : fs.view name = { active := fs.data name } := by
    rw [FileSystem.view, none]
    rfl
  refine ⟨⟨fun _ => ?_, ?_, ?_, .of_none none⟩, fun _ => ?_, ?_⟩
  · rcases reopening.data with same | cut
    · exact Or.inl ⟨none, same, by rw [past]; exact fresh.appended⟩
    · refine Or.inr ⟨[], ?_, List.nil_prefix, ?_⟩
      · simp [past, fresh.appended]
      · change fs.log name = _
        rw [FileSystem.log, view, cut, List.append_nil]
        rfl
  · intro _ a member
    rw [show World.fs _ = fs from rfl, view] at member
    exact absurd member List.not_mem_nil
  · rw [past, fresh.appended]
    exact Nat.dvd_zero _
  · rcases reopening.data with same | cut
    · exact Or.inl ⟨none, same⟩
    · right
      change Shape _ _ (fs.view name)
      rw [view, cut]
      exact Shape.initial
  · intro _ file entry
    rw [reopening.unsynced file entry]
    exact Nat.zero_le _

structure Settled (config : FileStoreConfig) (name : String) (initial done : List UInt8) (w : World) :
    Prop where
  valid : config.Valid
  due : Due config w
  standing : Standing (Appending done []) config name (Blocks.cut kFrameSize initial)
    (Blocks.cut kFrameSize initial ++ done) w

theorem SessionInv.stores {F : World → Prop}
    (framed : ∀ {w} fs store, F w → F { w with fs := fs, store := store }) :
    Stores (sessionLogic (SessionInv config name initial))
      (fun w fs => SessionInv config name initial { w with fs := fs }) F :=
  sessionLogic_stores (fun store keep => keep.members store) framed

theorem Appending.stores (done batch : List UInt8) :
    Stores (sessionLogic (SessionInv config name initial))
      (fun w fs => SessionInv config name initial { w with fs := fs }) (Appending done batch) :=
  SessionInv.stores (fun _ _ frame => ⟨frame.appended, frame.offered, frame.whole⟩)

theorem point_rule {α : Type} {p : Point} {k : Unit → Proc α} {Q : α → World → Prop}
    {inv : World → Prop} (after : inv (w.passing p))
    (rest : (sessionLogic inv).wp (k ()) Q (w.passing p)) :
    (sessionLogic inv).wp (Proc.point p >>= k) Q w := by
  intro v same keep
  subst same
  refine ⟨trivial, ?_⟩
  rintro ⟨⟩ u answer
  cases answer
  exact ⟨after, trivial, rest⟩

theorem noted_spec {done batch : List UInt8} (keep : SessionInv config name initial w)
    (settled : Settled config name initial done w) :
    (sessionLogic (SessionInv config name initial)).wp (noted batch (appendFrames batch))
      (Succeeds (Settled config name initial (done ++ batch))) w := by
  have history := settled.standing.frame
  have offered : SessionInv config name initial (w.passing (.appending batch)) := by
    refine ⟨⟨?_, keep.aligned, keep.whole, keep.kept⟩, keep.shape, keep.unsynced⟩
    intro unique
    rcases keep.consistent unique with untouched | ⟨part, low, high, total⟩
    · exact Or.inl untouched
    · exact Or.inr ⟨part, low, high.trans (List.prefix_append _ _), total⟩
  apply point_rule offered
  have frame : Appending done batch (w.passing (.appending batch)) := by
    refine ⟨history.appended, ?_, history.whole⟩
    change w.past.offered ++ batch = _
    rw [history.offered, List.append_nil]
  have allowed : ∀ (v : World) (fs' : FileSystem) (part : List UInt8), Appending done batch v →
      part <+: batch → Moment config name (Blocks.cut kFrameSize initial)
        (Blocks.cut kFrameSize initial ++ done ++ part) fs' →
      SessionInv config name initial { v with fs := fs' } :=
    fun v fs' part frame inside moment => moment.sessionInv settled.valid frame inside
  have standing : Standing (Appending done batch) config name (Blocks.cut kFrameSize initial)
      (Blocks.cut kFrameSize initial ++ done) (w.passing (.appending batch)) :=
    settled.standing.reframe frame rfl rfl
  have due : Due config (w.passing (.appending batch)) := settled.due
  have stored := appendFrames_spec (Appending.stores done batch) allowed settled.valid due standing
  apply Logic.wp_seq offered stored
  intro ok v keepV result
  cases ok with
  | false =>
      intro u _ _
      exact Succeeds.refused u
  | true =>
      rcases result rfl with ⟨whole, due, standing⟩
      have next : Appending (done ++ batch) [] (v.passing (.appended batch)) := by
        refine ⟨?_, ?_, ?_⟩
        · change v.past.appended ++ batch = _
          rw [standing.frame.appended]
        · rw [List.append_nil]
          exact standing.frame.offered
        · rw [List.length_append]
          exact Nat.dvd_add history.whole whole
      have moment := standing.moment
      rw [List.append_assoc] at moment
      have after : SessionInv config name initial (v.passing (.appended batch)) :=
        Moment.sessionInv (w := v.passing (.appended batch)) settled.valid next List.prefix_rfl
          (by rw [List.append_nil]; exact moment)
      apply point_rule after
      intro u same _ _
      subst same
      refine ⟨settled.valid, due, ?_⟩
      have last := standing.reframe next rfl rfl
      rw [List.append_assoc] at last
      exact last

theorem StoreCommand.run_spec (command : StoreCommand) {done : List UInt8}
    (keep : SessionInv config name initial w) (settled : Settled config name initial done w) :
    (sessionLogic (SessionInv config name initial)).wp command.run
      (Succeeds (Settled config name initial (done ++ command.data))) w := by
  cases command with
  | appendFrames batch => exact noted_spec keep settled
  | appendFrame frame => exact noted_spec keep settled
  | sync =>
      have synced := sync_standing (Appending.stores done []) (fun v fs' frame moment =>
        Moment.sessionInv settled.valid frame List.prefix_rfl
          (by rw [List.append_nil]; exact moment)) settled.standing
      apply Logic.wp_mono synced
      intro ok v _ result yes
      rcases result yes with ⟨standing, counted, _⟩
      rw [StoreCommand.data, List.append_nil]
      refine ⟨settled.valid, ?_, standing⟩
      intro periodic
      rw [counted]
      exact Nat.pos_of_ne_zero periodic

theorem runCommands_spec (commands : List StoreCommand) {done : List UInt8}
    (keep : SessionInv config name initial w) (settled : Settled config name initial done w) :
    (sessionLogic (SessionInv config name initial)).wp (runCommands commands)
      (Succeeds (Settled config name initial (done ++ commandData commands))) w := by
  induction commands generalizing done w with
  | nil =>
      intro v same _ _
      subst same
      simpa [commandData] using settled
  | cons command rest ih =>
      apply check_rule keep Succeeds.refused (command.run_spec keep settled)
      intro v keepV settledV
      apply Logic.wp_mono (ih keepV settledV)
      intro ok u _ result yes
      have last := result yes
      rw [List.append_assoc] at last
      exact last

theorem session_spec {path : String} (commands : List StoreCommand) (fresh : Fresh config w) :
    (sessionLogic (SessionInv config (pathFilename path) (w.fs.data (pathFilename path)))).wp
      (session path commands)
      (Succeeds (Settled config (pathFilename path) (w.fs.data (pathFilename path))
        (commandData commands))) w := by
  have grants : Stores (sessionLogic (SessionInv config (pathFilename path)
      (w.fs.data (pathFilename path)))) (fun v fs => SessionInv config (pathFilename path)
      (w.fs.data (pathFilename path)) { v with fs := fs }) (fun v => v.past = w.past) :=
    SessionInv.stores (fun _ _ same => same)
  have opening := openFile_standing grants ⟨rfl, fresh.store, rfl⟩ fresh.archives
    (fresh.unsynced (pathFilename path)) (fun v fs past reopening => fresh.reopening reopening past)
  apply check_rule fresh.sessionInv Succeeds.refused opening
  rintro v keepV ⟨valid, due, standing⟩
  have history : Appending [] [] v := by
    refine ⟨?_, ?_, Nat.dvd_zero _⟩
    · rw [standing.frame]
      exact fresh.appended
    · rw [standing.frame]
      exact fresh.offered
  have settled : Settled config (pathFilename path) (w.fs.data (pathFilename path)) [] v := by
    refine ⟨valid, due, ?_⟩
    rw [List.append_nil]
    exact standing.reframe history rfl rfl
  exact runCommands_spec commands keepV settled

def SessionRun (path : String) (commands : List StoreCommand) (w : World) (q : Proc Bool)
    (v : World) : Prop :=
  Prog.Reach World.exec (fun _ _ => False) (session path commands) w q v

theorem session_reached {path : String} {commands : List StoreCommand} {v : World} {q : Proc Bool}
    (fresh : Fresh config w) (run : SessionRun path commands w q v) :
    SessionInv config (pathFilename path) (w.fs.data (pathFilename path)) v ∧
      (sessionLogic (SessionInv config (pathFilename path) (w.fs.data (pathFilename path)))).wp q
        (Succeeds (Settled config (pathFilename path) (w.fs.data (pathFilename path))
          (commandData commands))) v :=
  Logic.wp_reach fresh.sessionInv (session_spec commands fresh) False.elim run

/-- The directory as a log that started from `initial` and to which `added` was appended. -/
structure Rotated (config : FileStoreConfig) (name : String) (initial added : List UInt8)
    (fs : FileSystem) : Prop where
  contents : (fs.archives.map fs.data).flatten ++ fs.data name =
    Blocks.cut kFrameSize initial ++ added
  aligned : ∀ file, file = name ∨ file ∈ fs.archives → kFrameSize ∣ (fs.data file).length
  full : (Blocks.cut kFrameSize initial).length ≤ config.maxSegmentBytes →
    ∀ a ∈ fs.archives, (fs.data a).length = config.maxSegmentBytes
  first : config.maxSegmentBytes < (Blocks.cut kFrameSize initial).length →
    fs.archives = [] ∨ ∃ a rest, fs.archives = a :: rest ∧
      fs.data a = Blocks.cut kFrameSize initial ∧
      ∀ b ∈ rest, (fs.data b).length = config.maxSegmentBytes

theorem Settled.rotated {done : List UInt8} (settled : Settled config name initial done w)
    (unique : w.fs.replaced = false) : Rotated config name initial done w.fs := by
  have moment := settled.standing.moment
  have distinct := moment.kept.distinct unique
  have shape := moment.shape distinct
  rcases settled.standing.active with ⟨file, active⟩
  have entry := active.entry
  rw [settled.standing.name_eq] at entry
  refine ⟨moment.total distinct, ?_, ?_, ?_⟩
  · intro a member
    rcases member with same | archived
    · rw [same, FileSystem.data, entry]
      exact active.aligned
    · exact shape.archived_dvd settled.valid.whole (Blocks.dvd_cut_length _ _) _
        (List.mem_map_of_mem archived)
  · intro short a member
    exact shape.full short _ (List.mem_map_of_mem member)
  · intro long
    rcases shape.first long with ⟨none, _⟩ | ⟨rest, same, sizes⟩
    · exact Or.inl (List.map_eq_nil_iff.mp none)
    · right
      rcases List.map_eq_cons_iff.mp same with ⟨a, others, split, head, tail⟩
      refine ⟨a, others, split, head, ?_⟩
      intro b member
      apply sizes
      rw [← tail]
      exact List.mem_map_of_mem member

/-- The law of rotating storage: when every call has returned true, the archives and the
active file are what was there and what was appended; meanwhile the active file stays
within a segment unless it is the file the session started with. -/
theorem session_rotates {path : String} {commands : List StoreCommand} {v : World} {q : Proc Bool}
    (fresh : Fresh config w) (run : SessionRun path commands w q v)
    (unique : v.fs.replaced = false) :
    (q = .pure true → config.Valid ∧ Rotated config (pathFilename path)
      (w.fs.data (pathFilename path)) (commandData commands) v.fs) ∧
    ((v.fs.data (pathFilename path)).length ≤ config.maxSegmentBytes ∨
      v.fs.archives = [] ∧ (v.fs.data (pathFilename path) = w.fs.data (pathFilename path) ∨
        v.fs.data (pathFilename path) = Blocks.cut kFrameSize (w.fs.data (pathFilename path)))) := by
  rcases session_reached fresh run with ⟨keep, holds⟩
  constructor
  · intro done
    subst done
    have settled := Logic.wp_post keep holds rfl
    exact ⟨settled.valid, settled.rotated unique⟩
  · rcases keep.shape unique with ⟨none, same⟩ | shape
    · exact Or.inr ⟨none, Or.inl same⟩
    · rcases shape.active with within | ⟨none, same⟩
      · exact Or.inl within
      · exact Or.inr ⟨List.map_eq_nil_iff.mp none, Or.inr same⟩

def emptyDirectory (config : FileStoreConfig) : World := { store := { config := config } }

theorem emptyDirectory_fresh (config : FileStoreConfig) : Fresh config (emptyDirectory config) :=
  ⟨rfl, rfl, rfl, fun _ _ entry => (by cases entry), rfl, rfl⟩

unseal pathFilename parentPath in
/-- Two frames into segments of one frame: the first one is archived. -/
theorem session_rotates_twoFrames : ∃ v : World, v.fs.archives.length = 1 ∧
    Rotated { maxSegmentBytes := 32, syncEveryBytes := 0 } "t" [] (List.replicate 64 0) v.fs := by
  have run : SessionRun "t" [.appendFrames (List.replicate 64 0)]
      (emptyDirectory { maxSegmentBytes := 32, syncEveryBytes := 0 }) (.pure true) _ :=
    Prog.replay_reach Calm.answer 64 rfl
  exact ⟨_, rfl, ((session_rotates (emptyDirectory_fresh _) run rfl).1 rfl).2⟩

/-- Unsynced data is bounded at every moment, counted exactly between calls, and gone from
a file that is about to be renamed. -/
theorem session_unsynced_bounded {path : String} {commands : List StoreCommand} {v : World}
    {q : Proc Bool} (fresh : Fresh config w) (run : SessionRun path commands w q v) :
    (config.syncEveryBytes ≠ 0 → ∀ file, v.fs.entries (pathFilename path) = some file →
      file.unsynced ≤ roundUp config.syncEveryBytes) ∧
    (q = .pure true → ∃ file, v.fs.entries (pathFilename path) = some file ∧
      v.store.unsyncedBytes = file.unsynced ∧
      (config.syncEveryBytes ≠ 0 → v.store.unsyncedBytes < config.syncEveryBytes)) ∧
    (∀ directoryFd source target, q.Calls (.fs (.renameat directoryFd source target)) →
      ∀ file, v.fs.entries source = some file → file.unsynced = 0) := by
  rcases session_reached fresh run with ⟨keep, holds⟩
  refine ⟨keep.unsynced, ?_, ?_⟩
  · intro done
    subst done
    have settled := Logic.wp_post keep holds rfl
    rcases settled.standing.active with ⟨file, active⟩
    have entry := active.entry
    rw [settled.standing.name_eq] at entry
    exact ⟨file, entry, active.unsynced, settled.due⟩
  · intro directoryFd source target next
    exact Logic.wp_pre keep holds next

unseal pathFilename parentPath in
/-- Three frames with a sync every forty bytes: two are synced, the third is counted. -/
theorem session_unsynced_threeFrames : ∃ v : World, v.store.unsyncedBytes = 32 ∧
    ∃ file, v.fs.entries "t" = some file ∧ v.store.unsyncedBytes = file.unsynced := by
  have run : SessionRun "t" [.appendFrames (List.replicate 96 0)]
      (emptyDirectory { maxSegmentBytes := 320, syncEveryBytes := 40 }) (.pure true) _ :=
    Prog.replay_reach Calm.answer 42 rfl
  rcases (session_unsynced_bounded (emptyDirectory_fresh _) run).2.1 rfl with ⟨file, entry, count, _⟩
  exact ⟨_, rfl, file, entry, count⟩

end

end TelemetryServer.Storage
