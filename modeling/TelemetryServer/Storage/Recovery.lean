import TelemetryServer.Storage.Session

/-! Killing the process between two system calls, and opening its file again. -/

namespace TelemetryServer.Storage

open Protocol Atomic Segmented

/-- What is left to the next process: the files as the completed calls have made them. It
has no descriptor open and has written nothing. -/
def FileSystem.restart (fs : FileSystem) : FileSystem :=
  { fs with
    entries := fun name => (fs.entries name).map (fun file => { file with unsynced := 0 })
    fds := fun _ => none }

def restart (config : FileStoreConfig) (w : World) : World :=
  { w with fs := w.fs.restart, store := { config := config } }

/-- Where a run of a session on `path` from `w` may have been killed, with any number of
recoveries after it that were killed as well. -/
inductive Killed (path : String) (w : World) : World → Prop
  | session {config : FileStoreConfig} {commands : List StoreCommand} {q : Proc Bool} {v : World} :
      Fresh config w → SessionRun path commands w q v → Killed path w v
  | recovery {config : FileStoreConfig} {q : Proc Bool} {v u : World} : Killed path w v →
      Prog.Reach World.exec (fun _ _ => False) (openFile path) (restart config v) q u →
      Killed path w u

theorem data_restart (fs : FileSystem) (name : String) : fs.restart.data name = fs.data name := by
  simp only [FileSystem.data, FileSystem.restart]
  cases fs.entries name with
  | none => rfl
  | some file => rfl

theorem view_restart (fs : FileSystem) (name : String) : fs.restart.view name = fs.view name := by
  simp only [FileSystem.view, data_restart]
  congr 1
  apply List.map_congr_left
  intro a _
  exact data_restart fs a

section

variable {name : String} {initial : List UInt8} {w v : World}

theorem CrashInv.members (store : FileStore) (keep : CrashInv name initial w) :
    CrashInv name initial { w with store := store } :=
  ⟨keep.consistent, keep.aligned, keep.whole, keep.kept⟩

theorem CrashInv.restart (config : FileStoreConfig) (keep : CrashInv name initial w) :
    CrashInv name initial (restart config w) := by
  refine ⟨?_, ?_, keep.whole, ?_⟩
  · intro unique
    rcases keep.consistent unique with ⟨none, same, fresh⟩ | ⟨part, low, high, total⟩
    · exact Or.inl ⟨none, (data_restart _ _).trans same, fresh⟩
    · refine Or.inr ⟨part, low, high, ?_⟩
      change (w.fs.restart.view name).contents = _
      rw [view_restart]
      exact total
  · intro unique
    change ∀ a ∈ (w.fs.restart.view name).archived, _
    rw [view_restart]
    exact keep.aligned unique
  · refine ⟨fun a member => ?_, keep.kept.distinct⟩
    rcases keep.kept.there a member with ⟨apart, file, entry, _⟩
    exact ⟨apart, { file with unsynced := 0 }, by
      simp [FileSystem.restart, TelemetryServer.Storage.restart, entry], rfl⟩

/-- Cutting the torn tail keeps all that was acknowledged. -/
theorem consistent_cut {appended offered total : List UInt8} (whole : kFrameSize ∣ appended.length)
    {part : List UInt8} (low : appended <+: part) (high : part <+: offered)
    (sum : total = Blocks.cut kFrameSize initial ++ part) :
    appended <+: Blocks.cut kFrameSize part ∧ Blocks.cut kFrameSize part <+: offered ∧
      Blocks.cut kFrameSize total = Blocks.cut kFrameSize initial ++ Blocks.cut kFrameSize part := by
  refine ⟨?_, (List.take_prefix _ _).trans high, ?_⟩
  · rcases low with ⟨rest, same⟩
    rw [← same, Blocks.cut_append whole]
    exact List.prefix_append _ _
  · rw [sum, Blocks.cut_append (Blocks.dvd_cut_length _ _)]

/-- The log while the active file is opened: as it was, or cut to whole frames. -/
theorem CrashInv.log_reopening {fs : FileSystem} (keep : CrashInv name initial w)
    (reopening : Reopening w.fs name fs) (unique : fs.replaced = false) :
    (fs.view name).archived = (w.fs.view name).archived ∧
      (fs.data name = w.fs.data name → fs.log name = w.fs.log name) ∧
      (fs.data name = Blocks.cut kFrameSize (w.fs.data name) →
        fs.log name = Blocks.cut kFrameSize (w.fs.log name)) := by
  have before : w.fs.replaced = false := reopening.replaced ▸ unique
  have archived : (fs.view name).archived = (w.fs.view name).archived :=
    keep.kept.archived_eq reopening.archives reopening.others
  refine ⟨archived, ?_, ?_⟩
  · intro same
    change (fs.view name).archived.flatten ++ fs.data name = _
    rw [archived, same]
    rfl
  · intro cut
    change (fs.view name).archived.flatten ++ fs.data name = _
    rw [archived, cut, FileSystem.log, Log.contents_cut (keep.aligned before)]
    rfl

theorem CrashInv.reopening {fs : FileSystem} (keep : CrashInv name initial w)
    (reopening : Reopening w.fs name fs) (past : v.past = w.past) :
    CrashInv name initial { v with fs := fs } := by
  refine ⟨?_, ?_, by rw [past]; exact keep.whole,
    keep.kept.of_others reopening.replaced reopening.archives reopening.others⟩
  · intro unique
    have before : w.fs.replaced = false := reopening.replaced ▸ unique
    rcases keep.log_reopening reopening unique with ⟨_, same, cut⟩
    rcases keep.consistent before with ⟨none, data, fresh⟩ | ⟨part, low, high, total⟩
    · have archives : fs.archives = [] := reopening.archives.trans none
      rcases reopening.data with equal | shorter
      · exact Or.inl ⟨archives, equal.trans data, by rw [past]; exact fresh⟩
      · refine Or.inr ⟨[], by simp [past, fresh], List.nil_prefix, ?_⟩
        change fs.log name = _
        rw [FileSystem.log, FileSystem.view, archives, shorter, data, List.append_nil]
        rfl
    · rcases reopening.data with equal | shorter
      · refine Or.inr ⟨part, by rw [past]; exact low, by rw [past]; exact high, ?_⟩
        exact (same equal).trans total
      · rcases consistent_cut keep.whole low high total with ⟨low', high', total'⟩
        refine Or.inr ⟨Blocks.cut kFrameSize part, past ▸ low', past ▸ high', ?_⟩
        exact (cut shorter).trans total'
  · intro unique
    rcases keep.log_reopening reopening unique with ⟨archived, _⟩
    change ∀ a ∈ (fs.view name).archived, _
    rw [archived]
    exact keep.aligned (reopening.replaced ▸ unique)

/-- What a recovery that succeeds leaves. -/
def Recovers (name : String) (initial : List UInt8) (w : World) : Prop :=
  w.fs.replaced = false → ∃ part, kFrameSize ∣ part.length ∧ w.past.appended <+: part ∧
    part <+: w.past.offered ∧ (w.fs.archives.map w.fs.data).flatten ++ w.fs.data name =
      Blocks.cut kFrameSize initial ++ part

theorem CrashInv.recovers {fs : FileSystem} (keep : CrashInv name initial w)
    (reopening : Reopening w.fs name fs) (past : v.past = w.past) (here : v.fs = fs)
    (cut : fs.data name = Blocks.cut kFrameSize (w.fs.data name)) : Recovers name initial v := by
  intro unique
  rw [here] at unique
  have before : w.fs.replaced = false := reopening.replaced ▸ unique
  have log := (keep.log_reopening reopening unique).2.2 cut
  rw [here, past]
  change ∃ part, _ ∧ _ ∧ _ ∧ fs.log name = _
  rcases keep.consistent before with ⟨none, data, fresh⟩ | ⟨part, low, high, total⟩
  · refine ⟨[], Nat.dvd_zero _, by simp [fresh], List.nil_prefix, ?_⟩
    rw [FileSystem.log, FileSystem.view, reopening.archives.trans none, cut, data, List.append_nil]
    rfl
  · rcases consistent_cut keep.whole low high total with ⟨low', high', total'⟩
    exact ⟨_, Blocks.dvd_cut_length _ _, low', high', log.trans total'⟩

end

section

variable {path : String} {w v u : World}

theorem recovery_spec (config : FileStoreConfig) {initial : List UInt8}
    (keep : CrashInv (pathFilename path) initial v) :
    (sessionLogic (CrashInv (pathFilename path) initial)).wp (openFile path)
      (Succeeds (Recovers (pathFilename path) initial)) (restart config v) := by
  have start := keep.restart config
  have grants : Stores (sessionLogic (CrashInv (pathFilename path) initial))
      (fun x fs => CrashInv (pathFilename path) initial { x with fs := fs })
      (fun x => x.past = v.past) :=
    sessionLogic_stores (fun store keep => keep.members store) (fun _ _ same => same)
  have clean : ∀ file, v.fs.restart.entries (pathFilename path) = some file → file.unsynced = 0 := by
    intro file entry
    simp only [FileSystem.restart, Option.map_eq_some_iff] at entry
    rcases entry with ⟨old, _, same⟩
    rw [← same]
  have opening := openFile_spec grants path
    (⟨rfl, rfl, rfl⟩ : Here (fun x => x.past = v.past) v.fs.restart { config := config }
      (restart config v)) clean rfl
    (fun x fs past reopening => start.reopening reopening past)
  apply Logic.wp_mono opening
  intro ok x _ result yes
  rcases result yes with ⟨_, fd, _, active, file, _, fresh, data, _, here⟩
  have reopening : Reopening v.fs.restart (pathFilename path)
      (((v.fs.restart.openAs fd .directory).setFile (pathFilename path) file).openAs active
        (.file (pathFilename path))) := (Reopening.opened _ active data fresh).of_openAs
  apply start.recovers reopening here.frame here.fs
  exact (FileSystem.data_setFile (v.fs.restart.openAs fd .directory) (pathFilename path) file).trans data

/-- Whatever was killed where, what is left is consistent. -/
theorem Killed.crashInv (killed : Killed path w v) :
    CrashInv (pathFilename path) (w.fs.data (pathFilename path)) v := by
  induction killed with
  | session fresh run => exact (session_reached fresh run).1.toCrashInv
  | recovery _ run ih =>
      exact (Logic.wp_reach (ih.restart _) (recovery_spec _ ih) False.elim run).1

/-- After any kill, a new store that opens the file finds the recovered initial content
followed by whole frames of what was offered, and all of what was acknowledged. -/
theorem killed_recovers {config : FileStoreConfig} (killed : Killed path w v)
    (run : Prog.Reach World.exec (fun _ _ => False) (openFile path) (restart config v)
      (.pure true) u) (unique : u.fs.replaced = false) :
    ∃ part, kFrameSize ∣ part.length ∧ u.past.appended <+: part ∧ part <+: u.past.offered ∧
      (u.fs.archives.map u.fs.data).flatten ++ u.fs.data (pathFilename path) =
        Blocks.cut kFrameSize (w.fs.data (pathFilename path)) ++ part := by
  have keep := killed.crashInv
  rcases Logic.wp_reach (keep.restart config) (recovery_spec config keep) False.elim run with
    ⟨after, holds⟩
  exact Logic.wp_post after holds rfl unique

end

/-- The whole frames of the log are `whole`; what is beyond them is torn. -/
structure Torn (name : String) (whole : List UInt8) (fs : FileSystem) : Prop where
  distinct : fs.archives.Nodup
  kept : fs.Kept name
  aligned : ∀ a ∈ (fs.view name).archived, kFrameSize ∣ a.length
  log : Blocks.cut kFrameSize (fs.log name) = whole

/-- The openings after `w`, each by a process of its own that may be killed before it is done. -/
inductive Attempts (path : String) (w : World) : World → Prop
  | none : Attempts path w w
  | another {config : FileStoreConfig} {q : Proc Bool} {v u : World} : Attempts path w v →
      Prog.Reach World.exec (fun _ _ => False) (openFile path) (restart config v) q u →
      Attempts path w u

section

variable {name path : String} {whole : List UInt8} {fs fs' : FileSystem} {w v u : World}

theorem Torn.restart (torn : Torn name whole fs) : Torn name whole fs.restart := by
  refine ⟨torn.distinct, ⟨?_, torn.kept.distinct⟩, ?_, ?_⟩
  · intro a member
    rcases torn.kept.there a member with ⟨apart, file, entry, _⟩
    exact ⟨apart, { file with unsynced := 0 }, by simp [FileSystem.restart, entry], rfl⟩
  · rw [view_restart]
    exact torn.aligned
  · rw [FileSystem.log, view_restart]
    exact torn.log

/-- While the file is opened its whole frames stay, and none are left over once it is cut. -/
theorem Torn.reopening (torn : Torn name whole fs) (reopening : Reopening fs name fs') :
    Torn name whole fs' ∧
      (fs'.data name = Blocks.cut kFrameSize (fs.data name) → fs'.log name = whole) := by
  have archived : (fs'.view name).archived = (fs.view name).archived :=
    torn.kept.archived_eq reopening.archives reopening.others
  have aligned : ∀ a ∈ (fs'.view name).archived, kFrameSize ∣ a.length := by
    rw [archived]
    exact torn.aligned
  have shorter : fs'.data name = Blocks.cut kFrameSize (fs.data name) → fs'.log name = whole := by
    intro cut
    calc
      fs'.log name = (fs'.view name).archived.flatten ++ fs'.data name := rfl
      _ = (fs.view name).archived.flatten ++ Blocks.cut kFrameSize (fs.view name).active := by
        rw [archived, cut]
        rfl
      _ = whole := by rw [← Log.contents_cut torn.aligned, ← torn.log, FileSystem.log]
  refine ⟨⟨by rw [reopening.archives]; exact torn.distinct,
    torn.kept.of_others reopening.replaced reopening.archives reopening.others, aligned, ?_⟩, shorter⟩
  rcases reopening.data with same | cut
  · have unchanged : fs'.log name = fs.log name := by
      change (fs'.view name).archived.flatten ++ fs'.data name = _
      rw [archived, same]
      rfl
    rw [unchanged]
    exact torn.log
  · rw [shorter cut, ← torn.log]
    exact Blocks.cut_eq_self (Blocks.dvd_cut_length _ _)

theorem opening_spec (config : FileStoreConfig) (torn : Torn (pathFilename path) whole v.fs) :
    (sessionLogic (fun x => Torn (pathFilename path) whole x.fs)).wp (openFile path)
      (Succeeds (fun x => x.fs.log (pathFilename path) = whole)) (restart config v) := by
  have start := torn.restart
  have grants : Stores (sessionLogic (fun x => Torn (pathFilename path) whole x.fs))
      (fun _ fs => Torn (pathFilename path) whole fs) (fun _ => True) :=
    sessionLogic_stores (fun _ keep => keep) (fun _ _ _ => trivial)
  have clean : ∀ file, v.fs.restart.entries (pathFilename path) = some file → file.unsynced = 0 := by
    intro file entry
    simp only [FileSystem.restart, Option.map_eq_some_iff] at entry
    rcases entry with ⟨old, _, same⟩
    rw [← same]
  have opening := openFile_spec grants path
    (⟨rfl, rfl, trivial⟩ : Here (fun _ => True) v.fs.restart { config := config } (restart config v))
    clean rfl (fun _ _ _ reopening => (start.reopening reopening).1)
  apply Logic.wp_mono opening
  intro ok x _ result yes
  rcases result yes with ⟨_, fd, _, active, file, _, fresh, data, _, here⟩
  have reopening : Reopening v.fs.restart (pathFilename path)
      (((v.fs.restart.openAs fd .directory).setFile (pathFilename path) file).openAs active
        (.file (pathFilename path))) := (Reopening.opened _ active data fresh).of_openAs
  have last := (start.reopening reopening).2
    ((FileSystem.data_setFile (v.fs.restart.openAs fd .directory) (pathFilename path) file).trans data)
  rw [← last]
  exact congrArg (fun fs => FileSystem.log fs (pathFilename path)) here.fs

theorem Attempts.torn (attempts : Attempts path w v) (torn : Torn (pathFilename path) whole w.fs) :
    Torn (pathFilename path) whole v.fs := by
  induction attempts with
  | none => exact torn
  | @another config q v u _ run ih =>
      have start : (sessionLogic (fun x => Torn (pathFilename path) whole x.fs)).inv
          (Storage.restart config v) := ih.restart
      exact (Logic.wp_reach start (opening_spec config ih) False.elim run).1

/-- However often opening is tried before, an opening that succeeds leaves exactly the whole
frames of the log. -/
theorem Attempts.opened {config : FileStoreConfig} (attempts : Attempts path w v)
    (torn : Torn (pathFilename path) whole w.fs)
    (run : Prog.Reach World.exec (fun _ _ => False) (openFile path) (restart config v)
      (.pure true) u) : u.fs.log (pathFilename path) = whole := by
  have before := attempts.torn torn
  have start : (sessionLogic (fun x => Torn (pathFilename path) whole x.fs)).inv
      (Storage.restart config v) := before.restart
  have ended := Logic.wp_reach start (opening_spec config before) False.elim run
  exact Logic.wp_post ended.1 ended.2 rfl

end

/-- Like `Calm.answer`, but no write takes more than forty bytes. -/
def shortWrites (n : Nat) : (call : Call) → World → call.Resp
  | .fs (.write _ bytes), _ => .written (min 40 bytes.length)
  | call, w => Calm.answer n call w

/-- A session killed after forty bytes of two frames. -/
def tornWorld (config : FileStoreConfig) : World :=
  ((Prog.replay World.exec shortWrites 25 (session "t" [.appendFrames (List.replicate 64 0)])
    (emptyDirectory config)).map Prod.snd).getD (emptyDirectory config)

/-- The next process has opened the file. -/
def recoveredWorld (config : FileStoreConfig) : World :=
  ((Prog.replay World.exec Calm.answer 20 (openFile "t") (restart config (tornWorld config))).map
    Prod.snd).getD (emptyDirectory config)

unseal pathFilename parentPath in
/-- The first of the two frames is recovered. -/
theorem killed_recovers_oneFrame : (recoveredWorld {}).fs.data "t" = List.replicate 32 0 ∧
    ∃ part, kFrameSize ∣ part.length ∧ (recoveredWorld {}).past.appended <+: part ∧
      part <+: (recoveredWorld {}).past.offered ∧
      ((recoveredWorld {}).fs.archives.map (recoveredWorld {}).fs.data).flatten ++
        (recoveredWorld {}).fs.data (pathFilename "t") =
          Blocks.cut kFrameSize ((emptyDirectory {}).fs.data (pathFilename "t")) ++ part := by
  have first : SessionRun "t" [.appendFrames (List.replicate 64 0)] (emptyDirectory {}) _
      (tornWorld {}) := Prog.replay_reach shortWrites 25 rfl
  have second : Prog.Reach World.exec (fun _ _ => False) (openFile "t") (restart {} (tornWorld {}))
      (.pure true) (recoveredWorld {}) := Prog.replay_reach Calm.answer 20 rfl
  exact ⟨rfl, killed_recovers (.session (emptyDirectory_fresh _) first) second rfl⟩

end TelemetryServer.Storage
