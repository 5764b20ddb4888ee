import TelemetryServer.Storage.StoreSpec

namespace TelemetryServer.Storage

open Protocol Atomic Segmented

section

variable {L : Logic} {J : World → FileSystem → Prop} {F : World → Prop} (grants : Stores L J F)
  {fs : FileSystem} {store : FileStore} {w : World}

theorem clock_same {r : ClockResult} {fs fs' : FileSystem}
    (done : FsCall.exec .clockGettime fs r = some fs') : fs' = fs := by
  cases r with
  | ok sec nsec =>
      simp only [FsCall.exec] at done
      split at done
      · exact (Option.some.inj done).symm
      · simp at done
  | error => exact (Option.some.inj done).symm

theorem renameat_cases {r : Bool} {fs fs' : FileSystem} {directoryFd : Int} {source target : String}
    {file : File} (entry : fs.entries source = some file)
    (done : FsCall.exec (.renameat directoryFd source target) fs r = some fs') :
    r = true ∧ fs' = fs.rename source target file ∨ r = false ∧ fs' = fs := by
  cases r with
  | false => exact Or.inr ⟨rfl, (Option.some.inj done).symm⟩
  | true =>
      simp only [FsCall.exec, entry] at done
      exact Or.inl ⟨rfl, (Option.some.inj done).symm⟩

section Append

variable {config : FileStoreConfig} {name : String} {base total : List UInt8} {file : File}
  (allowed : ∀ v fs', F v → Moment config name base total fs' → J v fs')

include grants allowed in
theorem closeActiveFile_spec (here : Here F fs store w) (moment : Moment config name base total fs) :
    L.wp closeActiveFile (Succeeds (fun v => ∃ fs', fs'.entries = fs.entries ∧
      fs'.archives = fs.archives ∧ Moment config name base total fs' ∧
      Here F fs' { store with fd := -1 } v)) w := by
  apply members_rule grants here
  intro v _ hereV
  split
  · next closed =>
      apply pure_rule grants hereV
      intro u hereU _
      refine ⟨fs, rfl, rfl, moment, ?_⟩
      rw [← closed]
      exact hereU
  apply update_rule grants hereV
  intro u _ hereU
  have closed : Moment config name base total
      { fs with fds := Function.update fs.fds store.fd none } := moment.of_eq rfl rfl rfl
  apply call_rule grants (.close store.fd) hereU trivial
  · intro r fs' done x frame
    rw [← Option.some.inj done]
    exact allowed x _ frame closed
  intro r fs' done x _ hereX
  have same := Option.some.inj done
  subst same
  cases r with
  | true =>
      apply pure_rule grants hereX
      intro y hereY _
      exact ⟨{ fs with fds := Function.update fs.fds store.fd none }, rfl, rfl, closed, hereY⟩
  | false => exact refuse_rule grants rfl hereX

include grants allowed in
theorem makeArchiveName_spec (here : Here F fs store w) (moment : Moment config name base total fs) :
    L.wp makeArchiveName (fun archive v => archive.isEmpty = false →
      ∃ sec nsec, archive = archiveName store.fileName sec nsec store.rotationSequence ∧
        Here F fs { store with rotationSequence := Ipc.u64 (store.rotationSequence + 1) } v) w := by
  apply call_rule grants .clockGettime here trivial
  · intro r fs' done x frame
    rw [clock_same done]
    exact allowed x _ frame moment
  intro r fs' done v _ hereV
  rw [clock_same done] at hereV
  cases r with
  | error =>
      apply log_rule grants rfl hereV
      intro u _ _ x _ _ wrong
      exact absurd wrong (by decide)
  | ok sec nsec =>
      apply members_rule grants hereV
      intro u _ hereU
      apply update_rule grants hereU
      intro x _ hereX
      apply pure_rule grants hereX
      intro y hereY _
      exact ⟨sec, nsec, rfl, hereY⟩

/-- Each archive has its place among the rotations of the store as its number. -/
structure Numbered (fs : FileSystem) (store : FileStore) : Prop where
  archives : ∀ i a, fs.archives[i]? = some a →
    ∃ sec nsec, a = archiveName store.fileName sec nsec (Ipc.u64 i)
  next : store.rotationSequence = Ipc.u64 fs.archives.length

theorem Numbered.of_none {fs : FileSystem} {store : FileStore} (none : fs.archives = [])
    (fresh : store.rotationSequence = 0) : Numbered fs store := by
  constructor
  · intro i a found
    rw [none] at found
    cases found
  · rw [none, fresh]
    rfl

theorem Numbered.rename {fs : FileSystem} {store : FileStore} (numbered : Numbered fs store)
    (sec : Int) (nsec : Nat) (file : File) :
    Numbered (fs.rename store.fileName (archiveName store.fileName sec nsec store.rotationSequence) file)
      { store with rotationSequence := Ipc.u64 (store.rotationSequence + 1) } := by
  constructor
  · intro i a found
    simp only [FileSystem.rename] at found
    rcases Nat.lt_or_ge i fs.archives.length with old | new
    · rw [List.getElem?_append_left old] at found
      exact numbered.archives i a found
    · rw [List.getElem?_append_right new] at found
      rcases List.getElem?_eq_some_iff.mp found with ⟨only, same⟩
      have last : i = fs.archives.length := by
        simp only [List.length_singleton] at only
        omega
      refine ⟨sec, nsec, ?_⟩
      rw [last, ← numbered.next, ← same]
      simp
  · simp only [FileSystem.rename, List.length_append, List.length_singleton, numbered.next, Ipc.u64]
    exact Nat.mod_add_mod _ _ _

/-- Where a store stands between two chunks. -/
structure Standing (F : World → Prop) (config : FileStoreConfig) (name : String)
    (base total : List UInt8) (w : World) : Prop where
  frame : F w
  config_eq : w.store.config = config
  name_eq : w.store.fileName = name
  moment : Moment config name base total w.fs
  numbered : Numbered w.fs w.store
  active : ∃ file, Active w.fs w.store file

theorem Here.standing {v : World} (here : Here F fs store v) (sameConfig : store.config = config)
    (sameName : store.fileName = name) (moment : Moment config name base total fs)
    (numbered : Numbered fs store) (active : Active fs store file) :
    Standing F config name base total v := by
  rcases here with ⟨rfl, rfl, frame⟩
  exact ⟨frame, sameConfig, sameName, moment, numbered, file, active⟩

theorem Standing.here {v : World} (standing : Standing F config name base total v) :
    Here F v.fs v.store v := ⟨rfl, rfl, standing.frame⟩

theorem Standing.move {v u : World} (standing : Standing F config name base total v)
    (here : Here F v.fs v.store u) : Standing F config name base total u := by
  rcases standing.active with ⟨file, active⟩
  exact here.standing standing.config_eq standing.name_eq standing.moment standing.numbered active

theorem Standing.reframe {G : World → Prop} {v u : World}
    (standing : Standing F config name base total v) (frame : G u) (fs : u.fs = v.fs)
    (store : u.store = v.store) : Standing G config name base total u := by
  rcases standing.active with ⟨file, active⟩
  exact ⟨frame, by rw [store]; exact standing.config_eq, by rw [store]; exact standing.name_eq,
    by rw [fs]; exact standing.moment, by rw [fs, store]; exact standing.numbered,
    file, by rw [fs, store]; exact active⟩

/-- After recovery the counters describe the file that is open. -/
theorem Recovered.standing {v : World} (recovered : Recovered F fs store v)
    (directory : store.directoryFd ≠ -1) (counted : store.unsyncedBytes = 0)
    (sameConfig : store.config = config) (sameName : store.fileName = name)
    (numbered : Numbered fs store) (moment : ∀ fs', Reopening fs name fs' →
      fs'.data name = Blocks.cut kFrameSize (fs.data name) → Moment config name base total fs') :
    Standing F config name base total v ∧
      v.store.currentSize = (Blocks.cut kFrameSize (fs.data name)).length ∧
      v.store.unsyncedBytes = 0 := by
  subst sameName
  rcases recovered with ⟨fd, file, valid, clean, data, bound, here⟩
  have entry : ((fs.setFile store.fileName file).openAs fd
      (.file store.fileName)).entries store.fileName = some file := Function.update_self _ _ _
  have active : Active ((fs.setFile store.fileName file).openAs fd (.file store.fileName))
      { store with fd := fd, currentSize := file.data.length } file :=
    { fd := valid
      opened := Function.update_self _ _ _
      directory := directory
      entry := entry
      size := rfl
      aligned := by
        rw [data]
        exact Blocks.dvd_cut_length _ _
      small := bound
      unsynced := counted.trans clean.symm
      whole := by rw [clean]; exact Nat.dvd_zero _
      written := by rw [clean]; exact Nat.zero_le _ }
  have after := moment _ (Reopening.opened fs fd data clean) (by
    rw [FileSystem.data, entry]
    exact data)
  refine ⟨here.standing sameConfig rfl after ⟨numbered.archives, numbered.next⟩ active, ?_, ?_⟩
  · rw [here.store, ← data]
  · rw [here.store]
    exact counted

include grants allowed in
theorem rotate_spec (here : Here F fs store w) (active : Active fs store file)
    (sameConfig : store.config = config) (sameName : store.fileName = name)
    (numbered : Numbered fs store) (moment : Moment config name base total fs)
    (full : config.maxSegmentBytes ≤ file.data.length) :
    L.wp rotate (Succeeds (fun v => Standing F config name base total v ∧ v.store.currentSize = 0 ∧
      v.store.unsyncedBytes = 0)) w := by
  subst sameName
  apply members_rule grants here
  intro v keepV hereV
  split
  · apply pure_rule grants hereV
    intro u _
    exact Succeeds.refused u
  have synced := moment.synced active.entry
  apply check_rule keepV Succeeds.refused (sync_spec grants hereV active.opened active.entry
    (fun x frame => ⟨allowed x _ frame moment, allowed x _ frame synced⟩))
  intro a keepA hereA
  apply check_rule keepA Succeeds.refused (closeActiveFile_spec grants allowed hereA synced)
  rintro b keepB ⟨fsB, entries, archives, momentB, hereB⟩
  have entryB : fsB.entries store.fileName = some { file with unsynced := 0 } := by
    rw [entries]
    exact Function.update_self _ _ _
  apply Logic.wp_seq keepB (makeArchiveName_spec grants allowed hereB momentB)
  intro archive c keepC named
  split
  · intro u _ _
    exact Succeeds.refused u
  next present =>
  rcases named (by simpa using present) with ⟨sec, nsec, rfl, hereC⟩
  have apart := archiveName_ne store.fileName sec nsec store.rotationSequence
  have numberedB : Numbered fsB { store with fd := -1, unsyncedBytes := 0 } := by
    constructor
    · rw [archives]
      exact numbered.archives
    · rw [archives]
      exact numbered.next
  have numberedD := numberedB.rename sec nsec { file with unsynced := 0 }
  generalize archiveName store.fileName sec nsec store.rotationSequence = archive at *
  have momentD : Moment config store.fileName base total
      (fsB.rename store.fileName archive { file with unsynced := 0 }) :=
    momentB.rename entryB rfl apart full
  have clean : Ready fsB (.renameat store.directoryFd store.fileName archive) := by
    intro file' entry'
    rw [entryB] at entry'
    cases entry'
    rfl
  apply call_rule grants (.renameat store.directoryFd store.fileName archive) hereC clean
  · intro r fs' done x frame
    rcases renameat_cases entryB done with ⟨_, same⟩ | ⟨_, same⟩
    · rw [same]
      exact allowed x _ frame momentD
    · rw [same]
      exact allowed x _ frame momentB
  intro r fs' done d keepD hereD
  rcases renameat_cases entryB done with ⟨rfl, rfl⟩ | ⟨rfl, rfl⟩
  · apply check_rule keepD Succeeds.refused
      (syncDirectory_spec grants hereD (fun x frame => allowed x _ frame momentD))
    intro e keepE hereE
    apply update_rule grants hereE
    intro f keepF hereF
    have gone : (fsB.rename store.fileName archive { file with unsynced := 0 }).entries
        store.fileName = none := by
      simp [FileSystem.rename, Function.update_of_ne apart.symm]
    have empty : (fsB.rename store.fileName archive { file with unsynced := 0 }).data
        store.fileName = [] := by rw [FileSystem.data, gone]
    have cutEmpty : Blocks.cut kFrameSize ([] : List UInt8) = [] := by simp [Blocks.cut]
    have again : ∀ fs', Reopening (fsB.rename store.fileName archive { file with unsynced := 0 })
        store.fileName fs' → Moment config store.fileName base total fs' := by
      intro fs' reopening
      apply momentD.reopening reopening
      rw [empty, cutEmpty]
    apply check_rule keepF Succeeds.refused (openActiveFile_spec grants hereF keepF
      (by intro file' entry'; rw [show FileSystem.entries _ _ = _ from gone] at entry'; cases entry')
      rfl (fun x fs' frame reopening => allowed x _ frame (again fs' reopening)))
    intro g keepG recovered
    rcases recovered.standing active.directory rfl sameConfig rfl
      ⟨numberedD.archives, numberedD.next⟩ (fun fs' reopening _ => again fs' reopening) with
      ⟨standing, size, counted⟩
    apply log_rule grants rfl standing.here
    intro x _ hereX
    apply pure_rule grants hereX
    intro y hereY _
    refine ⟨standing.move hereY, ?_, ?_⟩
    · rw [hereY.store, size]
      change (Blocks.cut kFrameSize (FileSystem.data _ store.fileName)).length = 0
      rw [empty, cutEmpty]
      rfl
    · rw [hereY.store, counted]
  · exact refuse_rule grants rfl hereD

/-- The sync interval is not reached. -/
def Due (config : FileStoreConfig) (w : World) : Prop :=
  config.syncEveryBytes ≠ 0 → w.store.unsyncedBytes < config.syncEveryBytes

omit grants allowed in
/-- A store that opens its file finds no archives, and cuts off what is torn. -/
theorem openFile_standing (grants : Stores L J F) {path : String} (here : Here F fs { config := config } w)
    (none : fs.archives = [])
    (clean : ∀ file, fs.entries (pathFilename path) = some file → file.unsynced = 0)
    (allowed : ∀ v fs', F v → Reopening fs (pathFilename path) fs' → J v fs') :
    L.wp (openFile path) (Succeeds (fun v => config.Valid ∧ Due config v ∧
      Standing F config (pathFilename path) (Blocks.cut kFrameSize (fs.data (pathFilename path)))
        (Blocks.cut kFrameSize (fs.data (pathFilename path))) v)) w := by
  apply Logic.wp_mono (openFile_spec grants path here clean rfl allowed)
  intro ok v _ result yes
  rcases result yes with ⟨valid, fd, opened, recovered⟩
  have recoveredAt : ∀ fs', Reopening (fs.openAs fd .directory) (pathFilename path) fs' →
      fs'.data (pathFilename path) = Blocks.cut kFrameSize
        ((fs.openAs fd .directory).data (pathFilename path)) →
      Moment config (pathFilename path) (Blocks.cut kFrameSize (fs.data (pathFilename path)))
        (Blocks.cut kFrameSize (fs.data (pathFilename path))) fs' :=
    fun fs' reopening data => reopening.of_openAs.moment none data
  rcases recovered.standing opened rfl rfl rfl (.of_none none rfl) recoveredAt with
    ⟨standing, _, counted⟩
  refine ⟨valid, fun periodic => ?_, standing⟩
  rw [counted]
  exact Nat.pos_of_ne_zero periodic

include grants allowed in
theorem sync_standing (standing : Standing F config name base total w) :
    L.wp sync (Succeeds (fun v => Standing F config name base total v ∧
      v.store.unsyncedBytes = 0 ∧ v.store.currentSize = w.store.currentSize)) w := by
  rcases standing.active with ⟨file, active⟩
  have entry := active.entry
  rw [standing.name_eq] at entry
  have synced := standing.moment.synced entry
  rw [← standing.name_eq] at synced
  have after := sync_spec grants standing.here active.opened active.entry (fun x frame =>
    ⟨allowed x _ frame standing.moment, allowed x _ frame (standing.name_eq ▸ synced)⟩)
  apply Logic.wp_mono after
  intro ok v _ result yes
  have here := result yes
  refine ⟨here.standing standing.config_eq standing.name_eq (standing.name_eq ▸ synced)
    ⟨standing.numbered.archives, standing.numbered.next⟩ active.synced, ?_, ?_⟩
  · rw [here.store]
  · rw [here.store]

include grants allowed in
theorem syncIfDue_spec (standing : Standing F config name base total w) :
    L.wp syncIfDue (Succeeds (fun v => Standing F config name base total v ∧ Due config v ∧
      v.store.currentSize = w.store.currentSize)) w := by
  apply members_rule grants standing.here
  intro v _ hereV
  split
  · apply Logic.wp_mono (sync_standing grants allowed (standing.move hereV))
    intro ok u _ result yes
    rcases result yes with ⟨after, counted, size⟩
    refine ⟨after, ?_, by rw [size, hereV.store]⟩
    intro periodic
    rw [counted]
    exact Nat.pos_of_ne_zero periodic
  · next notDue =>
      apply pure_rule grants hereV
      intro u hereU _
      refine ⟨standing.move hereU, ?_, by rw [hereU.store]⟩
      intro periodic
      rw [hereU.store]
      rw [standing.config_eq] at notDue
      omega

include grants allowed in
theorem rotateIfFull_spec (valid : config.Valid) (due : Due config w)
    (standing : Standing F config name base total w) :
    L.wp rotateIfFull (Succeeds (fun v => Standing F config name base total v ∧ Due config v ∧
      v.store.currentSize < config.maxSegmentBytes)) w := by
  rcases standing.active with ⟨file, active⟩
  apply members_rule grants standing.here
  intro v _ hereV
  rw [standing.config_eq]
  split
  · next full =>
      rw [active.size] at full
      apply Logic.wp_mono (rotate_spec grants allowed hereV active standing.config_eq
        standing.name_eq standing.numbered standing.moment full)
      intro ok u _ result yes
      rcases result yes with ⟨standingU, size, counted⟩
      refine ⟨standingU, ?_, ?_⟩
      · intro periodic
        rw [counted]
        exact Nat.pos_of_ne_zero periodic
      · rw [size]
        exact Nat.lt_of_lt_of_le (by decide) valid.room
  · next room =>
      apply pure_rule grants hereV
      intro u hereU _
      refine ⟨standing.move hereU, ?_, ?_⟩
      · intro periodic
        rw [hereU.store]
        exact due periodic
      · rw [hereU.store]
        omega

end Append

theorem write_cases {r : WriteResult} {fs fs' : FileSystem} {fd : Int} {bytes : List UInt8}
    {name : String} {file : File} (found : fs.opened fd = some (name, file))
    (done : FsCall.exec (.write fd bytes) fs r = some fs') :
    (∃ count, r = .written count ∧ count ≤ bytes.length ∧
      file.data.length + count ≤ FileSystem.maxFileBytes ∧
      fs' = fs.setFile name (file.grow (bytes.take count))) ∨
    ((∀ count, r ≠ .written count) ∧ fs' = fs) := by
  cases r with
  | written count =>
      simp only [FsCall.exec, found] at done
      split at done
      · next facts =>
          refine Or.inl ⟨count, rfl, facts.1, facts.2, ?_⟩
          rw [← Option.some.inj done, File.grow, List.length_take, min_eq_left facts.1]
      · simp at done
  | eintr => exact Or.inr ⟨fun count wrong => (by cases wrong), (Option.some.inj done).symm⟩
  | error => exact Or.inr ⟨fun count wrong => (by cases wrong), (Option.some.inj done).symm⟩

theorem File.grow_grow (file : File) (first second : List UInt8) :
    (file.grow first).grow second = file.grow (first ++ second) := by
  simp [File.grow, Nat.add_assoc]

include grants in
theorem writeAll_spec {name : String} {file : File} {bytes : List UInt8} (here : Here F fs store w)
    (opened : fs.fds store.fd = some (.file name)) (entry : fs.entries name = some file)
    (small : file.data.length ≤ FileSystem.maxFileBytes)
    (allowed : ∀ v part, F v → part <+: bytes → J v (fs.setFile name (file.grow part))) :
    L.wp (writeAll store.fd bytes) (Succeeds (fun v =>
      (file.data ++ bytes).length ≤ FileSystem.maxFileBytes ∧
      Here F (fs.setFile name (file.grow bytes)) store v)) w := by
  apply Logic.wp_iterate (fun written v => written ≤ bytes.length ∧
    file.data.length + written ≤ FileSystem.maxFileBytes ∧
    Here F (fs.setFile name (file.grow (bytes.take written))) store v)
  · intro v move _
    refine ⟨Nat.zero_le _, small, ?_⟩
    have none : file.grow (bytes.take 0) = file := by simp [File.grow]
    rw [none, FileSystem.setFile_self entry]
    exact here.rely grants move
  rintro written v keep ⟨inside, bound, hereV⟩
  have found : (fs.setFile name (file.grow (bytes.take written))).opened store.fd =
      some (name, file.grow (bytes.take written)) := by
    simp [FileSystem.opened, FileSystem.setFile, opened]
  have next : ∀ count, ((fs.setFile name (file.grow (bytes.take written))).setFile name
      ((file.grow (bytes.take written)).grow ((bytes.drop written).take count))) =
      fs.setFile name (file.grow (bytes.take (written + count))) := by
    intro count
    rw [FileSystem.setFile_setFile, File.grow_grow, List.take_add]
  rw [writeTurn]
  split
  · next more =>
      apply call_rule grants (.write store.fd _) hereV trivial
      · intro r fs' done u frame
        rcases write_cases found done with ⟨count, _, _, _, same⟩ | ⟨_, same⟩
        · rw [same, next]
          exact allowed u _ frame (List.take_prefix _ _)
        · rw [same]
          exact allowed u _ frame (List.take_prefix _ _)
      intro r fs' done u _ hereU
      rcases write_cases found done with ⟨count, rfl, most, size, rfl⟩ | ⟨failed, rfl⟩
      · rw [next] at hereU
        by_cases positive : 0 < count
        · simp only [positive, if_true]
          apply pure_rule grants hereU
          intro x hereX
          rw [List.length_drop] at most
          simp only [File.grow, List.length_append, List.length_take, min_eq_left inside] at size
          exact ⟨by omega, by omega, hereX⟩
        · simp only [positive, if_false]
          apply log_rule grants rfl hereU
          intro x _ _ y _ _
          exact Succeeds.refused y
      · cases r with
        | written count => exact absurd rfl (failed count)
        | eintr =>
            apply pure_rule grants hereU
            intro x hereX
            exact ⟨inside, bound, hereX⟩
        | error =>
            apply log_rule grants rfl hereU
            intro x _ _ y _ _
            exact Succeeds.refused y
  · next done =>
      apply pure_rule grants hereV
      intro u hereU _
      have all : written = bytes.length := by omega
      subst all
      rw [List.take_length] at hereU
      exact ⟨by rw [List.length_append]; exact bound, hereU⟩

section Batch

variable {config : FileStoreConfig} {name : String} {base start batch : List UInt8}
  (allowed : ∀ v fs' part, F v → part <+: batch → Moment config name base (start ++ part) fs' → J v fs')

def Stored (F : World → Prop) (config : FileStoreConfig) (name : String)
    (base start batch : List UInt8) (next : Nat) (w : World) : Prop :=
  next ≤ batch.length ∧ kFrameSize ∣ next ∧ Due config w ∧
    Standing F config name base (start ++ batch.take next) w

include grants allowed in
theorem writeChunk_spec {offset count : Nat} {file : File}
    (standing : Standing F config name base (start ++ batch.take offset) w)
    (active : Active w.fs w.store file) (chunk : Chunk w.store (batch.length - offset) count) :
    L.wp (writeAll w.store.fd ((batch.drop offset).take count)) (Succeeds (fun v =>
      (file.data ++ (batch.drop offset).take count).length ≤ FileSystem.maxFileBytes ∧
      Here F (w.fs.setFile name (file.grow ((batch.drop offset).take count))) w.store v)) w := by
  have entry := active.entry
  have opened := active.opened
  rw [standing.name_eq] at entry opened
  apply writeAll_spec grants standing.here opened entry active.small
  intro v part frame inside
  have size : part.length ≤ count := by
    have le := inside.length_le
    rw [List.length_take] at le
    omega
  have total : batch.take offset ++ part <+: batch := by
    have whole := List.prefix_append_right_inj (batch.take offset) |>.mpr
      (inside.trans (List.take_prefix _ _))
    rwa [List.take_append_drop] at whole
  apply allowed v _ (batch.take offset ++ part) frame total
  rw [← List.append_assoc]
  apply standing.moment.setFile entry part rfl
  · intro periodic
    have interval := chunk.interval (by rw [standing.config_eq]; exact periodic)
    rw [standing.config_eq, active.unsynced] at interval
    change file.unsynced + part.length ≤ _
    omega
  · intro _
    have fits := chunk.fits
    rw [standing.config_eq, active.size] at fits
    simp only [File.grow, List.length_append]
    omega

include grants allowed in
theorem appendChunk_spec {offset : Nat} (keep : L.inv w) (valid : config.Valid)
    (whole : kFrameSize ∣ batch.length) (more : offset < batch.length)
    (stored : Stored F config name base start batch offset w) :
    L.wp (appendChunk batch offset) (fun next v => ∀ n, next = some n →
      offset < n ∧ Stored F config name base start batch n v) w := by
  rcases stored with ⟨inside, aligned, due, standing⟩
  have here := fun v fs' frame => allowed v fs' (batch.take offset) frame (List.take_prefix _ _)
  have refused : ∀ v : World, ∀ n, (none : Option Nat) = some n →
      offset < n ∧ Stored F config name base start batch n v := by
    intro v n wrong
    cases wrong
  apply check_rule keep refused (rotateIfFull_spec grants here valid due standing)
  rintro a keepA ⟨standingA, _, room⟩
  apply check_rule keepA refused (syncIfDue_spec grants here standingA)
  rintro b keepB ⟨standingB, dueB, sizeB⟩
  rcases standingB.active with ⟨file, active⟩
  apply members_rule grants standingB.here
  intro c keepC hereC
  have chunk : Chunk b.store (batch.length - offset) (chunkSize b.store (batch.length - offset)) := by
    apply chunkSize_chunk
    · rw [standingB.config_eq]
      exact valid
    · omega
    · exact Nat.dvd_sub whole aligned
    · rw [active.size]
      exact active.aligned
    · rw [active.unsynced]
      exact active.whole
    · rw [standingB.config_eq, sizeB]
      exact room
    · rw [standingB.config_eq]
      exact dueB
  generalize chunkSize b.store (batch.length - offset) = count at chunk
  have standingC := standingB.move hereC
  have fsC := hereC.fs
  have storeC := hereC.store
  rw [← storeC] at chunk active ⊢
  rw [← fsC] at active
  apply check_rule keepC refused (writeChunk_spec grants allowed standingC active chunk)
  rintro d keepD ⟨bound, hereD⟩
  have length : ((batch.drop offset).take count).length = count := by
    have le := chunk.count_le
    rw [List.length_take, List.length_drop]
    omega
  have grown := active.grow (by rw [length]; exact chunk.whole) bound
  rw [length] at grown
  apply update_rule grants hereD
  intro e keepE hereE
  have standingE : Standing F config name base (start ++ batch.take (offset + count)) e := by
    rw [← standingC.name_eq] at hereE
    refine hereE.standing standingC.config_eq standingC.name_eq ?_
      ⟨standingC.numbered.archives, standingC.numbered.next⟩ grown
    rw [standingC.name_eq, List.take_add, ← List.append_assoc]
    apply standingC.moment.setFile (standingC.name_eq ▸ active.entry) _ rfl
    · intro periodic
      have interval := chunk.interval (by rw [standingC.config_eq]; exact periodic)
      rw [standingC.config_eq, active.unsynced] at interval
      change file.unsynced + _ ≤ _
      rw [length]
      exact interval
    · intro _
      have fits := chunk.fits
      rw [standingC.config_eq, active.size] at fits
      simp only [File.grow, List.length_append, length]
      exact fits
  have there := fun v fs' frame =>
    allowed v fs' (batch.take (offset + count)) frame (List.take_prefix _ _)
  apply check_rule keepE refused (syncIfDue_spec grants there standingE)
  rintro f _ ⟨standingF, dueF, _⟩
  apply pure_rule grants standingF.here
  intro g hereG n same
  cases same
  have positive := chunk.positive
  have most := chunk.count_le
  refine ⟨by omega, by omega, Nat.dvd_add aligned chunk.whole, ?_, standingF.move hereG⟩
  intro periodic
  rw [hereG.store]
  exact dueF periodic

include grants allowed in
/-- A batch that is accepted is stored, whole and at the end. -/
theorem appendFrames_spec (valid : config.Valid) (due : Due config w)
    (standing : Standing F config name base start w) :
    L.wp (appendFrames batch) (Succeeds (fun v => kFrameSize ∣ batch.length ∧ Due config v ∧
      Standing F config name base (start ++ batch) v)) w := by
  apply members_rule grants standing.here
  intro v _ hereV
  split
  · apply pure_rule grants hereV
    intro u _
    exact Succeeds.refused u
  split
  · exact refuse_rule grants rfl hereV
  next proper =>
  have whole : kFrameSize ∣ batch.length := by
    apply Nat.dvd_of_mod_eq_zero
    by_contra wrong
    exact proper (Or.inr wrong)
  apply Logic.wp_iterate (fun offset => Stored F config name base start batch offset)
  · intro u move _
    have hereU := hereV.rely grants move
    refine ⟨Nat.zero_le _, Nat.dvd_zero _, ?_, ?_⟩
    · intro periodic
      rw [hereU.store]
      exact due periodic
    · rw [List.take_zero, List.append_nil]
      exact standing.move hereU
  intro offset u keepU stored
  rw [appendTurn]
  split
  · next more =>
      apply Logic.wp_seq keepU (appendChunk_spec grants allowed keepU valid whole more stored)
      intro next x _ result
      cases next with
      | none =>
          intro y _ _
          exact Succeeds.refused y
      | some n =>
          rcases result n rfl with ⟨_, inside, aligned, dueX, standingX⟩
          apply pure_rule grants standingX.here
          intro y hereY
          refine ⟨inside, aligned, ?_, standingX.move hereY⟩
          intro periodic
          rw [hereY.store]
          exact dueX periodic
  · next done =>
      rcases stored with ⟨inside, _, dueU, standingU⟩
      have all : offset = batch.length := by omega
      subst all
      rw [List.take_length] at standingU
      apply pure_rule grants standingU.here
      intro y hereY _
      refine ⟨whole, ?_, standingU.move hereY⟩
      intro periodic
      rw [hereY.store]
      exact dueU periodic

end Batch
end

end TelemetryServer.Storage
