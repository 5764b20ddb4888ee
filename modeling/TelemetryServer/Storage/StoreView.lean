import TelemetryServer.Lib.Segments
import TelemetryServer.Storage.FileStore

namespace TelemetryServer.Storage

open Protocol Segmented

/-- What `validateConfig` accepts. -/
structure FileStoreConfig.Valid (config : FileStoreConfig) : Prop where
  room : kFrameSize ≤ config.maxSegmentBytes
  whole : kFrameSize ∣ config.maxSegmentBytes
  interval : config.syncEveryBytes ≤ config.maxSegmentBytes

def roundUp (n : Nat) : Nat := (n + (kFrameSize - 1)) / kFrameSize * kFrameSize

namespace FileSystem

def data (fs : FileSystem) (name : String) : List UInt8 :=
  match fs.entries name with
  | some file => file.data
  | none => []

/-- The archives in rotation order, then the active file. -/
def view (fs : FileSystem) (name : String) : Log UInt8 :=
  { archived := fs.archives.map fs.data, active := fs.data name }

def log (fs : FileSystem) (name : String) : List UInt8 := (fs.view name).contents

/-- The archives are there, apart from the active file and synced. One of them has replaced
another only where a rename has replaced a file. -/
structure Kept (fs : FileSystem) (name : String) : Prop where
  there : ∀ a ∈ fs.archives, a ≠ name ∧ ∃ file, fs.entries a = some file ∧ file.unsynced = 0
  distinct : fs.replaced = false → fs.archives.Nodup

theorem data_setFile (fs : FileSystem) (name : String) (file : File) :
    (fs.setFile name file).data name = file.data := by
  simp [data, setFile]

theorem setFile_self {fs : FileSystem} {name : String} {file : File}
    (entry : fs.entries name = some file) : fs.setFile name file = fs := by
  rw [setFile, ← entry, Function.update_eq_self]

theorem setFile_setFile (fs : FileSystem) (name : String) (first second : File) :
    (fs.setFile name first).setFile name second = fs.setFile name second := by
  simp [setFile]

theorem setFile_openAs (fs : FileSystem) (name : String) (first second : File) (fd : Int)
    (target : OpenFile) : ((fs.setFile name first).openAs fd target).setFile name second =
      (fs.setFile name second).openAs fd target := by
  simp [setFile, openAs]

theorem Kept.archived_eq {fs fs' : FileSystem} {name : String} (kept : fs.Kept name)
    (same : fs'.archives = fs.archives)
    (others : ∀ other, other ≠ name → fs'.entries other = fs.entries other) :
    fs'.archives.map fs'.data = fs.archives.map fs.data := by
  rw [same]
  apply List.map_congr_left
  intro a member
  rw [data, data, others a (kept.there a member).1]

theorem Kept.of_others {fs fs' : FileSystem} {name : String} (kept : fs.Kept name)
    (flag : fs'.replaced = fs.replaced) (same : fs'.archives = fs.archives)
    (others : ∀ other, other ≠ name → fs'.entries other = fs.entries other) : fs'.Kept name := by
  constructor
  · intro a member
    rw [same] at member
    have old := kept.there a member
    exact ⟨old.1, by rw [others a old.1]; exact old.2⟩
  · rw [flag, same]
    exact kept.distinct

theorem Kept.of_none {fs : FileSystem} {name : String} (none : fs.archives = []) : fs.Kept name := by
  constructor
  · intro a member
    rw [none] at member
    cases member
  · intro _
    rw [none]
    exact List.nodup_nil

theorem Kept.rename {fs : FileSystem} {name target : String} {file : File} (kept : fs.Kept name)
    (clean : file.unsynced = 0) (apart : target ≠ name) : (fs.rename name target file).Kept name := by
  constructor
  · intro a member
    rcases List.mem_append.mp member with old | new
    · have before := kept.there a old
      refine ⟨before.1, ?_⟩
      by_cases same : a = target
      · exact ⟨file, by simp [FileSystem.rename, same], clean⟩
      · simpa [FileSystem.rename, Function.update_of_ne same, Function.update_of_ne before.1]
          using before.2
    · rw [List.mem_singleton.mp new]
      exact ⟨apart, file, by simp [FileSystem.rename], clean⟩
  · intro unique
    simp only [FileSystem.rename, Bool.or_eq_false_iff] at unique
    refine List.nodup_append.mpr ⟨kept.distinct unique.1, by simp, ?_⟩
    intro a old b new
    rcases (kept.there a old).2 with ⟨other, entry, _⟩
    rintro rfl
    rw [List.mem_singleton.mp new] at entry
    rw [entry] at unique
    simp at unique

/-- A rename to a name no archive has archives the active file. -/
theorem view_rename {fs : FileSystem} {name target : String} {file : File} (kept : fs.Kept name)
    (entry : fs.entries name = some file) (apart : target ≠ name)
    (unique : (fs.rename name target file).archives.Nodup) :
    (fs.rename name target file).view name = (fs.view name).rotate := by
  have new : target ∉ fs.archives := by
    intro old
    exact (List.nodup_append.mp unique).2.2 target old target (List.mem_singleton_self _) rfl
  have archives : (fs.rename name target file).archives.map (fs.rename name target file).data =
      fs.archives.map fs.data ++ [fs.data name] := by
    simp only [FileSystem.rename, List.map_append, List.map_cons, List.map_nil]
    congr 1
    · apply List.map_congr_left
      intro a member
      have other : a ≠ target := fun same => new (same ▸ member)
      simp [data, Function.update_of_ne other, Function.update_of_ne (kept.there a member).1]
    · simp [data, entry]
  have gone : (fs.rename name target file).data name = [] := by
    simp [data, FileSystem.rename, Function.update_of_ne apart.symm]
  rw [view, archives, gone]
  rfl

end FileSystem

theorem archiveName_ne (fileName : String) (sec : Int) (nsec sequence : Nat) :
    archiveName fileName sec nsec sequence ≠ fileName := by
  intro same
  have lengths := congrArg String.length same
  simp only [archiveName, String.length_append] at lengths
  have dot : ".segment".length = 8 := by decide
  omega

/-- The store has its active file open, and its counters describe it. -/
structure Active (fs : FileSystem) (store : FileStore) (file : File) : Prop where
  fd : 0 ≤ store.fd
  opened : fs.fds store.fd = some (.file store.fileName)
  directory : store.directoryFd ≠ -1
  entry : fs.entries store.fileName = some file
  size : store.currentSize = file.data.length
  aligned : kFrameSize ∣ file.data.length
  small : file.data.length ≤ FileSystem.maxFileBytes
  unsynced : store.unsyncedBytes = file.unsynced
  whole : kFrameSize ∣ file.unsynced
  written : file.unsynced ≤ file.data.length

def File.grow (file : File) (new : List UInt8) : File :=
  { file with data := file.data ++ new, unsynced := file.unsynced + new.length }

namespace Active

variable {fs : FileSystem} {store : FileStore} {file : File}

theorem synced (active : Active fs store file) :
    Active (fs.setFile store.fileName { file with unsynced := 0 }) { store with unsyncedBytes := 0 }
      { file with unsynced := 0 } :=
  { active with
    entry := Function.update_self _ _ _
    unsynced := rfl
    whole := Nat.dvd_zero _
    written := Nat.zero_le _ }

theorem grow (active : Active fs store file) {new : List UInt8} (whole : kFrameSize ∣ new.length)
    (bound : (file.data ++ new).length ≤ FileSystem.maxFileBytes) :
    Active (fs.setFile store.fileName (file.grow new))
      { store with
        currentSize := Ipc.u64 (store.currentSize + new.length)
        unsyncedBytes := Ipc.u64 (store.unsyncedBytes + new.length) } (file.grow new) := by
  have size := active.size
  have unsynced := active.unsynced
  have written := active.written
  rw [List.length_append, FileSystem.maxFileBytes] at bound
  refine ⟨active.fd, active.opened, active.directory, Function.update_self _ _ _, ?_, ?_, ?_, ?_, ?_, ?_⟩
  · simp only [File.grow, List.length_append, Ipc.u64]
    omega
  · rw [File.grow, List.length_append]
    exact Nat.dvd_add active.aligned whole
  · rw [File.grow, List.length_append, FileSystem.maxFileBytes]
    exact bound
  · simp only [File.grow, Ipc.u64]
    omega
  · exact Nat.dvd_add active.whole whole
  · simp only [File.grow, List.length_append]
    omega

end Active

/-- What holds between any two steps of a store that has written `total` in all, having
started from `base`. -/
structure Moment (config : FileStoreConfig) (name : String) (base total : List UInt8)
    (fs : FileSystem) : Prop where
  shape : fs.archives.Nodup → Shape config.maxSegmentBytes base (fs.view name)
  total : fs.archives.Nodup → fs.log name = total
  unsynced : config.syncEveryBytes ≠ 0 → ∀ file, fs.entries name = some file →
    file.unsynced ≤ roundUp config.syncEveryBytes
  kept : fs.Kept name

/-- How the directory may look while the active file is opened and its torn tail cut. -/
structure Reopening (fs : FileSystem) (name : String) (fs' : FileSystem) : Prop where
  archives : fs'.archives = fs.archives
  replaced : fs'.replaced = fs.replaced
  others : ∀ other, other ≠ name → fs'.entries other = fs.entries other
  data : fs'.data name = fs.data name ∨ fs'.data name = Blocks.cut kFrameSize (fs.data name)
  unsynced : ∀ file, fs'.entries name = some file → file.unsynced = 0

theorem Reopening.setFile {fs fs' : FileSystem} {name : String} {file : File}
    (reopening : Reopening fs name fs')
    (data : file.data = fs.data name ∨ file.data = Blocks.cut kFrameSize (fs.data name))
    (clean : file.unsynced = 0) : Reopening fs name (fs'.setFile name file) := by
  refine ⟨reopening.archives, reopening.replaced, ?_, ?_, ?_⟩
  · intro other apart
    rw [← reopening.others other apart]
    exact Function.update_of_ne apart _ _
  · rw [FileSystem.data_setFile]
    exact data
  · intro file' entry
    simp only [FileSystem.setFile, Function.update_self, Option.some.injEq] at entry
    rw [← entry]
    exact clean

theorem Reopening.of_openAs {fs fs' : FileSystem} {name : String} {fd : Int} {target : OpenFile}
    (reopening : Reopening (fs.openAs fd target) name fs') : Reopening fs name fs' :=
  ⟨reopening.archives, reopening.replaced, reopening.others, reopening.data, reopening.unsynced⟩

theorem Reopening.opened (fs : FileSystem) {name : String} {file : File} (fd : Int)
    (data : file.data = Blocks.cut kFrameSize (fs.data name)) (clean : file.unsynced = 0) :
    Reopening fs name ((fs.setFile name file).openAs fd (.file name)) := by
  refine ⟨rfl, rfl, fun other apart => Function.update_of_ne apart _ _, Or.inr ?_, ?_⟩
  · rw [← data]
    exact FileSystem.data_setFile fs name file
  · intro file' entry
    simp only [FileSystem.openAs, FileSystem.setFile, Function.update_self, Option.some.injEq] at entry
    rw [← entry]
    exact clean

theorem Reopening.refl {fs : FileSystem} {name : String}
    (clean : ∀ file, fs.entries name = some file → file.unsynced = 0) : Reopening fs name fs :=
  ⟨rfl, rfl, fun _ _ => rfl, Or.inl rfl, clean⟩

theorem Reopening.openAs {fs fs' : FileSystem} {name : String} (reopening : Reopening fs name fs')
    (fd : Int) (target : OpenFile) : Reopening fs name (fs'.openAs fd target) :=
  ⟨reopening.archives, reopening.replaced, reopening.others, reopening.data, reopening.unsynced⟩

/-- The first recovery: the complete frames are there, and no archive. -/
theorem Reopening.moment {config : FileStoreConfig} {fs fs' : FileSystem} {name : String}
    (reopening : Reopening fs name fs') (none : fs.archives = [])
    (data : fs'.data name = Blocks.cut kFrameSize (fs.data name)) :
    Moment config name (Blocks.cut kFrameSize (fs.data name))
      (Blocks.cut kFrameSize (fs.data name)) fs' := by
  have none' : fs'.archives = [] := reopening.archives.trans none
  have view : fs'.view name = { active := Blocks.cut kFrameSize (fs.data name) } := by
    rw [FileSystem.view, none', data]
    rfl
  refine ⟨?_, ?_, ?_, .of_none none'⟩
  · intro _
    rw [view]
    exact Shape.initial
  · intro _
    rw [FileSystem.log, view]
    rfl
  · intro _ file entry
    rw [reopening.unsynced file entry]
    exact Nat.zero_le _

namespace Moment

variable {config : FileStoreConfig} {name : String} {base total : List UInt8} {fs fs' : FileSystem}

theorem of_eq (moment : Moment config name base total fs) (entries : fs'.entries = fs.entries)
    (archives : fs'.archives = fs.archives) (replaced : fs'.replaced = fs.replaced) :
    Moment config name base total fs' := by
  cases fs with
  | mk =>
      cases fs' with
      | mk =>
          simp only at entries archives replaced
          subst entries
          subst archives
          subst replaced
          exact ⟨moment.shape, moment.total, moment.unsynced,
            ⟨moment.kept.there, moment.kept.distinct⟩⟩

theorem of_others (moment : Moment config name base total fs) {total' : List UInt8}
    (archives : fs'.archives = fs.archives) (replaced : fs'.replaced = fs.replaced)
    (others : ∀ other, other ≠ name → fs'.entries other = fs.entries other)
    (unsynced : config.syncEveryBytes ≠ 0 → ∀ file, fs'.entries name = some file →
      file.unsynced ≤ roundUp config.syncEveryBytes)
    (grown : fs.archives.Nodup →
      Shape config.maxSegmentBytes base { archived := (fs.view name).archived, active := fs'.data name } ∧
      (fs.view name).archived.flatten ++ fs'.data name = total') :
    Moment config name base total' fs' := by
  have same : fs'.view name =
      { archived := (fs.view name).archived, active := fs'.data name } := by
    rw [FileSystem.view, moment.kept.archived_eq archives others]
    rfl
  refine ⟨?_, ?_, unsynced, moment.kept.of_others replaced archives others⟩
  · intro unique
    rw [same]
    exact (grown (archives ▸ unique)).1
  · intro unique
    rw [FileSystem.log, same]
    exact (grown (archives ▸ unique)).2

theorem setFile (moment : Moment config name base total fs) {file file' : File}
    (entry : fs.entries name = some file) (new : List UInt8)
    (data : file'.data = file.data ++ new)
    (unsynced : config.syncEveryBytes ≠ 0 → file'.unsynced ≤ roundUp config.syncEveryBytes)
    (fits : new ≠ [] → file'.data.length ≤ config.maxSegmentBytes) :
    Moment config name base (total ++ new) (fs.setFile name file') := by
  have before : fs.data name = file.data := by rw [FileSystem.data, entry]
  have archives : (fs.setFile name file').archives = fs.archives := rfl
  apply moment.of_others archives rfl
  · intro other apart
    exact Function.update_of_ne apart _ _
  · intro periodic file'' entry'
    simp only [FileSystem.setFile, Function.update_self, Option.some.injEq] at entry'
    rw [← entry']
    exact unsynced periodic
  · intro unique
    have shape := moment.shape unique
    have sum := moment.total unique
    rw [FileSystem.data_setFile, data]
    constructor
    · by_cases none : new = []
      · subst none
        rw [List.append_nil, ← before]
        exact shape
      · have grown : Shape config.maxSegmentBytes base ((fs.view name).write new) := by
          apply shape.write
          change (fs.data name ++ new).length ≤ _
          rw [before, ← data]
          exact fits none
        rw [← before]
        exact grown
    · rw [← sum, FileSystem.log, ← before, ← List.append_assoc]
      rfl

theorem synced (moment : Moment config name base total fs) {file : File}
    (entry : fs.entries name = some file) :
    Moment config name base total (fs.setFile name { file with unsynced := 0 }) := by
  have next : Moment config name base (total ++ []) (fs.setFile name { file with unsynced := 0 }) :=
    moment.setFile entry [] (by simp) (fun _ => Nat.zero_le _) (fun wrong => absurd rfl wrong)
  rwa [List.append_nil] at next

theorem rename (moment : Moment config name base total fs) {file : File} {target : String}
    (entry : fs.entries name = some file) (clean : file.unsynced = 0) (apart : target ≠ name)
    (full : config.maxSegmentBytes ≤ file.data.length) :
    Moment config name base total (fs.rename name target file) := by
  have gone : (fs.rename name target file).entries name = none := by
    simp [FileSystem.rename, Function.update_of_ne apart.symm]
  have before : (fs.rename name target file).archives.Nodup → fs.archives.Nodup :=
    fun unique => (List.nodup_append.mp unique).1
  refine ⟨?_, ?_, ?_, moment.kept.rename clean apart⟩
  · intro unique
    rw [FileSystem.view_rename moment.kept entry apart unique]
    apply (moment.shape (before unique)).rotate
    change _ ≤ (fs.data name).length
    rw [FileSystem.data, entry]
    exact full
  · intro unique
    rw [FileSystem.log, FileSystem.view_rename moment.kept entry apart unique, Log.contents_rotate]
    exact moment.total (before unique)
  · intro _ file' entry'
    rw [gone] at entry'
    simp at entry'

theorem reopening (moment : Moment config name base total fs) (again : Reopening fs name fs')
    (whole : Blocks.cut kFrameSize (fs.data name) = fs.data name) :
    Moment config name base total fs' := by
  have data : fs'.data name = fs.data name := by
    rcases again.data with same | cut
    · exact same
    · rw [cut, whole]
  apply moment.of_others again.archives again.replaced again.others
  · intro _ file entry
    rw [again.unsynced file entry]
    exact Nat.zero_le _
  · intro unique
    rw [data]
    exact ⟨moment.shape unique, moment.total unique⟩

end Moment

/-- The frames a chunk is made of. -/
structure Chunk (store : FileStore) (remaining count : Nat) : Prop where
  positive : 0 < count
  whole : kFrameSize ∣ count
  count_le : count ≤ remaining
  fits : store.currentSize + count ≤ store.config.maxSegmentBytes
  interval : store.config.syncEveryBytes ≠ 0 →
    store.unsyncedBytes + count ≤ roundUp store.config.syncEveryBytes

/-- The chunk without the machine arithmetic, which does not wrap here. -/
theorem chunkSize_eq {store : FileStore} {remaining : Nat} (valid : store.config.Valid)
    (room : store.currentSize < store.config.maxSegmentBytes)
    (due : store.config.syncEveryBytes ≠ 0 → store.unsyncedBytes < store.config.syncEveryBytes) :
    chunkSize store remaining =
      if store.config.syncEveryBytes ≠ 0 ∧ store.config.syncEveryBytes - store.unsyncedBytes <
          min remaining (store.config.maxSegmentBytes - store.currentSize) then
        (1 + (store.config.syncEveryBytes - store.unsyncedBytes - 1) / 32) * 32
      else min remaining (store.config.maxSegmentBytes - store.currentSize) := by
  have max_lt := store.config.max_lt
  have interval := valid.interval
  have whole := valid.whole
  simp only [kFrameSize] at whole
  have segment : Ipc.subU64 store.config.maxSegmentBytes store.currentSize =
      store.config.maxSegmentBytes - store.currentSize := by
    rw [Ipc.subU64]
    omega
  by_cases periodic : store.config.syncEveryBytes = 0
  · simp only [chunkSize, segment, periodic, ne_eq, not_true_eq_false, if_false, false_and]
  · have before := due periodic
    have distance : Ipc.subU64 store.config.syncEveryBytes store.unsyncedBytes =
        store.config.syncEveryBytes - store.unsyncedBytes := by
      rw [Ipc.subU64]
      omega
    simp only [chunkSize, segment, distance, periodic, ne_eq, not_false_eq_true, if_true, true_and]
    split
    · next cut =>
        simp only [Ipc.u64, Ipc.subU64, kFrameSize]
        omega
    · rfl

theorem chunkSize_chunk {store : FileStore} {remaining : Nat} (valid : store.config.Valid)
    (some : 0 < remaining) (aligned : kFrameSize ∣ remaining)
    (size : kFrameSize ∣ store.currentSize) (written : kFrameSize ∣ store.unsyncedBytes)
    (room : store.currentSize < store.config.maxSegmentBytes)
    (due : store.config.syncEveryBytes ≠ 0 → store.unsyncedBytes < store.config.syncEveryBytes) :
    Chunk store remaining (chunkSize store remaining) := by
  have maxWhole := valid.whole
  rw [chunkSize_eq valid room due]
  simp only [kFrameSize] at aligned size written maxWhole
  split
  · next cut =>
      have before := due cut.1
      refine ⟨by omega, by simp only [kFrameSize]; omega, by omega, by omega, ?_⟩
      intro _
      simp only [roundUp, kFrameSize]
      omega
  · next whole =>
      refine ⟨by omega, by simp only [kFrameSize]; omega, by omega, by omega, ?_⟩
      intro periodic
      have before := due periodic
      have short : ¬ store.config.syncEveryBytes - store.unsyncedBytes <
          min remaining (store.config.maxSegmentBytes - store.currentSize) := fun cut => whole ⟨periodic, cut⟩
      simp only [roundUp, kFrameSize]
      omega

end TelemetryServer.Storage
