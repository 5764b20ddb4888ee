import TelemetryServer.Storage.AppendOutcomes
import TelemetryServer.Storage.Session

/-! A store after operations that have failed: what still holds, and what is lost. -/

namespace TelemetryServer.Storage

open Protocol Atomic

/-- One use of a store by its owner, who may go on after a failure. -/
inductive StoreRequest
  | openFile (path : String)
  | appendFrames (batch : List UInt8)
  | appendFrame (frame : List UInt8)
  | sync

def StoreRequest.run : StoreRequest → Proc Bool
  | .openFile path => Storage.openFile path
  | .appendFrames batch => Storage.appendFrames batch
  | .appendFrame frame => Storage.appendFrame frame
  | .sync => Storage.sync

def life : List StoreRequest → Proc Unit
  | [] => return ()
  | request :: rest => do
      let _ ← request.run
      life rest

def Lived (w : World) : Prop :=
  ∃ config w₀ requests events, w₀.store = { config := config } ∧ Ran (life requests) w₀ events () w

structure Closed (w : World) : Prop where
  fd : w.store.fd = -1
  directoryFd : w.store.directoryFd = -1
  currentSize : w.store.currentSize = 0
  unsyncedBytes : w.store.unsyncedBytes = 0

def Sound (w : World) : Prop :=
  Closed w ∨ (w.store.fd = -1 ∧ w.store.directoryFd ≠ -1) ∨ ∃ file excess, Attached w file excess

def entersDirectory : Happening → Bool
  | ⟨_, .fs (.openDirectory _), .ok _⟩ => true
  | _ => false

section

variable {w v : World} {events : List Happening} {r : Bool}

theorem validateConfig_outcome (run : Ran validateConfig w events r v) :
    v = w ∧ (r = true ↔ w.store.config.Valid) ∧ events.any entersDirectory = false := by
  have rest := ran_members run
  have refused : ∀ {text events r v}, Ran (refuse (.cerr text)) w events r v → ¬ w.store.config.Valid →
      v = w ∧ (r = true ↔ w.store.config.Valid) ∧ events.any entersDirectory = false := by
    intro text events r v run invalid
    rcases ran_log rfl run with ⟨_, next, rfl⟩
    rcases ran_pure next with ⟨rfl, rfl, rfl⟩
    exact ⟨rfl, ⟨fun wrong => (by cases wrong), fun valid => absurd valid invalid⟩, rfl⟩
  split at rest
  · next small => exact refused rest (fun valid => absurd valid.room (by omega))
  next room =>
  split at rest
  · next odd => exact refused rest (fun valid => odd (Nat.mod_eq_zero_of_dvd valid.whole))
  next whole =>
  split at rest
  · next long => exact refused rest (fun valid => absurd valid.interval (by omega))
  next interval =>
  rcases ran_pure rest with ⟨rfl, rfl, rfl⟩
  refine ⟨rfl, ⟨fun _ => ⟨by omega, ?_, by omega⟩, fun _ => rfl⟩, rfl⟩
  apply Nat.dvd_of_mod_eq_zero
  by_contra wrong
  exact whole wrong

theorem openDirectory_outcome {path : String} (run : Ran (openDirectory path) w events r v) :
    (r = false ∧ events.any entersDirectory = false ∧
      (v.store = w.store ∨ v.store.directoryFd = -1 ∧ v.store.fd = w.store.fd ∧
        v.store.currentSize = w.store.currentSize ∧ v.store.unsyncedBytes = w.store.unsyncedBytes ∧
        v.store.config = w.store.config)) ∨
    (r = true ∧ events.any entersDirectory = true ∧ ∃ fd fs, 0 ≤ fd ∧ v = { w with
      fs := fs
      store := w.store.inDirectory path fd }) := by
  rw [openDirectory] at run
  dsimp only at run
  split at run
  · rcases ran_log rfl run with ⟨_, next, rfl⟩
    rcases ran_pure next with ⟨rfl, rfl, rfl⟩
    exact Or.inl ⟨rfl, rfl, Or.inl rfl⟩
  rcases ran_fs (.openDirectory _) (ran_update run) with ⟨answer, fs, rest, done, next, rfl⟩
  rcases openDirectory_cases done with ⟨fd, rfl, valid, rfl⟩ | ⟨rfl, rfl⟩
  · have stored := ran_update next
    rcases ran_pure stored with ⟨rfl, rfl, rfl⟩
    exact Or.inr ⟨rfl, rfl, fd, _, valid, rfl⟩
  · rcases ran_log rfl (ran_update next) with ⟨_, last, rfl⟩
    rcases ran_pure last with ⟨rfl, rfl, rfl⟩
    exact Or.inl ⟨rfl, rfl, Or.inr ⟨rfl, rfl, rfl, rfl, rfl⟩⟩

theorem openDirectory_granted {path : String} (named : (pathFilename path).isEmpty = false)
    (run : Ran (openDirectory path) w events r v) (granted : ∀ event ∈ events, Granted event) :
    r = true := by
  rw [openDirectory] at run
  simp only [named, Bool.false_eq_true, if_false] at run
  rcases ran_fs (.openDirectory _) (ran_update run) with ⟨answer, fs, rest, done, next, rfl⟩
  rcases granted_cons.mp granted with ⟨⟨fd, rfl⟩, _⟩
  have stored := ran_update next
  exact (ran_pure stored).2.1

theorem openFile_refused {path : String} (busy : w.store.fd ≠ -1 ∨ w.store.directoryFd ≠ -1)
    (run : Ran (openFile path) w events r v) :
    r = false ∧ v = w ∧ events = [⟨w, .log (.cerr "[storage] file already open\n"), ()⟩] := by
  have rest := ran_members run
  simp only [busy, if_true] at rest
  rcases ran_log rfl rest with ⟨_, next, rfl⟩
  rcases ran_pure next with ⟨rfl, rfl, rfl⟩
  exact ⟨rfl, rfl, rfl⟩

/-- What an attempt to open a closed store leads to. -/
structure Attempt (w v : World) (events : List Happening) (r : Bool) : Prop where
  config : v.store.config = w.store.config
  fate : (r = false ∧ events.any entersDirectory = false ∧ Closed v) ∨
    (events.any entersDirectory = true ∧ v.store.config.Valid ∧ v.store.directoryFd ≠ -1 ∧
      ((r = false ∧ v.store.fd = -1) ∨ ∃ file excess, Attached v file excess))

theorem Closed.prepared {path : String} {fd : Int} {fs : FileSystem} (closed : Closed w)
    (valid : w.store.config.Valid) (opened : 0 ≤ fd) :
    Prepared { w with fs := fs, store := w.store.inDirectory path fd } := by
  refine ⟨valid, ?_, closed.currentSize, closed.unsyncedBytes⟩
  change fd ≠ -1
  omega

theorem openFile_outcome {path : String} (closed : Closed w) (run : Ran (openFile path) w events r v) :
    Attempt w v events r := by
  have run₀ := ran_members run
  simp only [closed.fd, closed.directoryFd, ne_eq, not_true_eq_false, or_self, if_false] at run₀
  rcases ran_check run₀ with ⟨failed, rfl⟩ | ⟨a, events₁, tail₁, checked, run₁, rfl⟩
  · rcases validateConfig_outcome failed with ⟨rfl, _, outside⟩
    exact ⟨rfl, Or.inl ⟨rfl, outside, closed⟩⟩
  rcases validateConfig_outcome checked with ⟨rfl, valid, outside₁⟩
  rcases ran_check run₁ with ⟨failed, rfl⟩ | ⟨b, events₂, tail₂, entered, run₂, rfl⟩
  · rcases openDirectory_outcome failed with ⟨_, outside, fate⟩ | ⟨wrong, _⟩
    · have left : Closed v ∧ v.store.config = a.store.config := by
        rcases fate with same | ⟨directoryFd, fd, currentSize, unsyncedBytes, config⟩
        · exact ⟨⟨by rw [same, closed.fd], by rw [same, closed.directoryFd],
            by rw [same, closed.currentSize], by rw [same, closed.unsyncedBytes]⟩, by rw [same]⟩
        · exact ⟨⟨fd.trans closed.fd, directoryFd, currentSize.trans closed.currentSize,
            unsyncedBytes.trans closed.unsyncedBytes⟩, config⟩
      refine ⟨left.2, Or.inl ⟨rfl, ?_, left.1⟩⟩
      rw [List.any_append, outside₁, outside]
      rfl
    · cases wrong
  rcases openDirectory_outcome entered with ⟨wrong, _⟩ | ⟨_, inside, fd, fs, opened, rfl⟩
  · cases wrong
  have entering : (events₁ ++ (events₂ ++ tail₂)).any entersDirectory = true := by
    rw [List.any_append, List.any_append, inside]
    simp
  have prepared : Prepared { a with fs := fs, store := a.store.inDirectory path fd } :=
    closed.prepared (valid.mp rfl) opened
  have reached : ∀ {events ok}, Ran openActiveFile { a with
      fs := fs
      store := a.store.inDirectory path fd } events ok v → (r = true → ok = true) →
      Attempt a v (events₁ ++ (events₂ ++ tail₂)) r := by
    intro events ok opening implied
    have after := openActiveFile_outcome prepared opening
    have config : v.store.config = a.store.config := after.config
    refine ⟨config, Or.inr ⟨entering, by rw [config]; exact valid.mp rfl, ?_, ?_⟩⟩
    · rw [after.directoryFd]
      exact prepared.directory
    · rcases after.fate with ⟨failed, gone⟩ | ⟨file, excess, held, _⟩
      · refine Or.inl ⟨?_, gone⟩
        cases r with
        | false => rfl
        | true => exact absurd (implied rfl) (by simp [failed])
      · exact Or.inr ⟨file, excess, held⟩
  rcases ran_check run₂ with ⟨failed, rfl⟩ | ⟨c, events₃, tail₃, opening, run₃, rfl⟩
  · exact reached failed (fun wrong => absurd wrong (by simp))
  · rcases ran_log rfl (ran_members run₃) with ⟨_, last, _⟩
    rcases ran_pure last with ⟨_, rfl, rfl⟩
    exact reached opening (fun _ => rfl)

theorem openFile_granted {path : String} (closed : Closed w) (valid : w.store.config.Valid)
    (named : (pathFilename path).isEmpty = false) (run : Ran (openFile path) w events r v)
    (granted : ∀ event ∈ events, Granted event) : r = true := by
  have run₀ := ran_members run
  simp only [closed.fd, closed.directoryFd, ne_eq, not_true_eq_false, or_self, if_false] at run₀
  rcases ran_check run₀ with ⟨failed, rfl⟩ | ⟨a, events₁, tail₁, checked, run₁, rfl⟩
  · exact (validateConfig_outcome failed).2.1.mpr valid
  rcases validateConfig_outcome checked with ⟨rfl, _, _⟩
  have granted₁ := (granted_append.mp granted).2
  rcases ran_check run₁ with ⟨failed, rfl⟩ | ⟨b, events₂, tail₂, entered, run₂, rfl⟩
  · exact openDirectory_granted named failed granted₁
  rcases openDirectory_outcome entered with ⟨wrong, _⟩ | ⟨_, _, fd, fs, opened, rfl⟩
  · cases wrong
  have granted₂ := (granted_append.mp granted₁).2
  rcases ran_check run₂ with ⟨failed, rfl⟩ | ⟨c, events₃, tail₃, opening, run₃, rfl⟩
  · exact openActiveFile_granted (closed.prepared valid opened) failed granted₂
  · rcases ran_log rfl (ran_members run₃) with ⟨_, last, _⟩
    exact (ran_pure last).2.1

/-- Whatever a store is asked to do, it stays sound. -/
theorem StoreRequest.sound (request : StoreRequest) (sound : Sound w)
    (run : Ran request.run w events r v) : Sound v := by
  have appends : ∀ {frames}, Ran (Storage.appendFrames frames) w events r v → Sound v := by
    intro frames run
    rcases sound with closed | ⟨fd, directory⟩ | ⟨file, excess, held⟩
    · rw [(appendFrames_closed closed.fd run).2.1]
      exact Or.inl closed
    · rw [(appendFrames_closed fd run).2.1]
      exact Or.inr (Or.inl ⟨fd, directory⟩)
    · have filed := appendFrames_outcome held run
      rcases filed.fate with ⟨_, fd⟩ | ⟨file', extra, after, _⟩
      · exact Or.inr (Or.inl ⟨fd, by rw [filed.directoryFd]; exact held.directory⟩)
      · exact Or.inr (Or.inr ⟨file', _, after⟩)
  cases request with
  | openFile path =>
      rcases sound with closed | ⟨fd, directory⟩ | ⟨file, excess, held⟩
      · have attempt := openFile_outcome closed run
        rcases attempt.fate with ⟨_, _, again⟩ | ⟨_, _, directory, ⟨_, fd⟩ | held⟩
        · exact Or.inl again
        · exact Or.inr (Or.inl ⟨fd, directory⟩)
        · exact Or.inr (Or.inr held)
      · rw [(openFile_refused (Or.inr directory) run).2.1]
        exact Or.inr (Or.inl ⟨fd, directory⟩)
      · rw [(openFile_refused (Or.inl held.fd) run).2.1]
        exact Or.inr (Or.inr ⟨file, excess, held⟩)
  | appendFrames batch => exact appends run
  | appendFrame frame => exact appends run
  | sync =>
      rcases sound with closed | ⟨fd, directory⟩ | ⟨file, excess, held⟩
      · rw [(sync_closed closed.fd run).2.1]
        exact Or.inl closed
      · rw [(sync_closed fd run).2.1]
        exact Or.inr (Or.inl ⟨fd, directory⟩)
      · rcases sync_outcome held run with ⟨file', after, _⟩
        exact Or.inr (Or.inr ⟨file', excess, after⟩)

theorem life_sound (requests : List StoreRequest) (sound : Sound w)
    (run : Ran (life requests) w events () v) : Sound v := by
  induction requests generalizing w events with
  | nil =>
      rw [(ran_pure run).2.2]
      exact sound
  | cons request rest ih =>
      rcases Prog.Trace.bind_iff.mp run with ⟨_, u, _, _, first, next, _⟩
      exact ih (request.sound sound first) next

theorem Lived.sound (lived : Lived w) : Sound w := by
  rcases lived with ⟨config, w₀, requests, events, fresh, run⟩
  apply life_sound requests _ run
  exact Or.inl ⟨by rw [fresh], by rw [fresh], by rw [fresh], by rw [fresh]⟩

end

/-- Successive appends, until one of them fails. -/
def appendAll : List (List UInt8) → Proc Bool
  | [] => return true
  | batch :: rest => do
      if !(← appendFrames batch) then return false
      appendAll rest

def Counted (w : World) : Prop :=
  ∃ name file, w.fs.opened w.store.fd = some (name, file) ∧ w.store.currentSize = file.data.length

/-- The store knows the size of its file, and what it appends from now on lies at whole
frames within the segment limit. -/
structure Undamaged (w : World) : Prop where
  counted : Counted w
  later : ∀ batches events v, Ran (appendAll batches) w events true v →
    (∀ event ∈ events, Placed w.store.config.maxSegmentBytes event) ∧
    (batches ≠ [] → Counted v ∧ v.store.currentSize ≤ w.store.config.maxSegmentBytes)

section

variable {w v : World} {file : File} {excess : Nat} {events : List Happening}

theorem Attached.counted_iff (held : Attached w file excess) : Counted w ↔ excess = 0 := by
  have size := held.size
  constructor
  · rintro ⟨name, file', found, same⟩
    rw [held.found] at found
    cases found
    omega
  · intro none
    exact ⟨_, file, held.found, by omega⟩

theorem appendAll_placed (batches : List (List UInt8)) (held : Attached w file 0)
    (run : Ran (appendAll batches) w events true v) :
    (∀ event ∈ events, Placed w.store.config.maxSegmentBytes event) ∧
    (batches ≠ [] → Counted v ∧ v.store.currentSize ≤ w.store.config.maxSegmentBytes) := by
  induction batches generalizing w file events with
  | nil =>
      rcases ran_pure run with ⟨rfl, _, _⟩
      exact ⟨by simp, fun wrong => absurd rfl wrong⟩
  | cons batch rest ih =>
      rcases ran_check run with ⟨_, wrong⟩ | ⟨u, first, last, appended, next, rfl⟩
      · cases wrong
      have filed := appendFrames_outcome held appended
      rcases filed.held with ⟨_, within, file', after⟩
      have none : carried first 0 = 0 := by
        rw [carried]
        split <;> rfl
      rw [none] at after
      rcases ih after next with ⟨placed, ends⟩
      rw [filed.config] at placed ends
      constructor
      · intro event member
        rcases List.mem_append.mp member with old | new
        · exact filed.placed rfl event old
        · exact placed event new
      · intro _
        cases rest with
        | nil =>
            rcases ran_pure next with ⟨_, _, rfl⟩
            rw [filed.config] at within
            exact ⟨after.counted_iff.mpr rfl, within⟩
        | cons batch' rest' => exact ends (by simp)

theorem Attached.undamaged_iff (held : Attached w file excess) : Undamaged w ↔ excess = 0 := by
  constructor
  · intro undamaged
    exact held.counted_iff.mp undamaged.counted
  · rintro rfl
    exact ⟨held.counted_iff.mpr rfl, fun batches events v run => appendAll_placed batches held run⟩

/-- A failed append leaves a store undamaged exactly if it has not left a write unfinished
and the store was not damaged before, or has since moved the file away. -/
theorem failed_append_undamaged {batch : List UInt8} (lived : Lived w) (opened : w.store.fd ≠ -1)
    (run : Ran (appendFrames batch) w events false v) (still : v.store.fd ≠ -1) :
    Undamaged v ↔ torn events = false ∧ (Counted w ∨ renamed events = true) := by
  rcases lived.sound with closed | ⟨closed, _⟩ | ⟨file, excess, held⟩
  · exact absurd closed.fd opened
  · exact absurd closed opened
  rcases (appendFrames_outcome held run).fate with ⟨_, gone⟩ | ⟨file', extra, after, part, _⟩
  · exact absurd gone still
  rw [after.undamaged_iff, held.counted_iff, carried]
  cases moved : renamed events with
  | true =>
      cases unfinished : torn events with
      | true =>
          have more := part.mp unfinished
          simp
          omega
      | false =>
          have none : ¬ 0 < extra := fun more => absurd (part.mpr more) (by simp [unfinished])
          simp
          omega
  | false =>
      cases unfinished : torn events with
      | true =>
          have more := part.mp unfinished
          simp
          omega
      | false =>
          have none : ¬ 0 < extra := fun more => absurd (part.mpr more) (by simp [unfinished])
          simp
          omega

end

def fullDisk (n : Nat) : (call : Call) → World → call.Resp
  | .fs (.write _ bytes), _ => if bytes.length = kFrameSize then .written 16 else .error
  | call, w => Calm.answer n call w

def brokenDisk (n : Nat) : (call : Call) → World → call.Resp
  | .fs (.fdatasync _), _ => .error
  | call, w => Calm.answer n call w

def opened (config : FileStoreConfig) : World :=
  match Prog.perform World.exec Calm.answer 40 (life [.openFile "t"]) (emptyDirectory config) with
  | some (_, _, w) => w
  | none => emptyDirectory config

unseal pathFilename parentPath in
/-- One frame whose sync fails: the frame is counted, and later frames follow it. -/
theorem failed_append_undamaged_unsynced : ∃ v : World, v.store.currentSize = 32 ∧ Undamaged v := by
  have run : Ran (life [.openFile "t"]) (emptyDirectory { maxSegmentBytes := 64, syncEveryBytes := 32 })
      _ () (opened { maxSegmentBytes := 64, syncEveryBytes := 32 }) :=
    Prog.perform_trace Calm.answer 40 rfl
  have failed : Ran (appendFrames (List.replicate 32 0))
      (opened { maxSegmentBytes := 64, syncEveryBytes := 32 }) _ false _ :=
    Prog.perform_trace brokenDisk 40 rfl
  exact ⟨_, rfl, (failed_append_undamaged ⟨_, _, _, _, rfl, run⟩ (by decide) failed (by decide)).mpr
    ⟨rfl, Or.inl ⟨_, _, rfl, rfl⟩⟩⟩

unseal pathFilename parentPath in
/-- Half a frame is written before the disk is full: the store takes the file for empty. -/
theorem torn_append_damages : ¬ ∀ (w v : World) (batch : List UInt8) (events : List Happening),
    Lived w → w.store.fd ≠ -1 → Ran (appendFrames batch) w events false v → v.store.fd ≠ -1 →
    Undamaged v := by
  intro always
  have run : Ran (life [.openFile "t"]) (emptyDirectory {}) _ () (opened {}) :=
    Prog.perform_trace Calm.answer 40 rfl
  have failed : Ran (appendFrames (List.replicate 32 0)) (opened {}) _ false _ :=
    Prog.perform_trace fullDisk 40 rfl
  have undamaged := always _ _ _ _ ⟨_, _, _, _, rfl, run⟩ (by decide) failed (by decide)
  rcases undamaged.counted with ⟨name, file, found, size⟩
  cases found
  cases size

/-- A closed store: it refuses to work without touching anything, and `openFile` works
again. -/
structure Shut (w : World) : Prop where
  appendFrames : ∀ batch events r v,
    Ran (appendFrames batch) w events r v ↔ events = [] ∧ r = false ∧ v = w
  appendFrame : ∀ frame events r v,
    Ran (appendFrame frame) w events r v ↔ events = [] ∧ r = false ∧ v = w
  sync : ∀ events r v, Ran sync w events r v ↔ events = [] ∧ r = false ∧ v = w
  openFile : w.store.config.Valid → ∀ path events r v, (pathFilename path).isEmpty = false →
    Ran (openFile path) w events r v → (∀ event ∈ events, Granted event) → r = true

theorem Closed.shut {w : World} (closed : Closed w) : Shut w := by
  have appends : ∀ batch events r v,
      Ran (appendFrames batch) w events r v ↔ events = [] ∧ r = false ∧ v = w := by
    intro batch events r v
    constructor
    · intro run
      rcases appendFrames_closed closed.fd run with ⟨answer, same, none⟩
      exact ⟨none, answer, same⟩
    · rintro ⟨rfl, rfl, rfl⟩
      apply ran_members_iff.mpr
      simp only [closed.fd, if_true]
      exact .pure _ _
  refine ⟨appends, appends, ?_, ?_⟩
  · intro events r v
    constructor
    · intro run
      rcases sync_closed closed.fd run with ⟨answer, same, none⟩
      exact ⟨none, answer, same⟩
    · rintro ⟨rfl, rfl, rfl⟩
      apply ran_members_iff.mpr
      simp only [closed.fd, if_true]
      exact .pure _ _
  · intro valid path events r v named run granted
    exact openFile_granted closed valid named run granted

unseal pathFilename in
theorem Shut.directoryFd {w : World} (shut : Shut w) (valid : w.store.config.Valid) :
    w.store.directoryFd = -1 := by
  by_contra held
  have refused : Ran (Storage.openFile "t") w [⟨w, .log (.cerr "[storage] file already open\n"), ()⟩] false w := by
    apply ran_members_iff.mpr
    have busy : w.store.fd ≠ -1 ∨ w.store.directoryFd ≠ -1 := Or.inr held
    simp only [busy, if_true]
    exact .call _ _ rfl (.pure _ _)
  have wrong := shut.openFile valid "t" _ _ _ (by decide) refused (by
    intro event member
    cases List.mem_singleton.mp member
    trivial)
  cases wrong

/-- A failed `openFile` leaves the store closed exactly if it has not come as far as
opening the directory. -/
theorem failed_open_shuts {w v : World} {path : String} {events : List Happening} (lived : Lived w)
    (closed : w.store.fd = -1) (outside : w.store.directoryFd = -1)
    (run : Ran (openFile path) w events false v) : Shut v ↔ events.any entersDirectory = false := by
  have start : Closed w := by
    rcases lived.sound with start | ⟨_, inside⟩ | ⟨file, excess, held⟩
    · exact start
    · exact absurd outside inside
    · exact absurd closed held.fd
  rcases (openFile_outcome start run).fate with ⟨_, without, again⟩ | ⟨entered, valid, inside, _⟩
  · exact ⟨fun _ => without, fun _ => again.shut⟩
  · constructor
    · intro shut
      exact absurd (shut.directoryFd valid) inside
    · intro without
      rw [entered] at without
      cases without

def noDirectory (n : Nat) : (call : Call) → World → call.Resp
  | .fs (.openDirectory _), _ => .error
  | call, w => Calm.answer n call w

def noFile (n : Nat) : (call : Call) → World → call.Resp
  | .fs (.openCreate _ _), _ => .error
  | call, w => Calm.answer n call w

theorem emptyDirectory_lived (config : FileStoreConfig) : Lived (emptyDirectory config) :=
  ⟨config, _, [], [], rfl, .pure _ _⟩

unseal pathFilename parentPath in
theorem failed_open_shuts_noDirectory : ∃ v : World, v.store.fileName = "t" ∧ Shut v := by
  have failed : Ran (openFile "t") (emptyDirectory {}) _ false _ :=
    Prog.perform_trace noDirectory 40 rfl
  exact ⟨_, rfl, (failed_open_shuts (emptyDirectory_lived {}) rfl rfl failed).mpr rfl⟩

unseal pathFilename parentPath in
/-- The file cannot be created: the directory stays open, and no later `openFile` succeeds. -/
theorem failed_open_stays : ¬ ∀ (w v : World) (path : String) (events : List Happening), Lived w →
    w.store.fd = -1 → w.store.directoryFd = -1 → Ran (openFile path) w events false v → Shut v := by
  intro always
  have failed : Ran (openFile "t") (emptyDirectory {}) _ false _ :=
    Prog.perform_trace noFile 40 rfl
  have shut := always _ _ _ _ (emptyDirectory_lived {}) rfl rfl failed
  exact absurd (shut.directoryFd ⟨by decide, by decide, by decide⟩) (by decide)

end TelemetryServer.Storage
