import TelemetryServer.Main.ParentSpec
import TelemetryServer.Reader.Calls
import TelemetryServer.Reader.ReaderSpec
import TelemetryServer.Server.Runs
import TelemetryServer.Storage.ArchiveNames

namespace TelemetryServer.Main

open Config Protocol Ipc Atomic Storage
open Reader (ReaderConfig fileStore fileStore_apart Meanwhile Reads Handed Resting Returned)
open Server (Contract Shared ServerRely ReaderRely Drift Still Noted RingOk DataDue SpaceDue EXIT_SUCCESS
  EXIT_FAILURE)

/-- What a reader that ends well leaves: the frames that were there and those published, in its
archives and its active file, all of them synced. -/
structure Persisted (name : String) (initial : List UInt8) (published : List (Nat × Frame))
    (fs : FileSystem) : Prop where
  distinct : fs.archives.Nodup
  contents : fs.log name = Blocks.cut kFrameSize initial ++ bytesOf (published.map Prod.snd)
  synced : ∀ a ∈ fs.archives ++ [name], ∃ file, fs.entries a = some file ∧ file.unsynced = 0

/-- What the parent may count on when its child has exited with success. After 2^64 rotations
the names of archives may come again. -/
def contract (config : AppConfig) (handles : Handles) (initial : List UInt8) : Contract where
  readerPid := handles.readerPid
  stored := fun fs published =>
    fs.archives.length ≤ 2 ^ 64 → Persisted (pathFilename config.dataFilePath) initial published fs

/-- What the files hold at any moment, whatever has failed: the frames that were there, and
then some of what was delivered. The archives are whole and synced, and the active file lags
behind its last sync by no more than the interval. -/
structure Recorded (config : FileStoreConfig) (name : String) (initial : List UInt8)
    (delivered : List Frame) (fs : FileSystem) : Prop where
  kept : fs.Kept name
  aligned : fs.archives.Nodup → ∀ a ∈ (fs.view name).archived, kFrameSize ∣ a.length
  contents : fs.archives.Nodup → fs.archives = [] ∧ fs.data name = initial ∨
    ∃ part, part <+: bytesOf delivered ∧ fs.log name = Blocks.cut kFrameSize initial ++ part
  unsynced : config.syncEveryBytes ≠ 0 → ∀ file, fs.entries name = some file →
    file.unsynced ≤ roundUp config.syncEveryBytes

/-- What the child keeps at every step. -/
structure Tracked (K : Contract) (config : AppConfig) (initial : List UInt8) (w : World) : Prop
    extends Shared K w where
  delivered : w.past.delivered <+: w.ring.frames
  recorded : Recorded (readerConfig config).store (pathFilename config.dataFilePath) initial
    w.past.delivered w.fs

/-- The files hold all that was delivered, and the store waits for the sync interval. -/
structure Settled (config : AppConfig) (initial : List UInt8) (w : World) : Prop where
  contents : w.fs.archives.length ≤ 2 ^ 64 → w.fs.log (pathFilename config.dataFilePath) =
    Blocks.cut kFrameSize initial ++ bytesOf w.past.delivered
  unsynced : config.syncEveryBytes.toNat ≠ 0 → ∀ file,
    w.fs.entries (pathFilename config.dataFilePath) = some file →
    file.unsynced < config.syncEveryBytes.toNat
  taken : w.past.delivered = w.ring.frames.take w.ring.released

def Unexited (w : World) : Prop := ∀ code, w.child ≠ .exited code

structure Holding (config : FileStoreConfig) (name : String) (base done : List UInt8) (w : World) :
    Prop where
  valid : config.Valid
  due : Due config w
  standing : Standing Unexited config name base (base ++ done) w

abbrev Filed (config : AppConfig) (initial done : List UInt8) (w : World) : Prop :=
  Holding (readerConfig config).store (pathFilename config.dataFilePath)
    (Blocks.cut kFrameSize initial) done w

section

variable (K : Contract)

structure Finished (w : World) : Prop where
  closed : w.ring.producerClosed ≠ 0
  stored : K.stored w.fs w.ring.published

structure ReaderGrant (w v : World) : Prop extends ServerRely K w v where
  unexited : Unexited w → Unexited v

variable (config : AppConfig) (initial : List UInt8)

/-- A reader that goes to sleep has stored all it took and owes nothing, and nothing was there
for it when it last looked or a notification is due. What it appends are the bytes that come
next. -/
def childPre : Call → World → Prop
  | .eventRead .dataReady, w => Settled config initial w ∧ w.past.spaceOwed = false ∧
      (w.ring.occupancy = 0 ∨ DataDue w) ∧ (w.ring.producerClosed = 0 ∨ DataDue w)
  | .point (.popped fs), _ => ∀ frame ∈ fs, frame.Valid
  | .point (.appending batch), w => ∃ done, Filed config initial done w ∧
      done ++ batch <+: bytesOf w.past.delivered
  | .log (.invalidIpcFrame _), _ => False
  | .fs call, w => Ready w.fs call
  | .exit code, w => code = EXIT_SUCCESS → Finished K w
  | .ring _, _ | .eventWrite _, _ | .log _, _ | .point _, _ => True
  | _, _ => False

variable {K config initial} in
theorem Tracked.carry {w v : World} (tracked : Tracked K config initial w) (keep : Shared K v)
    (frames : w.ring.frames <+: v.ring.frames) (delivered : v.past.delivered = w.past.delivered)
    (fs : v.fs = w.fs) : Tracked K config initial v := by
  refine ⟨keep, ?_, ?_⟩
  · rw [delivered]
    exact tracked.delivered.trans frames
  · rw [delivered, fs]
    exact tracked.recorded

variable {K config initial} in
theorem Tracked.rely {w v : World} (tracked : Tracked K config initial w) (move : ReaderRely K w v) :
    Tracked K config initial v :=
  tracked.carry (move.keeps tracked.toShared) (move.view.published.map _) move.delivered move.fs

def readerLogic : Logic where
  inv := Tracked K config initial
  rely := ReaderRely K
  guar := ReaderGrant K
  pre := childPre K config initial
  rely_refl := .refl
  rely_trans := .trans
  rely_inv := fun move tracked => tracked.rely move
  guar_refl := fun w => ⟨.refl w, id⟩

def childLogic : Logic where
  inv := Tracked K config initial
  rely := ReaderRely K
  guar := ServerRely K
  pre := childPre K config initial
  rely_refl := .refl
  rely_trans := .trans
  rely_inv := fun move tracked => tracked.rely move
  guar_refl := .refl

end

/-- A step on the reader's memory, its files, `dataReady` or the history. -/
structure Inward (w v : World) : Prop where
  ring : v.ring = w.ring
  spaceReady : v.spaceReady = w.spaceReady
  server : v.server = w.server
  net : v.net = w.net
  child : v.child = w.child
  readerPid : v.readerPid = w.readerPid
  dataOwed : v.past.dataOwed = w.past.dataOwed
  spaceOwed : v.past.spaceOwed = w.past.spaceOwed
  noted : Noted w.past v.past
  fs : v.fs = w.fs ∨ Unexited w

section

variable {K : Contract} {config : AppConfig} {initial : List UInt8} {w v : World}

theorem Inward.keeps (inward : Inward w v) (keep : Shared K w) : Shared K v := by
  refine ⟨by rw [inward.ring]; exact keep.ring, ?_, inward.readerPid.trans keep.pid⟩
  rw [inward.child, inward.ring]
  intro exited
  rcases inward.fs with same | unexited
  · rw [same]
    exact keep.ended exited
  · exact absurd exited (unexited 0)

/-- A step that leaves the files and what was delivered as they are. -/
theorem Inward.tracks (inward : Inward w v) (tracked : Tracked K config initial w)
    (delivered : v.past.delivered = w.past.delivered) (fs : v.fs = w.fs) :
    Tracked K config initial v := by
  have frames : w.ring.frames <+: v.ring.frames := inward.ring ▸ List.prefix_rfl
  exact tracked.carry (inward.keeps tracked.toShared) frames delivered fs

theorem Inward.grants (inward : Inward w v) : ReaderGrant K w v := by
  have space : SpaceDue w → SpaceDue v := by
    rw [SpaceDue, SpaceDue, inward.spaceOwed, inward.spaceReady]
    exact id
  have drift : Drift w v := by
    refine ⟨?_, inward.dataOwed, ?_, space, le_of_eq inward.spaceReady.symm, inward.noted⟩
    · rw [inward.ring]
      exact .refl _
    · rw [inward.ring]
      exact Or.inl rfl
  have still : Still w v := by
    refine ⟨inward.server, ?_, ?_, ?_, ?_, ?_⟩ <;> rw [inward.net]
    exact fun _ => .refl _
  refine ⟨⟨drift, still, inward.keeps⟩, ?_⟩
  rw [Unexited, Unexited, inward.child]
  exact id

/-- Files may change as long as the child has not exited. -/
theorem files_inward (fs : FileSystem) (unexited : Unexited w) : Inward w { w with fs := fs } :=
  ⟨rfl, rfl, rfl, rfl, rfl, rfl, rfl, rfl, .refl _, Or.inr unexited⟩

theorem members_inward (store : FileStore) : Inward w { w with store := store } :=
  ⟨rfl, rfl, rfl, rfl, rfl, rfl, rfl, rfl, .refl _, Or.inl rfl⟩

theorem history_inward {past : History} (dataOwed : past.dataOwed = w.past.dataOwed)
    (spaceOwed : past.spaceOwed = w.past.spaceOwed) (noted : Noted w.past past) :
    Inward w { w with past := past } :=
  ⟨rfl, rfl, rfl, rfl, rfl, rfl, dataOwed, spaceOwed, noted, Or.inl rfl⟩

theorem Unexited.rely (unexited : Unexited w) (move : ReaderRely K w v) : Unexited v := by
  intro code
  rcases move.child with same | ⟨signal, killed⟩
  · rw [same]
    exact unexited code
  · rw [killed]
    simp

theorem Finished.rely (finished : Finished K w) (move : ReaderRely K w v) : Finished K v := by
  have last := move.view.closed finished.closed
  refine ⟨last.1, ?_⟩
  rw [move.fs, last.2]
  exact finished.stored

theorem rely_meanwhile (move : ReaderRely K w v) : Meanwhile DataDue w v :=
  ⟨move.view, move.spaceOwed, move.delivered, move.added, move.data⟩

end

section

variable {config : FileStoreConfig} {name : String} {initial : List UInt8} {fs : FileSystem}

theorem Recorded.grow {old new : List Frame} (recorded : Recorded config name initial old fs)
    (more : old <+: new) : Recorded config name initial new fs := by
  refine ⟨recorded.kept, recorded.aligned, fun distinct => ?_, recorded.unsynced⟩
  rcases recorded.contents distinct with untouched | ⟨part, inside, total⟩
  · exact Or.inl untouched
  · rcases more with ⟨rest, rfl⟩
    refine Or.inr ⟨part, ?_, total⟩
    rw [bytesOf_append]
    exact inside.trans (List.prefix_append _ _)

theorem Recorded.of_eq {delivered : List Frame} {fs' : FileSystem}
    (recorded : Recorded config name initial delivered fs) (entries : fs'.entries = fs.entries)
    (archives : fs'.archives = fs.archives) (replaced : fs'.replaced = fs.replaced) :
    Recorded config name initial delivered fs' := by
  cases fs
  cases fs'
  cases entries
  cases archives
  cases replaced
  exact ⟨⟨recorded.kept.there, recorded.kept.distinct⟩, recorded.aligned, recorded.contents,
    recorded.unsynced⟩

theorem Recorded.opening {fs' : FileSystem} (delivered : List Frame) (none : fs.archives = [])
    (reopening : Reopening fs name fs') : Recorded config name (fs.data name) delivered fs' := by
  have none' : fs'.archives = [] := reopening.archives.trans none
  have view : fs'.view name = { active := fs'.data name } := by
    rw [FileSystem.view, none']
    rfl
  refine ⟨.of_none none', ?_, ?_, ?_⟩
  · intro _ a member
    rw [view] at member
    cases member
  · intro _
    rcases reopening.data with same | cut
    · exact Or.inl ⟨none', same⟩
    · refine Or.inr ⟨[], List.nil_prefix, ?_⟩
      rw [FileSystem.log, view, cut, List.append_nil]
      rfl
  · intro _ file entry
    rw [reopening.unsynced file entry]
    exact Nat.zero_le _

theorem Recorded.of_moment {part : List UInt8} {delivered : List Frame} (valid : config.Valid)
    (inside : part <+: bytesOf delivered)
    (moment : Moment config name (Blocks.cut kFrameSize initial)
      (Blocks.cut kFrameSize initial ++ part) fs) : Recorded config name initial delivered fs :=
  ⟨moment.kept,
    fun distinct => (moment.shape distinct).archived_dvd valid.whole (Blocks.dvd_cut_length _ _),
    fun distinct => Or.inr ⟨part, inside, moment.total distinct⟩, moment.unsynced⟩

end

section

variable {K : Contract} {config : AppConfig} {initial : List UInt8} {w v : World}

theorem plain_pre {line : Line} (plain : line.plain = true) : childPre K config initial (.log line) w := by
  cases line with
  | invalidIpcFrame error => simp [Line.plain] at plain
  | _ => trivial

/-- What the child may do with its files as long as it has not exited. -/
def Allowed (config : AppConfig) (initial : List UInt8) (w : World) (fs : FileSystem) : Prop :=
  Unexited w ∧ Recorded (readerConfig config).store (pathFilename config.dataFilePath) initial
    w.past.delivered fs

theorem readerLogic_stores {F : World → Prop} (stable : ∀ {w v}, ReaderRely K w v → F w → F v)
    (framed : ∀ {w} fs store, F w → F { w with fs := fs, store := store }) :
    Stores (readerLogic K config initial) (Allowed config initial) F where
  own := fun move => ⟨move.fs, move.store⟩
  member := by
    intro w store keep
    have step := members_inward (w := w) store
    exact ⟨step.tracks keep rfl rfl, step.grants⟩
  file := by
    intro w fs keep allowed
    have step := files_inward fs allowed.1
    exact ⟨⟨step.keeps keep.toShared, keep.delivered, allowed.2⟩, step.grants⟩
  call := fun _ _ ready => ready
  line := fun _ _ plain => plain_pre plain
  stable := stable
  framed := framed

section

variable {config : FileStoreConfig} {name : String} {base done : List UInt8}

theorem Holding.same (holding : Holding config name base done w) (unexited : Unexited v)
    (fs : v.fs = w.fs) (store : v.store = w.store) : Holding config name base done v := by
  refine ⟨holding.valid, ?_, holding.standing.reframe unexited fs store⟩
  intro periodic
  rw [store]
  exact holding.due periodic

theorem Holding.rely (holding : Holding config name base done w) (move : ReaderRely K w v) :
    Holding config name base done v :=
  holding.same (holding.standing.frame.rely move) move.fs move.store

end

theorem readerLogic_consumes : Consumes (readerLogic K config initial) where
  ring := fun keep => keep.ring.ring
  view := fun move => move.view
  own := fun move => move.spaceOwed
  loads := fun _ => ⟨trivial, trivial, trivial⟩
  slot := fun _ _ => trivial
  release := by
    intro w count keep _ there
    have move : ServerRely K w (w.release count) := (Server.Outside.pop count there).allowed
    have tracked : Tracked K config initial (w.release count) :=
      keep.carry (move.keeps keep.toShared) List.prefix_rfl rfl rfl
    exact ⟨trivial, tracked, move, id⟩

/-- A reader on its own asks nothing of its store, which leaves the ring alone. -/
def unasked (K : Contract) : Logic where
  inv := fun _ => True
  rely := ReaderRely K
  guar := fun _ _ => True
  pre := fun _ _ => True
  rely_refl := .refl
  rely_trans := .trans
  rely_inv := fun _ _ => trivial
  guar_refl := fun _ => trivial

theorem apart_meanwhile {α : Type} {p : Proc α} (apart : Storage.Apart p) :
    (unasked K).wp p (fun _ v => Meanwhile DataDue w v) w := by
  apply Logic.wp_within (L := unasked K) (C := Meanwhile DataDue) (P := Filing) Meanwhile.trans
    (fun move => rely_meanwhile move) (A := OnlyStore) _ _ apart.within apart.moves
  · intro w v _ only
    rw [only]
    exact ⟨trivial, trivial, ⟨.refl _, rfl, rfl, Or.inl ⟨rfl, rfl⟩, id⟩⟩
  · intro w call _ filing
    refine ⟨trivial, fun r v answer => ?_⟩
    rcases filing_answer filing answer with ⟨fs, rfl⟩
    exact ⟨trivial, trivial, ⟨.refl _, rfl, rfl, Or.inl ⟨rfl, rfl⟩, id⟩⟩

theorem fail_inward (w : World) : Inward w w.fail :=
  ⟨rfl, rfl, rfl, rfl, rfl, rfl, rfl, rfl, (Server.exec_fail w).noted, Or.inl rfl⟩

theorem notify_grants {r : EventResult} {u : World} (keep : Tracked K config initial w)
    (answer : World.exec (.eventWrite .spaceReady) w r = some u) :
    Tracked K config initial u ∧ ReaderGrant K w u ∧ (DataDue w → DataDue u) := by
  cases r with
  | ok =>
      simp only [World.exec, eventfdWrite, Option.map_eq_some_iff, Option.ite_none_right_eq_some]
        at answer
      rcases answer with ⟨value, ⟨_, counted⟩, rfl⟩
      rw [← Option.some.inj counted]
      have move : ServerRely K w { w with
          spaceReady := w.spaceReady + 1, past := { w.past with spaceOwed := false } } :=
        Server.Outside.notify.allowed
      exact ⟨keep.carry (move.keeps keep.toShared) List.prefix_rfl rfl rfl, ⟨move, id⟩, id⟩
  | eintr =>
      rw [← Option.some.inj answer]
      exact ⟨keep, (readerLogic K config initial).guar_refl w, id⟩
  | error =>
      rw [← Option.some.inj answer]
      have step := fail_inward w
      exact ⟨step.tracks keep rfl rfl, step.grants, id⟩

theorem consume_grants {r : EventResult} {u : World} (keep : Tracked K config initial w)
    (answer : World.exec (.eventRead .dataReady) w r = some u) :
    Tracked K config initial u ∧ ReaderGrant K w u := by
  have step : Inward w u ∧ u.past.delivered = w.past.delivered ∧ u.fs = w.fs := by
    cases r with
    | ok =>
        simp only [World.exec, eventfdRead, Option.map_eq_some_iff] at answer
        rcases answer with ⟨value, _, rfl⟩
        exact ⟨⟨rfl, rfl, rfl, rfl, rfl, rfl, rfl, rfl, .refl _, Or.inl rfl⟩, rfl, rfl⟩
    | eintr =>
        rw [← Option.some.inj answer]
        exact ⟨⟨rfl, rfl, rfl, rfl, rfl, rfl, rfl, rfl, .refl _, Or.inl rfl⟩, rfl, rfl⟩
    | error =>
        rw [← Option.some.inj answer]
        exact ⟨fail_inward w, rfl, rfl⟩
  exact ⟨step.1.tracks keep step.2.1 step.2.2, step.1.grants⟩

end

section

variable {config : AppConfig} {handles : Handles} {initial : List UInt8} {w : World}

abbrev childOf (config : AppConfig) (handles : Handles) (initial : List UInt8) : Logic :=
  readerLogic (contract config handles initial) config initial

/-- What the reader knows while it appends what comes behind `done`. -/
structure Appending (done batch : List UInt8) (w : World) : Prop where
  unexited : Unexited w
  inside : done ++ batch <+: bytesOf w.past.delivered

theorem appending_stores (done batch : List UInt8) :
    Stores (childOf config handles initial) (Allowed config initial) (Appending done batch) :=
  readerLogic_stores
    (fun move frame => ⟨frame.unexited.rely move, by rw [move.delivered]; exact frame.inside⟩)
    (fun _ _ frame => ⟨frame.unexited, frame.inside⟩)

/-- Any first part of the batch may be in the files. -/
theorem Appending.allowed {done batch part : List UInt8} {fs : FileSystem}
    (frame : Appending done batch w) (valid : (readerConfig config).store.Valid) (low : part <+: batch)
    (moment : Moment (readerConfig config).store (pathFilename config.dataFilePath)
      (Blocks.cut kFrameSize initial) (Blocks.cut kFrameSize initial ++ done ++ part) fs) :
    Allowed config initial w fs := by
  rw [List.append_assoc] at moment
  exact ⟨frame.unexited, .of_moment valid
    (((List.prefix_append_right_inj done).mpr low).trans frame.inside) moment⟩

theorem Holding.appending {done batch : List UInt8} (holding : Filed config initial done w)
    (inside : done ++ batch <+: bytesOf w.past.delivered) :
    Standing (Appending done batch) (readerConfig config).store (pathFilename config.dataFilePath)
      (Blocks.cut kFrameSize initial) (Blocks.cut kFrameSize initial ++ done)
      (w.passing (.appending batch)) :=
  holding.standing.reframe ⟨holding.standing.frame, inside⟩ rfl rfl

theorem append_holding {done batch : List UInt8} (holding : Filed config initial done w)
    (inside : done ++ batch <+: bytesOf w.past.delivered) :
    (childOf config handles initial).wp (noted batch (fileStore.appendFrames batch)) (fun ok v =>
      Meanwhile DataDue w v ∧ (ok = true → Filed config initial (done ++ batch) v) ∧
        (ok = false → True)) w := by
  intro v move keepV
  have holdingV := holding.rely move
  have insideV : done ++ batch <+: bytesOf v.past.delivered := by rwa [move.delivered]
  refine ⟨⟨done, holdingV, insideV⟩, ?_⟩
  rintro ⟨⟩ u answer
  cases answer
  have step : Inward v (v.passing (.appending batch)) :=
    history_inward rfl rfl ⟨id, id, id, id, rfl, rfl, rfl⟩
  have due : Due (readerConfig config).store (v.passing (.appending batch)) := holdingV.due
  refine ⟨step.tracks keepV rfl rfl, step.grants, ?_⟩
  have appended := Logic.wp_and (L := childOf config handles initial)
    (M := unasked (contract config handles initial)) (fun _ => trivial) (fun move => move)
    (appendFrames_spec (appending_stores done batch)
      (fun _ _ _ frame low moment => frame.allowed holding.valid low moment) holding.valid due
      (holdingV.appending insideV))
    (apart_meanwhile (fileStore_apart.appendFrames batch))
  apply Logic.wp_seq (step.tracks keepV rfl rfl) appended
  rintro ok x keepX ⟨result, meanwhile⟩
  have noting : Meanwhile DataDue v (v.passing (.appending batch)) :=
    ⟨.refl _, rfl, rfl, Or.inl ⟨rfl, rfl⟩, id⟩
  have since : Meanwhile DataDue w x := (rely_meanwhile move).trans (noting.trans meanwhile)
  cases ok with
  | false => exact fun y move' _ => ⟨since.trans (rely_meanwhile move'), by simp⟩
  | true =>
      rcases result rfl with ⟨_, due, standing⟩
      have holdingX : Filed config initial (done ++ batch) x := by
        refine ⟨holding.valid, due, ?_⟩
        rw [← List.append_assoc]
        exact standing.reframe standing.frame.unexited rfl rfl
      intro y move' keepY
      refine ⟨trivial, ?_⟩
      rintro ⟨⟩ z answer
      cases answer
      have last : Inward y (y.passing (.appended batch)) :=
        history_inward rfl rfl ⟨id, id, id, id, rfl, rfl, rfl⟩
      have holdingY := holdingX.rely move'
      have done' : Filed config initial (done ++ batch) (y.passing (.appended batch)) :=
        holdingY.same holdingY.standing.frame rfl rfl
      have noting' : Meanwhile DataDue y (y.passing (.appended batch)) :=
        ⟨.refl _, rfl, rfl, Or.inl ⟨rfl, rfl⟩, id⟩
      refine ⟨last.tracks keepY rfl rfl, last.grants, ?_⟩
      intro t move'' _
      refine ⟨?_, fun _ => done'.rely move'', by simp⟩
      exact ((since.trans (rely_meanwhile move')).trans noting').trans (rely_meanwhile move'')

theorem sync_finishes (handed : Handed (Filed config initial) w) (all : w.past.delivered = w.ring.frames)
    (closed : w.ring.producerClosed ≠ 0) :
    (childOf config handles initial).wp Storage.sync (fun ok v =>
      (ok = true → Finished (contract config handles initial) v) ∧
        v.past.delivered = w.past.delivered) w := by
  have grants : Stores (childOf config handles initial) (Allowed config initial)
      (fun v => Unexited v ∧ v.past.delivered = w.past.delivered ∧
        v.ring.producerClosed ≠ 0 ∧ v.ring.published = w.ring.published) := readerLogic_stores
    (by
      rintro w v move ⟨unexited, delivered, closed, same⟩
      have last := move.view.closed closed
      exact ⟨unexited.rely move, move.delivered.trans delivered, last.1, last.2.trans same⟩)
    (fun _ _ frame => frame)
  have standing := handed.held.standing.reframe (G := fun v => Unexited v ∧
    v.past.delivered = w.past.delivered ∧ v.ring.producerClosed ≠ 0 ∧
      v.ring.published = w.ring.published)
    ⟨handed.held.standing.frame, rfl, closed, rfl⟩ rfl rfl
  have synced := Logic.wp_and (L := childOf config handles initial)
    (M := unasked (contract config handles initial)) (fun _ => trivial) (fun move => move)
    (sync_standing grants (by
      intro x fs frame moment
      have inside : bytesOf w.past.delivered <+: bytesOf x.past.delivered :=
        frame.2.1 ▸ List.prefix_rfl
      exact ⟨frame.1, .of_moment handed.held.valid inside moment⟩) standing)
    (apart_meanwhile fileStore_apart.sync)
  apply Logic.wp_mono synced
  rintro ok v _ ⟨result, meanwhile⟩
  refine ⟨?_, meanwhile.delivered⟩
  intro yes
  rcases result yes with ⟨after, counted, _⟩
  refine ⟨after.frame.2.2.1, fun few => ?_⟩
  have distinct := after.numbered.nodup few
  refine ⟨distinct, ?_, ?_⟩
  · rw [after.moment.total distinct, after.frame.2.2.2, all]
    rfl
  intro a member
  rcases List.mem_append.mp member with archived | last
  · exact (after.moment.kept.there a archived).2
  · rcases after.active with ⟨file, active⟩
    refine ⟨file, ?_, ?_⟩
    · rw [List.mem_singleton.mp last, ← after.name_eq]
      exact active.entry
    · rw [← active.unsynced, counted]

theorem handed_settled (handed : Handed (Filed config initial) w)
    (taken : w.past.delivered = w.ring.frames.take w.ring.released) : Settled config initial w := by
  have held := handed.held
  have standing := held.standing
  refine ⟨fun few => standing.moment.total (standing.numbered.nodup few), ?_, taken⟩
  intro periodic file entry
  rcases standing.active with ⟨file', active⟩
  have same : file' = file := by
    have entry' := active.entry
    rw [standing.name_eq] at entry'
    exact Option.some.inj (entry'.symm.trans entry)
  rw [← same, ← active.unsynced]
  exact held.due periodic

theorem readerLogic_reads : Reads (childOf config handles initial) fileStore
    (Filed config initial) (fun _ => True) DataDue (Finished (contract config handles initial)) where
  consumes := readerLogic_consumes
  meanwhile := fun move => rely_meanwhile move
  stable := fun move holding => holding.rely move
  broke := fun _ _ => trivial
  framed := fun holding _ _ => holding.same holding.standing.frame rfl rfl
  sound := by
    left
    intro w keep frame member
    rcases List.mem_map.mp member with ⟨entry, inside, rfl⟩
    exact keep.ring.valid entry inside
  line := fun _ _ plain => plain_pre plain
  telemetry := by
    intro w record keep
    have step : Inward w (w.print record) := history_inward rfl rfl ⟨id, id, id, id, rfl, rfl, rfl⟩
    exact ⟨trivial, step.tracks keep rfl rfl, step.grants⟩
  popped := by
    intro w fs keep _ next
    have step : Inward w (w.passing (.popped fs)) :=
      history_inward rfl rfl ⟨id, id, id, id, rfl, rfl, rfl⟩
    have tracked : Tracked (contract config handles initial) config initial
        (w.passing (.popped fs)) := by
      refine ⟨step.keeps keep.toShared, ?_, keep.recorded.grow (List.prefix_append _ fs)⟩
      change w.past.delivered ++ fs <+: w.ring.frames
      rw [next]
      exact List.take_prefix _ _
    refine ⟨?_, tracked, step.grants⟩
    intro frame member
    have inside : frame ∈ w.ring.frames.take w.ring.released := by
      rw [← next]
      exact List.mem_append_right _ member
    rcases List.mem_map.mp (List.mem_of_mem_take inside) with ⟨entry, published, rfl⟩
    exact keep.ring.valid entry published
  staging := fun _ _ _ => trivial
  append := fun _ holding _ _ inside => append_holding holding inside
  notify := fun keep _ => ⟨trivial, fun _ _ answer => notify_grants keep answer⟩
  await := fun keep resting taken =>
    ⟨⟨handed_settled resting.toHanded taken, resting.told, resting.empty, resting.opened⟩,
      fun _ _ answer => consume_grants keep answer⟩
  done := fun move finished => finished.rely move
  sync := fun _ handed all closed => sync_finishes handed all closed

/-- The child before its first step, or after steps of the parent only. -/
structure Beginning (config : AppConfig) (initial : List UInt8) (w : World) : Prop where
  unexited : Unexited w
  delivered : w.past.delivered = []
  spaceOwed : w.past.spaceOwed = false
  released : w.ring.released = 0
  data : w.fs.data (pathFilename config.dataFilePath) = initial
  archives : w.fs.archives = []
  unsynced : ∀ name file, w.fs.entries name = some file → file.unsynced = 0

theorem Beginning.rely {K : Contract} {v : World} (beginning : Beginning config initial w)
    (move : ReaderRely K w v) : Beginning config initial v := by
  refine ⟨beginning.unexited.rely move, move.delivered.trans beginning.delivered,
    move.spaceOwed.trans beginning.spaceOwed, move.view.released.trans beginning.released, ?_, ?_, ?_⟩
  · rw [move.fs]
    exact beginning.data
  · rw [move.fs]
    exact beginning.archives
  · rw [move.fs]
    exact beginning.unsynced

structure Unread (w : World) : Prop where
  unexited : Unexited w
  delivered : w.past.delivered = []
  spaceOwed : w.past.spaceOwed = false
  released : w.ring.released = 0

theorem openFile_holding (beginning : Beginning config initial w)
    (constructed : w.store = { config := (readerConfig config).store }) :
    (childOf config handles initial).wp (openFile config.dataFilePath)
      (Succeeds (fun v => Filed config initial [] v ∧ Unread v)) w := by
  have grants : Stores (childOf config handles initial) (Allowed config initial) Unread :=
    readerLogic_stores
    (fun move unread => ⟨unread.unexited.rely move, move.delivered.trans unread.delivered,
      move.spaceOwed.trans unread.spaceOwed, move.view.released.trans unread.released⟩)
    (fun _ _ unread => ⟨unread.unexited, unread.delivered, unread.spaceOwed, unread.released⟩)
  have here : Here Unread w.fs { config := (readerConfig config).store } w :=
    ⟨rfl, constructed, ⟨beginning.unexited, beginning.delivered, beginning.spaceOwed,
      beginning.released⟩⟩
  have allowed : ∀ v fs, Unread v → Reopening w.fs (pathFilename config.dataFilePath) fs →
      Allowed config initial v fs := by
    intro v fs unread reopening
    refine ⟨unread.unexited, ?_⟩
    rw [← beginning.data]
    exact .opening v.past.delivered beginning.archives reopening
  apply Logic.wp_mono (openFile_standing grants here beginning.archives (beginning.unsynced _) allowed)
  intro ok v _ result yes
  rcases result yes with ⟨valid, due, standing⟩
  rw [beginning.data] at standing
  refine ⟨⟨valid, due, ?_⟩, standing.frame⟩
  rw [List.append_nil]
  exact standing.reframe standing.frame.unexited rfl rfl

/-- What `Reader::run` has brought about when it returns `result`. -/
structure Over (config : AppConfig) (handles : Handles) (initial : List UInt8) (result : Nat)
    (w : World) : Prop where
  unexited : Unexited w
  finished : result = EXIT_SUCCESS → Finished (contract config handles initial) w

theorem Over.rely {result : Nat} {v : World} (last : Over config handles initial result w)
    (move : ReaderRely (contract config handles initial) w v) : Over config handles initial result v :=
  ⟨last.unexited.rely move, fun success => (last.finished success).rely move⟩

/-- Closing a descriptor leaves the files as they are. -/
theorem closeIfOpen_over {result : Nat} (fd : Int) (last : Over config handles initial result w) :
    (childOf config handles initial).wp (closeIfOpen fd)
      (fun _ v => Over config handles initial result v) w := by
  rw [closeIfOpen]
  split
  · intro v move keep
    have overV := last.rely move
    refine ⟨trivial, ?_⟩
    intro r u answer
    rcases exec_fs answer with ⟨fs, done, rfl⟩
    rw [← Option.some.inj done]
    have step := files_inward { v.fs with fds := Function.update v.fs.fds fd none } overV.unexited
    have closed : Over config handles initial result
        { v with fs := { v.fs with fds := Function.update v.fs.fds fd none } } := by
      refine ⟨overV.unexited, fun success => ?_⟩
      have finished := overV.finished success
      refine ⟨finished.closed, fun few => ?_⟩
      have persisted := finished.stored few
      exact ⟨persisted.distinct, persisted.contents, persisted.synced⟩
    have tracked : Tracked (contract config handles initial) config initial
        { v with fs := { v.fs with fds := Function.update v.fs.fds fd none } } :=
      ⟨step.keeps keep.toShared, keep.delivered, keep.recorded.of_eq rfl rfl rfl⟩
    exact ⟨tracked, step.grants, fun x move' _ => closed.rely move'⟩
  · exact fun v move _ => last.rely move

theorem destroy_over {result : Nat} (last : Over config handles initial result w) :
    (childOf config handles initial).wp destroy
      (fun _ v => Over config handles initial result v) w := by
  intro v move keepV
  refine ⟨keepV, (childOf config handles initial).guar_refl v, ?_⟩
  apply Logic.wp_seq keepV (closeIfOpen_over _ (last.rely move))
  exact fun _ u _ overU => closeIfOpen_over _ overU

theorem read_over (keep : Tracked (contract config handles initial) config initial w)
    (beginning : Beginning config initial w)
    (constructed : w.store = { config := (readerConfig config).store }) :
    (childOf config handles initial).wp (Reader.read fileStore (readerConfig config))
      (fun result v => Over config handles initial result v) w := by
  have reading : (childOf config handles initial).wp
      (Reader.read fileStore (readerConfig config)) (fun result v => result = EXIT_SUCCESS →
        Finished (contract config handles initial) v) w := by
    apply Logic.wp_seq keep (openFile_holding beginning constructed)
    intro ok a _ result
    cases ok with
    | false =>
        intro v _ _ success
        cases success
    | true =>
        rcases result rfl with ⟨holding, unread⟩
        intro b move keepB
        refine ⟨trivial, ?_⟩
        intro r u answer
        have same := exec_log rfl answer
        subst u
        refine ⟨keepB, (childOf config handles initial).guar_refl b, ?_⟩
        apply Logic.wp_mono (Reader.loop_spec readerLogic_reads _ (holding.rely move)
          (move.delivered.trans unread.delivered) (move.view.released.trans unread.released)
          (move.spaceOwed.trans unread.spaceOwed))
        intro result v _ returned success
        rcases returned with ⟨_, finished⟩ | ⟨failure, _⟩
        · exact finished
        · rw [success] at failure
          cases failure
  have both := Logic.wp_closed (L := childOf config handles initial)
    (C := fun w v => Unexited w → Unexited v) (fun _ => id) (fun first second => second ∘ first)
    (fun granted => ReaderGrant.unexited granted) (fun move unexited => unexited.rely move) reading
  exact Logic.wp_mono both fun result v _ holds => ⟨holds.2 beginning.unexited, holds.1⟩

theorem run_over (beginning : Beginning config initial w) :
    (childOf config handles initial).wp (Reader.run (readerConfig config))
      (fun result v => Over config handles initial result v) w := by
  intro a toA keepA
  have beginningA := beginning.rely toA
  refine ⟨trivial, ?_⟩
  intro r a' answer
  have same := exec_log rfl answer
  subst a'
  refine ⟨keepA, (childOf config handles initial).guar_refl a, ?_⟩
  intro b toB keepB
  have beginningB := beginningA.rely toB
  have constructed := members_inward (w := b) { config := (readerConfig config).store }
  have tracked := constructed.tracks keepB rfl rfl
  refine ⟨tracked, constructed.grants, ?_⟩
  apply Logic.wp_seq tracked (read_over tracked
    ⟨beginningB.unexited, beginningB.delivered, beginningB.spaceOwed, beginningB.released,
      beginningB.data, beginningB.archives, beginningB.unsynced⟩ rfl)
  intro result d keepD overD
  apply Logic.wp_seq keepD (destroy_over overD)
  exact fun _ e _ overE v move _ => overE.rely move

theorem running_over (beginning : Beginning config initial w) :
    (childLogic (contract config handles initial) config initial).wp (Reader.run (readerConfig config))
      (fun result v => Over config handles initial result v) w :=
  Logic.wp_weaken (L := childOf config handles initial)
    (M := childLogic (contract config handles initial) config initial) Iff.rfl (fun move => move)
    (fun granted => ReaderGrant.toServerRely granted) (fun ready => ready) (run_over beginning)

theorem child_rule (keep : Tracked (contract config handles initial) config initial w)
    (beginning : Beginning config initial w) :
    (childLogic (contract config handles initial) config initial).wp (child config)
      (fun _ v => v.child ≠ .running) w := by
  apply Logic.wp_seq keep (running_over beginning)
  intro result a _ overA v move keepV
  have last := overA.rely move
  refine ⟨last.finished, ?_⟩
  intro r u answer
  rw [← Option.some.inj answer]
  have keeps : Shared (contract config handles initial) v →
      Shared (contract config handles initial) { v with child := .exited result } := by
    refine fun keep => ⟨keep.ring, fun exited => ?_, keep.pid⟩
    have finished := last.finished (Child.exited.inj exited)
    exact ⟨finished.closed, finished.stored⟩
  have drift : Drift v { v with child := .exited result } :=
    ⟨.refl _, rfl, Or.inl rfl, id, le_rfl, .refl _⟩
  have still : Still v { v with child := .exited result } :=
    ⟨rfl, rfl, rfl, rfl, rfl, fun _ => .refl _⟩
  refine ⟨keepV.carry (keeps keepV.toShared) List.prefix_rfl rfl rfl, ⟨drift, still, keeps⟩, ?_⟩
  intro x move' _
  rcases move'.child with same | ⟨signal, struck⟩
  · rw [same]
    simp
  · rw [struck]
    simp

end

end TelemetryServer.Main
