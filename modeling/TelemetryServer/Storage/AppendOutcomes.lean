import TelemetryServer.Storage.Outcomes

namespace TelemetryServer.Storage

open Protocol Atomic

def archives : Happening → Bool
  | ⟨_, .fs (.renameat _ _ _), ok⟩ => ok
  | _ => false

/-- For a write that has stored something, whether it has stored all it was given. -/
def completes : Happening → Option Bool
  | ⟨_, .fs (.write _ bytes), .written count⟩ =>
      if 0 < count then some (decide (count = bytes.length)) else none
  | _ => none

def renamed (events : List Happening) : Bool := events.any archives

/-- The last write that has stored something was not followed by the rest of its bytes. -/
def torn (events : List Happening) : Bool := (events.filterMap completes).getLast? == some false

section Events

variable {first rest events : List Happening}

theorem renamed_append : renamed (first ++ rest) = (renamed first || renamed rest) := List.any_append

theorem torn_append (whole : torn first = false) : torn (first ++ rest) = torn rest := by
  rw [torn, torn, List.filterMap_append, List.getLast?_append]
  cases last : (rest.filterMap completes).getLast? with
  | some complete => rfl
  | none =>
      rw [torn] at whole
      rw [Option.or, whole]
      rfl

/-- Events in which nothing is written to a file. -/
def Unwritten (events : List Happening) : Prop := events.filterMap completes = []

theorem Unwritten.torn (none : Unwritten events) : torn events = false := by
  rw [Storage.torn, show events.filterMap completes = [] from none]
  rfl

theorem unwriting_unwritten (unwriting : ∀ event ∈ events, Unwriting event.call) :
    Unwritten events := by
  apply List.filterMap_eq_nil_iff.mpr
  intro event member
  have silent := unwriting event member
  rcases event with ⟨before, call, answer⟩
  cases call with
  | fs call =>
      cases call with
      | write fd bytes => exact silent.elim
      | _ => rfl
  | _ => rfl

theorem quiet_renamed (calm : ∀ event ∈ events, Quiet event.call) : renamed events = false := by
  apply List.any_eq_false.mpr
  intro event member
  have quiet := calm event member
  rcases event with ⟨before, call, answer⟩
  cases call with
  | fs call =>
      cases call with
      | renameat directoryFd source target => exact quiet.elim
      | _ => simp [archives]
  | _ => simp [archives]

end Events

section Append

variable {w v : World} {file : File} {excess : Nat} {events : List Happening} {r : Bool}

/-- How a rotation can end: with the file closed, with the file still there, or with an
empty file in its place. -/
structure Rotation (w v : World) (excess : Nat) (events : List Happening) (r : Bool) : Prop where
  unwritten : Unwritten events
  directoryFd : v.store.directoryFd = w.store.directoryFd
  config : v.store.config = w.store.config
  fate : (r = false ∧ v.store.fd = -1) ∨
    (r = false ∧ renamed events = false ∧ ∃ file, Attached v file excess) ∨
    (renamed events = true ∧ v.store.currentSize = 0 ∧ ∃ file, Attached v file 0)

theorem rotate_outcome (held : Attached w file excess) (run : Ran rotate w events r v) :
    Rotation w v excess events r := by
  have unwritten := unwriting_unwritten (run.within rotate_unwriting)
  have closed : ∀ {c : World} {sequence size : Nat}, r = false → c.store = { w.store with
      fd := -1, unsyncedBytes := 0, rotationSequence := sequence, currentSize := size } →
      v.store = c.store → Rotation w v excess events r := by
    intro c sequence size failed store same
    rw [store] at same
    exact ⟨unwritten, by rw [same], by rw [same], Or.inl ⟨failed, by rw [same]⟩⟩
  have run₀ := ran_members run
  simp only [held.fd, if_false] at run₀
  rcases ran_check run₀ with ⟨failed, rfl⟩ | ⟨a, sync₁, tail₁, synced, run₁, same₁⟩
  · rcases sync_outcome held failed with ⟨file', after, _, store⟩
    exact ⟨unwritten, by rw [store], by rw [store],
      Or.inr (Or.inl ⟨rfl, quiet_renamed (failed.within sync_quiet), file', after⟩)⟩
  rcases sync_outcome held synced with ⟨fileA, heldA, _, storeA⟩
  have entryA := heldA.entry
  simp only [storeA, if_true] at entryA
  have storeB : ∀ {events ok b}, Ran closeActiveFile a events ok b → b.store = { w.store with
      fd := -1, unsyncedBytes := 0, rotationSequence := w.store.rotationSequence,
      currentSize := w.store.currentSize } := by
    intro events ok b closing
    rw [(closeActiveFile_outcome heldA closing).1, storeA]
    rfl
  rcases ran_check run₁ with ⟨failed, rfl⟩ | ⟨b, close₂, tail₂, closing, run₂, same₂⟩
  · exact closed rfl (storeB failed) rfl
  rcases Prog.Trace.bind_iff.mp run₂ with ⟨archive, c, name₃, tail₃, named, run₃, same₃⟩
  rcases makeArchiveName_outcome named with ⟨fsC, sequence, storeC, apart⟩
  rw [storeB closing] at storeC apart
  split at run₃
  · rcases ran_pure run₃ with ⟨_, rfl, rfl⟩
    exact closed rfl storeC rfl
  next nonempty =>
  have other : archive ≠ w.store.fileName := apart (by simpa using nonempty)
  have entryC : c.fs.entries w.store.fileName = some fileA := by
    rw [fsC, (closeActiveFile_outcome heldA closing).2]
    exact entryA
  rcases ran_fs (.renameat _ _ _) run₃ with ⟨ok, fs, tail₄, done, run₄, same₄⟩
  have archived : ok = true → renamed events = true := by
    rintro rfl
    rw [same₁, same₂, same₃, same₄]
    simp [renamed, archives]
  rcases renameat_cases entryC done with ⟨rfl, rfl⟩ | ⟨rfl, rfl⟩
  swap
  · rcases ran_refuse rfl run₄ with ⟨rfl, rfl⟩
    exact closed rfl storeC rfl
  rcases ran_check run₄ with ⟨failed, rfl⟩ | ⟨d, sync₅, tail₅, synced', run₅, _⟩
  · exact closed rfl storeC (by rw [syncDirectory_outcome failed])
  rw [syncDirectory_outcome synced'] at run₅
  have run₆ := ran_update run₅
  have prepared : Prepared { c with
      fs := c.fs.rename w.store.fileName archive fileA
      store := { c.store with currentSize := 0, unsyncedBytes := 0 } } := by
    refine ⟨?_, ?_, rfl, rfl⟩
    · change c.store.config.Valid
      rw [storeC]
      exact held.valid
    · change c.store.directoryFd ≠ -1
      rw [storeC]
      exact held.directory
  have missing : (c.fs.rename w.store.fileName archive fileA).entries c.store.fileName = none := by
    rw [storeC]
    simp [FileSystem.rename, Function.update_of_ne other.symm]
  have reopened : ∀ {tail ok}, Ran openActiveFile { c with
      fs := c.fs.rename w.store.fileName archive fileA
      store := { c.store with currentSize := 0, unsyncedBytes := 0 } } tail ok v → (r = true → ok = true) →
      Rotation w v excess events r := by
    intro tail ok opening implied
    have after := openActiveFile_outcome prepared opening
    have config : v.store.config = w.store.config := by
      rw [after.config]
      change c.store.config = _
      rw [storeC]
    have directoryFd : v.store.directoryFd = w.store.directoryFd := by
      rw [after.directoryFd]
      change c.store.directoryFd = _
      rw [storeC]
    refine ⟨unwritten, directoryFd, config, ?_⟩
    rcases after.fate with ⟨failed, fd⟩ | ⟨file', excess', held', _, empty, _⟩
    · refine Or.inl ⟨?_, fd⟩
      cases r with
      | false => rfl
      | true => exact absurd (implied rfl) (by simp [failed])
    · have none := held'.size
      rw [empty missing, List.length_nil] at none
      refine Or.inr (Or.inr ⟨archived rfl, by omega, file', ?_⟩)
      have zero : excess' = 0 := by omega
      exact zero ▸ held'
  rcases ran_check run₆ with ⟨failed, rfl⟩ | ⟨e, open₇, tail₇, opening, run₇, _⟩
  · exact reopened failed (fun wrong => absurd wrong (by simp))
  · rcases ran_log rfl run₇ with ⟨_, last, _⟩
    rcases ran_pure last with ⟨_, rfl, rfl⟩
    exact reopened opening (fun _ => rfl)

/-- What has happened when the first `n` of `bytes` are stored. -/
structure Wrote (w : World) (file : File) (bytes : List UInt8) (n : Nat) (events : List Happening)
    (v : World) : Prop where
  count_le : n ≤ bytes.length
  state : v = { w with fs := w.fs.setFile w.store.fileName (file.grow (bytes.take n)) }
  kept : renamed events = false
  last : (events.filterMap completes).getLast? =
    if n = 0 then none else some (decide (n = bytes.length))
  placed : ∀ s fd rest r, ⟨s, .fs (.write fd rest), r⟩ ∈ events → ∃ name file',
    s.fs.opened fd = some (name, file') ∧
      file'.data.length + rest.length = file.data.length + bytes.length

variable {bytes : List UInt8} {n : Nat} {seen : List Happening}

theorem Wrote.start (held : Attached w file excess) : Wrote w file bytes 0 [] w := by
  refine ⟨Nat.zero_le _, ?_, rfl, rfl, ?_⟩
  · have same : file.grow (bytes.take 0) = file := by simp [File.grow]
    rw [same, FileSystem.setFile_self held.entry]
  · intro s fd rest r member
    cases member

theorem Wrote.found (held : Attached w file excess) (wrote : Wrote w file bytes n seen v) :
    v.fs.opened w.store.fd = some (w.store.fileName, file.grow (bytes.take n)) := by
  rw [wrote.state]
  simp [FileSystem.opened, FileSystem.setFile, held.opened]

theorem Wrote.placed_next (held : Attached w file excess) (wrote : Wrote w file bytes n seen v)
    (more : n < bytes.length) : ∃ name file', v.fs.opened w.store.fd = some (name, file') ∧
      file'.data.length + (bytes.drop n).length = file.data.length + bytes.length := by
  refine ⟨_, _, wrote.found held, ?_⟩
  simp only [File.grow, List.length_append, List.length_take, List.length_drop]
  omega

/-- A write that stores `count` more bytes. -/
theorem Wrote.more (held : Attached w file excess) (wrote : Wrote w file bytes n seen v)
    (more : n < bytes.length) {count : Nat} (positive : 0 < count)
    (most : count ≤ (bytes.drop n).length) :
    Wrote w file bytes (n + count)
      (seen ++ [⟨v, .fs (.write w.store.fd (bytes.drop n)), .written count⟩])
      { v with
        fs := v.fs.setFile w.store.fileName
          ((file.grow (bytes.take n)).grow ((bytes.drop n).take count)) } := by
  have next := wrote.placed_next held more
  rw [List.length_drop] at most
  refine ⟨by omega, ?_, ?_, ?_, ?_⟩
  · rw [wrote.state, File.grow_grow, ← List.take_add]
    simp only [FileSystem.setFile_setFile]
  · rw [renamed_append, wrote.kept]
    rfl
  · have done : completes ⟨v, .fs (.write w.store.fd (bytes.drop n)), .written count⟩ =
        some (decide (n + count = bytes.length)) := by
      rw [completes, if_pos positive, List.length_drop]
      congr 2
      apply propext
      omega
    rw [List.filterMap_append, List.filterMap_cons_some done, List.filterMap_nil,
      List.getLast?_append]
    rw [if_neg (by omega : ¬ n + count = 0)]
    rfl
  · intro s fd rest r member
    rcases List.mem_append.mp member with old | new
    · exact wrote.placed s fd rest r old
    · cases List.mem_singleton.mp new
      exact next

theorem Wrote.idle (wrote : Wrote w file bytes n seen v) {rest : List Happening}
    (kept : renamed rest = false) (none : Unwritten rest)
    (placed : ∀ s fd tail r, ⟨s, .fs (.write fd tail), r⟩ ∈ rest → ∃ name file',
      s.fs.opened fd = some (name, file') ∧
        file'.data.length + tail.length = file.data.length + bytes.length) :
    Wrote w file bytes n (seen ++ rest) v := by
  refine ⟨wrote.count_le, wrote.state, ?_, ?_, ?_⟩
  · rw [renamed_append, wrote.kept, kept]
    rfl
  · rw [List.filterMap_append, show rest.filterMap completes = [] from none, List.append_nil]
    exact wrote.last
  · intro s fd tail r member
    rcases List.mem_append.mp member with old | new
    · exact wrote.placed s fd tail r old
    · exact placed s fd tail r new

theorem writeAll_outcome (held : Attached w file excess)
    (run : Ran (writeAll w.store.fd bytes) w events r v) :
    ∃ n, Wrote w file bytes n events v ∧ (r = true ↔ n = bytes.length) := by
  apply Prog.Trace.iterate_induct (fun n s seen => Wrote w file bytes n seen s) (Q := fun r v seen =>
    ∃ n, Wrote w file bytes n seen v ∧ (r = true ↔ n = bytes.length)) run (Wrote.start held)
  intro n s seen events x t wrote pass
  rw [writeTurn] at pass
  split at pass
  swap
  · next whole =>
      rcases ran_pure pass with ⟨rfl, rfl, rfl⟩
      rw [List.append_nil]
      have most := wrote.count_le
      exact ⟨n, wrote, ⟨fun _ => by omega, fun _ => rfl⟩⟩
  next more =>
  have short : false = true ↔ n = bytes.length := by
    constructor
    · intro wrong
      cases wrong
    · omega
  have here := wrote.placed_next held more
  rcases ran_fs (.write _ _) pass with ⟨answer, fs, rest, done, next, rfl⟩
  rcases write_cases (wrote.found held) done with ⟨count, rfl, most, _, rfl⟩ | ⟨refused, rfl⟩
  · dsimp only at next
    split at next
    · next positive =>
        rcases ran_pure next with ⟨rfl, rfl, rfl⟩
        exact wrote.more held more positive most
    · next zero =>
        have none : count = 0 := by omega
        subst none
        rcases ran_log rfl next with ⟨_, last, rfl⟩
        rcases ran_pure last with ⟨rfl, rfl, rfl⟩
        have same : s.fs.setFile w.store.fileName
            ((file.grow (bytes.take n)).grow ((bytes.drop n).take 0)) = s.fs := by
          rw [File.grow_grow, List.take_zero, List.append_nil]
          have entry : s.fs.entries w.store.fileName = some (file.grow (bytes.take n)) := by
            rw [wrote.state]
            exact Function.update_self _ _ _
          rw [FileSystem.setFile_self entry]
        rw [same]
        refine ⟨n, wrote.idle rfl rfl ?_, short⟩
        intro s' fd tail r member
        rcases List.mem_cons.mp member with eq | other
        · cases eq
          exact here
        · cases List.mem_singleton.mp other
  · cases answer with
    | written count => exact absurd rfl (refused count)
    | eintr =>
        rcases ran_pure next with ⟨rfl, rfl, rfl⟩
        refine wrote.idle rfl (by rfl) ?_
        intro s' fd tail r member
        cases List.mem_singleton.mp member
        exact here
    | error =>
        rcases ran_log rfl next with ⟨_, last, rfl⟩
        rcases ran_pure last with ⟨rfl, rfl, rfl⟩
        refine ⟨n, wrote.idle rfl rfl ?_, short⟩
        intro s' fd tail r member
        rcases List.mem_cons.mp member with eq | other
        · cases eq
          exact here
        · cases List.mem_singleton.mp other

/-- A write that leaves the file with whole frames, within the limit, once all of it is done. -/
def Placed (limit : Nat) : Happening → Prop
  | ⟨s, .fs (.write fd bytes), _⟩ => ∃ name file, s.fs.opened fd = some (name, file) ∧
      kFrameSize ∣ file.data.length + bytes.length ∧ file.data.length + bytes.length ≤ limit
  | _ => True

theorem unwriting_placed {limit : Nat} {event : Happening} (unwriting : Unwriting event.call) :
    Placed limit event := by
  rcases event with ⟨before, call, answer⟩
  cases call with
  | fs call =>
      cases call with
      | write fd bytes => exact unwriting.elim
      | _ => trivial
  | _ => trivial

/-- The uncounted bytes that are left after `events`: a rename takes them away. -/
def carried (events : List Happening) (excess : Nat) : Nat := if renamed events then 0 else excess

theorem carried_append (first rest : List Happening) (excess : Nat) :
    carried (first ++ rest) excess = carried rest (carried first excess) := by
  simp only [carried, renamed_append]
  cases renamed first <;> cases renamed rest <;> rfl

/-- Where a part of an append leads. The bytes of an unfinished write are uncounted. -/
structure Filed (w v : World) (events : List Happening) (excess : Nat) (ok : Bool) : Prop where
  config : v.store.config = w.store.config
  directoryFd : v.store.directoryFd = w.store.directoryFd
  fate : (ok = false ∧ v.store.fd = -1) ∨ ∃ file extra,
    Attached v file (carried events excess + extra) ∧ (torn events = true ↔ 0 < extra) ∧
    (ok = true → extra = 0 ∧ v.store.currentSize ≤ v.store.config.maxSegmentBytes)
  placed : excess = 0 → ∀ event ∈ events, Placed w.store.config.maxSegmentBytes event

theorem Filed.held {v : World} (filed : Filed w v events excess true) :
    torn events = false ∧ v.store.currentSize ≤ v.store.config.maxSegmentBytes ∧
      ∃ file, Attached v file (carried events excess) := by
  rcases filed.fate with ⟨wrong, _⟩ | ⟨file, extra, held, part, counted⟩
  · cases wrong
  · rcases counted rfl with ⟨rfl, within⟩
    refine ⟨?_, within, file, held⟩
    cases whole : torn events with
    | false => rfl
    | true => exact absurd (part.mp whole) (Nat.lt_irrefl 0)

theorem Filed.trans {u v : World} {first rest : List Happening} {ok : Bool}
    (one : Filed w u first excess true) (two : Filed u v rest (carried first excess) ok) :
    Filed w v (first ++ rest) excess ok := by
  have whole := one.held.1
  refine ⟨two.config.trans one.config, two.directoryFd.trans one.directoryFd, ?_, ?_⟩
  · rcases two.fate with closed | ⟨file, extra, held, part, counted⟩
    · exact Or.inl closed
    · refine Or.inr ⟨file, extra, ?_, ?_, counted⟩
      · rw [carried_append]
        exact held
      · rw [torn_append whole]
        exact part
  · intro none event member
    rcases List.mem_append.mp member with old | new
    · exact one.placed none event old
    · have later := two.placed (by rw [none, carried]; split <;> rfl) event new
      rw [one.config] at later
      exact later

/-- A part that writes nothing and leaves the file open. -/
theorem Filed.unwritten {ok : Bool} (config : v.store.config = w.store.config)
    (directoryFd : v.store.directoryFd = w.store.directoryFd)
    (silent : ∀ event ∈ events, Unwriting event.call)
    (held : ∃ file, Attached v file (carried events excess))
    (within : v.store.currentSize ≤ v.store.config.maxSegmentBytes) : Filed w v events excess ok := by
  rcases held with ⟨file, held⟩
  refine ⟨config, directoryFd, Or.inr ⟨file, 0, held, ?_, fun _ => ⟨rfl, within⟩⟩,
    fun _ event member => unwriting_placed (silent event member)⟩
  rw [(unwriting_unwritten silent).torn]
  constructor
  · intro wrong
    cases wrong
  · intro wrong
    exact absurd wrong (Nat.lt_irrefl 0)

theorem syncIfDue_outcome (held : Attached w file excess)
    (within : w.store.currentSize ≤ w.store.config.maxSegmentBytes)
    (run : Ran syncIfDue w events r v) :
    Filed w v events excess r ∧ v.store.currentSize = w.store.currentSize ∧
      (r = true → Due v.store.config v) := by
  have rest := ran_members run
  split at rest
  · have quiet := rest.within sync_quiet
    rcases sync_outcome held rest with ⟨file', after, _, store⟩
    have same : v.store.config = w.store.config ∧ v.store.directoryFd = w.store.directoryFd ∧
        v.store.currentSize = w.store.currentSize := by
      rw [store]
      exact ⟨rfl, rfl, rfl⟩
    refine ⟨.unwritten same.1 same.2.1 (fun event member => (quiet event member).unwriting) ?_ ?_,
      same.2.2, ?_⟩
    · rw [carried, quiet_renamed quiet]
      exact ⟨file', after⟩
    · rw [same.1, same.2.2]
      exact within
    · rintro rfl periodic
      have counted : v.store.unsyncedBytes = 0 := by rw [store]; rfl
      rw [counted]
      exact Nat.pos_of_ne_zero periodic
  · next idle =>
      rcases ran_pure rest with ⟨rfl, rfl, rfl⟩
      refine ⟨.unwritten rfl rfl (by simp) ⟨file, held⟩ within, rfl, ?_⟩
      intro _ periodic
      omega

theorem rotateIfFull_outcome (held : Attached w file excess) (run : Ran rotateIfFull w events r v) :
    Filed w v events excess r ∧ (r = true → v.store.currentSize < v.store.config.maxSegmentBytes) := by
  have room := held.valid.room
  have rest := ran_members run
  split at rest
  · have silent := rest.within rotate_unwriting
    have rotation := rotate_outcome held rest
    rcases rotation.fate with ⟨rfl, closed⟩ | ⟨rfl, kept, file', after⟩ | ⟨gone, empty, file', after⟩
    · exact ⟨⟨rotation.config, rotation.directoryFd, Or.inl ⟨rfl, closed⟩,
        fun _ event member => unwriting_placed (silent event member)⟩, fun wrong => absurd wrong (by simp)⟩
    · refine ⟨⟨rotation.config, rotation.directoryFd, Or.inr ⟨file', 0, ?_, ?_, fun wrong => absurd wrong
        (by simp)⟩, fun _ event member => unwriting_placed (silent event member)⟩,
        fun wrong => absurd wrong (by simp)⟩
      · rw [carried, kept]
        exact after
      · rw [rotation.unwritten.torn]
        exact ⟨fun wrong => (by cases wrong), fun wrong => absurd wrong (Nat.lt_irrefl 0)⟩
    · have positive : 0 < v.store.config.maxSegmentBytes := by
        rw [rotation.config]
        exact Nat.lt_of_lt_of_le (by decide) room
      refine ⟨.unwritten rotation.config rotation.directoryFd silent ?_ ?_, ?_⟩
      · rw [carried, gone]
        exact ⟨file', after⟩
      · rw [empty]
        exact Nat.zero_le _
      · intro _
        rw [empty]
        exact positive
  · next more =>
      rcases ran_pure rest with ⟨rfl, rfl, rfl⟩
      exact ⟨.unwritten rfl rfl (by simp) ⟨file, held⟩ (by omega), fun _ => by omega⟩

def FileStore.counting (store : FileStore) (count : Nat) : FileStore :=
  { store with
    currentSize := Ipc.u64 (store.currentSize + count)
    unsyncedBytes := Ipc.u64 (store.unsyncedBytes + count) }

theorem Attached.grow (held : Attached w file excess) (new : List UInt8) :
    Attached { w with fs := w.fs.setFile w.store.fileName (file.grow new) } (file.grow new)
      (excess + new.length) := by
  refine ⟨held.valid, held.fd, held.directory, held.opened, Function.update_self _ _ _, ?_,
    held.aligned, held.whole, held.written⟩
  have size := held.size
  simp only [File.grow, List.length_append]
  omega

theorem Attached.count {count : Nat} (held : Attached w file (excess + count))
    (whole : kFrameSize ∣ count) (fits : w.store.currentSize + count ≤ w.store.config.maxSegmentBytes) :
    Attached { w with store := w.store.counting count } file excess := by
  have small := w.store.config.max_lt
  have written := held.written
  have size : Ipc.u64 (w.store.currentSize + count) = w.store.currentSize + count :=
    Nat.mod_eq_of_lt (by omega)
  have unsynced : Ipc.u64 (w.store.unsyncedBytes + count) = w.store.unsyncedBytes + count :=
    Nat.mod_eq_of_lt (by omega)
  refine ⟨held.valid, held.fd, held.directory, held.opened, held.entry, ?_, ?_, ?_, ?_⟩
  · have length := held.size
    simp only [FileStore.counting, size]
    omega
  · simp only [FileStore.counting, size]
    exact Nat.dvd_add held.aligned whole
  · simp only [FileStore.counting, unsynced]
    exact Nat.dvd_add held.whole whole
  · simp only [FileStore.counting, size, unsynced]
    omega

theorem Wrote.filed {count : Nat} (held : Attached w file excess)
    (wrote : Wrote w file bytes n events v) (length : bytes.length = count)
    (whole : kFrameSize ∣ count) (fits : w.store.currentSize + count ≤ w.store.config.maxSegmentBytes) :
    (n < count → Filed w v events excess false) ∧
    (0 < count → n = count → Filed w { v with store := v.store.counting count } events excess true) := by
  have placed : excess = 0 → ∀ event ∈ events, Placed w.store.config.maxSegmentBytes event := by
    rintro rfl ⟨s, call, r⟩ member
    cases call with
    | fs call =>
        cases call with
        | write fd rest =>
            rcases wrote.placed s fd rest r member with ⟨name, file', found, size⟩
            have total := held.size
            rw [Nat.add_zero] at total
            refine ⟨name, file', found, ?_, ?_⟩
            · rw [size, total, length]
              exact Nat.dvd_add held.aligned whole
            · rw [size, total, length]
              exact fits
        | _ => trivial
    | _ => trivial
  have grown := held.grow (bytes.take n)
  rw [← wrote.state, List.length_take, min_eq_left wrote.count_le] at grown
  have kept : carried events excess = excess := by
    rw [carried, wrote.kept]
    rfl
  have store : v.store = w.store := by rw [wrote.state]
  constructor
  · intro short
    refine ⟨by rw [store], by rw [store], Or.inr ⟨file.grow (bytes.take n), n, ?_, ?_,
      fun wrong => absurd wrong (by simp)⟩, placed⟩
    · rw [kept]
      exact grown
    · rw [torn, wrote.last, length]
      by_cases none : n = 0
      · simp [none]
      · simp only [none, if_false]
        simp
        omega
  · intro positive all
    subst all
    have counted := grown.count whole (by rw [store]; exact fits)
    have size : (v.store.counting n).currentSize = w.store.currentSize + n := by
      rw [store]
      exact Nat.mod_eq_of_lt (Nat.lt_of_le_of_lt fits w.store.config.max_lt)
    refine ⟨?_, ?_, Or.inr ⟨file.grow (bytes.take n), 0, ?_, ?_, ?_⟩, placed⟩
    · change v.store.config = _
      rw [store]
    · change v.store.directoryFd = _
      rw [store]
    · rw [kept]
      exact counted
    · rw [torn, wrote.last, if_neg (by omega), length]
      simp
    · intro _
      refine ⟨rfl, ?_⟩
      change (v.store.counting n).currentSize ≤ v.store.config.maxSegmentBytes
      rw [size, store]
      exact fits

theorem appendChunk_outcome {frames : List UInt8} {offset : Nat} {next : Option Nat}
    (held : Attached w file excess) (whole : kFrameSize ∣ frames.length)
    (aligned : kFrameSize ∣ offset) (more : offset < frames.length)
    (run : Ran (appendChunk frames offset) w events next v) :
    Filed w v events excess next.isSome ∧
      ∀ n, next = some n → offset < n ∧ n ≤ frames.length ∧ kFrameSize ∣ n := by
  have refused : ∀ n, (none : Option Nat) = some n →
      offset < n ∧ n ≤ frames.length ∧ kFrameSize ∣ n := by
    intro n wrong
    cases wrong
  rcases ran_check run with ⟨failed, rfl⟩ | ⟨a, events₁, tail₁, rotated, run₁, rfl⟩
  · exact ⟨(rotateIfFull_outcome held failed).1, refused⟩
  rcases rotateIfFull_outcome held rotated with ⟨filed₁, room⟩
  rcases filed₁.held with ⟨_, within₁, fileA, heldA⟩
  rcases ran_check run₁ with ⟨failed, rfl⟩ | ⟨b, events₂, tail₂, synced, run₂, rfl⟩
  · exact ⟨filed₁.trans (syncIfDue_outcome heldA within₁ failed).1, refused⟩
  rcases syncIfDue_outcome heldA within₁ synced with ⟨filed₂, size, due⟩
  rcases filed₂.held with ⟨_, within₂, fileB, heldB⟩
  have chunk : Chunk b.store (frames.length - offset) (chunkSize b.store (frames.length - offset)) := by
    apply chunkSize_chunk heldB.valid (by omega) (Nat.dvd_sub whole aligned) heldB.aligned heldB.whole
    · rw [size, filed₂.config]
      exact room rfl
    · exact due rfl
  have run₃ := ran_members run₂
  generalize chunkSize b.store (frames.length - offset) = count at chunk run₃
  have positive := chunk.positive
  have most := chunk.count_le
  have length : ((frames.drop offset).take count).length = count := by
    rw [List.length_take, List.length_drop]
    omega
  rcases ran_check run₃ with ⟨failed, rfl⟩ | ⟨c, events₃, tail₃, written, run₄, rfl⟩
  · rcases writeAll_outcome heldB failed with ⟨n, wrote, short⟩
    have bound := wrote.count_le
    have part : n < count := by
      have different : ¬ n = ((frames.drop offset).take count).length := fun same =>
        absurd (short.mpr same) (by simp)
      omega
    exact ⟨filed₁.trans (filed₂.trans ((wrote.filed heldB length chunk.whole chunk.fits).1 part)), refused⟩
  rcases writeAll_outcome heldB written with ⟨n, wrote, all⟩
  have filed₃ := (wrote.filed heldB length chunk.whole chunk.fits).2 positive ((all.mp rfl).trans length)
  rcases filed₃.held with ⟨_, within₃, fileC, heldC⟩
  have run₅ := ran_update run₄
  rcases ran_check run₅ with ⟨failed, rfl⟩ | ⟨d, events₄, tail₄, synced', run₆, rfl⟩
  · exact ⟨filed₁.trans (filed₂.trans (filed₃.trans (syncIfDue_outcome heldC within₃ failed).1)), refused⟩
  rcases ran_pure run₆ with ⟨rfl, rfl, rfl⟩
  rw [List.append_nil]
  refine ⟨filed₁.trans (filed₂.trans (filed₃.trans (syncIfDue_outcome heldC within₃ synced').1)), ?_⟩
  rintro n same
  cases same
  exact ⟨by omega, by omega, Nat.dvd_add aligned chunk.whole⟩

theorem appendFrames_closed {frames : List UInt8} (closed : w.store.fd = -1)
    (run : Ran (appendFrames frames) w events r v) : r = false ∧ v = w ∧ events = [] := by
  have rest := ran_members run
  simp only [closed, if_true] at rest
  rcases ran_pure rest with ⟨none, answer, same⟩
  exact ⟨answer, same, none⟩

theorem appendFrames_outcome {frames : List UInt8} (held : Attached w file excess)
    (run : Ran (appendFrames frames) w events r v) : Filed w v events excess r := by
  have run₀ := ran_members run
  simp only [held.fd, if_false] at run₀
  split at run₀
  · have quiet := run₀.within (refuse_quiet _)
    rcases ran_refuse rfl run₀ with ⟨rfl, rfl⟩
    refine ⟨rfl, rfl, Or.inr ⟨file, 0, ?_, ?_, fun wrong => absurd wrong (by simp)⟩,
      fun _ event member => unwriting_placed (quiet event member).unwriting⟩
    · rw [carried, quiet_renamed quiet]
      exact held
    · rw [(unwriting_unwritten (fun event member => (quiet event member).unwriting)).torn]
      exact ⟨fun wrong => (by cases wrong), fun wrong => absurd wrong (Nat.lt_irrefl 0)⟩
  next proper =>
  have whole : kFrameSize ∣ frames.length := by
    apply Nat.dvd_of_mod_eq_zero
    by_contra wrong
    exact proper (Or.inr wrong)
  have filled : 0 < frames.length := by
    apply List.length_pos_iff.mpr
    intro empty
    exact proper (Or.inl empty)
  apply Prog.Trace.iterate_induct (fun offset s seen => offset ≤ frames.length ∧ kFrameSize ∣ offset ∧
    ((offset = 0 ∧ s = w ∧ seen = []) ∨ (0 < offset ∧ Filed w s seen excess true)))
    (Q := fun r v seen => Filed w v seen excess r) run₀
    ⟨Nat.zero_le _, Nat.dvd_zero _, Or.inl ⟨rfl, rfl, rfl⟩⟩
  rintro offset s seen events x t ⟨inside, aligned, progress⟩ pass
  rw [appendTurn] at pass
  split at pass
  swap
  · next done =>
      rcases ran_pure pass with ⟨rfl, rfl, rfl⟩
      rw [List.append_nil]
      rcases progress with ⟨rfl, _⟩ | ⟨_, filed⟩
      · exact absurd filled done
      · exact filed
  next more =>
  -- The chunk starts either from the given store or from where earlier chunks have led.
  have chunk : ∀ {events next u}, Ran (appendChunk frames offset) s events next u →
      Filed w u (seen ++ events) excess next.isSome ∧
        ∀ n, next = some n → offset < n ∧ n ≤ frames.length ∧ kFrameSize ∣ n := by
    intro events next u chunk
    rcases progress with ⟨rfl, rfl, rfl⟩ | ⟨_, filed⟩
    · exact appendChunk_outcome held whole aligned more chunk
    · rcases filed.held with ⟨_, _, file', held'⟩
      rcases appendChunk_outcome held' whole aligned more chunk with ⟨later, facts⟩
      exact ⟨filed.trans later, facts⟩
  rcases Prog.Trace.bind_iff.mp pass with ⟨next, u, first, last, appended, tail, rfl⟩
  rcases chunk appended with ⟨filed, facts⟩
  cases next with
  | none =>
      rcases ran_pure tail with ⟨rfl, rfl, rfl⟩
      rw [List.append_nil]
      exact filed
  | some n =>
      rcases ran_pure tail with ⟨rfl, rfl, rfl⟩
      rw [List.append_nil]
      rcases facts n rfl with ⟨later, bound, multiple⟩
      exact ⟨bound, multiple, Or.inr ⟨by omega, filed⟩⟩

end Append

section Granted

variable {w v : World} {file : File} {excess : Nat} {events : List Happening} {r : Bool}

theorem closeActiveFile_granted (run : Ran closeActiveFile w events r v)
    (granted : ∀ event ∈ events, Granted event) : r = true := by
  have rest := ran_members run
  split at rest
  · exact (ran_pure rest).2.1
  rcases ran_fs (.close _) (ran_update rest) with ⟨ok, fs, tail, done, next, rfl⟩
  rcases granted_cons.mp granted with ⟨yes, _⟩
  have same : ok = true := yes
  subst same
  exact (ran_pure next).2.1

theorem archiveName_nonempty (fileName : String) (sec : Int) (nsec sequence : Nat) :
    (archiveName fileName sec nsec sequence).isEmpty = false := by
  rw [← Bool.not_eq_true, String.isEmpty_iff]
  intro empty
  have lengths := congrArg String.length empty
  simp only [archiveName, String.length_append] at lengths
  have dot : ".segment".length = 8 := by decide
  have none : "".length = 0 := by decide
  omega

theorem makeArchiveName_granted {archive : String} (run : Ran makeArchiveName w events archive v)
    (granted : ∀ event ∈ events, Granted event) : archive.isEmpty = false := by
  rcases ran_fs .clockGettime run with ⟨time, fs, tail, done, next, rfl⟩
  rcases granted_cons.mp granted with ⟨fine, _⟩
  cases time with
  | error => exact absurd rfl fine
  | ok sec nsec =>
      have named := ran_update (ran_members next)
      rw [(ran_pure named).2.1]
      exact archiveName_nonempty _ _ _ _

theorem rotate_granted (held : Attached w file excess) (run : Ran rotate w events r v)
    (granted : ∀ event ∈ events, Granted event) : r = true := by
  have run₀ := ran_members run
  simp only [held.fd, if_false] at run₀
  rcases ran_check run₀ with ⟨failed, rfl⟩ | ⟨a, sync₁, tail₁, synced, run₁, rfl⟩
  · exact sync_granted held.fd failed granted
  rcases sync_outcome held synced with ⟨fileA, heldA, _, storeA⟩
  have granted₁ := (granted_append.mp granted).2
  rcases ran_check run₁ with ⟨failed, rfl⟩ | ⟨b, close₂, tail₂, closing, run₂, rfl⟩
  · exact closeActiveFile_granted failed granted₁
  have granted₂ := (granted_append.mp granted₁).2
  rcases Prog.Trace.bind_iff.mp run₂ with ⟨archive, c, name₃, tail₃, named, run₃, rfl⟩
  rcases granted_append.mp granted₂ with ⟨grantedName, granted₃⟩
  rcases makeArchiveName_outcome named with ⟨_, sequence, storeC, _⟩
  rw [(closeActiveFile_outcome heldA closing).1, storeA] at storeC
  rw [makeArchiveName_granted named grantedName] at run₃
  simp only [Bool.false_eq_true, if_false] at run₃
  rcases ran_fs (.renameat _ _ _) run₃ with ⟨ok, fs, tail₄, done, run₄, rfl⟩
  rcases granted_cons.mp granted₃ with ⟨yes, granted₄⟩
  have same : ok = true := yes
  subst same
  rcases ran_check run₄ with ⟨failed, rfl⟩ | ⟨d, sync₅, tail₅, synced', run₅, rfl⟩
  · refine syncDirectory_granted ?_ failed granted₄
    change c.store.directoryFd ≠ -1
    rw [storeC]
    exact held.directory
  rw [syncDirectory_outcome synced'] at run₅
  have granted₅ := (granted_append.mp granted₄).2
  rcases ran_check (ran_update run₅) with ⟨failed, rfl⟩ | ⟨e, open₆, tail₆, opening, run₆, rfl⟩
  · refine openActiveFile_granted ⟨?_, ?_, rfl, rfl⟩ failed granted₅
    · change c.store.config.Valid
      rw [storeC]
      exact held.valid
    · change c.store.directoryFd ≠ -1
      rw [storeC]
      exact held.directory
  · rcases ran_log rfl run₆ with ⟨_, last, _⟩
    exact (ran_pure last).2.1

theorem rotateIfFull_granted (held : Attached w file excess) (run : Ran rotateIfFull w events r v)
    (granted : ∀ event ∈ events, Granted event) : r = true := by
  have rest := ran_members run
  split at rest
  · exact rotate_granted held rest granted
  · exact (ran_pure rest).2.1

theorem syncIfDue_granted (held : Attached w file excess) (run : Ran syncIfDue w events r v)
    (granted : ∀ event ∈ events, Granted event) : r = true := by
  have rest := ran_members run
  split at rest
  · exact sync_granted held.fd rest granted
  · exact (ran_pure rest).2.1

theorem writeAll_granted {fd : Int} {bytes : List UInt8} (run : Ran (writeAll fd bytes) w events r v)
    (granted : ∀ event ∈ events, Granted event) : r = true := by
  apply Prog.Trace.iterate_induct (fun _ _ _ => True) (Q := fun r _ seen =>
    (∀ event ∈ seen, Granted event) → r = true) run trivial _ granted
  intro n s seen events x t _ pass
  rw [writeTurn] at pass
  split at pass
  swap
  · rcases ran_pure pass with ⟨_, rfl, _⟩
    exact fun _ => rfl
  rcases ran_fs (.write _ _) pass with ⟨answer, fs, rest, done, next, rfl⟩
  cases answer with
  | eintr =>
      rcases ran_pure next with ⟨_, rfl, _⟩
      trivial
  | error =>
      rcases ran_log rfl next with ⟨_, last, _⟩
      rcases ran_pure last with ⟨_, rfl, _⟩
      intro all
      exact absurd rfl (granted_cons.mp (granted_append.mp all).2).1.1
  | written count =>
      dsimp only at next
      split at next
      · rcases ran_pure next with ⟨_, rfl, _⟩
        trivial
      · next zero =>
          have none : count = 0 := by omega
          subst none
          rcases ran_log rfl next with ⟨_, last, _⟩
          rcases ran_pure last with ⟨_, rfl, _⟩
          intro all
          exact absurd rfl (granted_cons.mp (granted_append.mp all).2).1.2

end Granted

end TelemetryServer.Storage
