import Mathlib.Data.List.Nodup
import TelemetryServer.Storage.Archives

/-! How the names of archives are ordered, and when two archives get the same one. -/

namespace TelemetryServer.Storage

open Protocol Atomic
open Ipc (u64)

section Open

variable {name path : String} {n : Nat} {w u v : World} {events : List Happening} {r : Bool}

/-- What an attempt to open a closed store does about the names of archives. -/
structure Entering (path : String) (w : World) (events : List Happening) (v : World) : Prop where
  stamps : stamps events = []
  renames : renames events = []
  sequence : v.store.rotationSequence = w.store.rotationSequence
  fileName : v.store.directoryFd ≠ -1 → v.store.fileName = pathFilename path

theorem Idle.entering (idle : Idle w events v) (outside : v.store.directoryFd = -1) :
    Entering path w events v :=
  ⟨idle.stamps, idle.renames, idle.same.2, fun inside => absurd outside inside⟩

theorem Idle.then_entering {first rest : List Happening} (one : Idle w first u)
    (two : Entering path u rest v) : Entering path w (first ++ rest) v := by
  refine ⟨?_, ?_, two.sequence.trans one.same.2, two.fileName⟩
  · rw [stamps_append, one.stamps, two.stamps]
    rfl
  · rw [renames_append, one.renames, two.renames]
    rfl

theorem Entering.then_idle {first rest : List Happening} (one : Entering path w first u)
    (named : u.store.fileName = pathFilename path) (two : Idle u rest v) :
    Entering path w (first ++ rest) v := by
  refine ⟨?_, ?_, two.same.2.trans one.sequence, fun _ => two.same.1.trans named⟩
  · rw [stamps_append, one.stamps, two.stamps]
    rfl
  · rw [renames_append, one.renames, two.renames]
    rfl

theorem openDirectory_entering (outside : w.store.directoryFd = -1)
    (run : Ran (openDirectory path) w events r v) :
    Entering path w events v ∧ (r = true → v.store.fileName = pathFilename path) := by
  rw [openDirectory] at run
  dsimp only at run
  split at run
  · rcases ran_log rfl run with ⟨_, next, rfl⟩
    rcases ran_pure next with ⟨rfl, rfl, rfl⟩
    exact ⟨⟨rfl, rfl, rfl, fun inside => absurd outside inside⟩, fun wrong => by cases wrong⟩
  rcases ran_fs (.openDirectory _) (ran_update run) with ⟨answer, fs, rest, done, next, rfl⟩
  rcases openDirectory_cases done with ⟨fd, rfl, _, rfl⟩ | ⟨rfl, rfl⟩
  · have stored := ran_update next
    rcases ran_pure stored with ⟨rfl, rfl, rfl⟩
    exact ⟨⟨rfl, rfl, rfl, fun _ => rfl⟩, fun _ => rfl⟩
  · rcases ran_log rfl (ran_update next) with ⟨_, last, rfl⟩
    rcases ran_pure last with ⟨rfl, rfl, rfl⟩
    exact ⟨⟨rfl, rfl, rfl, fun inside => absurd rfl inside⟩, fun wrong => by cases wrong⟩

theorem openFile_entering (closed : Closed w) (run : Ran (openFile path) w events r v) :
    Entering path w events v := by
  have run₀ := ran_members run
  simp only [closed.fd, closed.directoryFd, ne_eq, not_true_eq_false, or_self, if_false] at run₀
  rcases ran_check run₀ with ⟨failed, _⟩ | ⟨a, first, rest, checked, run₁, rfl⟩
  · rcases validateConfig_outcome failed with ⟨rfl, _, _⟩
    exact (validateConfig_still.idle failed).entering closed.directoryFd
  have before := validateConfig_still.idle checked
  rw [(validateConfig_outcome checked).1] at before run₁
  refine before.then_entering ?_
  rcases ran_check run₁ with ⟨failed, _⟩ | ⟨b, first', rest', entered, run₂, rfl⟩
  · exact (openDirectory_entering closed.directoryFd failed).1
  rcases openDirectory_entering closed.directoryFd entered with ⟨entering, named⟩
  refine entering.then_idle (named rfl) (Still.idle run₂ ?_)
  apply openActiveFile_still.check
  apply members_still.bind
  intro m
  exact (log_still rfl).bind fun _ => .pure true

end Open

section Life

variable {name path : String} {n : Nat} {w u v : World} {events : List Happening} {r : Bool}

theorem Sound.closed (sound : Sound w) (outside : w.store.directoryFd = -1) : Closed w := by
  rcases sound with closed | ⟨_, inside⟩ | ⟨file, excess, held⟩
  · exact closed
  · exact absurd outside inside
  · exact absurd outside held.directory

/-- Once the directory is open, the active file keeps its name. -/
theorem StoreRequest.named (request : StoreRequest) (sound : Sound w)
    (inside : w.store.directoryFd ≠ -1) (start : Names name n w) (run : Ran request.run w events r v) :
    Named name n events v ∧ v.store.directoryFd ≠ -1 := by
  have appends : ∀ {frames}, Ran (Storage.appendFrames frames) w events r v →
      Named name n events v ∧ v.store.directoryFd ≠ -1 := by
    intro frames run
    refine ⟨appendFrames_named start run, ?_⟩
    rcases sound with closed | ⟨fd, _⟩ | ⟨file, excess, held⟩
    · exact absurd closed.directoryFd inside
    · rw [(appendFrames_closed fd run).2.1]
      exact inside
    · rw [(appendFrames_outcome held run).directoryFd]
      exact inside
  cases request with
  | openFile path =>
      rcases openFile_refused (Or.inr inside) run with ⟨_, rfl, rfl⟩
      exact ⟨Idle.named start ⟨rfl, rfl, rfl, rfl⟩, inside⟩
  | appendFrames batch => exact appends run
  | appendFrame frame => exact appends run
  | sync =>
      refine ⟨sync_still.named start run, ?_⟩
      rcases sound with closed | ⟨fd, _⟩ | ⟨file, excess, held⟩
      · exact absurd closed.directoryFd inside
      · rw [(sync_closed fd run).2.1]
        exact inside
      · rcases sync_outcome held run with ⟨file', after, _⟩
        exact after.directory

theorem life_named_inside (requests : List StoreRequest) (sound : Sound w)
    (inside : w.store.directoryFd ≠ -1) (start : Names name n w)
    (run : Ran (life requests) w events () v) : Named name n events v := by
  induction requests generalizing w events n with
  | nil => exact Still.named start run (.pure ())
  | cons request rest ih =>
      rcases Prog.Trace.bind_iff.mp run with ⟨_, u, first, last, done, next, rfl⟩
      rcases request.named sound inside start done with ⟨named, inside'⟩
      exact named.trans (ih (request.sound sound done) inside' named.names next)

/-- The renames are to names made of one file name, one that was asked for, and the stamps
are numbered from `n` on. -/
def Alike (requests : List StoreRequest) (n : Nat) (events : List Happening) : Prop :=
  ∃ name, targets events = (stamps events).map (Stamp.name name) ∧
    (stamps events).map Stamp.sequence = (List.range' n (stamps events).length).map u64 ∧
    (stamps events = [] ∨ ∃ path, .openFile path ∈ requests ∧ name = pathFilename path)

theorem Alike.cons {requests : List StoreRequest} {first rest : List Happening}
    (alike : Alike requests n rest) (request : StoreRequest) (none : stamps first = [])
    (none' : renames first = []) : Alike (request :: requests) n (first ++ rest) := by
  rcases alike with ⟨name, targeted, numbered, source⟩
  rw [Alike, stamps_append, targets_append, none, targets, none']
  refine ⟨name, targeted, numbered, ?_⟩
  rcases source with empty | ⟨path, member, rfl⟩
  · exact Or.inl empty
  · exact Or.inr ⟨path, List.mem_cons_of_mem _ member, rfl⟩

theorem life_alike (requests : List StoreRequest) (closed : Closed w)
    (start : w.store.rotationSequence = u64 n) (run : Ran (life requests) w events () v) :
    Alike requests n events := by
  induction requests generalizing w events with
  | nil =>
      rcases ran_pure run with ⟨rfl, _, _⟩
      exact ⟨"", rfl, rfl, Or.inl rfl⟩
  | cons request rest ih =>
      rcases Prog.Trace.bind_iff.mp run with ⟨_, u, first, last, done, next, rfl⟩
      have nothing : first = [] → u = w → Alike (request :: rest) n (first ++ last) := by
        rintro rfl rfl
        exact (ih closed start next).cons request rfl rfl
      cases request with
      | openFile path =>
          have entering := openFile_entering closed done
          have sound := StoreRequest.sound (.openFile path) (Or.inl closed) done
          by_cases outside : u.store.directoryFd = -1
          · have later := ih (sound.closed outside) (entering.sequence.trans start) next
            exact later.cons _ entering.stamps entering.renames
          · have named := life_named_inside rest sound outside
              ⟨entering.fileName outside, entering.sequence.trans start⟩ next
            rw [Alike, stamps_append, targets_append, entering.stamps, targets, entering.renames]
            exact ⟨_, named.targets, named.numbers, Or.inr ⟨path, List.mem_cons_self, rfl⟩⟩
      | appendFrames batch =>
          rcases appendFrames_closed closed.fd done with ⟨_, same, none⟩
          exact nothing none same
      | appendFrame frame =>
          rcases appendFrames_closed closed.fd done with ⟨_, same, none⟩
          exact nothing none same
      | sync =>
          rcases sync_closed closed.fd done with ⟨_, same, none⟩
          exact nothing none same

end Life

section Texts

variable {fileName : String} {a b : Stamp}

theorem archiveName_toList (fileName : String) (sec : Int) (nsec sequence : Nat) :
    (archiveName fileName sec nsec sequence).toList = fileName.toList ++ '.' :: ((toString sec).toList ++
      '.' :: (Nat.toDigits 10 nsec ++ '.' :: (Nat.toDigits 10 sequence ++ '.' :: "segment".toList))) := by
  simp [archiveName]

/-- The first of the three numbers that differ decides, and decides by its digits from the
left. -/
def Stamp.Before (a b : Stamp) : Prop :=
  Decimal.Before a.sec.toNat b.sec.toNat ∨ a.sec = b.sec ∧
    (Decimal.Before a.nsec b.nsec ∨ a.nsec = b.nsec ∧ Decimal.Before a.sequence b.sequence)

instance : DecidableRel Stamp.Before :=
  fun _ _ => inferInstanceAs (Decidable (_ ∨ _ ∧ (_ ∨ _ ∧ _)))

theorem Stamp.name_lt_iff (past : 0 ≤ a.sec) (past' : 0 ≤ b.sec) :
    a.name fileName < b.name fileName ↔ a.Before b := by
  have low : '.' < '0' := by decide
  have ends : ¬ "segment".toList < "segment".toList := List.lt_irrefl _
  have seconds : a.sec.toNat = b.sec.toNat ↔ a.sec = b.sec := by omega
  calc
    a.name fileName < b.name fileName ↔ (a.name fileName).toList < (b.name fileName).toList :=
      String.lt_iff
    _ ↔ a.Before b := by
      rw [Stamp.name, Stamp.name, archiveName_toList, archiveName_toList, Decimal.prefix_lt_iff,
        List.cons_lt_cons_self, Decimal.repr_past past, Decimal.repr_past past',
        Decimal.number_lt_iff low, Decimal.number_lt_iff low, Decimal.number_lt_iff low, seconds]
      simp only [ends, and_false, or_false]
      rfl

theorem Stamp.name_inj (same : a.name fileName = b.name fileName) : a = b := by
  have texts := congrArg String.toList same
  rw [Stamp.name, Stamp.name, archiveName_toList, archiveName_toList] at texts
  have front := List.tail_eq_of_cons_eq (List.append_cancel_left texts)
  have plain : ∀ sec : Int, '.' ∉ (toString sec).toList :=
    Decimal.not_mem_repr (by decide) (by decide)
  have dotless : ∀ n : Nat, '.' ∉ Nat.toDigits 10 n := Decimal.not_mem_toDigits (by decide)
  rcases Decimal.split_inj (plain _) (plain _) front with ⟨sec, front'⟩
  rcases Decimal.split_inj (dotless _) (dotless _) front' with ⟨nsec, front''⟩
  rcases Decimal.split_inj (dotless _) (dotless _) front'' with ⟨sequence, _⟩
  cases a
  cases b
  rw [Stamp.mk.injEq]
  exact ⟨Decimal.repr_inj sec, Decimal.toDigits_inj nsec, Decimal.toDigits_inj sequence⟩

theorem u64_inj {i j : Nat} (small : i < 2 ^ 64) (small' : j < 2 ^ 64) (same : u64 i = u64 j) :
    i = j := by
  rwa [u64, u64, Nat.mod_eq_of_lt small, Nat.mod_eq_of_lt small'] at same

/-- Before the counter of a store wraps around no two of its archives have one name. -/
theorem Numbered.nodup {fs : FileSystem} {store : FileStore} (numbered : Numbered fs store)
    (few : fs.archives.length ≤ 2 ^ 64) : fs.archives.Nodup := by
  apply List.nodup_iff_getElem?_ne_getElem?.mpr
  intro i j less bound same
  have found : fs.archives[j]? = some fs.archives[j] := List.getElem?_eq_getElem bound
  obtain ⟨sec, nsec, name⟩ := numbered.archives j _ found
  obtain ⟨sec', nsec', name'⟩ := numbered.archives i _ (same.trans found)
  have stamps : (⟨sec, nsec, u64 j⟩ : Stamp) = ⟨sec', nsec', u64 i⟩ :=
    Stamp.name_inj (name.symm.trans name')
  have counted : j = i := u64_inj (by omega) (by omega) (congrArg Stamp.sequence stamps)
  omega

end Texts

/-- The names a store gives to its archives are sorted exactly if of any two stamps the
earlier one comes first by its digits. -/
theorem archives_sorted_iff {config : FileStoreConfig} {requests : List StoreRequest} {w v : World}
    {events : List Happening} (fresh : w.store = { config := config })
    (run : Ran (life requests) w events () v) (past : ∀ stamp ∈ stamps events, 0 ≤ stamp.sec) :
    (targets events).Pairwise (· < ·) ↔ (stamps events).Pairwise Stamp.Before := by
  have closed : Closed w := ⟨by rw [fresh], by rw [fresh], by rw [fresh], by rw [fresh]⟩
  have start : w.store.rotationSequence = u64 0 := by
    rw [fresh]
    rfl
  rcases life_alike requests closed start run with ⟨name, targeted, _, _⟩
  rw [targeted, List.pairwise_map]
  constructor
  · intro sorted
    apply sorted.imp_of_mem
    intro a b member member' less
    exact (Stamp.name_lt_iff (past a member) (past b member')).mp less
  · intro ordered
    apply ordered.imp_of_mem
    intro a b member member' before
    exact (Stamp.name_lt_iff (past a member) (past b member')).mpr before

/-- The clock shows a given time at each rotation, and no call fails. -/
def clockAt (times : Nat → Int × Nat) (n : Nat) : (call : Call) → World → call.Resp
  | .fs .clockGettime, w => .ok (times w.fs.archives.length).1 (times w.fs.archives.length).2
  | call, w => Calm.answer n call w

def threeFrames : List StoreRequest := [.openFile "t", .appendFrames (List.replicate 96 0)]

unseal pathFilename parentPath in
/-- Two rotations with nine digits of nanoseconds each. -/
theorem archives_sorted_half : ∃ events : List Happening, (stamps events).length = 2 ∧
    (targets events).Pairwise (· < ·) := by
  have run : Ran (life threeFrames) (emptyDirectory { maxSegmentBytes := 32, syncEveryBytes := 0 })
      _ () _ := Prog.perform_trace (clockAt fun n => (1700000000, 500000000 + n)) 140 rfl
  exact ⟨_, rfl, (archives_sorted_iff rfl run (by decide)).mpr (by decide)⟩

def tenth : Nat → Int × Nat
  | 0 => (1700000000, 99999999)
  | _ => (1700000000, 100000000)

unseal pathFilename parentPath in
/-- The second archive has the later time, but its name comes first. -/
theorem archives_unsorted : ¬ ∀ (config : FileStoreConfig) (requests : List StoreRequest) (w v : World)
    (events : List Happening), w.store = { config := config } → Ran (life requests) w events () v →
    (∀ stamp ∈ stamps events, 0 ≤ stamp.sec) →
    (stamps events).Pairwise (fun a b => a.sec < b.sec ∨ a.sec = b.sec ∧ a.nsec ≤ b.nsec) →
    (targets events).Pairwise (· < ·) := by
  intro always
  have run : Ran (life threeFrames) (emptyDirectory { maxSegmentBytes := 32, syncEveryBytes := 0 })
      _ () _ := Prog.perform_trace (clockAt tenth) 140 rfl
  have sorted := always _ _ _ _ _ rfl run (by decide) (by decide)
  have first := (List.pairwise_cons.mp sorted).1 _ List.mem_cons_self
  have before := (@Stamp.name_lt_iff "t" ⟨1700000000, 99999999, 0⟩ ⟨1700000000, 100000000, 1⟩
    (by decide) (by decide)).mp first
  exact absurd before (by decide)

def lifetime (config : FileStoreConfig) (requests : List StoreRequest) : Proc Unit := do
  update (fun _ => { config := config })
  life requests
  destroy

def lifetimes : List (FileStoreConfig × List StoreRequest) → Proc Unit
  | [] => return ()
  | (config, requests) :: rest => do
      lifetime config requests
      lifetimes rest

def On (path : String) (requests : List StoreRequest) : Prop :=
  ∀ path', .openFile path' ∈ requests → path' = path

/-- The rotations of a run: what each of them puts into a name, and whether the archive was
created. -/
def rotations (events : List Happening) : List (Stamp × Bool) :=
  (stamps events).zip ((renames events).map Prod.snd)

section Lifetimes

variable {path : String} {w v : World} {events : List Happening}

theorem lifetime_targets {config : FileStoreConfig} {requests : List StoreRequest}
    (on : On path requests) (run : Ran (lifetime config requests) w events () v) :
    targets events = (stamps events).map (Stamp.name (pathFilename path)) := by
  have run₁ := ran_update run
  rcases Prog.Trace.bind_iff.mp run₁ with ⟨_, u, first, last, used, destroyed, rfl⟩
  have idle := destroy_still.idle destroyed
  have start : Closed { w with store := { config := config } } := ⟨rfl, rfl, rfl, rfl⟩
  have zero : ({ w with store := { config := config } } : World).store.rotationSequence = u64 0 := rfl
  rcases life_alike requests start zero used with ⟨name, targeted, _, source⟩
  rw [targets_append, stamps_append, idle.stamps, List.append_nil, targeted]
  change _ ++ (renames last).map Prod.fst = _
  rw [idle.renames, List.map_nil, List.append_nil]
  rcases source with none | ⟨path', member, rfl⟩
  · rw [none]
    rfl
  · rw [on path' member]

theorem lifetimes_targets (lives : List (FileStoreConfig × List StoreRequest))
    (on : ∀ life ∈ lives, On path life.2) (run : Ran (lifetimes lives) w events () v) :
    targets events = (stamps events).map (Stamp.name (pathFilename path)) := by
  induction lives generalizing w events with
  | nil =>
      rcases ran_pure run with ⟨rfl, _, _⟩
      rfl
  | cons life rest ih =>
      rcases Prog.Trace.bind_iff.mp run with ⟨_, u, first, last, lived, next, rfl⟩
      rw [targets_append, stamps_append, List.map_append,
        lifetime_targets (on life List.mem_cons_self) lived,
        ih (fun other member => on other (List.mem_cons_of_mem _ member)) next]

/-- Only after 2^64 rotations does a store count from zero again. -/
theorem lifetime_stamps_nodup {config : FileStoreConfig} {requests : List StoreRequest}
    (run : Ran (lifetime config requests) w events () v) (few : (stamps events).length ≤ 2 ^ 64) :
    (stamps events).Nodup := by
  have run₁ := ran_update run
  rcases Prog.Trace.bind_iff.mp run₁ with ⟨_, u, first, last, used, destroyed, rfl⟩
  have idle := destroy_still.idle destroyed
  have start : Closed { w with store := { config := config } } := ⟨rfl, rfl, rfl, rfl⟩
  have zero : ({ w with store := { config := config } } : World).store.rotationSequence = u64 0 := rfl
  rcases life_alike requests start zero used with ⟨_, _, numbered, _⟩
  rw [stamps_append, idle.stamps, List.append_nil] at few ⊢
  apply List.Nodup.of_map Stamp.sequence
  rw [numbered]
  apply List.Nodup.map_on _ List.nodup_range'
  intro i member j member' same
  have small := (List.mem_range'_1.mp member).2
  have small' := (List.mem_range'_1.mp member').2
  exact u64_inj (by omega) (by omega) same

theorem renames_eq {fileName : String}
    (targeted : targets events = (stamps events).map (Stamp.name fileName)) :
    renames events = (rotations events).map (Prod.map (Stamp.name fileName) id) := by
  calc
    renames events = (targets events).zip ((renames events).map Prod.snd) := by
      rw [targets, List.zip_map', List.map_id'']
      exact fun _ => rfl
    _ = (rotations events).map (Prod.map (Stamp.name fileName) id) := by
      rw [targeted, List.zip_map_left]
      rfl

end Lifetimes

/-- In any number of lifetimes of stores on one path, no rotation takes the name of an archive
that was created before exactly if none has its stamp. -/
theorem archives_kept_iff {path : String} {lives : List (FileStoreConfig × List StoreRequest)}
    {w v : World} {events : List Happening} (on : ∀ life ∈ lives, On path life.2)
    (run : Ran (lifetimes lives) w events () v) :
    (renames events).Pairwise (fun earlier later => earlier.2 = true → later.1 ≠ earlier.1) ↔
      (rotations events).Pairwise (fun earlier later => earlier.2 = true → later.1 ≠ earlier.1) := by
  rw [renames_eq (lifetimes_targets lives on run), List.pairwise_map]
  constructor
  · intro kept
    apply kept.imp
    intro earlier later other created same
    exact other created (by rw [Prod.map_fst, Prod.map_fst, same])
  · intro apart
    apply apart.imp
    intro earlier later other created same
    exact other created (Stamp.name_inj same)

def twoFrames (config : FileStoreConfig) : FileStoreConfig × List StoreRequest :=
  (config, [.openFile "t", .appendFrames (List.replicate 64 0)])

theorem twoFrames_on (config : FileStoreConfig) (n : Nat) :
    ∀ life ∈ List.replicate n (twoFrames config), On "t" life.2 := by
  intro life member path asked
  have same := List.eq_of_mem_replicate member
  subst same
  simpa [twoFrames] using asked

unseal pathFilename parentPath in
/-- A clock that moves on from one lifetime to the next. -/
theorem archives_kept_moving : ∃ events : List Happening, (renames events).length = 3 ∧
    (renames events).Pairwise (fun earlier later => earlier.2 = true → later.1 ≠ earlier.1) := by
  have run : Ran (lifetimes (List.replicate 2 (twoFrames { maxSegmentBytes := 32, syncEveryBytes := 0 })))
      {} _ () _ := Prog.perform_trace (clockAt fun n => (1700000000 + n, 0)) 300 rfl
  exact ⟨_, rfl, (archives_kept_iff (twoFrames_on _ _) run).mpr (by decide)⟩

unseal pathFilename parentPath in
/-- A clock that shows the same time in both lifetimes: the second one's first archive replaces
the first one's. -/
theorem archives_replaced : ¬ ∀ (path : String) (lives : List (FileStoreConfig × List StoreRequest))
    (w v : World) (events : List Happening), (∀ life ∈ lives, On path life.2) →
    Ran (lifetimes lives) w events () v →
    (renames events).Pairwise (fun earlier later => earlier.2 = true → later.1 ≠ earlier.1) := by
  intro always
  have run : Ran (lifetimes (List.replicate 2 (twoFrames { maxSegmentBytes := 32, syncEveryBytes := 0 })))
      {} _ () _ := Prog.perform_trace (clockAt fun _ => (1700000000, 0)) 300 rfl
  have kept := always _ _ _ _ _ (twoFrames_on _ _) run
  exact (List.pairwise_cons.mp kept).1 _ List.mem_cons_self rfl rfl

end TelemetryServer.Storage
