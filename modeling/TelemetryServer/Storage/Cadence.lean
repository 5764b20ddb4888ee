import TelemetryServer.Storage.Failures

namespace TelemetryServer.Storage

open Protocol Atomic

/-- What a store cannot choose: the clock readings and the descriptors it is given, by the
number of archives there are at the time. -/
structure Kernel where
  clock : Nat → Int × Nat
  descriptor : Nat → Int

def Kernel.reply (kernel : Kernel) (w : World) : (call : FsCall) → call.Resp
  | .openDirectory _ | .openCreate _ _ | .openExisting _ _ =>
      .ok (kernel.descriptor w.fs.archives.length)
  | .fstat fd => match w.fs.opened fd with
      | some (_, file) => .ok file.data.length true
      | none => .error
  | .ftruncate _ _ | .close _ | .renameat _ _ _ => true
  | .write _ bytes => .written bytes.length
  | .fdatasync _ | .fsync _ => .ok
  | .clockGettime => .ok (kernel.clock w.fs.archives.length).1 (kernel.clock w.fs.archives.length).2

def Kernel.accepts (kernel : Kernel) (w : World) : (call : FsCall) → call.Resp → Bool
  | .write _ _, .written count => decide (0 < count)
  | .write _ _, _ => false
  | .openDirectory path, r => decide (r = kernel.reply w (.openDirectory path))
  | .openCreate fd name, r => decide (r = kernel.reply w (.openCreate fd name))
  | .openExisting fd name, r => decide (r = kernel.reply w (.openExisting fd name))
  | .fstat fd, .ok size regular => decide (.ok size regular = kernel.reply w (.fstat fd))
  | .fstat _, .error => false
  | .ftruncate _ _, ok => ok
  | .close _, ok => ok
  | .renameat _ _ _, ok => ok
  | .fdatasync _, r => decide (r = .ok)
  | .fsync _, r => decide (r = .ok)
  | .clockGettime, r => decide (r = kernel.reply w .clockGettime)

def Kernel.exec (kernel : Kernel) : (call : Call) → World → call.Resp → Option World
  | .fs call, w, r => if kernel.accepts w call r then World.exec (.fs call) w r else none
  | call, w, r => World.exec call w r

/-- A complete run in which every call succeeds. -/
abbrev Steady {α : Type} (kernel : Kernel) (p : Proc α) (w : World) (events : List Happening) (a : α)
    (v : World) : Prop :=
  Prog.Trace kernel.exec p w events a v

/-- What a run does to the outside: adjacent writes to one file count as one. -/
inductive Effect
  | wrote (fd : Int) (bytes : List UInt8)
  | made (call : Call) (answer : call.Resp)

def effect : Happening → Effect
  | ⟨_, .fs (.write fd bytes), .written count⟩ => .wrote fd (bytes.take count)
  | ⟨_, call, answer⟩ => .made call answer

def push : Effect → List Effect → List Effect
  | .wrote fd new, .wrote fd' old :: rest =>
      if fd = fd' then .wrote fd (new ++ old) :: rest else .wrote fd new :: .wrote fd' old :: rest
  | first, rest => first :: rest

/-- The effects of `events` before those in `later`. -/
def weave (events : List Happening) (later : List Effect) : List Effect :=
  events.foldr (fun event => push (effect event)) later

/-- The order of writes, syncs and rotations, with what is written between them. -/
def journal (events : List Happening) : List Effect := weave events []

theorem weave_append (first rest : List Happening) :
    weave (first ++ rest) = fun later => weave first (weave rest later) := by
  funext later
  exact List.foldr_append

theorem push_push (fd : Int) (new old : List UInt8) (later : List Effect) :
    push (.wrote fd new) (push (.wrote fd old) later) = push (.wrote fd (new ++ old)) later := by
  cases later with
  | nil => simp [push]
  | cons next rest =>
      cases next with
      | made call answer => simp [push]
      | wrote fd' bytes =>
          by_cases same : fd = fd'
          · simp [push, same]
          · simp [push, same]

section Kernel

variable {α : Type} {kernel : Kernel} {w v : World} {events : List Happening} {a : α}

theorem Kernel.exec_sub (call : Call) (w : World) (r : call.Resp) (v : World)
    (answer : kernel.exec call w r = some v) : World.exec call w r = some v := by
  cases call with
  | fs call =>
      simp only [Kernel.exec] at answer
      split at answer
      · exact answer
      · cases answer
  | _ => exact answer

theorem Kernel.exec_accepts {call : FsCall} {r : call.Resp}
    (answer : kernel.exec (.fs call) w r = some v) : kernel.accepts w call r = true := by
  simp only [Kernel.exec] at answer
  split at answer
  · assumption
  · cases answer

theorem Steady.ran {p : Proc α} (run : Steady kernel p w events a v) : Ran p w events a v :=
  run.mono Kernel.exec_sub

theorem Kernel.accepts_granted {call : FsCall} {r : call.Resp}
    (accepted : kernel.accepts w call r = true) : Granted ⟨w, .fs call, r⟩ := by
  cases call with
  | openDirectory path => exact ⟨_, of_decide_eq_true accepted⟩
  | openCreate fd name =>
      have same : r = .ok _ := of_decide_eq_true accepted
      intro wrong
      rw [same] at wrong
      cases wrong
  | openExisting fd name => exact ⟨_, of_decide_eq_true accepted⟩
  | fstat fd =>
      cases r with
      | error => cases accepted
      | ok size regular =>
          have same : StatResult.ok size regular = kernel.reply w (.fstat fd) :=
            of_decide_eq_true accepted
          simp only [Kernel.reply] at same
          split at same
          · cases same
            exact ⟨_, rfl⟩
          · cases same
  | ftruncate fd length => exact accepted
  | write fd bytes =>
      cases r with
      | written count =>
          have positive : 0 < count := of_decide_eq_true accepted
          refine ⟨fun wrong => (by cases wrong), fun wrong => ?_⟩
          cases wrong
          exact absurd positive (by decide)
      | eintr => cases accepted
      | error => cases accepted
  | fdatasync fd =>
      have same : r = .ok := of_decide_eq_true accepted
      intro wrong
      rw [same] at wrong
      cases wrong
  | fsync fd =>
      have same : r = .ok := of_decide_eq_true accepted
      intro wrong
      rw [same] at wrong
      cases wrong
  | close fd => exact accepted
  | renameat fd source target => exact accepted
  | clockGettime =>
      have same : r = .ok _ _ := of_decide_eq_true accepted
      intro wrong
      rw [same] at wrong
      cases wrong

theorem Steady.granted {p : Proc α} (run : Steady kernel p w events a v) :
    ∀ event ∈ events, Granted event := by
  refine Prog.Trace.forall_events run ?_
  intro call w r v answer
  cases call with
  | fs call => exact Kernel.accepts_granted (Kernel.exec_accepts answer)
  | _ => trivial

theorem Kernel.accepts_unique {call : FsCall} {r r' : call.Resp} (unwriting : Unwriting (.fs call))
    (one : kernel.accepts w call r = true) (two : kernel.accepts w call r' = true) : r = r' := by
  cases call with
  | openDirectory path => exact (of_decide_eq_true one).trans (of_decide_eq_true two).symm
  | openCreate fd name => exact (of_decide_eq_true one).trans (of_decide_eq_true two).symm
  | openExisting fd name => exact (of_decide_eq_true one).trans (of_decide_eq_true two).symm
  | fstat fd =>
      cases r with
      | error => cases one
      | ok size regular =>
          cases r' with
          | error => cases two
          | ok size' regular' => exact (of_decide_eq_true one).trans (of_decide_eq_true two).symm
  | ftruncate fd length => exact Eq.trans one (Eq.symm two)
  | write fd bytes => exact unwriting.elim
  | fdatasync fd => exact (of_decide_eq_true one).trans (of_decide_eq_true two).symm
  | fsync fd => exact (of_decide_eq_true one).trans (of_decide_eq_true two).symm
  | close fd => exact Eq.trans one (Eq.symm two)
  | renameat fd source target => exact Eq.trans one (Eq.symm two)
  | clockGettime => exact (of_decide_eq_true one).trans (of_decide_eq_true two).symm

/-- Without writes there is only one way to succeed. -/
theorem Steady.unique {p : Proc α} {events' : List Happening} {a' : α} {v' : World}
    (only : Prog.Within Unwriting p) (one : Steady kernel p w events a v)
    (two : Steady kernel p w events' a' v') : events = events' ∧ a = a' ∧ v = v' := by
  refine Prog.Trace.unique one only ?_ two
  intro call unwriting s r r' t t' answer answer'
  cases call with
  | fs call =>
      exact Kernel.accepts_unique unwriting (Kernel.exec_accepts answer) (Kernel.exec_accepts answer')
  | log line => rfl
  | _ => exact unwriting.elim

end Kernel

theorem syncIfDue_unwriting : Prog.Within Unwriting syncIfDue := by
  intro m
  change Prog.Within Unwriting (if _ then _ else _)
  split
  · exact sync_quiet.mono Quiet.unwriting
  · trivial

theorem rotateIfFull_unwriting : Prog.Within Unwriting rotateIfFull := by
  intro m
  change Prog.Within Unwriting (if _ then _ else _)
  split
  · exact rotate_unwriting
  · trivial

section Chunks

variable {kernel : Kernel} {w u v : World} {file : File} {excess : Nat} {events : List Happening}
  {bytes : List UInt8}

def Clears (kernel : Kernel) (w : World) (events : List Happening) (b : World) : Prop :=
  ∃ a rotation early, Steady kernel rotateIfFull w rotation true a ∧
    Steady kernel syncIfDue a early true b ∧ events = rotation ++ early

def Fills (kernel : Kernel) (b : World) (bytes : List UInt8) (events : List Happening) (v : World) :
    Prop :=
  ∃ c writes late, Steady kernel (writeAll b.store.fd bytes) b writes true c ∧
    Steady kernel syncIfDue { c with store := c.store.counting bytes.length } late true v ∧
    events = writes ++ late

/-- The chunks in which `rest` is stored. -/
inductive Chunks (kernel : Kernel) : List UInt8 → World → List Happening → World → Prop
  | done (w : World) : Chunks kernel [] w [] w
  | chunk {rest : List UInt8} {w b u v : World} {before during later : List Happening} (more : rest ≠ [])
      (clears : Clears kernel w before b)
      (fills : Fills kernel b (rest.take (chunkSize b.store rest.length)) during u)
      (others : Chunks kernel (rest.drop (chunkSize b.store rest.length)) u later v) :
      Chunks kernel rest w (before ++ (during ++ later)) v

theorem Chunks.first {rest : List UInt8} (more : rest ≠ []) (chunks : Chunks kernel rest w events v) :
    ∃ b u before during later, Clears kernel w before b ∧
      Fills kernel b (rest.take (chunkSize b.store rest.length)) during u ∧
      Chunks kernel (rest.drop (chunkSize b.store rest.length)) u later v ∧
      events = before ++ (during ++ later) := by
  cases chunks with
  | done => exact absurd rfl more
  | chunk _ clears fills others => exact ⟨_, _, _, _, _, clears, fills, others, rfl⟩

theorem Clears.unique {events' : List Happening} (one : Clears kernel w events u)
    (two : Clears kernel w events' v) : events = events' ∧ u = v := by
  rcases one with ⟨a, rotation, early, rotated, synced, rfl⟩
  rcases two with ⟨a', rotation', early', rotated', synced', rfl⟩
  rcases rotated.unique rotateIfFull_unwriting rotated' with ⟨rfl, _, rfl⟩
  rcases synced.unique syncIfDue_unwriting synced' with ⟨rfl, _, rfl⟩
  exact ⟨rfl, rfl⟩

/-- What holds before a chunk is measured. -/
structure Prompt (w : World) (file : File) (excess : Nat) : Prop extends Attached w file excess where
  room : w.store.currentSize < w.store.config.maxSegmentBytes
  due : Due w.store.config w

theorem Clears.prompt (held : Attached w file excess) (clears : Clears kernel w events v) :
    ∃ file' excess', Prompt v file' excess' := by
  rcases clears with ⟨a, rotation, early, rotated, synced, rfl⟩
  rcases rotateIfFull_outcome held rotated.ran with ⟨filed, room⟩
  rcases filed.held with ⟨_, within, fileA, heldA⟩
  rcases syncIfDue_outcome heldA within synced.ran with ⟨filed', size, due⟩
  rcases filed'.held with ⟨_, _, fileB, heldB⟩
  refine ⟨fileB, _, heldB, ?_, due rfl⟩
  rw [size, filed'.config]
  exact room rfl

theorem syncIfDue_idle (due : Due w.store.config w) {r : Bool} :
    Steady kernel syncIfDue w events r v ↔ events = [] ∧ r = true ∧ v = w := by
  have idle : ¬ (w.store.config.syncEveryBytes ≠ 0 ∧
      w.store.config.syncEveryBytes ≤ w.store.unsyncedBytes) := by
    rintro ⟨periodic, reached⟩
    exact absurd (due periodic) (by omega)
  have plain : Steady kernel syncIfDue w events r v ↔
      Steady kernel (pure true : Proc Bool) w events r v := by
    refine Prog.Trace.act_iff.trans ?_
    change Steady kernel (if w.store.config.syncEveryBytes ≠ 0 ∧
      w.store.config.syncEveryBytes ≤ w.store.unsyncedBytes then sync else pure true) _ _ _ _ ↔ _
    rw [if_neg idle]
  rw [plain]
  exact Prog.Trace.pure_iff

theorem rotateIfFull_idle (room : w.store.currentSize < w.store.config.maxSegmentBytes) {r : Bool} :
    Steady kernel rotateIfFull w events r v ↔ events = [] ∧ r = true ∧ v = w := by
  have plain : Steady kernel rotateIfFull w events r v ↔
      Steady kernel (pure true : Proc Bool) w events r v := by
    refine Prog.Trace.act_iff.trans ?_
    change Steady kernel (if w.store.config.maxSegmentBytes ≤ w.store.currentSize then rotate
      else pure true) _ _ _ _ ↔ _
    rw [if_neg (by omega)]
  rw [plain]
  exact Prog.Trace.pure_iff

theorem Prompt.clears (prompt : Prompt w file excess) : Clears kernel w [] w :=
  ⟨w, [], [], (rotateIfFull_idle prompt.room).mpr ⟨rfl, rfl, rfl⟩,
    (syncIfDue_idle prompt.due).mpr ⟨rfl, rfl, rfl⟩, rfl⟩

/-- The world with `bytes` written and counted. -/
def filled (w : World) (file : File) (bytes : List UInt8) : World :=
  { w with
    fs := w.fs.setFile w.store.fileName (file.grow bytes)
    store := w.store.counting bytes.length }

theorem filled_filled (file : File) (first second : List UInt8) :
    filled (filled w file first) (file.grow first) second = filled w file (first ++ second) := by
  simp only [filled, FileStore.counting, FileSystem.setFile_setFile, File.grow_grow,
    List.length_append, Ipc.u64, Nat.mod_add_mod, Nat.add_assoc]

/-- However it is split up, a write amounts to one. -/
theorem writeAll_weave (held : Attached w file excess) (more : bytes ≠ [])
    (run : Steady kernel (writeAll w.store.fd bytes) w events true v) :
    weave events = push (.wrote w.store.fd bytes) ∧
      file.data.length + bytes.length ≤ FileSystem.maxFileBytes ∧
      v = { w with fs := w.fs.setFile w.store.fileName (file.grow bytes) } := by
  suffices ends : ∃ n, Wrote w file bytes n events v ∧ n = bytes.length ∧ (0 < n →
      weave events = push (.wrote w.store.fd (bytes.take n)) ∧
      file.data.length + n ≤ FileSystem.maxFileBytes) by
    rcases ends with ⟨n, wrote, rfl, merged⟩
    rcases merged (List.length_pos_iff.mpr more) with ⟨same, bound⟩
    have state := wrote.state
    rw [List.take_length] at same state
    exact ⟨same, bound, state⟩
  refine Prog.Trace.iterate_induct (fun n s seen => Wrote w file bytes n seen s ∧
    (n = 0 → weave seen = id) ∧ (0 < n → weave seen = push (.wrote w.store.fd (bytes.take n)) ∧
      file.data.length + n ≤ FileSystem.maxFileBytes))
    (Q := fun r v seen => ∃ n, Wrote w file bytes n seen v ∧ n = bytes.length ∧
      (0 < n → weave seen = push (.wrote w.store.fd (bytes.take n)) ∧
        file.data.length + n ≤ FileSystem.maxFileBytes))
    run ⟨Wrote.start held, fun _ => rfl, fun wrong => absurd wrong (Nat.lt_irrefl 0)⟩ ?_
  rintro n s seen events x t ⟨wrote, none, merged⟩ pass
  rw [writeTurn] at pass
  split at pass
  swap
  · next whole =>
      rcases Prog.Trace.pure_iff.mp pass with ⟨rfl, rfl, rfl⟩
      rw [List.append_nil]
      have most := wrote.count_le
      exact ⟨n, wrote, by omega, merged⟩
  next short =>
  rcases Prog.Trace.call_iff.mp pass with ⟨r, u, rest, answer, next, rfl⟩
  have accepted := Kernel.exec_accepts answer
  rcases exec_fs (Kernel.exec_sub _ _ _ _ answer) with ⟨fs, done, rfl⟩
  rcases write_cases (wrote.found held) done with ⟨count, rfl, most, bound, rfl⟩ | ⟨refused, _⟩
  swap
  · cases r with
    | written count => exact absurd rfl (refused count)
    | eintr => cases accepted
    | error => cases accepted
  have positive : 0 < count := of_decide_eq_true accepted
  change Steady kernel (if 0 < count then pure (Sum.inl (n + count)) else _) _ _ _ _ at next
  rw [if_pos positive] at next
  rcases Prog.Trace.pure_iff.mp next with ⟨rfl, rfl, rfl⟩
  refine ⟨wrote.more held short positive most, fun wrong => absurd wrong (by omega), fun _ => ⟨?_, ?_⟩⟩
  · rw [weave_append, List.take_add]
    funext later
    change weave seen (push (.wrote w.store.fd ((bytes.drop n).take count)) later) = _
    by_cases zero : n = 0
    · rw [none zero, zero]
      rfl
    · rw [(merged (by omega)).1, push_push]
  · have grown : (file.grow (bytes.take n)).data.length = file.data.length + n := by
      simp only [File.grow, List.length_append, List.length_take]
      omega
    omega

theorem writeAll_once (held : Attached w file excess) (more : bytes ≠ [])
    (bound : file.data.length + bytes.length ≤ FileSystem.maxFileBytes) :
    Steady kernel (writeAll w.store.fd bytes) w
      [⟨w, .fs (.write w.store.fd bytes), .written bytes.length⟩] true
      { w with fs := w.fs.setFile w.store.fileName (file.grow bytes) } := by
  have positive : 0 < bytes.length := List.length_pos_iff.mpr more
  have answer : kernel.exec (.fs (.write w.store.fd bytes)) w (.written bytes.length) =
      some { w with fs := w.fs.setFile w.store.fileName (file.grow bytes) } := by
    simp only [Kernel.exec, Kernel.accepts, positive, decide_true, if_true, World.exec, FsCall.exec,
      held.found, bound, le_refl, and_self, Option.map_some, File.grow, List.take_length]
  refine Prog.Trace.iterate_iff.mpr ⟨.inl bytes.length,
    { w with fs := w.fs.setFile w.store.fileName (file.grow bytes) }, _, [], ?_, ?_,
    (List.append_nil _).symm⟩
  · rw [writeTurn, if_pos positive]
    apply Prog.Trace.call_iff.mpr
    refine ⟨.written bytes.length, _, [], answer, ?_, rfl⟩
    change Steady kernel (if 0 < bytes.length then pure (Sum.inl (0 + bytes.length)) else _) _ _ _ _
    rw [if_pos positive, Nat.zero_add]
    exact .pure _ _
  · refine Prog.Trace.iterate_iff.mpr ⟨.inr true, _, [], [], ?_, .pure _ _, rfl⟩
    rw [writeTurn, if_neg (Nat.lt_irrefl _)]
    exact .pure _ _

theorem Fills.filled (held : Attached w file excess) (more : bytes ≠ [])
    (fills : Fills kernel w bytes events v) :
    file.data.length + bytes.length ≤ FileSystem.maxFileBytes ∧
    ∃ late, Steady kernel syncIfDue (filled w file bytes) late true v ∧
      weave events = fun later => push (.wrote w.store.fd bytes) (weave late later) := by
  rcases fills with ⟨c, writes, late, written, synced, rfl⟩
  rcases writeAll_weave held more written with ⟨merged, bound, rfl⟩
  refine ⟨bound, late, synced, ?_⟩
  rw [weave_append, merged]

theorem Fills.intro {late : List Happening} (held : Attached w file excess) (more : bytes ≠ [])
    (bound : file.data.length + bytes.length ≤ FileSystem.maxFileBytes)
    (synced : Steady kernel syncIfDue (Storage.filled w file bytes) late true v) :
    ∃ events, Fills kernel w bytes events v ∧
      weave events = fun later => push (.wrote w.store.fd bytes) (weave late later) := by
  refine ⟨_, ⟨_, _, late, writeAll_once held more bound, synced, rfl⟩, ?_⟩
  rw [weave_append]
  funext later
  change push (.wrote w.store.fd (bytes.take bytes.length)) _ = _
  rw [List.take_length]
  rfl

theorem Fills.unique {events' : List Happening} (held : Attached w file excess) (more : bytes ≠ [])
    (one : Fills kernel w bytes events u) (two : Fills kernel w bytes events' v) :
    u = v ∧ weave events = weave events' := by
  rcases one.filled held more with ⟨_, late, synced, merged⟩
  rcases two.filled held more with ⟨_, late', synced', merged'⟩
  rcases synced.unique syncIfDue_unwriting synced' with ⟨rfl, _, rfl⟩
  exact ⟨rfl, merged.trans merged'.symm⟩

theorem Prompt.chunk {remaining : Nat} (prompt : Prompt w file excess) (some : 0 < remaining)
    (whole : kFrameSize ∣ remaining) : Chunk w.store remaining (chunkSize w.store remaining) :=
  chunkSize_chunk prompt.valid some whole prompt.aligned prompt.whole prompt.room prompt.due

theorem Prompt.frame (prompt : Prompt w file excess) : chunkSize w.store kFrameSize = kFrameSize := by
  have chunk := prompt.chunk (by decide) (Nat.dvd_refl kFrameSize)
  have positive := chunk.positive
  have whole := chunk.whole
  have most := chunk.count_le
  simp only [kFrameSize] at *
  omega

/-- A chunk either ends with its first frame, or neither a rotation nor a sync is due after
that frame and the rest of the chunk is the next one. -/
theorem Prompt.chunk_cases {remaining : Nat} (prompt : Prompt w file excess) (some : 0 < remaining)
    (whole : kFrameSize ∣ remaining) :
    chunkSize w.store (kFrameSize + remaining) = kFrameSize ∨
    ((w.store.counting kFrameSize).currentSize < w.store.config.maxSegmentBytes ∧
      (w.store.config.syncEveryBytes ≠ 0 →
        (w.store.counting kFrameSize).unsyncedBytes < w.store.config.syncEveryBytes) ∧
      chunkSize w.store (kFrameSize + remaining) =
        kFrameSize + chunkSize (w.store.counting kFrameSize) remaining) := by
  have room := prompt.room
  have small := w.store.config.max_lt
  have written := prompt.written
  have maxWhole := prompt.valid.whole
  have aligned := prompt.aligned
  have counted := prompt.toAttached.whole
  have size : (w.store.counting kFrameSize).currentSize = w.store.currentSize + kFrameSize := by
    refine Nat.mod_eq_of_lt ?_
    simp only [kFrameSize] at *
    omega
  have unsynced : (w.store.counting kFrameSize).unsyncedBytes = w.store.unsyncedBytes + kFrameSize := by
    refine Nat.mod_eq_of_lt ?_
    simp only [kFrameSize] at *
    omega
  by_cases last : w.store.currentSize + kFrameSize < w.store.config.maxSegmentBytes ∧
      (w.store.config.syncEveryBytes ≠ 0 →
        w.store.unsyncedBytes + kFrameSize < w.store.config.syncEveryBytes)
  · right
    rw [size, unsynced]
    refine ⟨last.1, last.2, ?_⟩
    have later := @chunkSize_eq (w.store.counting kFrameSize) remaining prompt.valid
      (by rw [size]; exact last.1) (fun periodic => by rw [unsynced]; exact last.2 periodic)
    rw [later, size, unsynced, chunkSize_eq prompt.valid prompt.room prompt.due]
    change _ = kFrameSize + if w.store.config.syncEveryBytes ≠ 0 ∧ _ then _ else _
    by_cases periodic : w.store.config.syncEveryBytes = 0
    · simp only [periodic, ne_eq, not_true_eq_false, false_and, if_false]
      change _ = kFrameSize + min remaining (w.store.config.maxSegmentBytes - _)
      simp only [kFrameSize] at *
      omega
    · have distance := last.2 periodic
      change _ = kFrameSize + if w.store.config.syncEveryBytes ≠ 0 ∧
        w.store.config.syncEveryBytes - _ < min remaining (w.store.config.maxSegmentBytes - _) then
        (1 + (w.store.config.syncEveryBytes - _ - 1) / 32) * 32
        else min remaining (w.store.config.maxSegmentBytes - _)
      simp only [periodic, ne_eq, not_false_eq_true, true_and, kFrameSize] at *
      split <;> split <;> omega
  · left
    rw [chunkSize_eq prompt.valid prompt.room prompt.due]
    by_cases periodic : w.store.config.syncEveryBytes = 0
    · simp only [periodic, ne_eq, not_true_eq_false, false_and, if_false, kFrameSize, false_implies,
        and_true] at *
      omega
    · have due := prompt.due periodic
      simp only [periodic, ne_eq, not_false_eq_true, true_and, kFrameSize, true_implies] at *
      split <;> omega

theorem Clears.idle (prompt : Prompt w file excess) (clears : Clears kernel w events v) :
    events = [] ∧ v = w := by
  rcases clears.unique prompt.clears with ⟨rfl, rfl⟩
  exact ⟨rfl, rfl⟩

/-- The store after the first frame of a longer chunk. -/
theorem Prompt.filled {frame : List UInt8} (prompt : Prompt w file excess)
    (length : frame.length = kFrameSize)
    (room : (w.store.counting kFrameSize).currentSize < w.store.config.maxSegmentBytes)
    (due : w.store.config.syncEveryBytes ≠ 0 →
      (w.store.counting kFrameSize).unsyncedBytes < w.store.config.syncEveryBytes) :
    Prompt (filled w file frame) (file.grow frame) excess := by
  have fits : w.store.currentSize + kFrameSize ≤ w.store.config.maxSegmentBytes := by
    have before := prompt.room
    have whole := prompt.valid.whole
    have aligned := prompt.aligned
    simp only [kFrameSize] at *
    omega
  have grown := prompt.toAttached.grow frame
  rw [length] at grown
  have counted := grown.count (Nat.dvd_refl _) fits
  rw [Storage.filled, length]
  exact ⟨counted, room, due⟩

theorem Chunks.one {frame : List UInt8} (held : Attached w file excess)
    (length : frame.length = kFrameSize) (chunks : Chunks kernel frame w events v) :
    ∃ b before during, Clears kernel w before b ∧ Fills kernel b frame during v ∧
      events = before ++ during := by
  cases chunks with
  | done => cases length
  | chunk more clears fills others =>
      rcases clears.prompt held with ⟨fileB, excessB, prompt⟩
      rw [length, prompt.frame, ← length, List.take_length] at fills
      rw [length, prompt.frame, ← length, List.drop_length] at others
      cases others with
      | done => exact ⟨_, _, _, clears, fills, by rw [List.append_nil]⟩
      | chunk wrong => exact absurd rfl wrong

theorem Chunks.of_one {frame : List UInt8} {b : World} {before during : List Happening}
    (held : Attached w file excess) (length : frame.length = kFrameSize)
    (clears : Clears kernel w before b) (fills : Fills kernel b frame during v) :
    Chunks kernel frame w (before ++ during) v := by
  rcases clears.prompt held with ⟨fileB, excessB, prompt⟩
  have all : chunkSize b.store frame.length = frame.length := by rw [length, prompt.frame]
  have more : frame ≠ [] := by
    rintro rfl
    cases length
  have step := Chunks.chunk more clears (by rw [all, List.take_length]; exact fills)
    (by rw [all, List.drop_length]; exact .done v)
  rwa [List.append_nil] at step

section Frame

variable {frame rest : List UInt8} (held : Attached w file excess) (length : frame.length = kFrameSize)
  (more : rest ≠ []) (whole : kFrameSize ∣ rest.length)

include held length more whole in
/-- The first frame of a batch can be appended on its own. -/
theorem Chunks.split_frame (chunks : Chunks kernel (frame ++ rest) w events v) :
    ∃ u first last, Chunks kernel frame w first u ∧ Chunks kernel rest u last v ∧
      weave events = weave (first ++ last) := by
  have filled' : frame ≠ [] := by
    rintro rfl
    cases length
  rcases chunks.first (by simp [filled']) with ⟨b, x, before, during, later, clears, fills, others, rfl⟩
  rcases clears.prompt held with ⟨fileB, excessB, prompt⟩
  rw [List.length_append, length] at fills others
  rcases prompt.chunk_cases (List.length_pos_iff.mpr more) whole with one | ⟨room, due, size⟩
  · rw [one, ← length, List.take_left] at fills
    rw [one, ← length, List.drop_left] at others
    refine ⟨x, before ++ during, later, .of_one held length clears fills, others, ?_⟩
    rw [List.append_assoc]
  rw [size, ← length, List.take_length_add_append] at fills
  rw [size, ← length, List.drop_length_add_append] at others
  rw [length] at fills others
  rcases fills.filled prompt.toAttached (by simp [filled']) with ⟨bound, late, synced, merged⟩
  have next := prompt.filled length room due
  have firstBound : fileB.data.length + frame.length ≤ FileSystem.maxFileBytes := by
    rw [List.length_append] at bound
    omega
  rcases Fills.intro prompt.toAttached filled' firstBound
    ((syncIfDue_idle next.due).mpr ⟨rfl, rfl, rfl⟩) with ⟨first, fillsFirst, mergedFirst⟩
  have chunk := next.chunk (List.length_pos_iff.mpr more) whole
  have part : rest.take (chunkSize (filled b fileB frame).store rest.length) ≠ [] := by
    have positive := chunk.positive
    have most := chunk.count_le
    apply List.ne_nil_of_length_pos
    rw [List.length_take]
    omega
  have sameStore : (filled b fileB frame).store = b.store.counting kFrameSize := by
    rw [filled, length]
  rw [← sameStore] at synced fills others bound merged
  rcases Fills.intro next.toAttached part (by
    simp only [File.grow, List.length_append] at bound ⊢
    omega) (by rw [filled_filled]; exact synced) with ⟨second, fillsSecond, mergedSecond⟩
  refine ⟨_, before ++ first, [] ++ (second ++ later), .of_one held length clears fillsFirst,
    .chunk more next.clears fillsSecond others, ?_⟩
  simp only [weave_append, merged, mergedFirst, mergedSecond]
  funext tail
  change weave before (push _ (weave late (weave later tail))) =
    weave before (push _ (push _ (weave late (weave later tail))))
  rw [← push_push]
  rfl

include held length more whole in
theorem Chunks.join_frame {first last : List Happening} (one : Chunks kernel frame w first u)
    (two : Chunks kernel rest u last v) :
    ∃ events, Chunks kernel (frame ++ rest) w events v ∧ weave events = weave (first ++ last) := by
  have filled' : frame ≠ [] := by
    rintro rfl
    cases length
  have both : frame ++ rest ≠ [] := by simp [filled']
  rcases one.one held length with ⟨b, before, during, clears, fills, rfl⟩
  rcases clears.prompt held with ⟨fileB, excessB, prompt⟩
  rcases prompt.chunk_cases (List.length_pos_iff.mpr more) whole with one | ⟨room, due, size⟩
  · have total : chunkSize b.store (frame ++ rest).length = frame.length := by
      rw [List.length_append, length, one]
    refine ⟨before ++ (during ++ last), .chunk (u := u) both clears ?_ ?_, ?_⟩
    · rw [total, List.take_left]
      exact fills
    · rw [total, List.drop_left]
      exact two
    · rw [List.append_assoc]
  have next := prompt.filled length room due
  have sameStore : (filled b fileB frame).store = b.store.counting kFrameSize := by
    rw [filled, length]
  rcases fills.filled prompt.toAttached filled' with ⟨_, late, synced, merged⟩
  rcases (syncIfDue_idle next.due).mp synced with ⟨rfl, _, rfl⟩
  rcases two.first more with ⟨b', x, before', during', later', clears', fills', others', rfl⟩
  rcases clears'.idle next with ⟨rfl, rfl⟩
  have chunk := next.chunk (List.length_pos_iff.mpr more) whole
  have part : rest.take (chunkSize (filled b fileB frame).store rest.length) ≠ [] := by
    have positive := chunk.positive
    have most := chunk.count_le
    apply List.ne_nil_of_length_pos
    rw [List.length_take]
    omega
  rcases fills'.filled next.toAttached part with ⟨bound', late', synced', merged'⟩
  rw [filled_filled] at synced'
  rcases Fills.intro prompt.toAttached (by simp [filled']) (by
    simp only [File.grow, List.length_append] at bound' ⊢
    omega) synced' with ⟨whole', fillsWhole, mergedWhole⟩
  have total : chunkSize b.store (frame ++ rest).length =
      frame.length + chunkSize (filled b fileB frame).store rest.length := by
    rw [List.length_append, length, size, sameStore]
  refine ⟨before ++ (whole' ++ later'), .chunk (u := x) both clears ?_ ?_, ?_⟩
  · rw [total, List.take_length_add_append]
    exact fillsWhole
  · rw [total, List.drop_length_add_append]
    exact others'
  · simp only [weave_append, merged, merged', mergedWhole]
    funext tail
    change weave before (push _ (weave late' (weave later' tail))) =
      weave before (push _ (push _ (weave late' (weave later' tail))))
    rw [← push_push]
    rfl

end Frame

theorem Fills.held (prompt : Prompt w file excess) (whole : kFrameSize ∣ bytes.length)
    (fits : w.store.currentSize + bytes.length ≤ w.store.config.maxSegmentBytes) (more : bytes ≠ [])
    (fills : Fills kernel w bytes events v) : ∃ file' excess', Attached v file' excess' := by
  rcases fills.filled prompt.toAttached more with ⟨_, late, synced, _⟩
  have counted := (prompt.toAttached.grow bytes).count whole fits
  have within : (Storage.filled w file bytes).store.currentSize ≤
      (Storage.filled w file bytes).store.config.maxSegmentBytes := by
    refine Nat.le_trans (Nat.mod_le _ _) ?_
    exact fits
  rcases (syncIfDue_outcome counted within synced.ran).1.held with ⟨_, _, file', held⟩
  exact ⟨file', _, held⟩

/-- The chunk at the front of `rest`. -/
theorem Prompt.front {rest : List UInt8} (prompt : Prompt w file excess) (more : rest ≠ [])
    (whole : kFrameSize ∣ rest.length) (fills : Fills kernel w
      (rest.take (chunkSize w.store rest.length)) events v) :
    (rest.take (chunkSize w.store rest.length)).length = chunkSize w.store rest.length ∧
    rest.take (chunkSize w.store rest.length) ≠ [] ∧
    (rest.drop (chunkSize w.store rest.length)).length < rest.length ∧
    kFrameSize ∣ (rest.drop (chunkSize w.store rest.length)).length ∧
    ∃ file' excess', Attached v file' excess' := by
  have chunk := prompt.chunk (List.length_pos_iff.mpr more) whole
  generalize chunkSize w.store rest.length = count at chunk fills
  have positive := chunk.positive
  have most := chunk.count_le
  have length : (rest.take count).length = count := by
    rw [List.length_take]
    omega
  have some : rest.take count ≠ [] := by
    apply List.ne_nil_of_length_pos
    omega
  refine ⟨length, some, ?_, ?_, ?_⟩
  · rw [List.length_drop]
    omega
  · rw [List.length_drop]
    exact Nat.dvd_sub whole chunk.whole
  · apply fills.held prompt (by rw [length]; exact chunk.whole) (by rw [length]; exact chunk.fits) some

theorem Chunks.held {rest : List UInt8} (held : Attached w file excess)
    (whole : kFrameSize ∣ rest.length) (chunks : Chunks kernel rest w events v) :
    ∃ file' excess', Attached v file' excess' := by
  induction chunks generalizing file excess with
  | done w => exact ⟨file, excess, held⟩
  | chunk more clears fills _ ih =>
      rcases clears.prompt held with ⟨fileB, excessB, prompt⟩
      rcases prompt.front more whole fills with ⟨_, _, _, others, file', excess', after⟩
      exact ih after others

/-- The chunks of a batch are determined up to the splitting of writes. -/
theorem Chunks.unique {rest : List UInt8} {events' : List Happening} (held : Attached w file excess)
    (whole : kFrameSize ∣ rest.length) (one : Chunks kernel rest w events u)
    (two : Chunks kernel rest w events' v) : u = v ∧ weave events = weave events' := by
  induction one generalizing file excess events' with
  | done w =>
      cases two with
      | done => exact ⟨rfl, rfl⟩
      | chunk wrong => exact absurd rfl wrong
  | chunk more clears fills _ ih =>
      rcases two.first more with ⟨b', u', before', during', later', clears', fills', others', rfl⟩
      rcases clears.unique clears' with ⟨rfl, rfl⟩
      rcases clears.prompt held with ⟨fileB, excessB, prompt⟩
      rcases prompt.front more whole fills with ⟨_, some, _, others, file', excess', after⟩
      rcases fills.unique prompt.toAttached some fills' with ⟨rfl, merged⟩
      rcases ih after others others' with ⟨rfl, rest⟩
      refine ⟨rfl, ?_⟩
      simp only [weave_append, merged, rest]

theorem Chunks.nil (chunks : Chunks kernel [] w events v) : events = [] ∧ v = w := by
  cases chunks with
  | done => exact ⟨rfl, rfl⟩
  | chunk wrong => exact absurd rfl wrong

/-- The first frame of a batch, and the others. -/
theorem frame_first {first : List UInt8} {count : Nat} (size : first.length = kFrameSize * (count + 1)) :
    ∃ frame others, first = frame ++ others ∧ frame.length = kFrameSize ∧
      others.length = kFrameSize * count := by
  refine ⟨first.take kFrameSize, first.drop kFrameSize, (List.take_append_drop _ _).symm, ?_, ?_⟩
  · rw [List.length_take, size]
    simp only [kFrameSize]
    omega
  · rw [List.length_drop, size]
    simp only [kFrameSize]
    omega

theorem Chunks.split {first rest : List UInt8} {count : Nat} (held : Attached w file excess)
    (size : first.length = kFrameSize * count) (whole : kFrameSize ∣ rest.length)
    (chunks : Chunks kernel (first ++ rest) w events v) :
    ∃ u one two, Chunks kernel first w one u ∧ Chunks kernel rest u two v ∧
      weave events = weave (one ++ two) := by
  induction count generalizing first w file excess events with
  | zero =>
      cases List.eq_nil_of_length_eq_zero size
      exact ⟨w, [], events, .done w, chunks, rfl⟩
  | succ count ih =>
      rcases frame_first size with ⟨frame, others, rfl, length, sizeOthers⟩
      rw [List.append_assoc] at chunks
      have wholeOthers : kFrameSize ∣ (others ++ rest).length := by
        rw [List.length_append, sizeOthers]
        exact Nat.dvd_add (Nat.dvd_mul_right _ _) whole
      by_cases empty : others ++ rest = []
      · rcases List.append_eq_nil_iff.mp empty with ⟨rfl, rfl⟩
        exact ⟨v, events, [], chunks, .done v, by rw [List.append_nil]⟩
      rcases chunks.split_frame held length empty wholeOthers with ⟨u, a, b, one, later, merged⟩
      rcases one.held held (by rw [length]) with ⟨fileU, excessU, heldU⟩
      rcases ih heldU sizeOthers later with ⟨x, c, d, two, three, merged'⟩
      by_cases single : others = []
      · subst single
        rcases two.nil with ⟨rfl, rfl⟩
        refine ⟨x, a, d, by rw [List.append_nil]; exact one, three, ?_⟩
        simp only [merged, weave_append, merged']
        rfl
      · rcases one.join_frame held length single (by rw [sizeOthers]; exact Nat.dvd_mul_right _ _) two with
          ⟨e, joined, same⟩
        refine ⟨x, e, d, joined, three, ?_⟩
        simp only [merged, weave_append, merged', same]

theorem Chunks.join {first rest : List UInt8} {count : Nat} {one two : List Happening}
    (held : Attached w file excess) (size : first.length = kFrameSize * count)
    (whole : kFrameSize ∣ rest.length) (front : Chunks kernel first w one u)
    (back : Chunks kernel rest u two v) :
    ∃ events, Chunks kernel (first ++ rest) w events v ∧ weave events = weave (one ++ two) := by
  induction count generalizing first w file excess one with
  | zero =>
      cases List.eq_nil_of_length_eq_zero size
      rcases front.nil with ⟨rfl, rfl⟩
      exact ⟨two, back, rfl⟩
  | succ count ih =>
      rcases frame_first size with ⟨frame, others, rfl, length, sizeOthers⟩
      have wholeOthers : kFrameSize ∣ others.length := by
        rw [sizeOthers]
        exact Nat.dvd_mul_right _ _
      rw [List.append_assoc]
      by_cases single : others = []
      · subst single
        rw [List.append_nil] at front
        rw [List.nil_append]
        by_cases empty : rest = []
        · subst empty
          rcases back.nil with ⟨rfl, rfl⟩
          exact ⟨one, by rw [List.append_nil]; exact front, by rw [List.append_nil]⟩
        · exact front.join_frame held length empty whole back
      · rcases front.split_frame held length single wholeOthers with ⟨x, a, b, start, middle, merged⟩
        rcases start.held held (by rw [length]) with ⟨fileX, excessX, heldX⟩
        rcases ih heldX sizeOthers middle with ⟨c, later, merged'⟩
        have more : others ++ rest ≠ [] := by simp [single]
        rcases start.join_frame held length more (by
          rw [List.length_append]
          exact Nat.dvd_add wholeOthers whole) later with ⟨d, joined, merged''⟩
        refine ⟨d, joined, ?_⟩
        simp only [merged'', weave_append, merged', merged]

theorem steady_appendChunk {frames : List UInt8} {offset : Nat} {next : Option Nat}
    (held : Attached w file excess) (more : offset < frames.length)
    (whole : kFrameSize ∣ (frames.drop offset).length)
    (run : Steady kernel (appendChunk frames offset) w events next v) :
    ∃ b before during, Clears kernel w before b ∧
      Fills kernel b ((frames.drop offset).take (chunkSize b.store (frames.drop offset).length))
        during v ∧
      next = some (offset + chunkSize b.store (frames.drop offset).length) ∧
      events = before ++ during := by
  rcases Prog.Trace.check_iff.mp run with ⟨failed, rfl⟩ | ⟨a, rotation, tail₁, rotated, run₁, rfl⟩
  · cases rotateIfFull_granted held (Steady.ran failed) (Steady.granted failed)
  rcases (rotateIfFull_outcome held (Steady.ran rotated)).1.held with ⟨_, within, fileA, heldA⟩
  rcases Prog.Trace.check_iff.mp run₁ with ⟨failed, rfl⟩ | ⟨b, early, tail₂, synced, run₂, rfl⟩
  · cases syncIfDue_granted heldA (Steady.ran failed) (Steady.granted failed)
  have clears : Clears kernel w (rotation ++ early) b := ⟨a, rotation, early, rotated, synced, rfl⟩
  rcases clears.prompt held with ⟨fileB, excessB, prompt⟩
  have some : frames.drop offset ≠ [] := by
    apply List.ne_nil_of_length_pos
    rw [List.length_drop]
    omega
  have chunk := prompt.chunk (List.length_pos_iff.mpr some) whole
  have run₃ := Prog.Trace.act_iff.mp run₂
  change Steady kernel (writeAll b.store.fd ((frames.drop offset).take
    (chunkSize b.store (frames.length - offset))) >>= _) b tail₂ next v at run₃
  rw [← List.length_drop] at run₃
  refine ⟨b, rotation ++ early, tail₂, clears, ?_⟩
  rw [List.append_assoc]
  generalize chunkSize b.store (frames.drop offset).length = count at chunk run₃ ⊢
  have positive := chunk.positive
  have most := chunk.count_le
  have length : ((frames.drop offset).take count).length = count := by
    rw [List.length_take]
    omega
  generalize (frames.drop offset).take count = part at length run₃ ⊢
  subst length
  rcases Prog.Trace.check_iff.mp run₃ with ⟨failed, rfl⟩ | ⟨c, writes, tail₃, written, run₄, rfl⟩
  · cases writeAll_granted (Steady.ran failed) (Steady.granted failed)
  have counted : Attached { c with store := c.store.counting part.length } (fileB.grow part) excessB := by
    rcases writeAll_weave prompt.toAttached (List.length_pos_iff.mp positive) written with ⟨_, _, rfl⟩
    exact (prompt.toAttached.grow part).count chunk.whole chunk.fits
  rcases Prog.Trace.check_iff.mp (Prog.Trace.act_iff.mp run₄) with
    ⟨failed, rfl⟩ | ⟨d, late, tail₄, synced', run₅, rfl⟩
  · cases syncIfDue_granted counted (Steady.ran failed) (Steady.granted failed)
  rcases Prog.Trace.pure_iff.mp run₅ with ⟨rfl, rfl, rfl⟩
  exact ⟨⟨c, writes, late, written, synced', by rw [List.append_nil]⟩, rfl, rfl⟩

theorem steady_appendChunk_intro {frames : List UInt8} {offset : Nat} {b : World}
    {before during : List Happening} (held : Attached w file excess) (more : offset < frames.length)
    (whole : kFrameSize ∣ (frames.drop offset).length) (clears : Clears kernel w before b)
    (fills : Fills kernel b ((frames.drop offset).take (chunkSize b.store (frames.drop offset).length))
      during v) :
    Steady kernel (appendChunk frames offset) w (before ++ during)
      (some (offset + chunkSize b.store (frames.drop offset).length)) v := by
  rcases clears.prompt held with ⟨fileB, excessB, prompt⟩
  have some : frames.drop offset ≠ [] := by
    apply List.ne_nil_of_length_pos
    rw [List.length_drop]
    omega
  have length := (prompt.front some whole fills).1
  rcases clears with ⟨a, rotation, early, rotated, synced, rfl⟩
  rcases fills with ⟨c, writes, late, written, synced', rfl⟩
  rw [length] at synced'
  rw [List.append_assoc]
  refine Prog.Trace.check_iff.mpr (Or.inr ⟨a, rotation, early ++ (writes ++ late), rotated, ?_, rfl⟩)
  refine Prog.Trace.check_iff.mpr (Or.inr ⟨b, early, writes ++ late, synced, ?_, rfl⟩)
  apply Prog.Trace.act_iff.mpr
  change Steady kernel (writeAll b.store.fd ((frames.drop offset).take
    (chunkSize b.store (frames.length - offset))) >>= _) b _ _ v
  rw [← List.length_drop]
  refine Prog.Trace.check_iff.mpr (Or.inr ⟨c, writes, late, written, ?_, rfl⟩)
  apply Prog.Trace.act_iff.mpr
  exact Prog.Trace.check_iff.mpr (Or.inr ⟨v, late, [], synced', .pure _ _, (List.append_nil _).symm⟩)

/-- The loop of `appendFrames` stores the chunks of what is left. The induction is on the
bytes that remain. -/
theorem steady_passes_iff {batch : List UInt8} {offset : Nat} {r : Bool} (held : Attached w file excess)
    (inside : offset ≤ batch.length) (aligned : kFrameSize ∣ (batch.drop offset).length) :
    Steady kernel (Prog.iterate (appendTurn batch) offset) w events r v ↔
      r = true ∧ Chunks kernel (batch.drop offset) w events v := by
  induction remaining : batch.length - offset using Nat.strong_induction_on
    generalizing offset w file excess events r v with
  | _ remaining' ih =>
  refine Prog.Trace.iterate_iff.trans ?_
  by_cases more : offset < batch.length
  swap
  · have all : batch.drop offset = [] := List.drop_eq_nil_of_le (by omega)
    rw [all, appendTurn, if_neg more]
    constructor
    · rintro ⟨x, u, first, last, pass, next, rfl⟩
      rcases Prog.Trace.pure_iff.mp pass with ⟨rfl, rfl, rfl⟩
      rcases Prog.Trace.pure_iff.mp next with ⟨rfl, rfl, rfl⟩
      exact ⟨rfl, .done _⟩
    · rintro ⟨rfl, chunks⟩
      rcases chunks.nil with ⟨rfl, rfl⟩
      exact ⟨.inr true, v, [], [], .pure _ _, .pure _ _, rfl⟩
  rw [appendTurn, if_pos more]
  have some : batch.drop offset ≠ [] := by
    apply List.ne_nil_of_length_pos
    rw [List.length_drop]
    omega
  have later : ∀ {b u before during}, Clears kernel w before b → Fills kernel b
      ((batch.drop offset).take (chunkSize b.store (batch.drop offset).length)) during u →
      ∀ {events r v}, Steady kernel (Prog.iterate (appendTurn batch)
        (offset + chunkSize b.store (batch.drop offset).length)) u events r v ↔ r = true ∧
        Chunks kernel ((batch.drop offset).drop (chunkSize b.store (batch.drop offset).length))
          u events v := by
    intro b u before during clears fills events r v
    rcases clears.prompt held with ⟨fileB, excessB, prompt⟩
    rcases prompt.front some aligned fills with ⟨_, _, shorter, rest, file', excess', after⟩
    have most := (prompt.chunk (List.length_pos_iff.mpr some) aligned).count_le
    generalize chunkSize b.store (batch.drop offset).length = count at shorter rest most ⊢
    rw [List.drop_drop] at shorter rest ⊢
    rw [List.length_drop, List.length_drop] at shorter
    rw [List.length_drop] at most
    exact ih _ (by omega) after (by omega) rest rfl
  constructor
  · rintro ⟨x, u, first, last, pass, next, rfl⟩
    rcases Prog.Trace.bind_iff.mp pass with ⟨n, y, events₁, events₂, appended, tail, rfl⟩
    rcases steady_appendChunk held more aligned appended with ⟨b, before, during, clears, fills, rfl, rfl⟩
    rcases Prog.Trace.pure_iff.mp tail with ⟨rfl, rfl, rfl⟩
    rcases (later clears fills).mp next with ⟨rfl, chunks⟩
    refine ⟨rfl, ?_⟩
    rw [List.append_nil, List.append_assoc]
    exact .chunk some clears fills chunks
  · rintro ⟨rfl, chunks⟩
    rcases chunks.first some with ⟨b, u, before, during, tail, clears, fills, others, rfl⟩
    refine ⟨.inl _, u, before ++ during, tail, ?_, (later clears fills).mpr ⟨rfl, others⟩, by
      rw [List.append_assoc]⟩
    exact Prog.Trace.bind_iff.mpr ⟨_, u, before ++ during, [],
      steady_appendChunk_intro held more aligned clears fills, .pure _ _, (List.append_nil _).symm⟩

/-- A batch that `appendFrames` takes. -/
def Whole (batch : List UInt8) : Prop := batch ≠ [] ∧ kFrameSize ∣ batch.length

instance (batch : List UInt8) : Decidable (Whole batch) := inferInstanceAs (Decidable (_ ∧ _))

theorem steady_appendFrames_iff {batch : List UInt8} {r : Bool} (held : Attached w file excess)
    (whole : Whole batch) :
    Steady kernel (appendFrames batch) w events r v ↔ r = true ∧ Chunks kernel batch w events v := by
  have proper : ¬ (batch = [] ∨ batch.length % kFrameSize ≠ 0) := by
    rintro (empty | odd)
    · exact whole.1 empty
    · exact odd (Nat.mod_eq_zero_of_dvd whole.2)
  refine Prog.Trace.act_iff.trans ?_
  change Steady kernel (if w.store.fd = -1 then _ else _) w _ _ _ ↔ _
  rw [if_neg held.fd, if_neg proper]
  exact steady_passes_iff held (Nat.zero_le _) whole.2

theorem flatten_whole {cut : List (List UInt8)} (whole : ∀ batch ∈ cut, Whole batch) :
    kFrameSize ∣ cut.flatten.length := by
  induction cut with
  | nil => exact Nat.dvd_zero _
  | cons batch rest ih =>
      rw [List.flatten_cons, List.length_append]
      exact Nat.dvd_add (whole batch (by simp)).2 (ih (fun other member => whole other (by simp [member])))

theorem Steady.chunks {cut : List (List UInt8)} {r : Bool} (held : Attached w file excess)
    (whole : ∀ batch ∈ cut, Whole batch) (run : Steady kernel (appendAll cut) w events r v) :
    r = true ∧ ∃ events', Chunks kernel cut.flatten w events' v ∧ weave events = weave events' := by
  induction cut generalizing w file excess events with
  | nil =>
      rcases Prog.Trace.pure_iff.mp run with ⟨rfl, rfl, rfl⟩
      exact ⟨rfl, [], .done v, rfl⟩
  | cons batch rest ih =>
      have front := whole batch (by simp)
      have others : ∀ batch ∈ rest, Whole batch := fun other member => whole other (by simp [member])
      rcases Prog.Trace.check_iff.mp run with ⟨failed, _⟩ | ⟨u, first, last, appended, next, rfl⟩
      · cases ((steady_appendFrames_iff held front).mp failed).1
      have chunks := ((steady_appendFrames_iff held front).mp appended).2
      rcases chunks.held held front.2 with ⟨fileU, excessU, heldU⟩
      rcases ih heldU others next with ⟨rfl, tail, later, merged⟩
      rcases front.2 with ⟨count, size⟩
      rcases chunks.join held size (flatten_whole others) later with ⟨all, joined, same⟩
      refine ⟨rfl, all, joined, ?_⟩
      simp only [same, weave_append, merged]

theorem Chunks.steady {cut : List (List UInt8)} (held : Attached w file excess)
    (whole : ∀ batch ∈ cut, Whole batch) (chunks : Chunks kernel cut.flatten w events v) :
    ∃ events', Steady kernel (appendAll cut) w events' true v ∧ weave events' = weave events := by
  induction cut generalizing w file excess events with
  | nil =>
      rcases chunks.nil with ⟨rfl, rfl⟩
      exact ⟨[], .pure _ _, rfl⟩
  | cons batch rest ih =>
      have front := whole batch (by simp)
      have others : ∀ batch ∈ rest, Whole batch := fun other member => whole other (by simp [member])
      rcases front.2 with ⟨count, size⟩
      rw [List.flatten_cons] at chunks
      rcases chunks.split held size (flatten_whole others) with ⟨u, first, last, one, later, merged⟩
      rcases one.held held front.2 with ⟨fileU, excessU, heldU⟩
      rcases ih heldU others later with ⟨tail, run, same⟩
      refine ⟨first ++ tail, Prog.Trace.check_iff.mpr (Or.inr ⟨u, first, tail,
        (steady_appendFrames_iff held front).mpr ⟨rfl, one⟩, run, rfl⟩), ?_⟩
      simp only [merged, weave_append, same]

/-- However a list of frames is cut into batches, appending it leads to the same world, with
the same syncs and rotations between the same bytes. -/
theorem cuts_alike {cut other : List (List UInt8)} {r : Bool} (lived : Lived w)
    (opened : w.store.fd ≠ -1) (whole : ∀ batch ∈ cut, Whole batch)
    (whole' : ∀ batch ∈ other, Whole batch) (same : cut.flatten = other.flatten)
    (run : Steady kernel (appendAll cut) w events r v) :
    r = true ∧ (∃ events', Steady kernel (appendAll other) w events' true v) ∧
    ∀ events' r' v', Steady kernel (appendAll other) w events' r' v' →
      r' = true ∧ v' = v ∧ journal events' = journal events := by
  rcases lived.sound with closed | ⟨closed, _⟩ | ⟨file, excess, held⟩
  · exact absurd closed.fd opened
  · exact absurd closed opened
  rcases run.chunks held whole with ⟨rfl, all, chunks, merged⟩
  rw [same] at chunks
  refine ⟨rfl, ?_, ?_⟩
  · rcases chunks.steady held whole' with ⟨events', run', _⟩
    exact ⟨events', run'⟩
  · intro events' r' v' run'
    rcases run'.chunks held whole' with ⟨rfl, all', chunks', merged'⟩
    rcases chunks'.unique held (flatten_whole whole') chunks with ⟨rfl, alike⟩
    refine ⟨rfl, rfl, ?_⟩
    rw [journal, journal, merged', merged, alike]

end Chunks

def plainKernel : Kernel := { clock := fun _ => (0, 0), descriptor := fun n => 200 + n }

def plainAnswer (n : Nat) : (call : Call) → World → call.Resp
  | .fs call, w => plainKernel.reply w call
  | call, w => Calm.answer n call w

unseal pathFilename parentPath in
/-- Two frames into segments of one frame: as one batch, and so frame by frame as well. -/
theorem cuts_alike_twoFrames : ∃ (events : List Happening) (v : World), v.fs.archives.length = 1 ∧
    Steady plainKernel (appendAll [List.replicate 32 0, List.replicate 32 0])
      (opened { maxSegmentBytes := 32, syncEveryBytes := 20 }) events true v := by
  have run : Ran (life [.openFile "t"]) (emptyDirectory { maxSegmentBytes := 32, syncEveryBytes := 20 })
      _ () (opened { maxSegmentBytes := 32, syncEveryBytes := 20 }) :=
    Prog.perform_trace Calm.answer 40 rfl
  have batch : Steady plainKernel (appendAll [List.replicate 64 0])
      (opened { maxSegmentBytes := 32, syncEveryBytes := 20 }) _ true _ :=
    Prog.perform_trace plainAnswer 80 rfl
  have alike := cuts_alike ⟨_, _, _, _, rfl, run⟩ (by decide) (by decide)
    (by decide : ∀ batch ∈ [List.replicate 32 0, List.replicate 32 0], Whole batch) (by decide) batch
  rcases alike.2.1 with ⟨events, frames⟩
  exact ⟨events, _, rfl, frames⟩

end TelemetryServer.Storage
