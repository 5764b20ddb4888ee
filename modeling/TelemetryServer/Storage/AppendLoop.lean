import TelemetryServer.Lib.Turns
import TelemetryServer.Storage.Cadence

/-! The loops of an append: no step of their arithmetic wraps around, and each pass gets
further. -/

namespace TelemetryServer.Storage

open Protocol Atomic

/-- After `n` passes the outer loop is at `offset`. -/
abbrev Passed (w : World) (batch : List UInt8) (n offset : Nat) (v : World) : Prop :=
  Prog.Turns World.exec (fun _ _ => False) (appendTurn batch) 0 w n offset v

def Roomy (w : World) (batch : List UInt8) (offset : Nat) (v : World) : Prop :=
  ∃ n u events, Passed w batch n offset u ∧ offset < batch.length ∧ Ran rotateIfFull u events true v

/-- A pass has also seen to it that no sync is due, and now takes its chunk. -/
def Chunking (w : World) (batch : List UInt8) (offset : Nat) (v : World) : Prop :=
  ∃ u events, Roomy w batch offset u ∧ Ran syncIfDue u events true v

/-- The size of a chunk is computed in numbers that neither run below zero nor over 64 bits. -/
structure Exact (store : FileStore) (remaining : Nat) : Prop extends
    Chunk store remaining (chunkSize store remaining) where
  segment : store.currentSize < store.config.maxSegmentBytes
  due : store.config.syncEveryBytes ≠ 0 → store.unsyncedBytes < store.config.syncEveryBytes
  rounded : store.config.syncEveryBytes ≠ 0 →
    (1 + (store.config.syncEveryBytes - store.unsyncedBytes - 1) / kFrameSize) * kFrameSize < 2 ^ 64
  size : chunkSize store remaining =
    if store.config.syncEveryBytes ≠ 0 ∧ store.config.syncEveryBytes - store.unsyncedBytes <
        min remaining (store.config.maxSegmentBytes - store.currentSize) then
      (1 + (store.config.syncEveryBytes - store.unsyncedBytes - 1) / kFrameSize) * kFrameSize
    else min remaining (store.config.maxSegmentBytes - store.currentSize)
  counted : store.currentSize + chunkSize store remaining < 2 ^ 64
  unsynced : store.unsyncedBytes + chunkSize store remaining < 2 ^ 64

/-- What the loops of an append keep to, whatever the calls answer. -/
structure LoopSafe (w : World) (batch : List UInt8) : Prop where
  valid : w.store.config.Valid
  passes : ∀ n offset v, Passed w batch n offset v →
    n * kFrameSize ≤ offset ∧ offset ≤ batch.length ∧ kFrameSize ∣ offset
  room : ∀ offset v, Roomy w batch offset v → v.store.currentSize < v.store.config.maxSegmentBytes
  chunk : ∀ offset v, Chunking w batch offset v → Exact v.store (batch.length - offset)
  /-- The bytes of a write are as many as it asks for, and lie inside its chunk. -/
  writes : ∀ fd bytes k v,
    Prog.Alone World.exec (appendFrames batch) w (.call (.fs (.write fd bytes)) k) v →
    ∃ offset u written, Chunking w batch offset u ∧
      written + bytes.length = chunkSize u.store (batch.length - offset) ∧ 0 < bytes.length ∧
      bytes = (batch.drop (offset + written)).take bytes.length

section

variable {w v : World} {file : File} {excess n offset : Nat} {batch : List UInt8}
  {events : List Happening} {r : Bool}

theorem appendTurn_outcome {next : Nat} (held : Attached w file excess)
    (whole : kFrameSize ∣ batch.length) (aligned : kFrameSize ∣ offset)
    (run : Ran (appendTurn batch offset) w events (.inl next) v) :
    (∃ file' excess', Attached v file' excess') ∧ offset < next ∧ next ≤ batch.length ∧
      kFrameSize ∣ next := by
  rw [appendTurn] at run
  split at run
  · next more =>
      rcases Prog.Trace.bind_iff.mp run with ⟨answer, u, first, last, appended, rest, _⟩
      rcases appendChunk_outcome held whole aligned more appended with ⟨filed, facts⟩
      cases answer with
      | none => cases (ran_pure rest).2.1
      | some m =>
          rcases ran_pure rest with ⟨_, same, rfl⟩
          cases same
          rcases filed.held with ⟨_, _, file', after⟩
          exact ⟨⟨file', _, after⟩, facts next rfl⟩
  · cases (ran_pure run).2.1

theorem Passed.facts (held : Attached w file excess) (whole : kFrameSize ∣ batch.length)
    (passed : Passed w batch n offset v) :
    (∃ file' excess', Attached v file' excess') ∧ n * kFrameSize ≤ offset ∧ offset ≤ batch.length ∧
      kFrameSize ∣ offset := by
  apply passed.induct (fun n offset v => (∃ file' excess', Attached v file' excess') ∧
    n * kFrameSize ≤ offset ∧ offset ≤ batch.length ∧ kFrameSize ∣ offset)
  · exact ⟨⟨file, excess, held⟩, by omega, Nat.zero_le _, Nat.dvd_zero _⟩
  · rintro n offset u next v ⟨⟨file', excess', held⟩, least, _, aligned⟩ run
    rcases Prog.Alone.trace run with ⟨events, run⟩
    rcases appendTurn_outcome held whole aligned run with ⟨after, further, inside, aligned'⟩
    refine ⟨after, ?_, inside, aligned'⟩
    simp only [kFrameSize] at *
    omega

theorem Roomy.facts (held : Attached w file excess) (whole : kFrameSize ∣ batch.length)
    (roomy : Roomy w batch offset v) :
    (∃ file' excess', Attached v file' excess') ∧ offset < batch.length ∧ kFrameSize ∣ offset ∧
      v.store.currentSize < v.store.config.maxSegmentBytes := by
  rcases roomy with ⟨n, u, events, passed, more, rotated⟩
  rcases passed.facts held whole with ⟨⟨file', excess', before⟩, _, _, aligned⟩
  rcases rotateIfFull_outcome before rotated with ⟨filed, room⟩
  rcases filed.held with ⟨_, _, file'', after⟩
  exact ⟨⟨file'', _, after⟩, more, aligned, room rfl⟩

/-- Alignment, the limit of the segment and the sync interval decide all of the arithmetic. -/
theorem Attached.exact {remaining : Nat} (held : Attached w file excess)
    (room : w.store.currentSize < w.store.config.maxSegmentBytes) (due : Due w.store.config w)
    (some : 0 < remaining) (whole : kFrameSize ∣ remaining) : Exact w.store remaining := by
  have chunk := chunkSize_chunk held.valid some whole held.aligned held.whole room due
  have limit := w.store.config.max_lt
  have interval := held.valid.interval
  have written := held.written
  have fits := chunk.fits
  refine ⟨chunk, room, due, ?_, chunkSize_eq held.valid room due, by omega, by omega⟩
  intro periodic
  have before := due periodic
  have segments := held.valid.whole
  simp only [kFrameSize] at *
  omega

theorem Chunking.exact (held : Attached w file excess) (whole : kFrameSize ∣ batch.length)
    (chunking : Chunking w batch offset v) : Exact v.store (batch.length - offset) := by
  rcases chunking with ⟨u, events, roomy, synced⟩
  rcases roomy.facts held whole with ⟨⟨file', excess', before⟩, more, aligned, room⟩
  rcases syncIfDue_outcome before (Nat.le_of_lt room) synced with ⟨filed, size, due⟩
  rcases filed.held with ⟨_, _, file'', after⟩
  apply after.exact _ (due rfl) (by omega) (Nat.dvd_sub whole aligned)
  rw [size, filed.config]
  exact room

variable {fd : Int} {bytes : List UInt8}

theorem members_unwriting : Prog.Within Unwriting members := fun _ => trivial

theorem update_unwriting (f : FileStore → FileStore) : Prog.Within Unwriting (update f) :=
  fun _ => trivial

/-- A program that writes nothing comes to no write. -/
theorem unwriting_write {α : Type} {p : Proc α} {k : WriteResult → Proc α}
    (only : Prog.Within Unwriting p)
    (run : Prog.Alone World.exec p w (.call (.fs (.write fd bytes)) k) v) : False :=
  (Prog.Reach.within run only).1

theorem pure_write {α : Type} {a : α} {k : WriteResult → Proc α}
    (run : Prog.Alone World.exec (pure a) w (.call (.fs (.write fd bytes)) k) v) : False := by
  have only : Prog.Within Unwriting (pure a : Proc α) := trivial
  exact unwriting_write only run

theorem members_write {α : Type} {f : FileStore → Proc α} {k : WriteResult → Proc α}
    (run : Prog.Alone World.exec (members >>= f) w (.call (.fs (.write fd bytes)) k) v) :
    Prog.Alone World.exec (f w.store) w (.call (.fs (.write fd bytes)) k) v := by
  rcases Prog.Reach.past run members_unwriting (fun wrong => wrong) with ⟨m, u, read, rest⟩
  rcases Prog.Alone.trace read with ⟨events, read⟩
  have start := Prog.Trace.act_iff.mp read
  rcases ran_pure start with ⟨_, rfl, rfl⟩
  exact rest

theorem check_write {α : Type} {p : Proc Bool} {bad : α} {next : Proc α} {k : WriteResult → Proc α}
    (only : Prog.Within Unwriting p)
    (run : Prog.Alone World.exec (p >>= fun ok => if (!ok) = true then pure bad else next) w
      (.call (.fs (.write fd bytes)) k) v) :
    ∃ u events, Ran p w events true u ∧ Prog.Alone World.exec next u (.call (.fs (.write fd bytes)) k) v := by
  rcases Prog.Reach.past run only (fun wrong => wrong) with ⟨ok, u, done, rest⟩
  rcases Prog.Alone.trace done with ⟨events, done⟩
  cases ok with
  | false => exact (pure_write rest).elim
  | true => exact ⟨u, events, done, rest⟩

theorem writeTurn_write {fd' : Int} {all : List UInt8} {written : Nat} {k : WriteResult → Proc (Nat ⊕ Bool)}
    (run : Prog.Alone World.exec (writeTurn fd' all written) w (.call (.fs (.write fd bytes)) k) v) :
    written < all.length ∧ bytes = all.drop written := by
  rw [writeTurn] at run
  split at run
  · next more =>
      rcases Prog.Reach.call_cases run with same | ⟨answer, _, _, _, rest⟩
      · cases same
        exact ⟨more, rfl⟩
      · refine (unwriting_write ?_ rest).elim
        cases answer with
        | written count =>
            change Prog.Within Unwriting (if _ then _ else _)
            split
            · trivial
            · exact ⟨trivial, fun _ => trivial⟩
        | eintr => trivial
        | error => exact ⟨trivial, fun _ => trivial⟩
  · exact (pure_write run).elim

theorem appendChunk_write {k : WriteResult → Proc (Option Nat)}
    (run : Prog.Alone World.exec (appendChunk batch offset) w (.call (.fs (.write fd bytes)) k) v) :
    ∃ a b events events', Ran rotateIfFull w events true a ∧ Ran syncIfDue a events' true b ∧
      ∃ written, written < (batch.drop offset).length ∧ 0 < bytes.length ∧
        bytes = ((batch.drop offset).take (chunkSize b.store (batch.length - offset))).drop written := by
  rcases check_write rotateIfFull_unwriting run with ⟨a, events, rotated, run₁⟩
  rcases check_write syncIfDue_unwriting run₁ with ⟨b, events', synced, run₂⟩
  have run₃ := members_write run₂
  rcases Prog.Reach.bind_call run₃ with ⟨k', inside, _⟩ | ⟨ok, u, _, rest⟩
  · rw [writeAll] at inside
    rcases Prog.Reach.loop_call inside with ⟨n, written, u, k'', turns, pass, _⟩
    rcases writeTurn_write pass with ⟨more, rfl⟩
    refine ⟨a, b, events, events', rotated, synced, written, ?_, ?_, rfl⟩
    · rw [List.length_take] at more
      omega
    · rw [List.length_drop]
      omega
  · refine (unwriting_write ?_ rest).elim
    cases ok with
    | false => trivial
    | true =>
        refine (update_unwriting _).bind (fun _ => syncIfDue_unwriting.bind fun synced => ?_)
        cases synced <;> trivial

theorem appendTurn_write {k : WriteResult → Proc (Nat ⊕ Bool)}
    (run : Prog.Alone World.exec (appendTurn batch offset) w (.call (.fs (.write fd bytes)) k) v) :
    offset < batch.length ∧ ∃ k',
      Prog.Alone World.exec (appendChunk batch offset) w (.call (.fs (.write fd bytes)) k') v := by
  rw [appendTurn] at run
  split at run
  · next more =>
      rcases Prog.Reach.bind_call run with ⟨k', inside, _⟩ | ⟨answer, u, _, rest⟩
      · exact ⟨more, k', inside⟩
      · refine (unwriting_write ?_ rest).elim
        cases answer <;> trivial
  · exact (pure_write run).elim

theorem appendFrames_write {k : WriteResult → Proc Bool}
    (run : Prog.Alone World.exec (appendFrames batch) w (.call (.fs (.write fd bytes)) k) v) :
    Prog.Alone World.exec (Prog.iterate (appendTurn batch) 0) w (.call (.fs (.write fd bytes)) k) v := by
  have run₁ := members_write run
  split at run₁
  · exact (pure_write run₁).elim
  split at run₁
  · exact (unwriting_write ((refuse_quiet _).mono Quiet.unwriting) run₁).elim
  · exact run₁

theorem Attached.writes {k : WriteResult → Proc Bool} (held : Attached w file excess)
    (whole : kFrameSize ∣ batch.length)
    (run : Prog.Alone World.exec (appendFrames batch) w (.call (.fs (.write fd bytes)) k) v) :
    ∃ offset u written, Chunking w batch offset u ∧
      written + bytes.length = chunkSize u.store (batch.length - offset) ∧ 0 < bytes.length ∧
      bytes = (batch.drop (offset + written)).take bytes.length := by
  rcases Prog.Reach.loop_call (appendFrames_write run) with ⟨n, offset, u, k', passed, inside, _⟩
  rcases appendTurn_write inside with ⟨more, k'', chunk⟩
  rcases appendChunk_write chunk with ⟨a, b, events, events', rotated, synced, written, early, some, part⟩
  have chunking : Chunking w batch offset b :=
    ⟨a, events', ⟨n, u, events, passed, more, rotated⟩, synced⟩
  have most := (chunking.exact held whole).count_le
  have length : written + bytes.length = chunkSize b.store (batch.length - offset) := by
    rw [part, List.length_drop, List.length_take, List.length_drop] at some ⊢
    omega
  refine ⟨offset, b, written, chunking, length, some, ?_⟩
  have rest : chunkSize b.store (batch.length - offset) - written = bytes.length := by omega
  rw [← rest, ← List.drop_drop, ← List.drop_take]
  exact part

/-- Whatever its store has been through, an append computes its chunks safely and reaches the
end of the batch in as many passes as there are frames at most. -/
theorem append_loop_safe (lived : Lived w) (opened : w.store.fd ≠ -1)
    (whole : kFrameSize ∣ batch.length) : LoopSafe w batch := by
  rcases lived.sound with closed | ⟨closed, _⟩ | ⟨file, excess, held⟩
  · exact absurd closed.fd opened
  · exact absurd closed opened
  constructor
  · exact held.valid
  · exact fun n offset v passed => (passed.facts held whole).2
  · exact fun offset v roomy => (roomy.facts held whole).2.2.2
  · exact fun offset v chunking => chunking.exact held whole
  · exact fun fd bytes k v run => held.writes whole run

end

unseal pathFilename parentPath in
/-- Two frames for a store that has opened an empty file. -/
theorem append_loop_safe_opened : LoopSafe (opened {}) (List.replicate 64 0) := by
  have run : Ran (life [.openFile "t"]) (emptyDirectory {}) _ () (opened {}) :=
    Prog.perform_trace Calm.answer 40 rfl
  exact append_loop_safe ⟨_, _, _, _, rfl, run⟩ (by decide) (by decide)

end TelemetryServer.Storage
