import TelemetryServer.Ipc.ConsumerSpec
import TelemetryServer.Reader.Reader

/-! The reader under any logic that lets it consume the ring and use its store. -/

namespace TelemetryServer

open Protocol Ipc Atomic
open Storage (noted exec_log)

def World.print (w : World) (record : TelemetryRecord) : World :=
  { w with past := { w.past with printed := w.past.printed ++ [record] } }

namespace Reader

namespace Staging

theorem staged_length (s : Staging) : s.staged.length = s.batchBytes := by simp [staged]

theorem staged_copy (s : Staging) (frame : Frame) : (s.copy frame).staged = s.staged ++ frame.bytes := by
  rw [staged, staged, copy, List.range_add, List.map_append, List.map_map]
  congr 1
  · apply List.map_congr_left
    intro i member
    rw [List.mem_range] at member
    exact if_neg (fun inside => absurd inside.1 (by omega))
  · apply List.ext_getElem
    · simp [frame.size_eq]
    · intro i low high
      have inside : i < kFrameSize := by rwa [frame.size_eq] at high
      simp [inside, List.getElem?_eq_getElem high]

end Staging

/-- What the others may have done to the consumer's side; `Due` is what a producer that has
published or closed owes. -/
structure Meanwhile (Due : World → Prop) (w v : World) : Prop where
  view : ConsumerView w.ring v.ring
  spaceOwed : v.past.spaceOwed = w.past.spaceOwed
  delivered : v.past.delivered = w.past.delivered
  news : v.ring.published = w.ring.published ∧ v.ring.producerClosed = w.ring.producerClosed ∨ Due v
  due : Due w → Due v

namespace Meanwhile

variable {Due : World → Prop} {w v u : World}

theorem trans (first : Meanwhile Due w v) (second : Meanwhile Due v u) : Meanwhile Due w u := by
  refine ⟨first.view.trans second.view, second.spaceOwed.trans first.spaceOwed,
    second.delivered.trans first.delivered, ?_, second.due ∘ first.due⟩
  rcases second.news with same | due
  · rcases first.news with same' | due'
    · exact Or.inl ⟨same.1.trans same'.1, same.2.trans same'.2⟩
    · exact Or.inr (second.due due')
  · exact Or.inr due

/-- An empty ring stays empty unless a notification is due. -/
theorem empty (meanwhile : Meanwhile Due w v) (none : w.ring.occupancy = 0 ∨ Due w) :
    v.ring.occupancy = 0 ∨ Due v := by
  rcases none with none | due
  · rcases meanwhile.news with ⟨same, _⟩ | due
    · left
      rw [Layout.occupancy, same, meanwhile.view.released]
      exact none
    · exact Or.inr due
  · exact Or.inr (meanwhile.due due)

theorem opened (meanwhile : Meanwhile Due w v) (still : w.ring.producerClosed = 0 ∨ Due w) :
    v.ring.producerClosed = 0 ∨ Due v := by
  rcases still with still | due
  · rcases meanwhile.news with ⟨_, same⟩ | due
    · exact Or.inl (same.trans still)
    · exact Or.inr due
  · exact Or.inr (meanwhile.due due)

end Meanwhile

/-- Everything delivered decodes and has been handed to the store. -/
structure Handed (H : List UInt8 → World → Prop) (w : World) : Prop where
  held : H (bytesOf w.past.delivered) w
  valid : ∀ frame ∈ w.past.delivered, frame.Valid

structure Resting (H : List UInt8 → World → Prop) (Due : World → Prop) (w : World) : Prop
    extends Handed H w where
  told : w.past.spaceOwed = false
  empty : w.ring.occupancy = 0 ∨ Due w
  opened : w.ring.producerClosed = 0 ∨ Due w

/-- What a logic grants to the reader. `H done` says that the store has taken `done`, and
`Broke` that it has refused a batch; `Done` is what a successful end brings about. -/
structure Reads (L : Logic) (store : Store) (H : List UInt8 → World → Prop)
    (Broke Due Done : World → Prop) : Prop where
  consumes : Consumes L
  meanwhile : ∀ {w v}, L.rely w v → Meanwhile Due w v
  stable : ∀ {w v done}, L.rely w v → H done w → H done v
  broke : ∀ {w v}, L.rely w v → Broke w → Broke v
  framed : ∀ {done w l d s past}, H done w → past.offered = w.past.offered →
    past.appended = w.past.appended →
    H done { w with ring := l, dataReady := d, spaceReady := s, past := past }
  sound : (∀ {w}, L.inv w → ∀ frame ∈ w.ring.frames, frame.Valid) ∨
    ∀ {w} error, L.inv w → L.pre (.log (.invalidIpcFrame error)) w
  line : ∀ {w} line, L.inv w → line.plain = true → L.pre (.log line) w
  telemetry : ∀ {w} record, L.inv w → L.pre (.log (.telemetry record)) w ∧ L.inv (w.print record) ∧
    L.guar w (w.print record)
  popped : ∀ {w} fs, L.inv w → (∀ frame ∈ w.past.delivered, frame.Valid) →
    w.past.delivered ++ fs = w.ring.frames.take w.ring.released →
    L.pre (.point (.popped fs)) w ∧ L.inv (w.passing (.popped fs)) ∧ L.guar w (w.passing (.popped fs))
  staging : ∀ {w offset}, L.inv w → kFrameSize ∣ offset → offset < writeBatchBytes →
    L.pre (.point (.staging offset)) w
  append : ∀ {w done batch}, L.inv w → H done w → batch ≠ [] → kFrameSize ∣ batch.length →
    done ++ batch <+: bytesOf w.past.delivered → L.wp (noted batch (store.appendFrames batch))
      (fun ok v => Meanwhile Due w v ∧ (ok = true → H (done ++ batch) v) ∧ (ok = false → Broke v)) w
  notify : ∀ {w}, L.inv w → Handed H w → L.pre (.eventWrite .spaceReady) w ∧
    ∀ r u, World.exec (.eventWrite .spaceReady) w r = some u →
      L.inv u ∧ L.guar w u ∧ (Due w → Due u)
  await : ∀ {w}, L.inv w → Resting H Due w →
    w.past.delivered = w.ring.frames.take w.ring.released → L.pre (.eventRead .dataReady) w ∧
    ∀ r u, World.exec (.eventRead .dataReady) w r = some u → L.inv u ∧ L.guar w u
  done : ∀ {w v}, L.rely w v → Done w → Done v
  sync : ∀ {w}, L.inv w → Handed H w → w.past.delivered = w.ring.frames → w.ring.producerClosed ≠ 0 →
    L.wp store.sync (fun ok v => (ok = true → Done v) ∧ v.past.delivered = w.past.delivered) w

/-- `rest` are the delivered frames still to be processed; the others are in the store or in
the staging array. -/
structure Staged (H : List UInt8 → World → Prop) (s : Staging) (rest : List Frame) (w : World) : Prop where
  aligned : kFrameSize ∣ s.batchBytes
  within : s.batchBytes ≤ writeBatchBytes
  processed : ∃ done fs, H done w ∧ w.past.delivered = fs ++ rest ∧ done ++ s.staged = bytesOf fs ∧
    ∀ frame ∈ fs, frame.Valid
  taken : w.past.delivered = w.ring.frames.take w.ring.released

/-- How a reader that gives up has left things: the store has refused a batch, or all that
was delivered is sound, or the store has what came before the first malformed frame. -/
def Halted (H : List UInt8 → World → Prop) (Broke : World → Prop) (w : World) : Prop :=
  Broke w ∨ (∀ frame ∈ w.past.delivered, frame.Valid) ∨
    H (bytesOf (w.past.delivered.takeWhile (fun frame => decide frame.Valid))) w

section

variable {L : Logic} {store : Store} {H : List UInt8 → World → Prop}
  {Broke Due Done : World → Prop} (reads : Reads L store H Broke Due Done)
  {w v : World} {s : Staging} {rest : List Frame}

/-- The frames given back stay the first ones of the ring. -/
theorem given_back {l m : Layout} (view : ConsumerView l m) (ring : RingInv l) :
    m.frames.take m.released = l.frames.take l.released := by
  rcases view.published with ⟨new, same⟩
  have longer : m.frames = l.frames ++ new.map Prod.snd := by
    rw [Layout.frames, Layout.frames, ← same, List.map_append]
  rw [view.released, longer, List.take_append_of_le_length]
  rw [frames_length_eq]
  exact ring.released_le

theorem taken_meanwhile (meanwhile : Meanwhile Due w v) (ring : RingInv w.ring)
    (taken : w.past.delivered = w.ring.frames.take w.ring.released) :
    v.past.delivered = v.ring.frames.take v.ring.released := by
  rw [meanwhile.delivered, given_back meanwhile.view ring, taken]

include reads in
theorem Staged.rely (staged : Staged H s rest w) (keep : L.inv w) (move : L.rely w v) :
    Staged H s rest v := by
  rcases staged.processed with ⟨done, fs, held, split, handed, valid⟩
  have meanwhile := reads.meanwhile move
  exact ⟨staged.aligned, staged.within,
    ⟨done, fs, reads.stable move held, meanwhile.delivered.trans split, handed, valid⟩,
    taken_meanwhile meanwhile (reads.consumes.ring keep) staged.taken⟩

include reads in
theorem flushBatch_spec (keep : L.inv w) (staged : Staged H s rest w) :
    L.wp (flushBatch store s) (fun r v => match r with
      | none => Broke v
      | some s' => s'.batchBytes = 0 ∧ Staged H s' rest v ∧ Meanwhile Due w v) w := by
  rw [flushBatch]
  split
  · next empty =>
      intro v move _
      exact ⟨empty, staged.rely reads keep move, reads.meanwhile move⟩
  next some =>
  rcases staged.processed with ⟨done, fs, held, split, handed, valid⟩
  have full : s.staged ≠ [] := by
    intro none
    have length := s.staged_length
    rw [none] at length
    exact some length.symm
  have whole : kFrameSize ∣ s.staged.length := by
    rw [s.staged_length]
    exact staged.aligned
  have inside : done ++ s.staged <+: bytesOf w.past.delivered := by
    rw [handed, split, bytesOf_append]
    exact List.prefix_append _ _
  apply Logic.wp_seq keep (reads.append keep held full whole inside)
  rintro ok v keepV ⟨meanwhile, taken, refused⟩
  cases ok with
  | false => exact fun u move _ => reads.broke move (refused rfl)
  | true =>
      intro u move _
      have later := reads.meanwhile move
      refine ⟨rfl, ⟨Nat.dvd_zero _, Nat.zero_le _, ?_, ?_⟩, meanwhile.trans later⟩
      · refine ⟨done ++ s.staged, fs, reads.stable move (taken rfl), ?_, ?_, valid⟩
        · rw [later.delivered, meanwhile.delivered, split]
        · rw [handed]
          exact List.append_nil _
      · exact taken_meanwhile (meanwhile.trans later) (reads.consumes.ring keep) staged.taken

include reads in
theorem announce_spec {α : Type} {k : Unit → Proc α} {Q : α → World → Prop} (quiet : Bool)
    (record : TelemetryRecord) (keep : L.inv w) (staged : Staged H s rest w)
    (next : ∀ v, L.inv v → Staged H s rest v → L.wp (k ()) Q v) :
    L.wp (announce quiet record >>= k) Q w := by
  cases quiet with
  | true => exact next w keep staged
  | false =>
      intro v move keepV
      rcases reads.telemetry record keepV with ⟨before, after, granted⟩
      refine ⟨before, ?_⟩
      rintro ⟨⟩ u answer
      cases answer
      refine ⟨after, granted, next _ after ?_⟩
      rcases (staged.rely reads keep move) with ⟨aligned, within, ⟨done, fs, held, facts⟩, taken⟩
      exact ⟨aligned, within, ⟨done, fs, reads.framed held rfl rfl, facts⟩, taken⟩

theorem Staged.copy {frame : Frame} (staged : Staged H s (frame :: rest) w)
    (below : s.batchBytes < writeBatchBytes) (valid : frame.Valid) :
    Staged H (s.copy frame) rest w := by
  rcases staged.processed with ⟨done, fs, held, split, handed, sound⟩
  refine ⟨Nat.dvd_add staged.aligned (Nat.dvd_refl _), ?_, ?_, staged.taken⟩
  · have aligned := staged.aligned
    simp only [Staging.copy, kFrameSize, writeBatchBytes] at aligned below ⊢
    omega
  · refine ⟨done, fs ++ [frame], held, ?_, ?_, ?_⟩
    · rw [split, List.append_assoc, List.singleton_append]
    · rw [Staging.staged_copy, ← List.append_assoc, handed, bytesOf_append]
      congr 1
      simp [bytesOf]
    · intro f member
      rcases List.mem_append.mp member with old | new
      · exact sound f old
      · rw [List.mem_singleton.mp new]
        exact valid

include reads in
theorem stageFrame_spec {frame : Frame} (quiet : Bool) (keep : L.inv w)
    (staged : Staged H s (frame :: rest) w) (below : s.batchBytes < writeBatchBytes)
    (valid : frame.Valid) :
    L.wp (stageFrame store quiet s frame) (fun r v => match r with
      | none => Broke v
      | some s' => s'.batchBytes < writeBatchBytes ∧ Staged H s' rest v) w := by
  intro v move keepV
  refine ⟨reads.staging keepV staged.aligned below, ?_⟩
  rintro ⟨⟩ u answer
  cases answer
  refine ⟨keepV, L.guar_refl _, ?_⟩
  have copied := (staged.rely reads keep move).copy below valid
  have flushed : L.wp (if (s.copy frame).batchBytes = writeBatchBytes then
      flushBatch store (s.copy frame) else pure (some (s.copy frame))) (fun r v => match r with
      | none => Broke v
      | some s' => s'.batchBytes < writeBatchBytes ∧ Staged H s' rest v) v := by
    split
    · apply Logic.wp_mono (flushBatch_spec reads keepV copied)
      intro r x _ result
      cases r with
      | none => exact result
      | some s' =>
          rcases result with ⟨empty, after, _⟩
          refine ⟨?_, after⟩
          rw [empty]
          decide
    · next room =>
        intro x move' _
        exact ⟨lt_of_le_of_ne copied.within room, copied.rely reads keepV move'⟩
  apply Logic.wp_seq keepV flushed
  intro r x keepX result
  cases r with
  | none => exact fun y move' _ => reads.broke move' result
  | some s' =>
      apply announce_spec reads quiet _ keepX result.2
      intro y keepY after z move' _
      exact ⟨result.1, after.rely reads keepY move'⟩

include reads in
theorem Halted.rely (halted : Halted H Broke w) (move : L.rely w v) : Halted H Broke v := by
  have same := (reads.meanwhile move).delivered
  rcases halted with refused | sound | held
  · exact Or.inl (reads.broke move refused)
  · right
    left
    rw [same]
    exact sound
  · right
    right
    rw [same]
    exact reads.stable move held

include reads in
theorem rejectFrame_spec {frame : Frame} (error : DecodeError) (keep : L.inv w)
    (staged : Staged H s (frame :: rest) w) (invalid : ¬ frame.Valid) :
    L.wp (rejectFrame store s error) (fun r v => r = none ∧ Halted H Broke v) w := by
  apply Logic.wp_seq keep (flushBatch_spec reads keep staged)
  intro r v keepV result
  cases r with
  | none => exact fun u move _ => ⟨rfl, Or.inl (reads.broke move result)⟩
  | some s' =>
      rcases result with ⟨empty, after, _⟩
      have halted : Halted H Broke v := by
        rcases after.processed with ⟨done, fs, held, split, handed, sound⟩
        right
        right
        have front : (fs ++ frame :: rest).takeWhile (fun frame => decide frame.Valid) = fs := by
          rw [List.takeWhile_append_of_pos (by simpa using sound)]
          simp [invalid]
        have none : s'.staged = [] := by
          rw [← List.length_eq_zero_iff, s'.staged_length, empty]
        rw [none, List.append_nil] at handed
        rw [split, front, ← handed]
        exact held
      intro u move keepU
      have later := after.rely reads keepV move
      have allowed : L.pre (.log (.invalidIpcFrame error)) u := by
        rcases reads.sound with clean | allowed
        · rcases later.processed with ⟨_, fs, _, split, _⟩
          have member : frame ∈ u.past.delivered := by
            rw [split]
            exact List.mem_append_right _ List.mem_cons_self
          rw [later.taken] at member
          exact absurd (clean keepU frame (List.mem_of_mem_take member)) invalid
        · exact allowed error keepU
      refine ⟨allowed, ?_⟩
      rintro ⟨⟩ x answer
      cases answer
      refine ⟨keepU, L.guar_refl _, ?_⟩
      exact fun y move' _ => ⟨rfl, (halted.rely reads move).rely reads move'⟩

include reads in
theorem processFrames_spec (quiet : Bool) (fs : List Frame) (keep : L.inv w)
    (staged : Staged H s fs w) (below : s.batchBytes < writeBatchBytes) :
    L.wp (processFrames store quiet s fs) (fun r v => match r with
      | none => Halted H Broke v
      | some s' => s'.batchBytes < writeBatchBytes ∧ Staged H s' [] v) w := by
  induction fs generalizing s w with
  | nil => exact fun v move _ => ⟨below, staged.rely reads keep move⟩
  | cons frame rest ih =>
      have one : L.wp (processFrame store quiet s frame) (fun r v => match r with
          | none => Halted H Broke v
          | some s' => s'.batchBytes < writeBatchBytes ∧ Staged H s' rest v) w := by
        rw [processFrame]
        split
        · next valid =>
            apply Logic.wp_mono (stageFrame_spec reads quiet keep staged below valid)
            intro r v _ result
            cases r with
            | none => exact Or.inl result
            | some s' => exact result
        · next invalid =>
            apply Logic.wp_mono (rejectFrame_spec reads _ keep staged invalid)
            rintro r v _ ⟨rfl, halted⟩
            exact halted
      apply Logic.wp_seq keep one
      intro r v keepV result
      cases r with
      | none => exact fun u move _ => Halted.rely reads result move
      | some s' => exact ih keepV result.2 result.1

/-- What a pop has taken comes right behind what was delivered before. -/
theorem taken_popped {size : Nat} {fs : List Frame} (ring : RingInv w.ring) (popped : Popped w v size fs)
    (taken : w.past.delivered = w.ring.frames.take w.ring.released) :
    w.past.delivered ++ fs = v.ring.frames.take v.ring.released := by
  rcases popped.published with ⟨new, same⟩
  have longer : v.ring.frames = w.ring.frames ++ new.map Prod.snd := by
    rw [Layout.frames, Layout.frames, ← same, List.map_append]
  have old : w.ring.frames.take w.ring.released = v.ring.frames.take w.ring.released := by
    rw [longer, List.take_append_of_le_length]
    rw [frames_length_eq]
    exact ring.released_le
  rw [popped.released, List.take_add, ← popped.taken, taken, old]

include reads in
theorem drain_spec (quiet : Bool) (keep : L.inv w) (staged : Staged H s [] w)
    (below : s.batchBytes < writeBatchBytes) (told : w.past.spaceOwed = false) :
    L.wp (drain store quiet s) (fun r v => match r with
      | none => Halted H Broke v
      | some (s', consumedAny) => s'.batchBytes < writeBatchBytes ∧ Staged H s' [] v ∧
          (v.past.spaceOwed = true → consumedAny = true) ∧ (v.ring.occupancy = 0 ∨ Due v)) w := by
  apply Logic.wp_iterate (fun (here : Staging × Bool) v => here.1.batchBytes < writeBatchBytes ∧
    Staged H here.1 [] v ∧ (v.past.spaceOwed = true → here.2 = true))
  · intro v move _
    refine ⟨below, staged.rely reads keep move, ?_⟩
    intro owed
    rw [(reads.meanwhile move).spaceOwed, told] at owed
    cases owed
  rintro ⟨s, consumedAny⟩ v keepV ⟨below, staged, owed⟩
  rcases staged.processed with ⟨done, old, held, split, handed, valid⟩
  rw [List.append_nil] at split
  have pop := tryPopBatch_spec reads.consumes
    (F := fun u => H done u ∧ u.past.delivered = v.past.delivered)
    (fun move frame => ⟨reads.stable move frame.1, (reads.meanwhile move).delivered.trans frame.2⟩)
    (fun frame => ⟨reads.framed frame.1 rfl rfl, frame.2⟩) ipcBatchBytes
    (E := fun u => u.ring.occupancy = 0 ∨ Due u) ⟨held, rfl⟩ (by decide)
    (fun _ _ _ none => Or.inl none) (fun move none => (reads.meanwhile move).empty none)
  apply Logic.wp_seq keepV pop
  rintro fs u keepU ⟨popped, ⟨heldU, same⟩, none⟩
  have taken := taken_popped (reads.consumes.ring keepV) popped staged.taken
  rw [← same] at taken
  cases fs with
  | nil =>
      intro x move _
      have meanwhile := reads.meanwhile move
      have here : Staged H s [] u := by
        refine ⟨staged.aligned, staged.within, ⟨done, old, heldU, ?_, handed, valid⟩, ?_⟩
        · rw [same, split, List.append_nil]
        · rw [List.append_nil] at taken
          exact taken
      refine ⟨below, here.rely reads keepU move, ?_, meanwhile.empty (none rfl)⟩
      intro owed'
      rw [meanwhile.spaceOwed, popped.spaceOwed] at owed'
      exact owed (by simpa using owed')
  | cons frame more =>
      intro x move keepX
      have meanwhile := reads.meanwhile move
      have soundX : ∀ frame ∈ x.past.delivered, frame.Valid := by
        rw [meanwhile.delivered, same, split]
        exact valid
      have next : x.past.delivered ++ (frame :: more) = x.ring.frames.take x.ring.released := by
        rw [meanwhile.delivered, taken, given_back meanwhile.view (reads.consumes.ring keepU)]
      rcases reads.popped (frame :: more) keepX soundX next with ⟨allowed, after, granted⟩
      refine ⟨allowed, ?_⟩
      rintro ⟨⟩ y answer
      cases answer
      refine ⟨after, granted, ?_⟩
      have here : Staged H s (frame :: more) (x.passing (.popped (frame :: more))) := by
        refine ⟨staged.aligned, staged.within,
          ⟨done, old, reads.framed (reads.stable move heldU) rfl rfl, ?_, handed, valid⟩, ?_⟩
        · change x.past.delivered ++ (frame :: more) = _
          rw [meanwhile.delivered, same, split]
        · exact next
      apply Logic.wp_seq after (processFrames_spec reads quiet _ after here below)
      intro r z keepZ result
      cases r with
      | none => exact fun x' move' _ => Halted.rely reads result move'
      | some s' => exact fun x' move' _ => ⟨result.1, result.2.rely reads keepZ move', fun _ => rfl⟩

structure Signalled (w u : World) : Prop where
  same : u = { w with dataReady := u.dataReady, spaceReady := u.spaceReady, past := u.past }
  delivered : u.past.delivered = w.past.delivered
  offered : u.past.offered = w.past.offered
  appended : u.past.appended = w.past.appended

theorem exec_eventWrite {fd : EventFd} {r : EventResult} {u : World}
    (answer : World.exec (.eventWrite fd) w r = some u) : Signalled w u := by
  simp only [World.exec, Option.map_eq_some_iff] at answer
  rcases answer with ⟨value, _, rfl⟩
  cases fd <;> cases r <;> exact ⟨rfl, rfl, rfl, rfl⟩

theorem exec_eventRead {fd : EventFd} {r : EventResult} {u : World}
    (answer : World.exec (.eventRead fd) w r = some u) : Signalled w u := by
  simp only [World.exec, Option.map_eq_some_iff] at answer
  rcases answer with ⟨value, _, rfl⟩
  cases fd <;> cases r <;> exact ⟨rfl, rfl, rfl, rfl⟩

theorem Signalled.ring {u : World} (signalled : Signalled w u) : u.ring = w.ring := by
  rw [signalled.same]

include reads in
theorem Handed.signalled {u : World} (handed : Handed H w) (signalled : Signalled w u) : Handed H u := by
  constructor
  · have held : H (bytesOf w.past.delivered)
        { w with dataReady := u.dataReady, spaceReady := u.spaceReady, past := u.past } :=
      reads.framed handed.held signalled.offered signalled.appended
    rw [← signalled.same] at held
    rw [signalled.delivered]
    exact held
  · rw [signalled.delivered]
    exact handed.valid

/-- All that was delivered has been handed over, and nothing more was there when the ring was
last looked at. -/
structure Flushed (H : List UInt8 → World → Prop) (Due : World → Prop) (w : World) : Prop
    extends Handed H w where
  taken : w.past.delivered = w.ring.frames.take w.ring.released
  empty : w.ring.occupancy = 0 ∨ Due w

theorem Staged.handed (staged : Staged H s [] w) (empty : s.batchBytes = 0) : Handed H w := by
  rcases staged.processed with ⟨done, fs, held, split, handed, valid⟩
  rw [List.append_nil] at split
  have none : s.staged = [] := by
    rw [← List.length_eq_zero_iff, s.staged_length, empty]
  rw [none, List.append_nil] at handed
  rw [handed] at held
  constructor
  · rw [split]
    exact held
  · rw [split]
    exact valid

include reads in
theorem Handed.rely (handed : Handed H w) (move : L.rely w v) : Handed H v := by
  have same := (reads.meanwhile move).delivered
  constructor
  · rw [same]
    exact reads.stable move handed.held
  · rw [same]
    exact handed.valid

include reads in
theorem Flushed.rely (flushed : Flushed H Due w) (keep : L.inv w) (move : L.rely w v) :
    Flushed H Due v :=
  ⟨flushed.toHanded.rely reads move,
    taken_meanwhile (reads.meanwhile move) (reads.consumes.ring keep) flushed.taken,
    (reads.meanwhile move).empty flushed.empty⟩

include reads in
theorem notifyConsumed_spec (consumedAny : Bool) (keep : L.inv w) (flushed : Flushed H Due w)
    (owed : w.past.spaceOwed = true → consumedAny = true) :
    L.wp (notifyConsumed consumedAny) (fun ok v => Flushed H Due v ∧
      (ok = true → v.past.spaceOwed = false)) w := by
  cases consumedAny with
  | false =>
      intro v move _
      refine ⟨flushed.rely reads keep move, ?_⟩
      intro _
      rw [(reads.meanwhile move).spaceOwed]
      exact Bool.eq_false_iff.mpr (fun wrong => Bool.false_ne_true (owed wrong))
  | true =>
      apply Logic.wp_iterate (fun _ v => Flushed H Due v)
      · exact fun v move _ => flushed.rely reads keep move
      intro _ v keepV flushedV t move keepT
      have here := flushedV.rely reads keepV move
      rcases reads.notify keepT here.toHanded with ⟨allowed, steps⟩
      refine ⟨allowed, ?_⟩
      intro r u answer
      rcases steps r u answer with ⟨after, granted, due⟩
      refine ⟨after, granted, ?_⟩
      have signalled := exec_eventWrite answer
      have kept : Flushed H Due u := by
        refine ⟨here.toHanded.signalled reads signalled, ?_, ?_⟩
        · rw [signalled.delivered, signalled.ring]
          exact here.taken
        · rw [signalled.ring]
          exact here.empty.imp id due
      cases r with
      | ok =>
          intro x move' _
          refine ⟨kept.rely reads after move', ?_⟩
          intro _
          rw [(reads.meanwhile move').spaceOwed]
          simp only [World.exec, Option.map_eq_some_iff] at answer
          rcases answer with ⟨value, _, rfl⟩
          rfl
      | eintr => exact fun x move' _ => kept.rely reads after move'
      | error =>
          intro x move' keepX
          refine ⟨reads.line _ keepX rfl, ?_⟩
          intro r' y answer'
          have same := exec_log rfl answer'
          subst y
          refine ⟨keepX, L.guar_refl _, ?_⟩
          have last := kept.rely reads after move'
          exact fun y move'' _ => ⟨last.rely reads keepX move'', by simp⟩

include reads in
/-- The order of the two checks: a producer seen closed has published its last frame, one
seen open or a ring seen filled owes a notification from then on. -/
theorem finished_spec (keep : L.inv w) (flushed : Flushed H Due w) (told : w.past.spaceOwed = false) :
    L.wp finished (fun yes v => Flushed H Due v ∧ v.past.spaceOwed = false ∧
      (yes = true → v.past.delivered = v.ring.frames ∧ v.ring.producerClosed ≠ 0) ∧
      (yes = false → v.ring.producerClosed = 0 ∨ Due v)) w := by
  intro v move keepV
  have here := flushed.rely reads keep move
  have toldV : v.past.spaceOwed = false := (reads.meanwhile move).spaceOwed.trans told
  refine ⟨(reads.consumes.loads keepV).2.2, ?_⟩
  intro value t answer
  rcases World.exec_loadProducerClosed answer with ⟨read, same⟩
  subst t
  subst value
  refine ⟨keepV, L.guar_refl _, ?_⟩
  change L.wp (if (v.ring.producerClosed != 0) = true then empty else pure false) _ v
  split
  · next closed =>
      rw [bne_iff_ne] at closed
      change L.wp (loadTail >>= fun tail => loadHead >>= fun head => pure (subU64 head tail == 0)) _ v
      apply loadOccupancy_spec reads.consumes (F := fun u => L.inv u ∧ Flushed H Due u)
        (fun move here => ⟨L.rely_inv move here.1, here.2.rely reads here.1 move⟩) ⟨keepV, here⟩
      intro u keepU steady frame x move' _
      have flushedU := frame.2
      have ring := reads.consumes.ring keepU
      have meanwhile := reads.meanwhile move'
      rw [distance_eq ring, beq_iff_eq, beq_eq_false_iff_ne]
      have last := (steady.view.closed closed).1
      refine ⟨flushedU.rely reads keepU move', ?_, ?_, ?_⟩
      · rw [meanwhile.spaceOwed, steady.spaceOwed, toldV]
      · intro none
        have end' := meanwhile.view.closed last
        refine ⟨?_, end'.1⟩
        have all : u.ring.frames.take u.ring.released = u.ring.frames := by
          apply List.take_of_length_le
          rw [frames_length_eq]
          rw [Layout.occupancy] at none
          omega
        rw [meanwhile.delivered, flushedU.taken, all, Layout.frames, Layout.frames, end'.2]
      · intro some
        right
        apply meanwhile.due
        exact flushedU.empty.resolve_left some
  · next opened =>
      have still : v.ring.producerClosed = 0 := by simpa using opened
      intro x move' _
      have meanwhile := reads.meanwhile move'
      exact ⟨here.rely reads keepV move', meanwhile.spaceOwed.trans toldV, by simp,
        fun _ => meanwhile.opened (Or.inl still)⟩

include reads in
theorem Resting.rely (resting : Resting H Due w) (move : L.rely w v) : Resting H Due v :=
  ⟨resting.toHanded.rely reads move, (reads.meanwhile move).spaceOwed.trans resting.told,
    (reads.meanwhile move).empty resting.empty, (reads.meanwhile move).opened resting.opened⟩

structure Idle (H : List UInt8 → World → Prop) (s : Staging) (w : World) : Prop where
  staged : Staged H s [] w
  below : s.batchBytes < writeBatchBytes
  told : w.past.spaceOwed = false

/-- What `run` may return, and what is then the case. -/
def Returned (H : List UInt8 → World → Prop) (Broke Done : World → Prop) (result : Nat) (w : World) :
    Prop :=
  result = EXIT_SUCCESS ∧ Done w ∨ result = EXIT_FAILURE ∧ Halted H Broke w

include reads in
theorem Returned.rely {result : Nat} (returned : Returned H Broke Done result w) (move : L.rely w v) :
    Returned H Broke Done result v := by
  rcases returned with ⟨success, done⟩ | ⟨failure, halted⟩
  · exact Or.inl ⟨success, reads.done move done⟩
  · exact Or.inr ⟨failure, halted.rely reads move⟩

theorem Handed.idle (handed : Handed H w) (empty : s.batchBytes = 0)
    (taken : w.past.delivered = w.ring.frames.take w.ring.released) (told : w.past.spaceOwed = false) :
    Idle H s w := by
  have none : s.staged = [] := by
    rw [← List.length_eq_zero_iff, s.staged_length, empty]
  refine ⟨⟨?_, ?_, ⟨_, _, handed.held, (List.append_nil _).symm, ?_, handed.valid⟩, taken⟩, ?_, told⟩
  · rw [empty]
    exact Nat.dvd_zero _
  · rw [empty]
    exact Nat.zero_le _
  · rw [none, List.append_nil]
  · rw [empty]
    decide

include reads in
theorem consumeEvent_spec (keep : L.inv w) (resting : Resting H Due w)
    (taken : w.past.delivered = w.ring.frames.take w.ring.released) :
    L.wp (consumeEvent .dataReady) (fun _ v => Handed H v ∧
      v.past.delivered = v.ring.frames.take v.ring.released ∧ v.past.spaceOwed = false) w := by
  apply Logic.wp_iterate (fun _ v => Resting H Due v ∧
    v.past.delivered = v.ring.frames.take v.ring.released)
  · exact fun v move _ => ⟨resting.rely reads move,
      taken_meanwhile (reads.meanwhile move) (reads.consumes.ring keep) taken⟩
  rintro _ v keepV ⟨restingV, takenV⟩ t move keepT
  have here := restingV.rely reads move
  have takenT := taken_meanwhile (reads.meanwhile move) (reads.consumes.ring keepV) takenV
  rcases reads.await keepT here takenT with ⟨allowed, steps⟩
  refine ⟨allowed, ?_⟩
  intro r u answer
  rcases steps r u answer with ⟨after, granted⟩
  refine ⟨after, granted, ?_⟩
  have signalled := exec_eventRead answer
  have told : u.past.spaceOwed = false := by
    simp only [World.exec, Option.map_eq_some_iff] at answer
    rcases answer with ⟨value, _, rfl⟩
    cases r <;> exact here.told
  have ends : ∀ x, L.rely u x → Handed H x ∧
      x.past.delivered = x.ring.frames.take x.ring.released ∧ x.past.spaceOwed = false := by
    intro x move'
    have meanwhile := reads.meanwhile move'
    refine ⟨(here.toHanded.signalled reads signalled).rely reads move', ?_, meanwhile.spaceOwed.trans told⟩
    apply taken_meanwhile meanwhile (reads.consumes.ring after)
    rw [signalled.delivered, signalled.ring]
    exact takenT
  cases r with
  | ok => exact fun x move' _ => ends x move'
  | eintr =>
      intro x move' _
      have same : u = t := by
        simp only [World.exec, eventfdRead, Option.map_some, Option.some.injEq] at answer
        exact answer.symm
      rw [same] at move'
      exact ⟨here.rely reads move',
        taken_meanwhile (reads.meanwhile move') (reads.consumes.ring keepT) takenT⟩
  | error =>
      intro x move' keepX
      refine ⟨reads.line _ keepX rfl, ?_⟩
      intro r' y answer'
      have same := exec_log rfl answer'
      subst y
      exact ⟨keepX, L.guar_refl _, fun y move'' _ => ends y (L.rely_trans move' move'')⟩

include reads in
theorem await_spec (keep : L.inv w) (resting : Resting H Due w) (empty : s.batchBytes = 0)
    (taken : w.past.delivered = w.ring.frames.take w.ring.released) :
    L.wp (await s) (fun x v => match x with
      | .inl s' => Idle H s' v
      | .inr result => Returned H Broke Done result v) w := by
  apply Logic.wp_seq keep (consumeEvent_spec reads keep resting taken)
  rintro ok v keepV ⟨handed, takenV, told⟩
  cases ok with
  | true =>
      intro u move _
      have meanwhile := reads.meanwhile move
      exact (handed.rely reads move).idle empty
        (taken_meanwhile meanwhile (reads.consumes.ring keepV) takenV) (meanwhile.spaceOwed.trans told)
  | false => exact fun u move _ => Or.inr ⟨rfl, Or.inr (Or.inl (handed.rely reads move).valid)⟩

include reads in
theorem finish_spec (keep : L.inv w) (handed : Handed H w) (all : w.past.delivered = w.ring.frames)
    (closed : w.ring.producerClosed ≠ 0) :
    L.wp (finish store) (fun x v => match x with
      | .inl s' => Idle H s' v
      | .inr result => Returned H Broke Done result v) w := by
  apply Logic.wp_seq keep (reads.sync keep handed all closed)
  rintro ok v keepV ⟨done, same⟩
  cases ok with
  | true =>
      intro u move keepU
      refine ⟨reads.line _ keepU rfl, ?_⟩
      intro r x answer
      have unchanged := exec_log rfl answer
      subst x
      refine ⟨keepU, L.guar_refl _, ?_⟩
      exact fun x move' _ => Or.inl ⟨rfl, reads.done (L.rely_trans move move') (done rfl)⟩
  | false =>
      intro u move _
      refine Or.inr ⟨rfl, Or.inr (Or.inl ?_)⟩
      rw [(reads.meanwhile move).delivered, same]
      exact handed.valid

include reads in
theorem pass_spec (quiet : Bool) (keep : L.inv w) (idle : Idle H s w) :
    L.wp (pass store quiet s) (fun x v => match x with
      | .inl s' => Idle H s' v
      | .inr result => Returned H Broke Done result v) w := by
  apply Logic.wp_seq keep (drain_spec reads quiet keep idle.staged idle.below idle.told)
  intro r v keepV result
  cases r with
  | none => exact fun u move _ => Or.inr ⟨rfl, Halted.rely reads result move⟩
  | some popped =>
      rcases popped with ⟨s, consumedAny⟩
      rcases result with ⟨_, staged, owed, none⟩
      apply Logic.wp_seq keepV (flushBatch_spec reads keepV staged)
      intro r t keepT result
      cases r with
      | none => exact fun u move _ => Or.inr ⟨rfl, Or.inl (reads.broke move result)⟩
      | some s' =>
          rcases result with ⟨empty, after, meanwhile⟩
          have flushed : Flushed H Due t :=
            ⟨after.handed empty, after.taken, meanwhile.empty none⟩
          have owedT : t.past.spaceOwed = true → consumedAny = true := by
            rw [meanwhile.spaceOwed]
            exact owed
          apply Logic.wp_seq keepT (notifyConsumed_spec reads consumedAny keepT flushed owedT)
          rintro ok x keepX ⟨flushedX, told⟩
          cases ok with
          | false =>
              intro u move _
              exact Or.inr ⟨rfl, Or.inr (Or.inl (flushedX.toHanded.rely reads move).valid)⟩
          | true =>
              apply Logic.wp_seq keepX (finished_spec reads keepX flushedX (told rfl))
              rintro yes y keepY ⟨flushedY, toldY, ended, open'⟩
              cases yes with
              | true =>
                  rcases ended rfl with ⟨all, closed⟩
                  exact finish_spec reads keepY flushedY.toHanded all closed
              | false =>
                  exact await_spec reads keepY
                    ⟨flushedY.toHanded, toldY, flushedY.empty, open' rfl⟩ empty flushedY.taken

include reads in
theorem loop_spec (quiet : Bool) (held : H [] w) (fresh : w.past.delivered = [])
    (unread : w.ring.released = 0) (told : w.past.spaceOwed = false) :
    L.wp (Prog.iterate (pass store quiet) {}) (Returned H Broke Done) w := by
  apply Logic.wp_iterate (fun s v => Idle H s v)
  · intro v move _
    have meanwhile := reads.meanwhile move
    have handed : Handed H w := by
      constructor
      · rw [fresh]
        exact held
      · rw [fresh]
        nofun
    apply (handed.rely reads move).idle rfl
    · rw [meanwhile.delivered, fresh, meanwhile.view.released, unread, List.take_zero]
    · exact meanwhile.spaceOwed.trans told
  · intro s v keepV idle
    apply Logic.wp_mono (pass_spec reads quiet keepV idle)
    intro x u _ result
    cases x with
    | inl s' => exact result
    | inr value => exact result

end

end Reader
end TelemetryServer
