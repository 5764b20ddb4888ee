import TelemetryServer.Reader.Batching
import TelemetryServer.Reader.Halting

namespace TelemetryServer.Reader

open Protocol Ipc Atomic World
open Storage (Standing Stores Still Due noted openFile_standing appendFrames_spec appendFrames_halts
  sync_standing)
open Prog (Reach Settles)

/-- As `Producer`, by those who leave the store and its directory alone. -/
structure Elsewhere (w v : World) : Prop extends Producer w v where
  fs : v.fs = w.fs
  store : v.store = w.store

theorem Elsewhere.refl (w : World) : Elsewhere w w := ⟨.refl w, rfl, rfl⟩

theorem Elsewhere.trans {w v u : World} (first : Elsewhere w v) (second : Elsewhere v u) :
    Elsewhere w u :=
  ⟨first.toProducer.trans second.toProducer, second.fs.trans first.fs, second.store.trans first.store⟩

def Stands (w : World) : Prop := ∃ config name base total, config.Valid ∧ Due config w ∧
  Standing (fun _ => True) config name base total w

theorem Stands.same {w v : World} (stands : Stands w) (fs : v.fs = w.fs) (store : v.store = w.store) :
    Stands v := by
  rcases stands with ⟨config, name, base, total, valid, due, standing⟩
  refine ⟨config, name, base, total, valid, ?_, standing.reframe trivial fs store⟩
  rw [Due, store]
  exact due

def filesPre : Call → World → Prop
  | .fs call, w => Storage.Ready w.fs call
  | .point (.appending _), w => Stands w
  | _, _ => True

def filesLogic : Logic where
  inv := fun w => RingInv w.ring
  rely := Elsewhere
  guar := fun _ _ => True
  pre := filesPre
  rely_refl := Elsewhere.refl
  rely_trans := Elsewhere.trans
  rely_inv := fun move => move.ring
  guar_refl := fun _ => trivial

theorem filesLogic_stores : Stores filesLogic (fun _ _ => True) (fun _ => True) where
  own := fun move => ⟨move.fs, move.store⟩
  member := fun _ keep => ⟨keep, trivial⟩
  file := fun keep _ => ⟨keep, trivial⟩
  call := fun _ _ ready => ready
  line := fun _ _ _ => trivial
  stable := fun _ _ => trivial
  framed := fun _ _ _ => trivial

theorem filesLogic_consumes : Consumes filesLogic where
  ring := id
  view := fun move => move.view
  own := fun move => move.spaceOwed
  loads := fun _ => ⟨trivial, trivial, trivial⟩
  slot := fun _ _ => trivial
  release := fun keep _ there => ⟨trivial, keep.release there, trivial⟩

theorem filesLogic_meanwhile {α : Type} {p : Proc α} {Q : α → World → Prop} {w : World}
    (keeping : Storage.Keeping Storing p) (holds : filesLogic.wp p Q w) :
    filesLogic.wp p (fun a v => Q a v ∧ Meanwhile (fun _ => True) w v) w :=
  Logic.wp_and (L := filesLogic) (M := anyCall) (fun _ => trivial) (fun move => move.toProducer) holds
    (storing_meanwhile keeping)

theorem append_files {batch : List UInt8} {w : World} (stands : Stands w) :
    filesLogic.wp (noted batch (fileStore.appendFrames batch)) (fun ok v => ok = true → Stands v) w := by
  intro v move keepV
  have here := stands.same move.fs move.store
  refine ⟨here, ?_⟩
  rintro ⟨⟩ u answer
  cases answer
  rcases here.same (v := v.passing (.appending batch)) rfl rfl with
    ⟨config, name, base, total, valid, due, standing⟩
  have after : filesLogic.inv (v.passing (.appending batch)) := keepV
  refine ⟨after, trivial, ?_⟩
  have appended : filesLogic.wp (fileStore.appendFrames batch) (fun ok x => ok = true → Stands x)
      (v.passing (.appending batch)) := by
    apply Logic.wp_mono
      (appendFrames_spec filesLogic_stores (fun _ _ _ _ _ _ => trivial) valid due standing)
    exact fun ok x _ result yes => ⟨config, name, base, _, valid, (result yes).2⟩
  apply Logic.wp_seq after appended
  intro ok x keepX result
  cases ok with
  | false => exact fun _ _ _ wrong => nomatch wrong
  | true =>
      intro y move' keepY
      have stood := (result rfl).same move'.fs move'.store
      refine ⟨trivial, ?_⟩
      rintro ⟨⟩ z answer
      cases answer
      refine ⟨keepY, trivial, fun t move'' _ _ => ?_⟩
      exact (stood.same (v := y.passing (.appended batch)) rfl rfl).same move''.fs move''.store

theorem filesLogic_reads : Reads filesLogic fileStore (fun _ => Stands) (fun _ => True)
    (fun _ => True) (fun _ => True) where
  consumes := filesLogic_consumes
  meanwhile := fun move => ⟨move.view, move.spaceOwed, move.delivered, Or.inr trivial, id⟩
  stable := fun move stands => stands.same move.fs move.store
  broke := fun _ _ => trivial
  framed := fun stands _ _ => stands.same rfl rfl
  sound := Or.inr fun _ _ => trivial
  line := fun _ _ _ => trivial
  telemetry := fun _ keep => ⟨trivial, keep, trivial⟩
  popped := fun _ keep _ _ => ⟨trivial, keep, trivial⟩
  staging := fun _ _ _ => trivial
  append := by
    intro w done batch _ stands _ _ _
    apply Logic.wp_mono (filesLogic_meanwhile (noted_storing fileStore_apart batch)
      (append_files stands))
    exact fun ok v _ result => ⟨result.2, result.1, fun _ => trivial⟩
  notify := by
    intro w keep _
    refine ⟨trivial, fun r u answer => ?_⟩
    have after : RingInv u.ring := by
      rw [(exec_eventWrite answer).ring]
      exact keep
    exact ⟨after, trivial, id⟩
  await := by
    intro w keep _ _
    refine ⟨trivial, fun r u answer => ?_⟩
    have after : RingInv u.ring := by
      rw [(exec_eventRead answer).ring]
      exact keep
    exact ⟨after, trivial⟩
  done := fun _ _ => trivial
  sync := by
    intro w keep handed _ _
    rcases handed.held with ⟨config, name, base, total, _, _, standing⟩
    apply Logic.wp_mono (filesLogic_meanwhile (fileStore_apart.sync.mono filing_storing)
      (sync_standing filesLogic_stores (fun _ _ _ _ => trivial) standing))
    exact fun ok v _ result => ⟨fun _ => trivial, result.2.delivered⟩

structure Unopened (config : ReaderConfig) (w : World) : Prop where
  archives : w.fs.archives = []
  unsynced : ∀ file, w.fs.entries (Storage.pathFilename config.dataFilePath) = some file →
    file.unsynced = 0

section

variable {config : ReaderConfig} {w : World}

theorem read_files (opening : Opening w) (unopened : Unopened config w)
    (constructed : w.store = { config := config.store }) :
    filesLogic.wp (read fileStore config) (fun _ _ => True) w := by
  have opened := filesLogic_meanwhile ((fileStore_apart.openFile _).mono filing_storing)
    (openFile_standing filesLogic_stores ⟨rfl, constructed, trivial⟩ unopened.archives
      unopened.unsynced (fun _ _ _ _ => trivial))
  apply Logic.wp_seq opening.ring opened
  rintro ok a keepA ⟨result, meanwhile⟩
  cases ok with
  | false => exact fun _ _ _ => trivial
  | true =>
      rcases result rfl with ⟨valid, due, standing⟩
      have stands : Stands a := ⟨_, _, _, _, valid, due, standing⟩
      intro b move keepB
      refine ⟨trivial, ?_⟩
      intro r u answer
      have same := Storage.exec_log rfl answer
      subst u
      refine ⟨keepB, trivial, ?_⟩
      apply Logic.wp_mono (loop_spec filesLogic_reads config.quiet (stands.same move.fs move.store)
        ((move.delivered.trans meanwhile.delivered).trans opening.delivered)
        ((move.view.released.trans meanwhile.view.released).trans opening.released)
        ((move.spaceOwed.trans meanwhile.spaceOwed).trans opening.spaceOwed))
      exact fun _ _ _ _ => trivial

theorem still_files {α : Type} {p : Proc α} (still : Still p) : filesLogic.wp p (fun _ _ => True) w := by
  apply Logic.wp_within (L := filesLogic) (C := fun _ _ => True) (P := Storage.Aside)
    (A := Storage.Retained) (fun _ _ => trivial) (fun _ => trivial) _ _ still.within still.moves
  · intro w v keep retained
    rw [retained.same]
    exact ⟨keep, trivial, trivial⟩
  intro w call keep aside
  cases call with
  | fs call =>
      have ready : Storage.Ready w.fs call := by
        cases call with
        | renameat directoryFd source target => exact aside.elim
        | _ => trivial
      refine ⟨ready, fun r v answer => ?_⟩
      rcases Storage.exec_fs answer with ⟨fs, _, rfl⟩
      exact ⟨keep, trivial, trivial⟩
  | log line =>
      refine ⟨trivial, fun r v answer => ?_⟩
      rw [Storage.exec_log aside answer]
      exact ⟨keep, trivial, trivial⟩
  | _ => exact aside.elim

theorem Unopened.elsewhere {v : World} (unopened : Unopened config w) (move : Elsewhere w v) :
    Unopened config v := by
  constructor
  · rw [move.fs]
    exact unopened.archives
  · rw [move.fs]
    exact unopened.unsynced

theorem run_files (opening : Opening w) (unopened : Unopened config w) :
    filesLogic.wp (run config) (fun _ _ => True) w := by
  intro a toA keepA
  refine ⟨trivial, ?_⟩
  intro r a' answer
  have same := Storage.exec_log rfl answer
  subst a'
  refine ⟨keepA, trivial, ?_⟩
  intro b toB keepB
  have moved : Elsewhere w b := toA.trans toB
  have openingB := opening.producer moved.toProducer
  have constructed : Opening { b with store := { config := config.store } } :=
    ⟨keepB, openingB.released, openingB.spaceOwed, openingB.delivered, openingB.offered, openingB.appended⟩
  have unopenedB := unopened.elsewhere moved
  refine ⟨keepB, trivial, ?_⟩
  apply Logic.wp_seq constructed.ring
    (read_files constructed ⟨unopenedB.archives, unopenedB.unsynced⟩ rfl)
  intro result d keepD _
  apply Logic.wp_seq keepD (still_files Storage.destroy_still)
  exact fun _ e _ _ _ _ _ => trivial

end

/-- Once it has popped a malformed frame, the reader of a file comes to its end from every moment
on, whatever the producer does, unless calls are interrupted for ever. -/
def GivesUp (config : ReaderConfig) (w : World) : Prop :=
  ∀ fs k v q u, Reach World.exec Elsewhere (run config) w (.call (.point (.popped fs)) k) v →
    (∃ frame ∈ fs, ¬ frame.Valid) → Reach World.exec Elsewhere (k ()) (v.passing (.popped fs)) q u →
    Settles patiently Elsewhere (fun code t => code = EXIT_FAILURE ∧
      t.past.delivered = v.past.delivered ++ fs ∧ (t.past.offered = t.past.appended →
        t.past.offered = (oneAtATime t.past.delivered).given)) q u

section

variable {config : ReaderConfig} {fs : List Frame} {w v : World} {p : Proc Nat}

abbrev storingLogic : Logic := filesLogic.only Storing

theorem append_halting (batch : List UInt8) : storingLogic.Halting patiently (fun _ => True)
    (noted batch (fileStore.appendFrames batch)) := by
  have grants : Stores storingLogic (fun _ _ => True) (fun _ => True) :=
    { filesLogic_stores with
      call := fun _ _ ready => ⟨ready, trivial⟩
      line := fun _ _ _ => ⟨trivial, trivial⟩ }
  apply noted_halting
  rintro w _ ⟨stands, _⟩
  rcases stands.same (v := w.passing (.appending batch)) rfl rfl with
    ⟨config, name, base, total, valid, due, standing⟩
  exact appendFrames_halts grants (fun _ _ _ _ _ _ => trivial) valid due standing

def GivenUp (delivered : List Frame) (code : Nat) (w : World) : Prop :=
  Returned Given Refused Together code w ∧ code = EXIT_FAILURE ∧ w.past.delivered = delivered

theorem givingUp_files
    (holds : filesLogic.wp (givingUp fileStore) (Returned Given Refused Together) w) :
    storingLogic.wp (givingUp fileStore) (GivenUp w.past.delivered) w ∧
      storingLogic.Halts patiently (fun _ => True) (givingUp fileStore) w := by
  have both := Logic.wp_only (destroy_storing fileStore_apart EXIT_FAILURE).within
    (Logic.wp_and (L := filesLogic) (M := anyCall) (fun _ => trivial) (fun move => move.toProducer) holds
      (givingUp_rule fileStore_apart))
  refine ⟨Logic.wp_mono both ?_, ?_⟩
  · exact fun code u _ result => ⟨result.1, result.2.2, result.2.1.delivered⟩
  · have brief : Brief (givingUp fileStore) := Storage.destroy_brief.bind fun _ => .pure _
    exact Logic.halts_brief patiently_exec brief both

theorem facing_files (keep : RingInv w.ring) (malformed : ∃ frame ∈ fs, ¬ frame.Valid)
    (facing : Facing fileStore config.quiet fs (givingUp fileStore) p)
    (holds : filesLogic.wp p (Returned Given Refused Together) w) :
    storingLogic.wp p (GivenUp w.past.delivered) w ∧
      storingLogic.Halts patiently (fun _ => True) p w := by
  rcases facing with ⟨s, f, rfl, last⟩
  have first := Logic.wp_only (processFrames_storing fileStore_apart config.quiet s fs).within
    (Logic.wp_and (L := filesLogic) (M := anyCall) (fun _ => trivial) (fun move => move.toProducer)
      (Logic.wp_unbind holds) (malformed_rule fileStore_apart malformed))
  have processed := (processFrames_halting append_halting config.quiet s fs).halts keep first
  constructor
  · apply Logic.wp_seq (L := storingLogic) keep first
    rintro r u keepU ⟨rest, meanwhile, rfl⟩
    rw [last] at rest ⊢
    rw [← meanwhile.delivered]
    exact (givingUp_files rest).1
  · apply Logic.halts_bind (L := storingLogic) keep processed
    apply Logic.wp_mono first
    rintro r u keepU ⟨rest, _, rfl⟩
    rw [last] at rest ⊢
    exact (givingUp_files rest).2

/-- A call of the part that deals with what was popped is answered at once. -/
theorem storing_answered {call : Call} {w : World} (storing : Storing call) :
    ∃ r v, patiently call w r = some v := by
  cases call with
  | fs call =>
      cases call with
      | clockGettime => exact ⟨.error, _, rfl⟩
      | close fd => exact ⟨true, _, rfl⟩
      | renameat directoryFd source target => exact ⟨false, _, rfl⟩
      | ftruncate fd length => exact ⟨false, _, rfl⟩
      | _ => exact ⟨.error, _, rfl⟩
  | log line =>
      cases line with
      | telemetry record => exact ⟨(), _, rfl⟩
      | _ => exact ⟨(), w, rfl⟩
  | point p => exact ⟨(), _, rfl⟩
  | _ => exact storing.elim

theorem reader_gives_up (opening : Opening w) (unopened : Unopened config w) : GivesUp config w := by
  intro fs k v q u run malformed later
  have popped := run.step (.call _ k v _ () rfl)
  have files := Logic.wp_reach (L := filesLogic) opening.ring (run_files opening unopened)
    (fun move => move) popped
  have batches := Logic.wp_reach (L := batchLogic) opening.ring (runWith_batches fileStore_apart opening)
    (fun move => move.toProducer) popped
  have both := Logic.wp_and (L := filesLogic) (M := batchLogic) id (fun move => move.toProducer)
    files.2 batches.2
  rcases facing_files files.1 malformed (runWith_popped fileStore_apart run)
    (Logic.wp_mono both fun _ _ _ result => result.2) with ⟨holds, halts⟩
  have here := Logic.wp_reach (L := storingLogic) files.1 holds (fun move => move) later
  have halts' := Logic.halts_reach (L := storingLogic) (fun move => move) files.1 holds halts later
  apply (halts'.settles (C := fun _ => True) patiently_exec Elsewhere.refl (fun move => move)
    (fun _ => trivial) (fun _ _ => trivial) (fun _ _ => trivial)
    (fun _ ready _ => storing_answered ready.2) here.1 (Logic.wp_along patiently_exec here.2)
    trivial).mono
  rintro code t ⟨⟨returned, failure, delivered⟩, _⟩
  have stopped : (oneAtATime t.past.delivered).stopped = true := by
    rw [stopped_iff, delivered]
    rcases malformed with ⟨frame, member, invalid⟩
    exact ⟨frame, List.mem_append_right _ member, invalid⟩
  exact ⟨failure, delivered, (returned.single stopped).2⟩

end

/-- The batching reader refines a reader of single frames, with any store. With a file it also
comes to its end after a malformed frame. -/
theorem reader_batches (config : ReaderConfig) {w : World} (opening : Opening w) :
    (∀ store : Store, store.Apart → Batches store config w) ∧ (Unopened config w → GivesUp config w) :=
  ⟨fun _ apart => batches apart config opening, reader_gives_up opening⟩

/-- As `Calm`; every write is interrupted. -/
def interrupted (n : Nat) : (call : Call) → World → call.Resp
  | .fs (.write _ _), _ => .eintr
  | call, w => Calm.answer n call w

/-- The file gets the first frame. A reader of which nothing fails is bound to give up, and so is
one whose write has been interrupted twice. -/
theorem reader_batches_goodThenBad :
    (∃ v, Reach World.exec Producer (run toFile) goodThenBad (.pure EXIT_FAILURE) v ∧
      v.past.offered = (encode oneReading).bytes) ∧
    (∃ k v, Reach World.exec Producer (runWith countingStore toFile) goodThenBad
        (.call (.point (.popped [encode oneReading, .zero])) k) v ∧
      Settles World.exec Producer (fun code _ => code = EXIT_FAILURE) (k ())
        (v.passing (.popped [encode oneReading, .zero]))) ∧
    ∃ k v q u, Reach World.exec Elsewhere (run toFile) goodThenBad
        (.call (.point (.popped [encode oneReading, .zero])) k) v ∧
      Reach World.exec Elsewhere (k ()) (v.passing (.popped [encode oneReading, .zero])) q u ∧
      q.Calls (.fs (.write 117 (encode oneReading).bytes)) ∧
      Settles patiently Elsewhere (fun code _ => code = EXIT_FAILURE) q u := by
  have here := reader_batches toFile goodThenBad_opening
  refine ⟨?_, ?_, ?_⟩
  · have shown : ∃ v, Reach World.exec Producer (run toFile) goodThenBad (.pure EXIT_FAILURE) v ∧
        v.past.delivered = [encode oneReading, .zero] ∧ v.past.offered = v.past.appended :=
      Prog.replay_ends Calm.answer 50 (by decide +kernel)
    rcases shown with ⟨v, reached, delivered, accepted⟩
    have stopped : (oneAtATime v.past.delivered).stopped = true := by
      rw [delivered]
      decide
    refine ⟨v, reached, ?_⟩
    rw [((here.1 fileStore fileStore_apart).failed _ v reached stopped).2 accepted, delivered]
    decide
  · have shown : ∃ k v, Reach World.exec Producer (runWith countingStore toFile) goodThenBad
        (.call (.point (.popped [encode oneReading, .zero])) k) v :=
      Prog.replay_calls Calm.answer 9 (by decide +kernel)
    rcases shown with ⟨k, v, reached⟩
    refine ⟨k, v, reached, ?_⟩
    apply ((here.1 countingStore countingStore_apart).returns countingStore_returning _ k v reached
      ⟨.zero, by simp, by decide⟩).mono
    exact fun _ _ result => result.1
  · have unopened : Unopened toFile goodThenBad := ⟨rfl, nofun⟩
    have shown : ∃ k v u q x, Reach World.exec Elsewhere (run toFile) goodThenBad
          (.call (.point (.popped [encode oneReading, .zero])) k) v ∧
        World.exec (.point (.popped [encode oneReading, .zero])) v () = some u ∧
        Reach World.exec Elsewhere (k ()) u q x ∧
        q.Calls (.fs (.write 117 (encode oneReading).bytes)) :=
      Prog.replay_answers interrupted 26 13 (by decide +kernel)
    rcases shown with ⟨k, v, u, q, x, reached, answer, later, writes⟩
    cases answer
    refine ⟨k, v, q, x, reached, later, writes, ?_⟩
    apply (here.2 unopened _ k v q x reached ⟨.zero, by simp, by decide⟩ later).mono
    exact fun _ _ result => result.1

end TelemetryServer.Reader
