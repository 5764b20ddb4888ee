import TelemetryServer.Reader.Calls
import TelemetryServer.Reader.ReaderSpec
import TelemetryServer.Storage.Halting

namespace TelemetryServer.Reader

open Protocol Ipc Atomic World
open Storage (log_brief noted)

def Closed (w : World) : Prop := w.ring.producerClosed ≠ 0

/-- Nothing is in the ring, and nothing will be. -/
structure Emptied (w : World) : Prop where
  closed : Closed w
  empty : w.ring.occupancy = 0

/-- The ring goes on: what is closed stays as it is, and what was given back stays so. -/
structure Onward (w v : World) : Prop where
  closed : Closed w → Closed v ∧ v.ring.published = w.ring.published
  released : w.ring.released ≤ v.ring.released

theorem Onward.refl (w : World) : Onward w w := ⟨fun closed => ⟨closed, rfl⟩, le_rfl⟩

theorem Onward.trans {w v u : World} (first : Onward w v) (second : Onward v u) : Onward w u := by
  refine ⟨fun closed => ?_, first.released.trans second.released⟩
  have middle := first.closed closed
  have last := second.closed middle.1
  exact ⟨last.1, last.2.trans middle.2⟩

theorem Emptied.onward {w v : World} (emptied : Emptied w) (onward : Onward w v) : Emptied v := by
  have last := onward.closed emptied.closed
  have released := onward.released
  have empty := emptied.empty
  refine ⟨last.1, ?_⟩
  rw [Layout.occupancy] at empty ⊢
  rw [last.2]
  omega

section Ring

theorem copyOut_brief (index count : Nat) : Brief (copyOut index count) := by
  induction count generalizing index with
  | zero => exact .pure []
  | succ count ih =>
      apply (Brief.call (.ring (.loadSlot index))).bind
      intro frame
      exact (ih (index + 1)).bind fun _ => .pure _

theorem copyOutWrapped_brief (tail count : Nat) : Brief (copyOutWrapped tail count) := by
  apply (copyOut_brief _ _).bind
  intro front
  split
  · exact (copyOut_brief _ _).bind fun _ => .pure _
  · exact .pure _

theorem loadTail_brief : Brief loadTail := .call _

theorem loadHead_brief : Brief loadHead := .call _

theorem tryPopBatch_brief (size : Nat) : Brief (tryPopBatch size) := by
  rw [tryPopBatch]
  split
  · exact .pure []
  apply loadTail_brief.bind
  intro tail
  apply loadHead_brief.bind
  intro head
  dsimp only
  split
  · exact .pure []
  apply (copyOutWrapped_brief _ _).bind
  intro copied
  exact (Brief.call (.ring (.storeTail _))).bind fun _ => .pure _

theorem finished_brief : Brief finished := by
  have closed : Brief producerClosed :=
    (Brief.call (.ring .loadProducerClosed)).bind fun _ => .pure _
  apply closed.bind
  intro yes
  split
  · exact (loadTail_brief.bind fun _ => loadHead_brief.bind fun _ => .pure _).bind fun _ => .pure _
  · exact .pure _

theorem notifyConsumed_brief (consumedAny : Bool) : Brief (notifyConsumed consumedAny) := by
  rw [notifyConsumed]
  split
  · apply Brief.retry
    · apply (Brief.call (.eventWrite .spaceReady)).bind
      intro r
      cases r with
      | ok => exact .pure _
      | eintr => exact .pure _
      | error => exact (log_brief _).bind fun _ => .pure _
    · intro w r v done
      have quiet := (patiently_cases done).1
      cases r with
      | ok => rfl
      | eintr => cases quiet
      | error => exact fun _ _ _ _ => rfl
  · exact .pure _

theorem consumeEvent_brief : Brief (consumeEvent .dataReady) := by
  apply Brief.retry
  · apply (Brief.call (.eventRead .dataReady)).bind
    intro r
    cases r with
    | ok => exact .pure _
    | eintr => exact .pure _
    | error => exact (log_brief _).bind fun _ => .pure _
  · intro w r v done
    have quiet := (patiently_cases done).1
    cases r with
    | ok => rfl
    | eintr => cases quiet
    | error => exact fun _ _ _ _ => rfl

end Ring

def afterPop (store : Store) (quiet : Bool) (here : Staging × Bool) :
    List Frame → Proc ((Staging × Bool) ⊕ Option (Staging × Bool))
  | [] => return .inr (some here)
  | frame :: more => do
      Proc.point (.popped (frame :: more))
      match ← processFrames store quiet here.1 (frame :: more) with
      | none => return .inr none
      | some s => return .inl (s, true)

theorem drain_eq (store : Store) (quiet : Bool) (s : Staging) :
    drain store quiet s = Prog.iterate (fun here => do
      let popped ← tryPopBatch ipcBatchBytes
      afterPop store quiet here popped) (s, false) := by
  rw [drain]
  congr 1
  funext here
  congr 1
  funext popped
  cases popped with
  | nil => rfl
  | cons frame more => rfl

/-- A store whose operations are brief, in a logic under which appends halt and the reader's
own steps take the ring onward. -/
structure Winds (L : Logic) (store : Store) : Prop where
  consumes : Consumes L
  own : ∀ {w v}, L.guar w v → Onward w v
  construct : ∀ config, Brief (store.construct config)
  openFile : ∀ path, Brief (store.openFile path)
  append : ∀ batch, L.Halting patiently Closed (noted batch (store.appendFrames batch))
  sync : Brief store.sync
  destroy : Brief store.destroy

section

variable {L : Logic} {store : Store}

theorem brief_halting {α : Type} {D : World → Prop} {p : Proc α} (brief : Brief p) :
    L.Halting patiently D p :=
  .of_brief patiently_exec brief

theorem noted_halting {D : World → Prop} {batch : List UInt8}
    (appends : ∀ {w}, L.inv (w.passing (.appending batch)) → L.pre (.point (.appending batch)) w →
      L.Halts patiently D (Storage.appendFrames batch) (w.passing (.appending batch))) :
    L.Halting patiently D (noted batch (fileStore.appendFrames batch)) := by
  refine ⟨fun _ holds v move keepV r u answer => ?_⟩
  rcases holds v move keepV with ⟨ready, later⟩
  rcases later r u answer with ⟨keepU, _, rest⟩
  cases answer
  apply Logic.halts_bind (p := Storage.appendFrames batch) keepU (appends keepU ready)
  apply Logic.wp_mono (Logic.wp_unbind (p := Storage.appendFrames batch) rest)
  intro ok x _ _
  cases ok with
  | false => trivial
  | true => exact fun _ _ _ _ _ _ => trivial

section

variable {D : World → Prop}
  (appends : ∀ batch, L.Halting patiently D (noted batch (store.appendFrames batch)))

include appends

theorem flushBatch_halting (s : Staging) : L.Halting patiently D (flushBatch store s) := by
  rw [flushBatch]
  split
  · exact brief_halting (.pure _)
  apply (appends _).bind
  intro ok
  cases ok with
  | false => exact brief_halting (.pure _)
  | true => exact brief_halting (.pure _)

theorem processFrame_halting (quiet : Bool) (s : Staging) (frame : Frame) :
    L.Halting patiently D (processFrame store quiet s frame) := by
  rw [processFrame]
  split
  · apply (brief_halting (.call (.point (.staging _)))).bind
    intro _
    have flushed : L.Halting patiently D (if (s.copy frame).batchBytes = writeBatchBytes then
        flushBatch store (s.copy frame) else pure (some (s.copy frame))) := by
      split
      · exact flushBatch_halting appends _
      · exact brief_halting (.pure _)
    apply flushed.bind
    intro r
    cases r with
    | none => exact brief_halting (.pure none)
    | some s' =>
        have announced : Brief (announce quiet (decode frame.bytes).record) := by
          rw [announce]
          split
          · exact .pure ()
          · exact .call _
        exact brief_halting (announced.bind fun _ => .pure _)
  · apply (flushBatch_halting appends s).bind
    intro r
    cases r with
    | none => exact brief_halting (.pure none)
    | some s' => exact brief_halting ((log_brief _).bind fun _ => .pure none)

theorem processFrames_halting (quiet : Bool) (s : Staging) (fs : List Frame) :
    L.Halting patiently D (processFrames store quiet s fs) := by
  induction fs generalizing s with
  | nil => exact brief_halting (.pure _)
  | cons frame fs ih =>
      apply (processFrame_halting appends quiet s frame).bind
      intro r
      cases r with
      | none => exact brief_halting (.pure none)
      | some s' => exact ih s'

end

variable (winds : Winds L store) {w v : World}

include winds

theorem onward_rely (move : L.rely w v) : Onward w v := by
  have view := winds.consumes.view move
  exact ⟨view.closed, le_of_eq view.released.symm⟩

/-- Whatever the reader does, the ring goes on meanwhile. -/
theorem wp_onward {few : (call : Call) → World → call.Resp → Option World} {α : Type} {p : Proc α}
    {Q : α → World → Prop} (holds : (L.along few).wp p Q w) :
    (L.along few).wp p (fun a v => Q a v ∧ Onward w v) w :=
  Logic.wp_closed .refl Onward.trans (fun granted => winds.own granted)
    (fun move => onward_rely winds move) holds

theorem tryPopBatch_patient :
    (L.along patiently).wp (tryPopBatch ipcBatchBytes) (fun fs v => Popped w v ipcBatchBytes fs) w := by
  apply Logic.wp_along patiently_exec
  have pop := tryPopBatch_any (F := fun _ => True) winds.consumes (fun _ _ => trivial)
    (fun _ => trivial) ipcBatchBytes (w := w) trivial
  exact Logic.wp_mono pop fun _ _ _ result => result.1

/-- A pass that pops anything leaves less in a ring that is closed. -/
theorem drain_halting (quiet : Bool) (s : Staging) :
    L.Halting patiently Closed (drain store quiet s) := by
  rw [drain_eq]
  apply Logic.Halting.iterate patiently_exec
    (fun _ w => w.ring.published.length - w.ring.released)
  · intro here
    apply (brief_halting (tryPopBatch_brief _)).bind
    intro popped
    cases popped with
    | nil => exact brief_halting (.pure _)
    | cons frame more =>
        apply (brief_halting (.call (.point (.popped (frame :: more))))).bind
        intro _
        apply (processFrames_halting winds.append quiet here.1 (frame :: more)).bind
        intro r
        cases r with
        | none => exact brief_halting (.pure _)
        | some s => exact brief_halting (.pure _)
  intro here Q t keepT closed holds
  have both := Logic.wp_and id id (tryPopBatch_patient winds) (Logic.wp_unbind holds)
  apply Logic.wp_seq (L := L.along patiently) keepT both
  intro popped u _ result
  cases popped with
  | nil => exact fun _ _ _ _ same => nomatch same
  | cons frame more =>
      apply Logic.wp_mono (wp_onward winds result.2)
      intro x v keepV later b' _
      have first := result.1.closed closed
      have last := later.2.closed first.1
      have released := later.2.released
      have grown := result.1.released
      have bound := (winds.consumes.ring keepV).released_le
      rw [last.2, first.2] at bound ⊢
      rw [List.length_cons] at grown
      omega

omit winds in
/-- A pop that takes nothing out of a closed ring has found it empty. -/
theorem popped_emptied (popped : Popped w v ipcBatchBytes []) (closed : Closed w) : Emptied v := by
  have last := popped.closed closed
  have few := popped.most rfl
  have released := popped.released
  have empty : w.ring.occupancy = 0 := by
    rw [List.length_nil, ipcBatchBytes, kFrameSize] at few
    omega
  refine ⟨last.1, ?_⟩
  rw [Layout.occupancy] at empty ⊢
  rw [last.2, released]
  exact empty

omit winds in
/-- Only a reader that gives up ends its drain after a pop. -/
theorem afterPop_answers (quiet : Bool) (here : Staging × Bool) (frame : Frame) (more : List Frame) :
    Prog.Answers patiently (fun x => ∀ r, x = .inr r → r = none)
      (afterPop store quiet here (frame :: more)) := by
  apply Prog.Answers.bind
  intro _
  apply Prog.Answers.bind
  intro r
  cases r with
  | none => exact fun r same => (Sum.inr.inj same).symm
  | some s => exact fun r same => nomatch same

/-- What is drained after the producer has closed it stays empty. -/
theorem drain_emptied {quiet : Bool} {s : Staging} {Q : Option (Staging × Bool) → World → Prop}
    (closed : Closed w) (holds : (L.along patiently).wp (drain store quiet s) Q w) :
    (L.along patiently).wp (drain store quiet s) (fun r v => Q r v ∧ (r ≠ none → Emptied v)) w := by
  rw [drain_eq] at holds ⊢
  apply Logic.wp_iterate_add (L := L.along patiently) (P := fun r v => r ≠ none → Emptied v)
    (fun move here => ((onward_rely winds move).closed here).1)
    (fun move emptied some => (emptied some).onward (onward_rely winds move)) _ closed holds
  intro here Q t keepT closedT holdsT
  have both := Logic.wp_and id id (tryPopBatch_patient winds) (Logic.wp_unbind holdsT)
  apply Logic.wp_seq (L := L.along patiently) keepT both
  intro popped u _ result
  cases popped with
  | nil =>
      have emptied := popped_emptied result.1 closedT
      intro x move keepX
      exact ⟨result.2 x move keepX, fun _ => emptied.onward (onward_rely winds move)⟩
  | cons frame more =>
      have closedU := (result.1.closed closedT).1
      apply Logic.wp_mono (wp_onward winds
        (Logic.wp_answers (afterPop_answers quiet here frame more) result.2))
      intro x v _ later
      refine ⟨later.1.1, ?_⟩
      cases x with
      | inl b => exact (later.2.closed closedU).1
      | inr r => exact fun some => absurd (later.1.2 r rfl) some

/-- Once nothing is in the ring and nothing will be, the reader finds that it has finished. -/
theorem finished_emptied (emptied : Emptied w) : L.wp finished (fun yes _ => yes = true) w := by
  have stable : ∀ {w v}, L.rely w v → Emptied w → Emptied v :=
    fun move here => here.onward (onward_rely winds move)
  intro v move keepV
  have here := stable move emptied
  refine ⟨(winds.consumes.loads keepV).2.2, ?_⟩
  intro value t answer
  rcases World.exec_loadProducerClosed answer with ⟨read, same⟩
  subst t
  subst value
  refine ⟨keepV, L.guar_refl _, ?_⟩
  have closed : (v.ring.producerClosed != 0) = true := bne_iff_ne.mpr here.closed
  change L.wp (if (v.ring.producerClosed != 0) = true then empty else pure false) _ v
  rw [if_pos closed]
  change L.wp (loadTail >>= fun tail => loadHead >>= fun head => pure (subU64 head tail == 0)) _ v
  apply loadOccupancy_spec winds.consumes stable here
  intro u keepU _ emptiedU x _ _
  rw [distance_eq (winds.consumes.ring keepU), beq_iff_eq]
  exact emptiedU.empty

theorem finish_brief : Brief (finish store) := by
  apply winds.sync.bind
  intro ok
  cases ok with
  | false => exact .pure _
  | true => exact (log_brief _).bind fun _ => .pure _

theorem rest_brief (s : Staging) (consumedAny : Bool) : Brief (rest store s consumedAny) := by
  apply (notifyConsumed_brief consumedAny).bind
  intro ok
  cases ok with
  | false => exact .pure _
  | true =>
      apply finished_brief.bind
      intro yes
      cases yes with
      | false =>
          apply consumeEvent_brief.bind
          intro ok
          cases ok with
          | false => exact .pure _
          | true => exact .pure _
      | true => exact finish_brief winds

theorem pass_halting (quiet : Bool) (s : Staging) :
    L.Halting patiently Closed (pass store quiet s) := by
  rw [pass_eq]
  apply (drain_halting winds quiet s).bind
  intro r
  cases r with
  | none => exact brief_halting (.pure _)
  | some here =>
      apply (flushBatch_halting winds.append here.1).bind
      intro r
      cases r with
      | none => exact brief_halting (.pure _)
      | some s => exact brief_halting (rest_brief winds s here.2)

/-- The rest of a pass that has drained a closed ring is the end of the loop. -/
theorem rest_ends {s : Staging} {consumedAny : Bool} {Q : Staging ⊕ Nat → World → Prop}
    (keep : L.inv w) (emptied : Emptied w)
    (holds : (L.along patiently).wp (rest store s consumedAny) Q w) :
    (L.along patiently).wp (rest store s consumedAny) (fun x _ => x.isRight = true) w := by
  apply Logic.wp_seq (L := L.along patiently) keep (wp_onward winds (Logic.wp_unbind holds))
  rintro ok v keepV ⟨more, onward⟩
  cases ok with
  | false => exact fun _ _ _ => rfl
  | true =>
      have yes : (L.along patiently).wp finished (fun yes _ => yes = true) v :=
        Logic.wp_along patiently_exec (finished_emptied winds (emptied.onward onward))
      apply Logic.wp_seq (L := L.along patiently) keepV (Logic.wp_and id id yes (Logic.wp_unbind more))
      rintro _ u keepU ⟨rfl, last⟩
      have ended : Prog.Answers patiently (fun x => x.isRight = true) (finish store) := by
        apply Prog.Answers.bind
        intro ok
        cases ok with
        | false => rfl
        | true => exact fun _ _ _ _ => rfl
      exact Logic.wp_mono (Logic.wp_answers ended last) fun _ _ _ result => result.2

/-- A pass that starts after the producer has closed the ring is the last one. -/
theorem pass_ends {quiet : Bool} {s : Staging} {Q : Staging ⊕ Nat → World → Prop} (keep : L.inv w)
    (closed : Closed w) (holds : (L.along patiently).wp (pass store quiet s) Q w) :
    (L.along patiently).wp (pass store quiet s) (fun x _ => x.isRight = true) w := by
  rw [pass_eq] at holds ⊢
  apply Logic.wp_seq (L := L.along patiently) keep
    (drain_emptied winds closed (Logic.wp_unbind holds))
  intro r v keepV drained
  cases r with
  | none => exact fun _ _ _ => rfl
  | some here =>
      have emptied := drained.2 nofun
      apply Logic.wp_seq (L := L.along patiently) keepV (wp_onward winds (Logic.wp_unbind drained.1))
      intro r u keepU flushed
      cases r with
      | none => exact fun _ _ _ => rfl
      | some s => exact rest_ends winds keepU (emptied.onward flushed.2) flushed.1

theorem read_halting (config : ReaderConfig) : L.Halting patiently Closed (read store config) := by
  apply (brief_halting (winds.openFile _)).bind
  intro ok
  cases ok with
  | false => exact brief_halting (.pure _)
  | true =>
      apply (brief_halting (log_brief _)).bind
      intro _
      apply Logic.Halting.iterate patiently_exec (fun _ _ => 0) fun s => pass_halting winds config.quiet s
      intro s Q t keep closed holds
      apply Logic.wp_mono (pass_ends winds keep closed holds)
      intro x _ _ right s' same
      rw [same] at right
      cases right

theorem runWith_halting (config : ReaderConfig) :
    L.Halting patiently Closed (runWith store config) := by
  apply (brief_halting (log_brief _)).bind
  intro _
  apply (brief_halting (winds.construct _)).bind
  intro _
  apply (read_halting winds config).bind
  intro result
  exact brief_halting (winds.destroy.bind fun _ => .pure _)

end
end TelemetryServer.Reader
