import TelemetryServer.Lib.Turns
import TelemetryServer.Reader.Reader
import TelemetryServer.Storage.Apart

/-! Which calls the reader makes. Of its memory it changes no more than the members of its
store. -/

namespace TelemetryServer.Reader

open Protocol Ipc Atomic
open Storage (Keeping Apart OnlyStore noted)
open Prog (Reach)

structure Store.Apart (store : Store) : Prop where
  construct : ∀ config, Storage.Apart (store.construct config)
  openFile : ∀ path, Storage.Apart (store.openFile path)
  appendFrames : ∀ batch, Storage.Apart (store.appendFrames batch)
  sync : Storage.Apart store.sync
  destroy : Storage.Apart store.destroy

theorem fileStore_apart : fileStore.Apart where
  construct := fun config => Storage.update_keeping (fun _ => { config := config })
  openFile := Storage.openFile_apart
  appendFrames := Storage.appendFrames_apart
  sync := Storage.sync_still.apart
  destroy := Storage.destroy_still.apart

/-- A call of the reader that leaves no record of what it has handled. -/
def Mute : Call → Prop
  | .ring _ => True
  | .eventRead _ => True
  | .eventWrite _ => True
  | .fs _ => True
  | .log (.telemetry _) => False
  | .log _ => True
  | _ => False

/-- A call of the part that deals with what was popped. -/
def Storing : Call → Prop
  | .fs _ => True
  | .log _ => True
  | .point (.popped _) => False
  | .point _ => True
  | _ => False

/-- Any call but one that notes what was popped. -/
def Unpopping : Call → Prop
  | .point (.popped _) => False
  | _ => True

theorem Mute.unpopping (call : Call) (mute : Mute call) : Unpopping call := by
  cases call with
  | point p => exact mute.elim
  | _ => trivial

theorem Storing.unpopping (call : Call) (storing : Storing call) : Unpopping call := by
  cases call with
  | point p => cases p <;> exact storing
  | _ => trivial

theorem filing_storing (call : Call) (filing : Storage.Filing call) : Storing call := by
  cases call with
  | fs call => trivial
  | log line => trivial
  | _ => exact filing.elim

theorem filing_mute (call : Call) (filing : Storage.Filing call) : Mute call := by
  cases call with
  | fs call => trivial
  | log line =>
      cases line with
      | telemetry record => cases filing
      | _ => trivial
  | _ => exact filing.elim

section Ring

theorem copyOut_mute (index count : Nat) : Keeping Mute (copyOut index count) := by
  induction count generalizing index with
  | zero => exact .pure []
  | succ count ih =>
      apply (Keeping.call (.ring (.loadSlot index)) trivial).bind
      intro frame
      exact (ih (index + 1)).bind fun _ => .pure _

theorem copyOutWrapped_mute (tail count : Nat) : Keeping Mute (copyOutWrapped tail count) := by
  apply (copyOut_mute _ _).bind
  intro front
  split
  · exact (copyOut_mute _ _).bind fun _ => .pure _
  · exact .pure _

theorem loadTail_mute : Keeping Mute loadTail := .call _ trivial

theorem loadHead_mute : Keeping Mute loadHead := .call _ trivial

theorem tryPopBatch_mute (size : Nat) : Keeping Mute (tryPopBatch size) := by
  rw [tryPopBatch]
  split
  · exact .pure []
  apply loadTail_mute.bind
  intro tail
  apply loadHead_mute.bind
  intro head
  dsimp only
  split
  · exact .pure []
  apply (copyOutWrapped_mute _ _).bind
  intro copied
  exact (Keeping.call (.ring (.storeTail _)) trivial).bind fun _ => .pure _

theorem finished_mute : Keeping Mute finished := by
  have closed : Keeping Mute producerClosed :=
    (Keeping.call (.ring .loadProducerClosed) trivial).bind fun _ => .pure _
  apply closed.bind
  intro yes
  split
  · exact (loadTail_mute.bind fun _ => loadHead_mute.bind fun _ => .pure _).bind fun _ => .pure _
  · exact .pure _

theorem notifyConsumed_mute (consumedAny : Bool) : Keeping Mute (notifyConsumed consumedAny) := by
  rw [notifyConsumed]
  split
  · apply Keeping.iterate
    intro u
    apply (Keeping.call (.eventWrite .spaceReady) trivial).bind
    intro r
    cases r with
    | ok => exact .pure _
    | eintr => exact .pure _
    | error => exact (Keeping.call (.log (.perror _)) trivial).bind fun _ => .pure _
  · exact .pure _

theorem consumeEvent_mute : Keeping Mute (consumeEvent .dataReady) := by
  apply Keeping.iterate
  intro u
  apply (Keeping.call (.eventRead .dataReady) trivial).bind
  intro r
  cases r with
  | ok => exact .pure _
  | eintr => exact .pure _
  | error => exact (Keeping.call (.log (.perror _)) trivial).bind fun _ => .pure _

end Ring

section

variable {store : Store} (apart : store.Apart) {s : Staging}

include apart

theorem noted_storing (batch : List UInt8) : Keeping Storing (noted batch (store.appendFrames batch)) := by
  apply (Keeping.call (.point (.appending batch)) trivial).bind
  intro _
  apply ((apart.appendFrames batch).mono filing_storing).bind
  intro ok
  split
  · exact (Keeping.call (.point (.appended batch)) trivial).bind fun _ => .pure true
  · exact .pure false

theorem flushBatch_storing (s : Staging) : Keeping Storing (flushBatch store s) := by
  rw [flushBatch]
  split
  · exact .pure _
  apply (noted_storing apart _).bind
  intro ok
  split
  · exact .pure _
  · exact .pure _

theorem processFrame_storing (quiet : Bool) (s : Staging) (frame : Frame) :
    Keeping Storing (processFrame store quiet s frame) := by
  rw [processFrame]
  split
  · apply (Keeping.call (.point (.staging _)) trivial).bind
    intro _
    have flushed : Keeping Storing (if (s.copy frame).batchBytes = writeBatchBytes then
        flushBatch store (s.copy frame) else pure (some (s.copy frame))) := by
      split
      · exact flushBatch_storing apart _
      · exact .pure _
    apply flushed.bind
    intro r
    cases r with
    | none => exact .pure none
    | some s' =>
        have announced : Keeping Storing (announce quiet (decode frame.bytes).record) := by
          rw [announce]
          split
          · exact .pure ()
          · exact .call _ trivial
        exact announced.bind fun _ => .pure _
  · apply (flushBatch_storing apart s).bind
    intro r
    cases r with
    | none => exact .pure none
    | some s' => exact (Keeping.call (.log (.invalidIpcFrame _)) trivial).bind fun _ => .pure none

theorem processFrames_storing (quiet : Bool) (s : Staging) (fs : List Frame) :
    Keeping Storing (processFrames store quiet s fs) := by
  induction fs generalizing s with
  | nil => exact .pure _
  | cons frame fs ih =>
      apply (processFrame_storing apart quiet s frame).bind
      intro r
      cases r with
      | none => exact .pure none
      | some s' => exact ih s'

theorem rest_mute (s : Staging) (consumedAny : Bool) : Keeping Mute (rest store s consumedAny) := by
  apply (notifyConsumed_mute consumedAny).bind
  intro told
  split
  swap
  · exact .pure _
  apply finished_mute.bind
  intro ended
  split
  · apply (apart.sync.mono filing_mute).bind
    intro ok
    split
    · exact (Keeping.call (.log (.cout _)) trivial).bind fun _ => .pure _
    · exact .pure _
  · apply consumeEvent_mute.bind
    intro ok
    split
    · exact .pure _
    · exact .pure _

theorem destroy_storing (result : Nat) :
    Keeping Storing (store.destroy >>= fun _ => (pure result : Proc Nat)) :=
  (apart.destroy.mono filing_storing).bind fun _ => .pure result

end

/-- What comes after the drain of a pass. -/
def afterDrain (store : Store) : Option (Staging × Bool) → Proc (Staging ⊕ Nat)
  | none => return .inr EXIT_FAILURE
  | some (s, consumedAny) => do
      match ← flushBatch store s with
      | none => return .inr EXIT_FAILURE
      | some s => rest store s consumedAny

theorem pass_eq (store : Store) (quiet : Bool) (s : Staging) :
    pass store quiet s = drain store quiet s >>= afterDrain store := by
  rw [pass]
  congr 1

theorem afterDrain_unpopping {store : Store} (apart : store.Apart) (r : Option (Staging × Bool)) :
    Keeping Unpopping (afterDrain store r) := by
  cases r with
  | none => exact .pure _
  | some here =>
      apply ((flushBatch_storing apart here.1).mono Storing.unpopping).bind
      intro r
      cases r with
      | none => exact .pure _
      | some s => exact (rest_mute apart s here.2).mono Mute.unpopping

/-- Nothing has been delivered to the reader, printed, or given to the store. -/
structure Unseen (w v : World) : Prop where
  delivered : v.past.delivered = w.past.delivered
  printed : v.past.printed = w.past.printed
  offered : v.past.offered = w.past.offered
  appended : v.past.appended = w.past.appended

theorem Unseen.refl (w : World) : Unseen w w := ⟨rfl, rfl, rfl, rfl⟩

theorem Unseen.trans {w v u : World} (first : Unseen w v) (second : Unseen v u) : Unseen w u :=
  ⟨second.delivered.trans first.delivered, second.printed.trans first.printed,
    second.offered.trans first.offered, second.appended.trans first.appended⟩

theorem Unseen.symm {w v : World} (unseen : Unseen w v) : Unseen v w :=
  ⟨unseen.delivered.symm, unseen.printed.symm, unseen.offered.symm, unseen.appended.symm⟩

theorem OnlyStore.unseen {w v : World} (only : OnlyStore w v) : Unseen w v := by
  rw [only]
  exact ⟨rfl, rfl, rfl, rfl⟩

theorem mute_unseen {call : Call} {r : call.Resp} {w v : World} (mute : Mute call)
    (answer : World.exec call w r = some v) : Unseen w v := by
  cases call with
  | ring call =>
      simp only [World.exec, Option.map_eq_some_iff] at answer
      rcases answer with ⟨ring, _, rfl⟩
      cases call <;> exact ⟨rfl, rfl, rfl, rfl⟩
  | eventRead fd =>
      simp only [World.exec, Option.map_eq_some_iff] at answer
      rcases answer with ⟨value, _, rfl⟩
      cases fd <;> cases r <;> exact ⟨rfl, rfl, rfl, rfl⟩
  | eventWrite fd =>
      simp only [World.exec, Option.map_eq_some_iff] at answer
      rcases answer with ⟨value, _, rfl⟩
      cases fd <;> cases r <;> exact ⟨rfl, rfl, rfl, rfl⟩
  | fs call =>
      rcases Storage.exec_fs answer with ⟨fs, _, rfl⟩
      exact ⟨rfl, rfl, rfl, rfl⟩
  | log line =>
      cases line with
      | telemetry record => exact mute.elim
      | _ => cases answer; exact ⟨rfl, rfl, rfl, rfl⟩
  | _ => exact mute.elim

/-- Only the point behind a pop notes what was delivered. -/
theorem exec_delivered {call : Call} {r : call.Resp} {w v : World}
    (answer : World.exec call w r = some v) :
    (∃ fs, call = .point (.popped fs) ∧ v.past.delivered = w.past.delivered ++ fs) ∨
    v.past.delivered = w.past.delivered := by
  by_cases mute : Mute call
  · exact Or.inr (mute_unseen mute answer).delivered
  cases call with
  | net call =>
      simp only [World.exec, Option.map_eq_some_iff] at answer
      rcases answer with ⟨net, _, rfl⟩
      exact Or.inr rfl
  | epollWait =>
      cases r with
      | ready events =>
          simp only [World.exec, Option.ite_none_right_eq_some] at answer
          cases answer.2
          exact Or.inr rfl
      | eintr => cases answer; exact Or.inr rfl
      | error => cases answer; exact Or.inr rfl
  | signalfd =>
      cases r <;> cases answer <;> exact Or.inr rfl
  | signalRead =>
      cases r with
      | error e => cases e <;> cases answer <;> exact Or.inr rfl
      | _ => cases answer; exact Or.inr rfl
  | kill =>
      cases r with
      | false => cases answer; exact Or.inr rfl
      | true =>
          cases answer
          cases w.child <;> exact Or.inr rfl
  | waitpid =>
      cases r with
      | exited code =>
          simp only [World.exec, Option.ite_none_right_eq_some] at answer
          cases answer.2
          exact Or.inr rfl
      | signaled signal =>
          simp only [World.exec, Option.ite_none_right_eq_some] at answer
          cases answer.2
          exact Or.inr rfl
      | eintr => cases answer; exact Or.inr rfl
      | error => cases answer; exact Or.inr rfl
  | exit code => cases answer; exact Or.inr rfl
  | iteration keys =>
      simp only [World.exec, Option.ite_none_right_eq_some] at answer
      cases answer.2
      exact Or.inr rfl
  | log line =>
      cases line with
      | telemetry record => cases answer; exact Or.inr rfl
      | _ => exact absurd trivial mute
  | point p =>
      cases answer
      cases p with
      | popped fs => exact Or.inl ⟨fs, rfl, rfl⟩
      | _ => exact Or.inr rfl
  | _ => exact absurd trivial mute

/-- What is left to do begins with the frames `fs`, and is `last` when the reader gives up at
one of them. -/
def Facing (store : Store) (quiet : Bool) (fs : List Frame) {α : Type} (last p : Proc α) : Prop :=
  ∃ s f, p = (processFrames store quiet s fs).bind f ∧ f none = last

theorem Facing.bind {store : Store} {quiet : Bool} {fs : List Frame} {α β : Type} {last p : Proc α}
    (facing : Facing store quiet fs last p) (g : α → Proc β) :
    Facing store quiet fs (last.bind g) (p.bind g) := by
  rcases facing with ⟨s, f, rfl, rfl⟩
  exact ⟨s, _, Prog.bind_assoc _ _ _, rfl⟩

def givingUp (store : Store) : Proc Nat := store.destroy >>= fun _ => return EXIT_FAILURE

section

variable {store : Store} (apart : store.Apart) {env : World → World → Prop} {s : Staging}
  {quiet : Bool} {config : ReaderConfig} {fs : List Frame} {w v : World}

include apart

theorem runWith_moves : Prog.Moves OnlyStore (runWith store config) := by
  have drained : ∀ s, Prog.Moves OnlyStore (drain store config.quiet s) := by
    intro s
    apply Prog.Moves.iterate
    intro here
    apply (tryPopBatch_mute _).moves.bind
    intro popped
    cases popped with
    | nil => trivial
    | cons frame more =>
        intro _
        apply (processFrames_storing apart config.quiet here.1 (frame :: more)).moves.bind
        intro r
        cases r <;> trivial
  have passed : ∀ s, Prog.Moves OnlyStore (pass store config.quiet s) := by
    intro s
    rw [pass_eq]
    exact (drained s).bind fun r => (afterDrain_unpopping apart r).moves
  intro _
  apply (apart.construct _).moves.bind
  intro _
  apply Prog.Moves.bind
  · apply (apart.openFile _).moves.bind
    intro ok
    cases ok with
    | false => trivial
    | true => exact fun _ => .iterate passed
  · exact fun result => (destroy_storing apart result).moves

theorem drain_popped {k : Unit → Proc (Option (Staging × Bool))}
    (run : Reach World.exec env (drain store quiet s) w (.call (.point (.popped fs)) k) v) :
    Facing store quiet fs (return none) (k ()) := by
  rcases run.loop_call with ⟨n, here, u, k', _, inside, rfl⟩
  rcases inside.past ((tryPopBatch_mute _).mono Mute.unpopping).within not_false with
    ⟨popped, t, _, rest⟩
  cases popped with
  | nil => exact absurd (rest.within (P := Unpopping) trivial).1 not_false
  | cons frame more =>
      rcases rest.call_cases with same | ⟨⟨⟩, x, y, _, later⟩
      · cases same
        exact ⟨here.1, _, Prog.bind_assoc (processFrames store quiet here.1 (frame :: more)) _ _, rfl⟩
      · refine absurd (later.within (P := Unpopping) ?_).1 not_false
        apply ((processFrames_storing apart quiet here.1 (frame :: more)).mono Storing.unpopping).within.bind
        intro r
        cases r with
        | none => trivial
        | some s => trivial

/-- After a pop the reader goes on to process what it has got. -/
theorem runWith_popped {k : Unit → Proc Nat}
    (run : Reach World.exec env (runWith store config) w (.call (.point (.popped fs)) k) v) :
    Facing store config.quiet fs (givingUp store) (k ()) := by
  have filing : ∀ {α : Type} {p : Proc α}, Storage.Apart p → Prog.Within Unpopping p := by
    intro α p only
    exact (only.mono fun call allowed => (filing_mute call allowed).unpopping).within
  have logged : ∀ line : Line, Prog.Within Unpopping (Proc.log line) :=
    fun line => ⟨trivial, fun _ => trivial⟩
  rcases run.past (logged _) not_false with ⟨_, u₁, _, run⟩
  rcases run.past (filing (apart.construct _)) not_false with ⟨_, u₂, _, run⟩
  rcases run.inside (fun result => ((destroy_storing apart result).mono Storing.unpopping).within) not_false with
    ⟨k₁, reading, rfl⟩
  rcases reading.past (filing (apart.openFile _)) not_false with ⟨ok, u₃, _, run⟩
  cases ok with
  | false => exact absurd (run.within (P := Unpopping) trivial).1 not_false
  | true =>
      rcases run.past (logged _) not_false with ⟨_, u₄, _, run⟩
      rcases run.loop_call with ⟨n, s, u₅, k₂, _, inside, rfl⟩
      rw [pass_eq] at inside
      rcases inside.inside (fun r => (afterDrain_unpopping apart r).within) not_false with
        ⟨k₃, draining, rfl⟩
      exact (((drain_popped apart draining).bind _).bind _).bind _

end

def oneReading : TelemetryRecord := { sensorId := 1, metricId := 2, timestampNs := 3, value := 4 }

def toFile : ReaderConfig := { dataFilePath := "t", maxSegmentBytes := 64, syncEveryBytes := 32 }

end TelemetryServer.Reader
