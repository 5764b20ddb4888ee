import Mathlib.Data.List.TakeWhile
import TelemetryServer.Calm
import TelemetryServer.Lib.Halting
import TelemetryServer.Reader.Calls
import TelemetryServer.Reader.ReaderSpec

/-! The reader that works in batches does what a reader of single frames does. -/

namespace TelemetryServer.Reader

open Protocol Ipc Atomic
open Storage (Keeping OnlyStore noted)
open Prog (Reach Settles)

/-- A reader that stores each frame as it comes: what it has handed over, and whether it has
given up. -/
structure Single where
  given : List UInt8 := []
  stopped : Bool := false

def Single.take (r : Single) (frame : Frame) : Single :=
  if r.stopped then r
  else if frame.Valid then { r with given := r.given ++ frame.bytes }
  else { r with stopped := true }

def oneAtATime (fs : List Frame) : Single := fs.foldl Single.take {}

section Single

theorem take_stopped (r : Single) (fs : List Frame) (stopped : r.stopped = true) :
    fs.foldl Single.take r = r := by
  induction fs with
  | nil => rfl
  | cons frame fs ih => rw [List.foldl_cons, Single.take, if_pos stopped, ih]

theorem take_given (given : List UInt8) (fs : List Frame) :
    fs.foldl Single.take { given := given } =
      { given := given ++ bytesOf (fs.takeWhile fun frame => decide frame.Valid)
        stopped := fs.any fun frame => decide ¬ frame.Valid } := by
  induction fs generalizing given with
  | nil => simp [bytesOf]
  | cons frame fs ih =>
      rw [List.foldl_cons, Single.take, if_neg Bool.false_ne_true]
      by_cases valid : frame.Valid
      · rw [if_pos valid, ih]
        simp [valid, bytesOf]
      · rw [if_neg valid, take_stopped _ _ rfl]
        simp [valid, bytesOf]

theorem oneAtATime_eq (fs : List Frame) : oneAtATime fs =
    { given := bytesOf (fs.takeWhile fun frame => decide frame.Valid)
      stopped := fs.any fun frame => decide ¬ frame.Valid } := take_given [] fs

theorem stopped_iff (fs : List Frame) :
    (oneAtATime fs).stopped = true ↔ ∃ frame ∈ fs, ¬ frame.Valid := by
  simp [oneAtATime_eq]

theorem oneAtATime_valid {fs : List Frame} (valid : ∀ frame ∈ fs, frame.Valid) :
    oneAtATime fs = { given := bytesOf fs } := by
  have going : (fs.any fun frame => decide ¬ frame.Valid) = false := by
    rw [List.any_eq_false]
    intro frame member
    simp [valid frame member]
  have whole : fs.takeWhile (fun frame => decide frame.Valid) = fs := by
    rw [List.takeWhile_eq_self_iff]
    exact fun frame member => decide_eq_true (valid frame member)
  rw [oneAtATime_eq, whole, going]

end Single

/-- What the producer and the rest of the system may do between two steps of the reader. -/
structure Producer (w v : World) : Prop where
  view : ConsumerView w.ring v.ring
  ring : RingInv w.ring → RingInv v.ring
  spaceOwed : v.past.spaceOwed = w.past.spaceOwed
  delivered : v.past.delivered = w.past.delivered
  offered : v.past.offered = w.past.offered
  appended : v.past.appended = w.past.appended

theorem Producer.refl (w : World) : Producer w w := ⟨.refl _, id, rfl, rfl, rfl, rfl⟩

theorem Producer.trans {w v u : World} (first : Producer w v) (second : Producer v u) : Producer w u :=
  ⟨first.view.trans second.view, second.ring ∘ first.ring, second.spaceOwed.trans first.spaceOwed,
    second.delivered.trans first.delivered, second.offered.trans first.offered,
    second.appended.trans first.appended⟩

theorem OnlyStore.producer {w v : World} (only : OnlyStore w v) : Producer w v := by
  rw [only]
  exact ⟨.refl _, id, rfl, rfl, rfl, rfl⟩

/-- The batching reader has handed over what the other one has: everything that was popped. -/
structure Together (w : World) : Prop where
  refines : oneAtATime w.past.delivered = { given := w.past.offered }
  whole : w.past.offered = bytesOf w.past.delivered
  accepted : w.past.appended = w.past.offered

def batchPre : Call → World → Prop
  | .point (.staging offset), _ => kFrameSize ∣ offset ∧ offset + kFrameSize ≤ writeBatchBytes
  | .point (.popped _), w => (oneAtATime w.past.delivered).stopped = false
  | .eventWrite _, w => Together w
  | .eventRead _, w => Together w
  | _, _ => True

def batchLogic : Logic where
  inv := fun w => RingInv w.ring
  rely := Producer
  guar := fun _ _ => True
  pre := batchPre
  rely_refl := Producer.refl
  rely_trans := Producer.trans
  rely_inv := fun move => move.ring
  guar_refl := fun _ => trivial

def Given (done : List UInt8) (w : World) : Prop := w.past.offered = done ∧ w.past.appended = done

def Refused (w : World) : Prop := w.past.offered ≠ w.past.appended

theorem Given.producer {done : List UInt8} {w v : World} (given : Given done w) (move : Producer w v) :
    Given done v := ⟨move.offered.trans given.1, move.appended.trans given.2⟩

theorem Refused.producer {w v : World} (refused : Refused w) (move : Producer w v) : Refused v := by
  rw [Refused, move.offered, move.appended]
  exact refused

theorem handed_together {w : World} (handed : Handed Given w) : Together w := by
  refine ⟨?_, handed.held.1, handed.held.2.trans handed.held.1.symm⟩
  rw [oneAtATime_valid handed.valid, handed.held.1]

theorem Together.producer {w v : World} (together : Together w) (move : Producer w v) : Together v := by
  constructor
  · rw [move.delivered, move.offered]
    exact together.refines
  · rw [move.delivered, move.offered]
    exact together.whole
  · rw [move.appended, move.offered]
    exact together.accepted

theorem filing_producer {call : Call} {r : call.Resp} {w v : World} (filing : Storage.Filing call)
    (answer : World.exec call w r = some v) : Producer w v := by
  rcases Storage.filing_answer filing answer with ⟨fs, rfl⟩
  exact ⟨.refl _, id, rfl, rfl, rfl, rfl⟩

theorem filing_batchPre {call : Call} {w : World} (filing : Storage.Filing call) : batchPre call w := by
  cases call with
  | fs call => trivial
  | log line => trivial
  | _ => exact filing.elim

theorem apart_batches {α : Type} {p : Proc α} (apart : Storage.Apart p) {w : World} :
    batchLogic.wp p (fun _ v => Producer w v) w := by
  apply Logic.wp_within (L := batchLogic) (C := Producer) (P := Storage.Filing) Producer.trans
    (fun move => move) (A := OnlyStore) _ _ apart.within apart.moves
  · intro w v keep only
    have move := OnlyStore.producer only
    exact ⟨move.ring keep, trivial, move⟩
  · intro w call keep filing
    refine ⟨filing_batchPre filing, fun r v answer => ?_⟩
    have move := filing_producer filing answer
    exact ⟨move.ring keep, trivial, move⟩

theorem batchLogic_consumes : Consumes batchLogic where
  ring := id
  view := fun move => move.view
  own := fun move => move.spaceOwed
  loads := fun _ => ⟨trivial, trivial, trivial⟩
  slot := fun _ _ => trivial
  release := fun keep _ there => ⟨trivial, keep.release there, trivial⟩

section

variable {store : Store} (apart : store.Apart)

include apart

/-- A batch that is accepted has been added to what the store has taken. -/
theorem append_batches {done batch : List UInt8} {w : World} (given : Given done w) (some : batch ≠ []) :
    batchLogic.wp (noted batch (store.appendFrames batch)) (fun ok v => Meanwhile (fun _ => True) w v ∧
      (ok = true → Given (done ++ batch) v) ∧ (ok = false → Refused v)) w := by
  have apartly : ∀ {w v : World}, Producer w v → Meanwhile (fun _ => True) w v := by
    intro w v move
    exact ⟨move.view, move.spaceOwed, move.delivered, Or.inr trivial, id⟩
  intro v move keep
  refine ⟨trivial, ?_⟩
  rintro ⟨⟩ u answer
  cases answer
  have after : batchLogic.inv (v.passing (.appending batch)) := keep
  refine ⟨after, trivial, ?_⟩
  apply Logic.wp_seq after (apart_batches (apart.appendFrames batch))
  intro ok x keepX added
  have offered : x.past.offered = done ++ batch := by
    rw [added.offered]
    change v.past.offered ++ batch = _
    rw [move.offered, given.1]
  have appended : x.past.appended = done := by
    rw [added.appended]
    change v.past.appended = _
    rw [move.appended, given.2]
  have view : ConsumerView w.ring x.ring := move.view.trans added.view
  have meanwhile : Meanwhile (fun _ => True) w x :=
    ⟨view, added.spaceOwed.trans move.spaceOwed, added.delivered.trans move.delivered, Or.inr trivial, id⟩
  cases ok with
  | false =>
      have refused : Refused x := by
        rw [Refused, offered, appended]
        simpa using some
      intro y move' _
      exact ⟨meanwhile.trans (apartly move'), by simp, fun _ => refused.producer move'⟩
  | true =>
      intro y move' keepY
      refine ⟨trivial, ?_⟩
      rintro ⟨⟩ z answer
      cases answer
      refine ⟨keepY, trivial, ?_⟩
      intro t move'' _
      have noted : Meanwhile (fun _ => True) y (y.passing (.appended batch)) :=
        ⟨.refl _, rfl, rfl, Or.inr trivial, id⟩
      refine ⟨((meanwhile.trans (apartly move')).trans noted).trans (apartly move''), ?_, by simp⟩
      intro _
      constructor
      · rw [move''.offered]
        change y.past.offered = _
        rw [move'.offered, offered]
      · rw [move''.appended]
        change y.past.appended ++ batch = _
        rw [move'.appended, appended]

theorem batchLogic_reads : Reads batchLogic store Given Refused (fun _ => True) Together where
  consumes := batchLogic_consumes
  meanwhile := fun move => ⟨move.view, move.spaceOwed, move.delivered, Or.inr trivial, id⟩
  stable := fun move given => given.producer move
  broke := fun move refused => refused.producer move
  framed := fun given offered appended => ⟨offered.trans given.1, appended.trans given.2⟩
  sound := Or.inr fun _ _ => trivial
  line := fun _ _ _ => trivial
  telemetry := fun _ keep => ⟨trivial, keep, trivial⟩
  popped := by
    intro w fs keep valid _
    refine ⟨?_, keep, trivial⟩
    change (oneAtATime w.past.delivered).stopped = false
    rw [oneAtATime_valid valid]
  staging := by
    intro w offset _ aligned below
    refine ⟨aligned, ?_⟩
    simp only [kFrameSize, writeBatchBytes] at aligned below ⊢
    omega
  append := fun _ given some _ _ => append_batches apart given some
  notify := by
    intro w keep handed
    refine ⟨handed_together handed, fun r u answer => ?_⟩
    have after : RingInv u.ring := by
      rw [(exec_eventWrite answer).ring]
      exact keep
    exact ⟨after, trivial, id⟩
  await := by
    intro w keep resting _
    refine ⟨handed_together resting.toHanded, fun r u answer => ?_⟩
    have after : RingInv u.ring := by
      rw [(exec_eventRead answer).ring]
      exact keep
    exact ⟨after, trivial⟩
  done := fun move together => together.producer move
  sync := by
    intro w keep handed _ _
    apply Logic.wp_mono (apart_batches apart.sync)
    intro ok v _ move
    refine ⟨fun _ => ?_, move.delivered⟩
    apply handed_together
    constructor
    · rw [move.delivered]
      exact handed.held.producer move
    · rw [move.delivered]
      exact handed.valid

structure Opening (w : World) : Prop where
  ring : RingInv w.ring
  released : w.ring.released = 0
  spaceOwed : w.past.spaceOwed = false
  delivered : w.past.delivered = []
  offered : w.past.offered = []
  appended : w.past.appended = []

omit apart in
theorem Opening.producer {w v : World} (opening : Opening w) (move : Producer w v) : Opening v :=
  ⟨move.ring opening.ring, move.view.released.trans opening.released,
    move.spaceOwed.trans opening.spaceOwed, move.delivered.trans opening.delivered,
    move.offered.trans opening.offered, move.appended.trans opening.appended⟩

variable {config : ReaderConfig} {w v : World} {q : Proc Nat}

theorem runWith_batches (opening : Opening w) :
    batchLogic.wp (runWith store config) (Returned Given Refused Together) w := by
  have reads := batchLogic_reads apart
  have logged : ∀ text, Storage.Apart (Proc.log (.cout text)) := fun text => .call _ rfl
  apply Logic.wp_seq opening.ring (apart_batches (logged _))
  intro _ a keepA moveA
  apply Logic.wp_seq keepA (apart_batches (apart.construct _))
  intro _ b keepB moveB
  have reading : batchLogic.wp (read store config) (Returned Given Refused Together) b := by
    apply Logic.wp_seq keepB (apart_batches (apart.openFile _))
    intro ok c keepC moveC
    have openingC := ((opening.producer moveA).producer moveB).producer moveC
    cases ok with
    | false =>
        intro d moveD _
        refine Or.inr ⟨rfl, Or.inr (Or.inl ?_)⟩
        rw [(openingC.producer moveD).delivered]
        simp
    | true =>
        apply Logic.wp_seq keepC (apart_batches (logged _))
        intro _ d keepD moveD
        have openingD := openingC.producer moveD
        exact loop_spec reads config.quiet ⟨openingD.offered, openingD.appended⟩ openingD.delivered
          openingD.released openingD.spaceOwed
  apply Logic.wp_seq keepB reading
  intro result c keepC returned
  apply Logic.wp_seq keepC (apart_batches apart.destroy)
  intro _ d _ moveD e moveE _
  exact (returned.rely reads moveD).rely reads moveE

theorem runWith_reached (opening : Opening w)
    (run : Reach World.exec Producer (runWith store config) w q v) :
    RingInv v.ring ∧ batchLogic.wp q (Returned Given Refused Together) v :=
  Logic.wp_reach (L := batchLogic) opening.ring (runWith_batches apart opening) (fun move => move) run

end

def anyCall : Logic := { batchLogic with
  inv := fun _ => True
  pre := fun _ _ => True
  rely_inv := fun _ _ => trivial }

/-- Dealing with what was popped does not touch the ring. -/
theorem storing_meanwhile {α : Type} {p : Proc α} {w : World} (keeping : Keeping Storing p) :
    anyCall.wp p (fun _ v => Meanwhile (fun _ => True) w v) w := by
  have still : ∀ {w v : World}, v.ring = w.ring → v.past.spaceOwed = w.past.spaceOwed →
      v.past.delivered = w.past.delivered → Meanwhile (fun _ => True) w v := by
    intro w v ring space delivered
    refine ⟨?_, space, delivered, Or.inr trivial, id⟩
    rw [ring]
    exact .refl _
  apply Logic.wp_within (L := anyCall) (C := Meanwhile fun _ => True) (P := Storing)
    Meanwhile.trans (fun move => ⟨move.view, move.spaceOwed, move.delivered, Or.inr trivial, id⟩)
    (A := OnlyStore) _ _ keeping.within keeping.moves
  · intro w v _ only
    rw [only]
    exact ⟨trivial, trivial, still rfl rfl rfl⟩
  intro w call _ allowed
  refine ⟨trivial, fun r v answer => ⟨trivial, trivial, ?_⟩⟩
  cases call with
  | fs call =>
      rcases Storage.exec_fs answer with ⟨fs, _, rfl⟩
      exact still rfl rfl rfl
  | log line => cases line <;> cases answer <;> exact still rfl rfl rfl
  | point p =>
      cases answer
      cases p with
      | popped fs => exact allowed.elim
      | _ => exact still rfl rfl rfl
  | _ => exact allowed.elim

section

variable {store : Store} {quiet : Bool} {s : Staging} {fs : List Frame}

theorem rejectFrame_answers (error : DecodeError) :
    Prog.Answers World.exec (fun r => r = none) (rejectFrame store s error) := by
  apply Prog.Answers.bind
  intro r
  cases r with
  | none => rfl
  | some s' => exact fun _ _ _ _ => rfl

/-- A reader that has got a malformed frame gives up, at this frame if not before. -/
theorem processFrames_answers (malformed : ∃ frame ∈ fs, ¬ frame.Valid) :
    Prog.Answers World.exec (fun r => r = none) (processFrames store quiet s fs) := by
  induction fs generalizing s with
  | nil =>
      rcases malformed with ⟨frame, member, _⟩
      cases member
  | cons first fs ih =>
      rw [processFrames, processFrame]
      split
      · next valid =>
          have later : ∃ frame ∈ fs, ¬ frame.Valid := by
            rcases malformed with ⟨frame, member, invalid⟩
            rcases List.mem_cons.mp member with rfl | behind
            · exact absurd valid invalid
            · exact ⟨frame, behind, invalid⟩
          apply Prog.Answers.bind
          intro r
          cases r with
          | none => rfl
          | some s' => exact ih later
      · apply (rejectFrame_answers _).seq
        rintro r rfl
        rfl

variable (apart : store.Apart) {w : World}

include apart

theorem malformed_rule (malformed : ∃ frame ∈ fs, ¬ frame.Valid) :
    anyCall.wp (processFrames store quiet s fs)
      (fun r v => Meanwhile (fun _ => True) w v ∧ r = none) w :=
  Logic.wp_answers (processFrames_answers malformed)
    (storing_meanwhile (processFrames_storing apart quiet s fs))

theorem givingUp_rule : anyCall.wp (givingUp store)
    (fun code v => Meanwhile (fun _ => True) w v ∧ code = EXIT_FAILURE) w :=
  Logic.wp_answers (Prog.Answers.bind fun _ => rfl)
    (storing_meanwhile (destroy_storing apart EXIT_FAILURE))

end

/-- What the reader calls when it gives up comes back. -/
structure Store.Returning (store : Store) : Prop where
  appendFrames : ∀ batch w, Settles World.exec Producer (fun _ _ => True) (store.appendFrames batch) w
  destroy : ∀ w, Settles World.exec Producer (fun _ _ => True) store.destroy w

section

variable {store : Store} (returning : store.Returning) {quiet : Bool} {s : Staging} {w : World}

theorem pure_settles {α : Type} {Q : α → World → Prop} {a : α} (holds : ∀ v, Q a v) :
    Settles World.exec Producer Q (pure a) w := .pure fun v _ => holds v

theorem point_settles {α : Type} {Q : α → World → Prop} {p : Point} {k : Unit → Proc α}
    (rest : ∀ v, Settles World.exec Producer Q (k ()) v) :
    Settles World.exec Producer Q (Proc.point p >>= k) w :=
  .call (fun v _ => ⟨(), v.passing p, rfl⟩) fun _ _ u _ _ => rest u

theorem log_settles {α : Type} {Q : α → World → Prop} {line : Line} {k : Unit → Proc α}
    (rest : ∀ v, Settles World.exec Producer Q (k ()) v) :
    Settles World.exec Producer Q (Proc.log line >>= k) w := by
  refine .call (fun v _ => ?_) fun _ _ u _ _ => rest u
  cases line with
  | telemetry record => exact ⟨(), _, rfl⟩
  | _ => exact ⟨(), v, rfl⟩

include returning

theorem flushBatch_settles : Settles World.exec Producer (fun _ _ => True) (flushBatch store s) w := by
  have noting : ∀ batch w, Settles World.exec Producer (fun _ _ => True)
      (noted batch (store.appendFrames batch)) w := by
    intro batch w
    apply point_settles
    intro v
    apply Settles.bind Producer.refl (returning.appendFrames batch v)
    intro ok u _
    cases ok with
    | false => exact pure_settles fun _ => trivial
    | true => exact point_settles fun _ => pure_settles fun _ => trivial
  rw [flushBatch]
  split
  · exact pure_settles fun _ => trivial
  apply Settles.bind Producer.refl (noting _ _)
  intro ok v _
  cases ok with
  | false => exact pure_settles fun _ => trivial
  | true => exact pure_settles fun _ => trivial

theorem stageFrame_settles {frame : Frame} :
    Settles World.exec Producer (fun _ _ => True) (stageFrame store quiet s frame) w := by
  apply point_settles
  intro v
  have flushed : Settles World.exec Producer (fun _ _ => True) (if (s.copy frame).batchBytes =
      writeBatchBytes then flushBatch store (s.copy frame) else pure (some (s.copy frame))) v := by
    split
    · exact flushBatch_settles returning
    · exact pure_settles fun _ => trivial
  apply Settles.bind Producer.refl flushed
  intro r u _
  cases r with
  | none => exact pure_settles fun _ => trivial
  | some s' =>
      cases quiet with
      | true => exact pure_settles fun _ => trivial
      | false => exact log_settles fun _ => pure_settles fun _ => trivial

theorem processFrame_settles {frame : Frame} :
    Settles World.exec Producer (fun _ _ => True) (processFrame store quiet s frame) w := by
  rw [processFrame]
  split
  · exact stageFrame_settles returning
  apply Settles.bind Producer.refl (flushBatch_settles returning)
  intro r v _
  cases r with
  | none => exact pure_settles fun _ => trivial
  | some s' => exact log_settles fun _ => pure_settles fun _ => trivial

theorem processFrames_settles {fs : List Frame} :
    Settles World.exec Producer (fun _ _ => True) (processFrames store quiet s fs) w := by
  induction fs generalizing s w with
  | nil => exact pure_settles fun _ => trivial
  | cons first fs ih =>
      apply Settles.bind Producer.refl (processFrame_settles returning)
      intro r v _
      cases r with
      | none => exact pure_settles fun _ => trivial
      | some s' => exact ih

theorem facing_settles (apart : store.Apart) {fs : List Frame} {p : Proc Nat}
    (malformed : ∃ frame ∈ fs, ¬ frame.Valid) (facing : Facing store quiet fs (givingUp store) p) :
    Settles World.exec Producer
      (fun code v => code = EXIT_FAILURE ∧ v.past.delivered = w.past.delivered) p w := by
  rcases facing with ⟨s, f, rfl, last⟩
  apply Settles.bind Producer.refl (Settles.meets (L := anyCall) (processFrames_settles returning) trivial
    (malformed_rule apart malformed))
  rintro r v ⟨_, meanwhile, rfl⟩
  rw [last]
  have ended : Settles World.exec Producer (fun _ _ => True) (givingUp store) v := by
    apply Settles.bind Producer.refl (returning.destroy v)
    exact fun _ _ _ => pure_settles fun _ => trivial
  apply (Settles.meets (L := anyCall) ended trivial (givingUp_rule apart)).mono
  rintro code u ⟨_, meanwhile', failure⟩
  exact ⟨failure, meanwhile'.delivered.trans meanwhile.delivered⟩

end

theorem Returned.single {code : Nat} {w : World} (returned : Returned Given Refused Together code w)
    (stopped : (oneAtATime w.past.delivered).stopped = true) :
    code = EXIT_FAILURE ∧ (w.past.offered = w.past.appended →
      w.past.offered = (oneAtATime w.past.delivered).given) := by
  rcases returned with ⟨_, together⟩ | ⟨failure, halted⟩
  · rw [together.refines] at stopped
    cases stopped
  refine ⟨failure, fun accepted => ?_⟩
  rcases halted with refused | valid | given
  · exact absurd accepted refused
  · rcases (stopped_iff _).mp stopped with ⟨frame, member, invalid⟩
    exact absurd (valid frame member) invalid
  · rw [oneAtATime_eq]
    exact given.1

/-- In every run the batching reader hands over what a reader of single frames does. Where
`offered` and `appended` agree the store has accepted every batch. -/
structure Batches (store : Store) (config : ReaderConfig) (w : World) : Prop where
  /-- No copy of a frame leaves the array. -/
  staged : ∀ offset q v, Reach World.exec Producer (runWith store config) w q v →
    q.Calls (.point (.staging offset)) → kFrameSize ∣ offset ∧ offset + kFrameSize ≤ writeBatchBytes
  told : ∀ q v, Reach World.exec Producer (runWith store config) w q v →
    q.Calls (.eventWrite .spaceReady) ∨ q.Calls (.eventRead .dataReady) ∨ q = .pure EXIT_SUCCESS →
    Together v
  /-- It does not pop again after the first malformed frame. -/
  popped : ∀ fs q v, Reach World.exec Producer (runWith store config) w q v →
    q.Calls (.point (.popped fs)) → (oneAtATime v.past.delivered).stopped = false
  failed : ∀ code v, Reach World.exec Producer (runWith store config) w (.pure code) v →
    (oneAtATime v.past.delivered).stopped = true → code = EXIT_FAILURE ∧
      (v.past.offered = v.past.appended → v.past.offered = (oneAtATime v.past.delivered).given)
  returns : store.Returning → ∀ fs k v,
    Reach World.exec Producer (runWith store config) w (.call (.point (.popped fs)) k) v →
    (∃ frame ∈ fs, ¬ frame.Valid) → Settles World.exec Producer (fun code u => code = EXIT_FAILURE ∧
      u.past.delivered = v.past.delivered ++ fs ∧ (u.past.offered = u.past.appended →
        u.past.offered = (oneAtATime u.past.delivered).given)) (k ()) (v.passing (.popped fs))

theorem batches {store : Store} (apart : store.Apart) (config : ReaderConfig) {w : World}
    (opening : Opening w) : Batches store config w where
  staged := by
    intro offset q v run next
    have here := runWith_reached apart opening run
    exact Logic.wp_pre (L := batchLogic) here.1 here.2 next
  told := by
    intro q v run next
    have here := runWith_reached apart opening run
    rcases next with next | next | rfl
    · exact Logic.wp_pre (L := batchLogic) here.1 here.2 next
    · exact Logic.wp_pre (L := batchLogic) here.1 here.2 next
    · rcases Logic.wp_post (L := batchLogic) here.1 here.2 with ⟨_, together⟩ | ⟨failure, _⟩
      · exact together
      · cases failure
  popped := by
    intro fs q v run next
    have here := runWith_reached apart opening run
    exact Logic.wp_pre (L := batchLogic) here.1 here.2 next
  failed := by
    intro code v run
    have here := runWith_reached apart opening run
    exact (Logic.wp_post (L := batchLogic) here.1 here.2).single
  returns := by
    intro returning fs k v run malformed
    have here := runWith_reached apart opening (run.step (.call _ k v _ () rfl))
    have settles := facing_settles (w := v.passing (.popped fs)) returning apart malformed
      (runWith_popped apart run)
    apply (Settles.meets (L := batchLogic) settles here.1 here.2).mono
    rintro code u ⟨⟨failure, same⟩, returned⟩
    have delivered : u.past.delivered = v.past.delivered ++ fs := same
    have stopped : (oneAtATime u.past.delivered).stopped = true := by
      rw [stopped_iff, delivered]
      rcases malformed with ⟨frame, member, invalid⟩
      exact ⟨frame, List.mem_append_right _ member, invalid⟩
    exact ⟨failure, delivered, (returned.single stopped).2⟩

def countingStore : Store where
  construct := fun _ => pure ()
  openFile := fun _ => pure true
  appendFrames := fun batch => do
    Storage.update (fun m => { m with currentSize := m.currentSize + batch.length })
    return true
  sync := pure true
  destroy := pure ()

theorem countingStore_apart : countingStore.Apart where
  construct := fun _ => .pure ()
  openFile := fun _ => .pure true
  appendFrames := fun _ => (Storage.update_keeping _).bind fun _ => .pure true
  sync := .pure true
  destroy := .pure ()

theorem countingStore_returning : countingStore.Returning where
  appendFrames := fun _ _ => .act fun _ _ => pure_settles fun _ => trivial
  destroy := fun _ => pure_settles fun _ => trivial

def goodThenBad : World :=
  { Storage.emptyDirectory toFile.store with
    ring := {
      head := 2
      slots := fun i => if i = 0 then encode oneReading else .zero
      published := [(0, encode oneReading), (0, .zero)] } }

theorem goodThenBad_opening : Opening goodThenBad := by
  refine ⟨⟨rfl, rfl, Nat.zero_le _, by decide, ?_⟩, rfl, rfl, rfl, rfl, rfl⟩
  intro i _ inside
  match i with
  | 0 => rfl
  | 1 => rfl

end TelemetryServer.Reader
