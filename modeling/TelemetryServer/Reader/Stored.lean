import TelemetryServer.Calm
import TelemetryServer.Reader.Printing

/-! The first record is printed before its frame is given to the store. -/

namespace TelemetryServer.Reader

open Protocol Ipc Atomic
open Storage (Keeping OnlyStore)
open Prog (Reach)

theorem bytesOf_prefix_nil {fs : List Frame} (inside : bytesOf fs <+: []) : fs = [] := by
  have size := bytesOf_length fs
  rw [List.prefix_nil.mp inside, List.length_nil, kFrameSize] at size
  apply List.eq_nil_of_length_eq_zero
  omega

theorem covered_of_silent {stored : List UInt8} {w : World} (silent : w.past.printed = []) :
    Covered stored w := ⟨[], silent, List.nil_prefix⟩

section

variable {store : Store} (apart : store.Apart) {env : World → World → Prop} {s : Staging}
  {quiet : Bool} {config : ReaderConfig} {fs : List Frame} {w v : World}

include apart

omit apart in
theorem staging_calls {frame : Frame} {more : List Frame} (valid : frame.Valid) :
    (processFrames store quiet s (frame :: more)).Calls (.point (.staging s.batchBytes)) := by
  have sound : (decode frame.bytes).ok = true := valid
  rw [processFrames, processFrame, if_pos sound]
  exact ⟨_, rfl⟩

omit apart in
/-- The first frame of a batch does not fill it: what follows is its line. -/
theorem staging_first {frame : Frame} (more : List Frame) (valid : frame.Valid) (empty : s.batchBytes = 0) :
    ∃ k, processFrames store false s (frame :: more) = Prog.call (.point (.staging 0)) (fun _ =>
      Prog.call (.log (.telemetry (decode frame.bytes).record)) k) := by
  have partly : (s.copy frame).batchBytes ≠ writeBatchBytes := by
    intro full
    rw [Staging.copy, empty] at full
    cases full
  have sound : (decode frame.bytes).ok = true := valid
  rw [processFrames, processFrame, if_pos sound, stageFrame]
  simp only [if_neg partly, empty]
  exact ⟨_, rfl⟩

section

variable (others : ∀ {w v}, env w v → Unseen w v) (keep : PrintInv w) (fresh : w.past.delivered = [])
  (loud : config.quiet = false)

include others keep fresh loud

theorem reach_prints {q : Proc Nat} (run : Reach World.exec env (runWith store config) w q v) :
    PrintInv v ∧ printLogic.wp q (fun _ _ => True) v :=
  Logic.wp_reach (L := printLogic) keep (runWith_prints apart loud keep fresh) others run

theorem silent_of_unbegun {q : Proc Nat} (run : Reach World.exec env (runWith store config) w q v)
    (never : ¬ Begun v) : v.past.printed = [] := by
  by_contra told
  exact never ((reach_prints apart others keep fresh loud run).1.begun told)

/-- A frame that decodes and is the first to be delivered has been popped when nothing was
printed. -/
theorem Begun.popped {q : Proc Nat} (begun : Begun v)
    (run : Reach World.exec env (runWith store config) w q v) :
    ∃ frame more k u, Reach World.exec env (runWith store config) w
      (.call (.point (.popped (frame :: more))) k) u ∧ frame.Valid ∧ u.past.printed = [] := by
  have before : ¬ Begun w := by
    rintro ⟨frame, more, some, _⟩
    rw [fresh] at some
    cases some
  have back : ∀ {w v}, Unseen w v → Begun v → Begun w := fun unseen begun => begun.unseen unseen.symm
  rcases run.crossed (runWith_moves apart) before begun (fun move => back (others move))
    (fun only => back (OnlyStore.unseen only)) with ⟨call, k, r, u, v', first, answer, notYet, now⟩
  have silent := silent_of_unbegun apart others keep fresh loud first notYet
  rcases exec_delivered answer with ⟨fs, rfl, grown⟩ | same
  · rcases now with ⟨frame, more, split, valid⟩
    rw [grown] at split
    rcases List.append_eq_cons_iff.mp split with ⟨_, rfl⟩ | ⟨before, old, _⟩
    · exact ⟨frame, more, k, u, first, valid, silent⟩
    · exact absurd ⟨frame, before, old, valid⟩ notYet
  · rcases now with ⟨frame, more, split, valid⟩
    exact absurd ⟨frame, more, same ▸ split, valid⟩ notYet

/-- From there the reader goes on to print its record. -/
theorem Begun.printed {q : Proc Nat} (begun : Begun v)
    (run : Reach World.exec env (runWith store config) w q v) :
    ∃ q' v', Reach World.exec env (runWith store config) w q' v' ∧ v'.past.printed ≠ [] := by
  rcases begun.popped apart others keep fresh loud run with
    ⟨frame, more, k, u, first, valid, silent⟩
  rcases runWith_popped apart first with ⟨s, f, facing, _⟩
  have popped := first.step (.call _ k u _ () rfl)
  rw [facing] at popped
  have here := reach_prints apart others keep fresh loud popped
  have empty : s.batchBytes = 0 := Logic.wp_pre here.1 here.2 ((staging_calls valid).bind f) silent
  rcases staging_first more valid empty with ⟨k', next⟩
  rw [loud, next] at popped
  have staged := popped.step (.call _ _ _ _ () rfl)
  have told := staged.step (.call _ _ _ _ () rfl)
  exact ⟨_, _, told, by simp⟩

/-- As long as every record is covered, nothing is printed at all. -/
theorem silent_of_covered {stored : History → List UInt8} (quietly : w.past.printed = [])
    (nothing : stored w.past = []) (same : ∀ {w v}, env w v → stored v.past = stored w.past)
    (own : ∀ {w v}, w.past.printed = [] → printLogic.guar w v → stored v.past = stored w.past)
    (covered : ∀ q v, Reach World.exec env (runWith store config) w q v → Covered (stored v.past) v)
    {q : Proc Nat} (run : Reach World.exec env (runWith store config) w q v) :
    v.past.printed = [] ∧ stored v.past = [] := by
  induction run with
  | start => exact ⟨quietly, nothing⟩
  | env _ move ih => exact ⟨(others move).printed.trans ih.1, (same move).trans ih.2⟩
  | @step q q' v v' before move ih =>
      have here := reach_prints apart others keep fresh loud before
      have granted := (Logic.wp_step here.1 here.2 move).2.1
      have still : stored v'.past = [] := (own ih.1 granted).trans ih.2
      refine ⟨?_, still⟩
      rcases covered q' v' (before.step move) with ⟨fs, records, inside⟩
      rw [still] at inside
      rw [records, bytesOf_prefix_nil inside]
      rfl

theorem covered_iff {stored : History → List UInt8} (quietly : w.past.printed = [])
    (nothing : stored w.past = []) (same : ∀ {w v}, env w v → stored v.past = stored w.past)
    (own : ∀ {w v}, w.past.printed = [] → printLogic.guar w v → stored v.past = stored w.past) :
    (∀ q v, Reach World.exec env (runWith store config) w q v → Covered (stored v.past) v) ↔
      ∀ q v, Reach World.exec env (runWith store config) w q v → ¬ Begun v := by
  constructor
  · intro covered q v run begun
    rcases begun.printed apart others keep fresh loud run with ⟨q', v', later, told⟩
    exact told (silent_of_covered apart others keep fresh loud quietly nothing same own covered later).1
  · intro never q v run
    exact covered_of_silent (silent_of_unbegun apart others keep fresh loud run (never q v run))

end

end

structure Unstarted (w : World) : Prop where
  delivered : w.past.delivered = []
  printed : w.past.printed = []
  offered : w.past.offered = []
  appended : w.past.appended = []

/-- Whether each printed record has been written, or at least given to the store: it is so
throughout the runs in which no frame that decodes comes first, where nothing is printed. -/
theorem printed_stored_iff {config : ReaderConfig} (loud : config.quiet = false)
    {env : World → World → Prop} (others : ∀ {w v}, env w v → Unseen w v) {w : World}
    (start : Unstarted w) :
    (∀ q v, Reach World.exec env (run config) w q v → ¬ Begun v → Covered v.past.appended v) ∧
    ((∀ q v, Reach World.exec env (run config) w q v → Covered v.past.appended v) ↔
      ∀ q v, Reach World.exec env (run config) w q v → ¬ Begun v) ∧
    ((∀ q v, Reach World.exec env (run config) w q v → Covered v.past.offered v) ↔
      ∀ q v, Reach World.exec env (run config) w q v → ¬ Begun v) := by
  have keep : PrintInv w := ⟨fun _ => ⟨start.offered, start.appended⟩, fun told => absurd start.printed told⟩
  refine ⟨?_, ?_, ?_⟩
  · intro q v run never
    exact covered_of_silent (silent_of_unbegun fileStore_apart others keep start.delivered loud run never)
  · exact covered_iff fileStore_apart others keep start.delivered loud start.printed start.appended
      (fun move => (others move).appended) (fun silent granted => (granted silent).2)
  · exact covered_iff fileStore_apart others keep start.delivered loud start.printed start.offered
      (fun move => (others move).offered) (fun silent granted => (granted silent).1)

def noRoom (n : Nat) : (call : Call) → World → call.Resp
  | .fs (.write _ _), _ => .error
  | call, w => Calm.answer n call w

def oneWaiting : World :=
  { Storage.emptyDirectory toFile.store with ring := { head := 1, slots := fun _ => encode oneReading } }

theorem printed_stored_oneWaiting :
    ¬ ∀ q v, Reach World.exec (fun _ _ => False) (run toFile) oneWaiting q v →
      Covered v.past.offered v := by
  have started : Unstarted oneWaiting := ⟨rfl, rfl, rfl, rfl⟩
  have shown : ∃ v, Reach World.exec (fun _ _ => False) (run toFile) oneWaiting (.pure EXIT_FAILURE) v ∧
      v.past.delivered = [encode oneReading] := Prog.replay_ends noRoom 43 (by decide +kernel)
  rcases shown with ⟨v, reached, delivered⟩
  have others : ∀ {w v : World}, False → Unseen w v := fun impossible => impossible.elim
  intro covered
  have never := (printed_stored_iff rfl others started).2.2.mp covered
  exact never _ v reached ⟨_, _, delivered, by decide⟩

/-- Its record is printed, but the disk is full: nothing is stored by the end of the run. -/
theorem printed_unstored : ∃ v, Reach World.exec (fun _ _ => False) (run toFile) oneWaiting
    (.pure EXIT_FAILURE) v ∧ v.past.printed = [oneReading] ∧ v.fs.data "t" = [] ∧
    ¬ Covered v.past.appended v := by
  have shown : ∃ v, Reach World.exec (fun _ _ => False) (run toFile) oneWaiting (.pure EXIT_FAILURE) v ∧
      v.past.printed = [oneReading] ∧ v.fs.data "t" = [] ∧ v.past.appended = [] :=
    Prog.replay_ends noRoom 43 (by decide +kernel)
  rcases shown with ⟨v, reached, printed, empty, nothing⟩
  refine ⟨v, reached, printed, empty, ?_⟩
  rintro ⟨fs, records, inside⟩
  rw [nothing] at inside
  rw [printed, bytesOf_prefix_nil inside] at records
  cases records

end TelemetryServer.Reader
