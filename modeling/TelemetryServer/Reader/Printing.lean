import TelemetryServer.Reader.Calls
import TelemetryServer.Reader.ReaderSpec

namespace TelemetryServer.Reader

open Protocol Ipc Atomic
open Storage (Keeping noted OnlyStore)

def Begun (w : World) : Prop := ∃ frame rest, w.past.delivered = frame :: rest ∧ frame.Valid

/-- The frames of the records printed so far are the first ones of `stored`. -/
def Covered (stored : List UInt8) (w : World) : Prop :=
  ∃ fs : List Frame, w.past.printed = fs.map (fun frame => (decode frame.bytes).record) ∧
    bytesOf fs <+: stored

structure PrintInv (w : World) : Prop where
  silent : w.past.printed = [] → w.past.offered = [] ∧ w.past.appended = []
  begun : w.past.printed ≠ [] → Begun w

def printPre : Call → World → Prop
  | .point (.staging offset), w => w.past.printed = [] → offset = 0
  | .point (.appending _), w => w.past.printed ≠ []
  | .point (.appended _), w => w.past.printed ≠ []
  | .log (.telemetry _), w => Begun w
  | _, _ => True

def printLogic : Logic where
  inv := PrintInv
  rely := Unseen
  guar := fun w v => w.past.printed = [] →
    v.past.offered = w.past.offered ∧ v.past.appended = w.past.appended
  pre := printPre
  rely_refl := Unseen.refl
  rely_trans := Unseen.trans
  rely_inv := by
    intro w v move keep
    constructor
    · rw [move.printed, move.offered, move.appended]
      exact keep.silent
    · rw [move.printed, Begun, move.delivered]
      exact keep.begun
  guar_refl := fun _ _ => ⟨rfl, rfl⟩

section

variable {w v : World} {s : Staging} {rest : List Frame}

theorem Begun.unseen (begun : Begun w) (unseen : Unseen w v) : Begun v := by
  rcases begun with ⟨frame, more, first, valid⟩
  exact ⟨frame, more, unseen.delivered.trans first, valid⟩

/-- What leaves no record disturbs nothing here. -/
theorem keeping_prints {α : Type} {p : Proc α} (keeping : Keeping Mute p) :
    printLogic.wp p (fun _ v => Unseen w v) w := by
  have stays : ∀ {w v : World}, PrintInv w → Unseen w v → PrintInv v := by
    intro w v keep unseen
    exact printLogic.rely_inv unseen keep
  apply Logic.wp_within (L := printLogic) (C := Unseen) (P := Mute) Unseen.trans
    (fun move => move) (A := OnlyStore) _ _ keeping.within keeping.moves
  · intro w v keep only
    have unseen := OnlyStore.unseen only
    exact ⟨stays keep unseen, fun _ => ⟨unseen.offered, unseen.appended⟩, unseen⟩
  · intro w call keep mute
    refine ⟨?_, fun r v answer => ?_⟩
    · cases call with
      | log line =>
          cases line with
          | telemetry record => exact mute.elim
          | _ => trivial
      | point p => exact mute.elim
      | _ => trivial
    · have unseen := mute_unseen mute answer
      exact ⟨stays keep unseen, fun _ => ⟨unseen.offered, unseen.appended⟩, unseen⟩

/-- Whatever is staged has been printed, and `rest` has been delivered but not processed. -/
structure Along (s : Staging) (rest : List Frame) (w : World) : Prop where
  told : s.batchBytes ≠ 0 → w.past.printed ≠ []
  valid : ∃ before, w.past.delivered = before ++ rest ∧ ∀ frame ∈ before, frame.Valid

theorem Along.unseen (along : Along s rest w) (unseen : Unseen w v) : Along s rest v := by
  constructor
  · rw [unseen.printed]
    exact along.told
  · rw [unseen.delivered]
    exact along.valid

theorem Along.begun {frame : Frame} (along : Along s (frame :: rest) w) (valid : frame.Valid) :
    Begun w := by
  rcases along.valid with ⟨before, split, sound⟩
  cases before with
  | nil => exact ⟨frame, rest, split, valid⟩
  | cons first more =>
      exact ⟨first, more ++ frame :: rest, split, sound first List.mem_cons_self⟩

theorem point_prints {α : Type} {p : Point} {k : Unit → Proc α} {Q : α → World → Prop}
    (allowed : ∀ v, Unseen w v → printPre (.point p) v)
    (same : ∀ v, Unseen w v → PrintInv v → PrintInv (v.passing p) ∧
      printLogic.guar v (v.passing p) ∧
      printLogic.wp (k ()) Q (v.passing p)) :
    printLogic.wp (Proc.point p >>= k) Q w := by
  intro v move keep
  refine ⟨allowed v move, ?_⟩
  rintro ⟨⟩ u answer
  cases answer
  exact same v move keep

end

section

variable {store : Store} (apart : store.Apart) {w v : World} {s : Staging} {rest : List Frame}

include apart

theorem noted_prints {batch : List UInt8} (told : w.past.printed ≠ []) :
    printLogic.wp (noted batch (store.appendFrames batch))
      (fun _ v => v.past.printed = w.past.printed ∧ v.past.delivered = w.past.delivered) w := by
  apply point_prints
  · intro v move
    rw [printPre, move.printed]
    exact told
  · intro v move keepV
    have toldV : v.past.printed ≠ [] := by
      rw [move.printed]
      exact told
    have after : PrintInv (v.passing (.appending batch)) :=
      ⟨fun none => absurd none toldV, fun _ => keepV.begun toldV⟩
    refine ⟨after, fun none => absurd none toldV, ?_⟩
    apply Logic.wp_seq after (keeping_prints ((apart.appendFrames batch).mono filing_mute))
    intro ok u keepU unseen
    have printed : u.past.printed = w.past.printed := unseen.printed.trans move.printed
    have delivered : u.past.delivered = w.past.delivered := unseen.delivered.trans move.delivered
    have toldU : u.past.printed ≠ [] := by
      rw [printed]
      exact told
    cases ok with
    | false =>
        intro x move' _
        exact ⟨move'.printed.trans printed, move'.delivered.trans delivered⟩
    | true =>
        apply point_prints
        · intro x move'
          rw [printPre, move'.printed]
          exact toldU
        · intro x move' keepX
          have toldX : x.past.printed ≠ [] := by
            rw [move'.printed]
            exact toldU
          refine ⟨⟨fun none => absurd none toldX, fun _ => keepX.begun toldX⟩,
            fun none => absurd none toldX, ?_⟩
          intro y move'' _
          exact ⟨move''.printed.trans (move'.printed.trans printed),
            move''.delivered.trans (move'.delivered.trans delivered)⟩

theorem flushBatch_prints (keep : PrintInv w) (told : s.batchBytes ≠ 0 → w.past.printed ≠ []) :
    printLogic.wp (flushBatch store s) (fun r v => (∀ s', r = some s' → s'.batchBytes = 0) ∧
      v.past.printed = w.past.printed ∧ v.past.delivered = w.past.delivered) w := by
  rw [flushBatch]
  split
  · next none =>
      intro v move _
      refine ⟨?_, move.printed, move.delivered⟩
      rintro s' same
      cases same
      exact none
  · next some =>
      apply Logic.wp_seq keep (noted_prints apart (told some))
      rintro ok v keepV ⟨printed, delivered⟩
      cases ok with
      | false =>
          intro u move _
          refine ⟨?_, move.printed.trans printed, move.delivered.trans delivered⟩
          intro s' same
          cases same
      | true =>
          intro u move _
          refine ⟨?_, move.printed.trans printed, move.delivered.trans delivered⟩
          rintro s' same
          cases same
          rfl

omit apart in
theorem announce_prints {α : Type} {record : TelemetryRecord} {k : Unit → Proc α} {Q : α → World → Prop}
    (begun : Begun w)
    (next : ∀ v, PrintInv v → v.past.delivered = w.past.delivered → v.past.printed ≠ [] →
      printLogic.wp (k ()) Q v) :
    printLogic.wp (announce false record >>= k) Q w := by
  intro v move _
  refine ⟨begun.unseen move, ?_⟩
  rintro ⟨⟩ u answer
  cases answer
  have told : (v.print record).past.printed ≠ [] := by simp [World.print]
  have begunV : Begun v := begun.unseen move
  have after : PrintInv (v.print record) := ⟨fun none => absurd none told, fun _ => begunV⟩
  exact ⟨after, fun _ => ⟨rfl, rfl⟩, next _ after move.delivered told⟩

theorem stageFrame_prints {frame : Frame} (along : Along s (frame :: rest) w) (valid : frame.Valid) :
    printLogic.wp (stageFrame store false s frame) (fun r v => ∀ s', r = some s' → Along s' rest v) w := by
  apply point_prints
  · intro v move none
    by_contra some
    exact along.told some (move.printed ▸ none)
  intro v move keepV
  refine ⟨keepV, fun _ => ⟨rfl, rfl⟩, ?_⟩
  have alongV : Along s (frame :: rest) v := along.unseen move
  have flushed : printLogic.wp (if (s.copy frame).batchBytes = writeBatchBytes then
      flushBatch store (s.copy frame) else pure (some (s.copy frame))) (fun _ u =>
        v.past.printed = u.past.printed ∧ u.past.delivered = v.past.delivered) v := by
    split
    · next full =>
        have told : s.batchBytes ≠ 0 := by
          intro none
          rw [Staging.copy, none] at full
          cases full
        apply Logic.wp_mono (flushBatch_prints apart keepV (fun _ => alongV.told told))
        intro r u _ result
        exact ⟨result.2.1.symm, result.2.2⟩
    · exact fun u move' _ => ⟨move'.printed.symm, move'.delivered⟩
  apply Logic.wp_seq keepV flushed
  rintro r u keepU ⟨printed, delivered⟩
  cases r with
  | none =>
      intro x _ _ s' wrong
      cases wrong
  | some s' =>
      have begun : Begun u := by
        rcases alongV.begun valid with ⟨first, more, split, sound⟩
        exact ⟨first, more, delivered.trans split, sound⟩
      apply announce_prints begun
      intro x keepX same told y move' _ s'' kept
      cases kept
      constructor
      · intro _
        rw [move'.printed]
        exact told
      · rcases alongV.valid with ⟨before, split, sound⟩
        refine ⟨before ++ [frame], ?_, ?_⟩
        · rw [move'.delivered, same, delivered, split, List.append_assoc, List.singleton_append]
        · intro f member
          rcases List.mem_append.mp member with old | new
          · exact sound f old
          · rw [List.mem_singleton.mp new]
            exact valid

theorem processFrame_prints {frame : Frame} (keep : PrintInv w) (along : Along s (frame :: rest) w) :
    printLogic.wp (processFrame store false s frame) (fun r v => ∀ s', r = some s' → Along s' rest v) w := by
  rw [processFrame]
  split
  · next valid => exact stageFrame_prints apart along valid
  · apply Logic.wp_seq keep (flushBatch_prints apart keep along.told)
    intro r v _ _
    cases r with
    | none =>
        intro u _ _ s' wrong
        cases wrong
    | some s' =>
        intro u move keepU
        refine ⟨trivial, ?_⟩
        rintro ⟨⟩ x answer
        cases answer
        refine ⟨keepU, fun _ => ⟨rfl, rfl⟩, ?_⟩
        intro y _ _ s'' wrong
        cases wrong

theorem processFrames_prints (fs : List Frame) (keep : PrintInv w) (along : Along s fs w) :
    printLogic.wp (processFrames store false s fs) (fun r v => ∀ s', r = some s' → Along s' [] v) w := by
  induction fs generalizing s w with
  | nil =>
      intro v move _ s' same
      cases same
      exact along.unseen move
  | cons frame fs ih =>
      apply Logic.wp_seq keep (processFrame_prints apart keep along)
      intro r v keepV result
      cases r with
      | none =>
          intro u _ _ s' wrong
          cases wrong
      | some s' => exact ih keepV (result s' rfl)

theorem drain_prints (along : Along s [] w) :
    printLogic.wp (drain store false s)
      (fun r v => ∀ here, r = some here → Along here.1 [] v) w := by
  apply Logic.wp_iterate (fun (here : Staging × Bool) v => Along here.1 [] v)
  · exact fun v move _ => along.unseen move
  rintro ⟨s, any⟩ v keepV alongV
  apply Logic.wp_seq keepV (keeping_prints (tryPopBatch_mute _))
  intro fs u keepU unseen
  have alongU := alongV.unseen unseen
  cases fs with
  | nil =>
      intro x move _ here same
      cases same
      exact alongU.unseen move
  | cons frame fs =>
      apply point_prints
      · exact fun _ _ => trivial
      intro x move keepX
      have alongX := alongU.unseen move
      have popped : Along s (frame :: fs) (x.passing (.popped (frame :: fs))) := by
        refine ⟨alongX.told, ?_⟩
        rcases alongX.valid with ⟨before, split, sound⟩
        rw [List.append_nil] at split
        exact ⟨before, congrArg (· ++ frame :: fs) split, sound⟩
      have after : PrintInv (x.passing (.popped (frame :: fs))) := by
        refine ⟨keepX.silent, fun told => ?_⟩
        rcases keepX.begun told with ⟨first, more, split, valid⟩
        exact ⟨first, more ++ frame :: fs, congrArg (· ++ frame :: fs) split, valid⟩
      refine ⟨after, fun _ => ⟨rfl, rfl⟩, ?_⟩
      apply Logic.wp_seq after (processFrames_prints apart (frame :: fs) after popped)
      intro r y _ result
      cases r with
      | none =>
          intro z _ _ here wrong
          cases wrong
      | some s' => exact fun z move' _ => (result s' rfl).unseen move'

theorem rest_prints {consumedAny : Bool} (keep : PrintInv w) :
    printLogic.wp (Reader.rest store s consumedAny)
      (fun x v => Unseen w v ∧ ∀ s', x = .inl s' → s' = s) w := by
  have stop : ∀ {v : World}, Unseen w v → printLogic.wp (pure (.inr EXIT_FAILURE))
      (fun (x : Staging ⊕ Nat) v => Unseen w v ∧ ∀ s', x = .inl s' → s' = s) v := by
    intro v unseen u move _
    refine ⟨unseen.trans move, ?_⟩
    intro s' wrong
    cases wrong
  apply Logic.wp_seq keep (keeping_prints (notifyConsumed_mute _))
  intro told v keepV unseen
  cases told with
  | false => exact stop unseen
  | true =>
      apply Logic.wp_seq keepV (keeping_prints finished_mute)
      intro ended u keepU unseenU
      have here := unseen.trans unseenU
      cases ended with
      | true =>
          apply Logic.wp_seq keepU (keeping_prints (apart.sync.mono filing_mute))
          intro ok x keepX unseenX
          cases ok with
          | false => exact stop (here.trans unseenX)
          | true =>
              have line : Keeping Mute (Proc.log (.cout "[reader] EOF\n")) := .call _ trivial
              apply Logic.wp_seq keepX (keeping_prints line)
              intro _ y _ unseenY z move _
              refine ⟨((here.trans unseenX).trans unseenY).trans move, ?_⟩
              intro s' wrong
              cases wrong
      | false =>
          apply Logic.wp_seq keepU (keeping_prints consumeEvent_mute)
          intro ok x _ unseenX
          cases ok with
          | false => exact stop (here.trans unseenX)
          | true =>
              intro y move _
              refine ⟨(here.trans unseenX).trans move, ?_⟩
              intro s' same
              cases same
              rfl

theorem pass_prints (keep : PrintInv w) (along : Along s [] w) :
    printLogic.wp (pass store false s) (fun x v => ∀ s', x = .inl s' → Along s' [] v) w := by
  apply Logic.wp_seq keep (drain_prints apart along)
  intro r v keepV result
  cases r with
  | none =>
      intro u _ _ s' wrong
      cases wrong
  | some here =>
      have alongV := result here rfl
      apply Logic.wp_seq keepV (flushBatch_prints apart keepV alongV.told)
      rintro r u keepU ⟨emptied, _, delivered⟩
      cases r with
      | none =>
          intro x _ _ s' wrong
          cases wrong
      | some s' =>
          apply Logic.wp_mono (rest_prints apart keepU)
          rintro x y _ ⟨unseen, same⟩ s'' back
          rw [same s'' back]
          refine ⟨fun some => absurd (emptied s' rfl) some, ?_⟩
          rw [unseen.delivered, delivered]
          exact alongV.valid

theorem runWith_prints {config : ReaderConfig} (loud : config.quiet = false)
    (keep : PrintInv w) (fresh : w.past.delivered = []) :
    printLogic.wp (runWith store config) (fun _ _ => True) w := by
  have logged : ∀ line : String, Keeping Mute (Proc.log (.cout line)) := fun line => .call _ trivial
  apply Logic.wp_seq keep (keeping_prints (logged _))
  intro _ v keepV unseen
  apply Logic.wp_seq keepV (keeping_prints ((apart.construct _).mono filing_mute))
  intro _ u keepU unseen'
  have reading : printLogic.wp (read store config) (fun _ _ => True) u := by
    apply Logic.wp_seq keepU (keeping_prints ((apart.openFile _).mono filing_mute))
    intro ok x keepX unseen''
    cases ok with
    | false => exact fun _ _ _ => trivial
    | true =>
        apply Logic.wp_seq keepX (keeping_prints (logged _))
        intro _ y keepY unseenY
        rw [loud]
        apply Logic.wp_iterate (fun s z => Along s [] z)
        · intro z move _
          have all := (((unseen.trans unseen').trans unseen'').trans unseenY).trans move
          refine ⟨fun some => absurd rfl some, [], ?_, by simp⟩
          rw [all.delivered, fresh]
          rfl
        · intro s z keepZ along
          apply Logic.wp_mono (pass_prints apart keepZ along)
          intro x t _ result
          cases x with
          | inl s' => exact result s' rfl
          | inr value => trivial
  apply Logic.wp_seq keepU reading
  intro result x keepX _
  apply Logic.wp_seq keepX (keeping_prints (apart.destroy.mono filing_mute))
  exact fun _ _ _ _ _ _ _ => trivial

end

end TelemetryServer.Reader
