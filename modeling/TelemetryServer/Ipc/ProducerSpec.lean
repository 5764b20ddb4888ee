import TelemetryServer.Ipc.RingInvariant

namespace TelemetryServer

open Protocol Ipc Atomic

namespace World

def putSlot (w : World) (index : Nat) (frame : Frame) : World :=
  { w with ring := { w.ring with slots := Function.update w.ring.slots index frame } }

def publish (w : World) (fs : List Frame) : World :=
  { w with
    ring := { w.ring with
      head := u64 (w.ring.head + fs.length)
      published := w.ring.published ++ fs.map (fun frame => (w.net.lastRecv, frame)) }
    past := { w.past with dataOwed := true } }

theorem exec_loadHead {w u : World} {r : Nat} (answer : exec (.ring .loadHead) w r = some u) :
    r = w.ring.head ∧ u = w := by
  simp only [exec, RingCall.exec] at answer
  split at answer
  · next same =>
      simp only [Option.map_some, noteRing, Option.some.injEq] at answer
      exact ⟨same, answer.symm⟩
  · simp at answer

theorem exec_loadTail {w u : World} {r : Nat} (answer : exec (.ring .loadTail) w r = some u) :
    r = w.ring.tail ∧ u = w := by
  simp only [exec, RingCall.exec] at answer
  split at answer
  · next same =>
      simp only [Option.map_some, noteRing, Option.some.injEq] at answer
      exact ⟨same, answer.symm⟩
  · simp at answer

theorem exec_loadProducerClosed {w u : World} {r : Nat}
    (answer : exec (.ring .loadProducerClosed) w r = some u) :
    r = w.ring.producerClosed ∧ u = w := by
  simp only [exec, RingCall.exec] at answer
  split at answer
  · next same =>
      simp only [Option.map_some, noteRing, Option.some.injEq] at answer
      exact ⟨same, answer.symm⟩
  · simp at answer

theorem exec_storeSlot {w u : World} {i : Nat} {frame : Frame}
    (answer : exec (.ring (.storeSlot i frame)) w () = some u) : u = w.putSlot i frame := by
  simp only [exec, RingCall.exec, Option.map_some, noteRing, Option.some.injEq] at answer
  exact answer.symm

theorem exec_storeHead {w u : World} {fs : List Frame} {value : Nat} (ring : RingInv w.ring)
    (holds : RingInv.Holds w.ring fs) (short : fs.length ≤ capacityFrames)
    (target : value = u64 (w.ring.head + fs.length))
    (answer : exec (.ring (.storeHead value)) w () = some u) : u = w.publish fs := by
  simp only [target, exec, RingCall.exec, Option.map_some, noteRing, Option.some.injEq,
    ring.exposed_eq holds short] at answer
  exact answer.symm

end World

namespace Ipc

def fillSlots (slots : Nat → Frame) : Nat → List Frame → (Nat → Frame)
  | _, [] => slots
  | index, frame :: rest => fillSlots (Function.update slots index frame) (index + 1) rest

theorem fillSlots_outside (slots : Nat → Frame) (fs : List Frame) (index i : Nat)
    (outside : i < index ∨ index + fs.length ≤ i) : fillSlots slots index fs i = slots i := by
  induction fs generalizing slots index with
  | nil => rfl
  | cons frame rest ih =>
      simp only [List.length_cons] at outside
      have other : i ≠ index := by omega
      rw [fillSlots, ih _ _ (by omega), Function.update_of_ne other]

theorem fillSlots_inside (slots : Nat → Frame) (fs : List Frame) (index i : Nat)
    (inside : i < fs.length) : fs[i]? = some (fillSlots slots index fs (index + i)) := by
  induction fs generalizing slots index i with
  | nil => simp at inside
  | cons frame rest ih =>
      cases i with
      | zero =>
          rw [fillSlots, fillSlots_outside _ _ _ _ (Or.inl (by omega))]
          simp
      | succ i =>
          simp only [List.length_cons] at inside
          have tail := ih (Function.update slots index frame) (index + 1) i (by omega)
          rw [fillSlots, List.getElem?_cons_succ, tail]
          congr 2
          omega

/-- What a logic grants to the producer: its view of the ring, the accesses it makes, and
the publications that `ok` allows. -/
structure Produces (L : Logic) (ok : World → List Frame → Prop) : Prop where
  ring : ∀ {w}, L.inv w → RingInv w.ring
  view : ∀ {w v}, L.rely w v → ProducerView w.ring v.ring
  own : ∀ {w v}, L.rely w v → v.net.lastRecv = w.net.lastRecv ∧ v.past.dataOwed = w.past.dataOwed
  loads : ∀ {w}, L.inv w → L.pre (.ring .loadHead) w ∧ L.pre (.ring .loadTail) w ∧
    L.pre (.ring .loadProducerClosed) w
  slot : ∀ {w i} frame, L.inv w → FreeSlot w.ring i → L.pre (.ring (.storeSlot i frame)) w ∧
    L.inv (w.putSlot i frame) ∧ L.guar w (w.putSlot i frame)
  publish : ∀ {w fs}, L.inv w → ok w fs → w.ring.producerClosed = 0 → fs ≠ [] →
    RingInv.Holds w.ring fs →
    w.ring.published.length + fs.length ≤ w.ring.released + capacityFrames →
    L.pre (.ring (.storeHead (u64 (w.ring.head + fs.length)))) w ∧
    L.inv (w.publish fs) ∧ L.guar w (w.publish fs)

/-- The producer has published nothing between `w` and `v`. -/
structure Quiet (w v : World) : Prop where
  head : v.ring.head = w.ring.head
  published : v.ring.published = w.ring.published
  closed : v.ring.producerClosed = w.ring.producerClosed
  released : w.ring.released ≤ v.ring.released
  lastRecv : v.net.lastRecv = w.net.lastRecv
  dataOwed : v.past.dataOwed = w.past.dataOwed

theorem Quiet.trans {w v u : World} (first : Quiet w v) (second : Quiet v u) : Quiet w u :=
  ⟨second.head.trans first.head, second.published.trans first.published,
    second.closed.trans first.closed, first.released.trans second.released,
    second.lastRecv.trans first.lastRecv, second.dataOwed.trans first.dataOwed⟩

theorem Quiet.putSlot (w : World) (i : Nat) (frame : Frame) : Quiet w (w.putSlot i frame) :=
  ⟨rfl, rfl, rfl, le_rfl, rfl, rfl⟩

section

variable {L : Logic} {ok : World → List Frame → Prop} (grants : Produces L ok)
  {F : World → Prop} (stable : ∀ {w v}, L.rely w v → F w → F v)
  (framed : ∀ {w l d}, F w → F { w with ring := l, past := { w.past with dataOwed := d } })

include grants in
theorem Quiet.rely {w v : World} (move : L.rely w v) : Quiet w v := by
  have view := grants.view move
  have own := grants.own move
  exact ⟨view.head, view.published, view.closed, view.released, own.1, own.2⟩

include grants stable framed in
/-- Copying into the free slots behind the published frames, `k` being the position in the
stream that the first of them stands for. -/
theorem copyIn_spec (fs : List Frame) (index k : Nat) {w : World} (keep : L.inv w) (frame : F w)
    (behind : w.ring.published.length ≤ k)
    (room : k + fs.length ≤ w.ring.released + capacityFrames)
    (place : fs ≠ [] → index = k % capacityFrames) (fits : index + fs.length ≤ capacityFrames) :
    L.wp (copyIn index fs) (fun _ v => Quiet w v ∧
      v.ring.slots = fillSlots w.ring.slots index fs ∧ F v) w := by
  induction fs generalizing index k w with
  | nil =>
      intro v move _
      exact ⟨Quiet.rely grants move, (grants.view move).slots, stable move frame⟩
  | cons first rest ih =>
      simp only [List.length_cons] at room fits
      intro v move keep'
      have quiet := Quiet.rely grants move
      have later := quiet.released
      have here : index = k % capacityFrames := place (by simp)
      have free : FreeSlot v.ring index := by
        rw [here]
        exact (grants.ring keep').freeSlot (by rw [quiet.published]; exact behind) (by omega)
      rcases grants.slot first keep' free with ⟨before, after, granted⟩
      refine ⟨before, fun r u answer => ?_⟩
      cases World.exec_storeSlot answer
      refine ⟨after, granted, ?_⟩
      have next : rest ≠ [] → index + 1 = (k + 1) % capacityFrames := by
        intro some
        have positive := List.length_pos_iff.mpr some
        rw [capacityFrames_eq] at here fits ⊢
        omega
      have put := ih (index + 1) (k + 1) (w := v.putSlot index first) after
        (framed (stable move frame))
        (by simp only [World.putSlot, quiet.published]; omega)
        (by simp only [World.putSlot]; omega) next (by omega)
      apply Logic.wp_mono put
      rintro _ u _ ⟨quiet', slots, frame'⟩
      refine ⟨quiet.trans ((Quiet.putSlot v index first).trans quiet'), ?_, frame'⟩
      rw [slots, fillSlots, World.putSlot, (grants.view move).slots]

include grants stable framed in
theorem copyInWrapped_spec {fs : List Frame} {w : World} (keep : L.inv w) (frame : F w)
    (room : w.ring.published.length + fs.length ≤ w.ring.released + capacityFrames) :
    L.wp (copyInWrapped w.ring.head fs) (fun _ v => Quiet w v ∧ RingInv.Holds v.ring fs ∧ F v) w := by
  have ring := grants.ring keep
  have le := ring.released_le
  have place : w.ring.head % capacityFrames = w.ring.published.length % capacityFrames := by
    rw [ring.head_eq, RingInv.slot_index]
  generalize index_eq : w.ring.head % capacityFrames = index at place
  generalize first_eq : min fs.length (capacityFrames - index) = first
  have below : index < capacityFrames := by
    rw [← index_eq]
    exact Nat.mod_lt _ capacityFrames_pos
  simp only [copyInWrapped, index_eq, first_eq]
  have front := copyIn_spec grants stable framed (fs.take first) index w.ring.published.length keep frame le_rfl
    (by simp only [List.length_take]; omega) (fun _ => place)
    (by simp only [List.length_take]; omega)
  apply Logic.wp_seq keep front
  rintro _ v keep' ⟨quiet, slots, frame'⟩
  by_cases whole : first = fs.length
  · -- one copy: nothing wraps
    simp only [whole, ne_eq, not_true_eq_false, if_false]
    intro u move _
    have later := Quiet.rely grants move
    refine ⟨quiet.trans later, ?_, stable move frame'⟩
    intro i inside
    have spot : (w.ring.published.length + i) % capacityFrames = index + i := by
      rw [capacityFrames_eq] at place first_eq below ⊢
      omega
    rw [later.published, quiet.published, (grants.view move).slots, slots, whole, List.take_length, spot]
    exact fillSlots_inside _ fs index i inside
  · simp only [whole, ne_eq, not_false_eq_true, if_true]
    have edge : first = capacityFrames - index ∧ first < fs.length := by omega
    have later := quiet.released
    have back := copyIn_spec grants stable framed (fs.drop first) 0
      (w.ring.published.length + first) keep' frame'
      (by rw [quiet.published]; omega)
      (by simp only [List.length_drop]; omega)
      (fun _ => by rw [capacityFrames_eq] at place edge below ⊢; omega)
      (by simp only [List.length_drop]; omega)
    apply Logic.wp_mono back
    rintro _ u _ ⟨quiet', slots', frame''⟩
    refine ⟨quiet.trans quiet', ?_, frame''⟩
    intro i inside
    rw [quiet'.published, quiet.published, slots', slots]
    rcases Nat.lt_or_ge i first with low | high
    · have spot : (w.ring.published.length + i) % capacityFrames = index + i := by
        rw [capacityFrames_eq] at place edge below ⊢
        omega
      have apart : (0 : Nat) + (fs.drop first).length ≤ index + i := by
        simp only [List.length_drop]
        omega
      rw [spot, fillSlots_outside _ _ _ _ (Or.inr apart)]
      have inFront := fillSlots_inside w.ring.slots (fs.take first) index i
        (by simp only [List.length_take]; omega)
      rwa [List.getElem?_take_of_lt low] at inFront
    · have spot : (w.ring.published.length + i) % capacityFrames = 0 + (i - first) := by
        rw [capacityFrames_eq] at place edge below room ⊢
        omega
      have inBack := fillSlots_inside (fillSlots w.ring.slots index (fs.take first)) (fs.drop first) 0
        (i - first) (by simp only [List.length_drop]; omega)
      rw [spot, ← inBack, List.getElem?_drop, Nat.add_sub_cancel' high]

/-- Between `w` and `v` the producer has published the first `count` frames of the span. -/
structure Published (w v : World) (span : List UInt8) (count : Nat) : Prop where
  published : v.ring.published =
    w.ring.published ++ ((frames span).take count).map (fun frame => (w.net.lastRecv, frame))
  count_le : count ≤ (frames span).length
  closed : v.ring.producerClosed = w.ring.producerClosed
  released : w.ring.released ≤ v.ring.released
  lastRecv : v.net.lastRecv = w.net.lastRecv
  dataOwed : v.past.dataOwed = (w.past.dataOwed || count != 0)
  refused : w.ring.producerClosed ≠ 0 → count = 0

namespace Published

variable {w v u : World} {span : List UInt8} {count : Nat}

theorem quiet_right (pushed : Published w v span count) (quiet : Quiet v u) :
    Published w u span count :=
  ⟨quiet.published.trans pushed.published, pushed.count_le, quiet.closed.trans pushed.closed,
    pushed.released.trans quiet.released, quiet.lastRecv.trans pushed.lastRecv,
    quiet.dataOwed.trans pushed.dataOwed, pushed.refused⟩

theorem quiet_left (quiet : Quiet w v) (pushed : Published v u span count) :
    Published w u span count := by
  refine ⟨?_, pushed.count_le, pushed.closed.trans quiet.closed,
    quiet.released.trans pushed.released, pushed.lastRecv.trans quiet.lastRecv, ?_, ?_⟩
  · rw [pushed.published, quiet.published, quiet.lastRecv]
  · rw [pushed.dataOwed, quiet.dataOwed]
  · intro closed
    exact pushed.refused (by rwa [quiet.closed])

theorem nothing (quiet : Quiet w v) : Published w v span 0 :=
  ⟨by simpa using quiet.published, Nat.zero_le _, quiet.closed, quiet.released, quiet.lastRecv,
    by simpa using quiet.dataOwed, fun _ => rfl⟩

end Published

/-- A batch push of whole frames into an open ring takes all that fits. -/
def Pushed (w v : World) (span : List UInt8) (count : Nat) : Prop :=
  Published w v span count ∧ (w.ring.producerClosed = 0 → span.length % kFrameSize = 0 →
    min (frames span).length (capacityFrames - w.ring.occupancy) ≤ count)

include grants stable framed in
/-- Publishing `fs` once its frames are copied: the store to `head`, then the answer. -/
theorem publish_spec {α : Type} (answer : α) {fs : List Frame} {w v : World} (span : List UInt8)
    (count : Nat) (quiet : Quiet w v) (frame : F v) (some : fs ≠ [])
    (copied : fs = (frames span).take count) (counted : fs.length = count)
    (allowed : ∀ u, F u → ProducerView w.ring { u.ring with slots := w.ring.slots } → ok u fs)
    (holds : RingInv.Holds v.ring fs)
    (room : w.ring.published.length + fs.length ≤ w.ring.released + capacityFrames)
    (opened : w.ring.producerClosed = 0) :
    L.wp (storeHead (u64 (w.ring.head + count)) >>= fun _ => pure answer)
      (fun r u => r = answer ∧ Published w u span count ∧ F u) v := by
  intro u move keep
  have later := quiet.trans (Quiet.rely grants move)
  have view := grants.view move
  have ring := grants.ring keep
  have holds' : RingInv.Holds u.ring fs := by
    intro i inside
    rw [view.published, view.slots]
    exact holds i inside
  have room' : u.ring.published.length + fs.length ≤ u.ring.released + capacityFrames := by
    rw [later.published]
    exact room.trans (Nat.add_le_add_right later.released _)
  have okay : ok u fs :=
    allowed u (stable move frame) ⟨later.head, rfl, later.published, later.closed, later.released⟩
  rcases grants.publish keep okay (later.closed.trans opened) some holds' room' with ⟨before, after, granted⟩
  have target : u64 (w.ring.head + count) = u64 (u.ring.head + fs.length) := by
    rw [later.head, counted]
  refine ⟨by rw [target]; exact before, fun r x reply => ?_⟩
  have short : fs.length ≤ capacityFrames := by
    have le := ring.released_le
    omega
  have same := World.exec_storeHead ring holds' short target reply
  subst x
  refine ⟨after, granted, fun y move' _ => ⟨rfl, ?_, stable move' (framed (stable move frame))⟩⟩
  have base : Published w (u.publish fs) span count := by
    refine ⟨?_, ?_, later.closed, later.released, later.lastRecv, ?_, ?_⟩
    · simp only [World.publish, later.published, later.lastRecv, copied]
    · rw [copied, List.length_take] at counted
      omega
    · have positive : count ≠ 0 := by
        rw [← counted]
        exact fun none => some (List.length_eq_zero_iff.mp none)
      simp [World.publish, positive]
    · intro closed
      exact absurd opened closed
  exact base.quiet_right (Quiet.rely grants move')

include grants stable in
/-- The check of the closed flag that opens every push. -/
theorem openCheck_spec {α : Type} {w : World} {refuse : α} {rest : Proc α} {Q : α → World → Prop}
    (frame : F w)
    (closed : ∀ v, L.inv v → Quiet w v → F v → w.ring.producerClosed ≠ 0 → Q refuse v)
    (opened : ∀ v, L.inv v → Quiet w v → F v → w.ring.producerClosed = 0 → L.wp rest Q v) :
    L.wp (producerClosed >>= fun b => if b = true then pure refuse else rest) Q w := by
  intro v move keepV
  refine ⟨(grants.loads keepV).2.2, fun r u answer => ?_⟩
  rcases World.exec_loadProducerClosed answer with ⟨value, same⟩
  subst u
  subst r
  have quiet := Quiet.rely grants move
  refine ⟨keepV, L.guar_refl _, ?_⟩
  change L.wp (if (v.ring.producerClosed != 0) = true then pure refuse else rest) Q v
  split
  · next isClosed =>
      intro u move' keepU
      refine closed u keepU (quiet.trans (Quiet.rely grants move')) (stable move' (stable move frame)) ?_
      rw [← quiet.closed]
      simpa using isClosed
  · next isOpen =>
      refine opened v keepV quiet (stable move frame) ?_
      rw [← quiet.closed]
      simpa using isOpen

include grants stable in
/-- The producer's two index loads. The tail may be stale when `k` runs, the head is not. -/
theorem loadIndices_spec {α : Type} {w : World} {k : Nat → Nat → Proc α} {Q : α → World → Prop}
    (frame : F w)
    (rest : ∀ v, L.inv v → Quiet w v → F v → L.wp (k v.ring.head v.ring.tail) Q v) :
    L.wp (loadHead >>= fun head => loadTail >>= fun tail => k head tail) Q w := by
  intro a move keepA
  refine ⟨(grants.loads keepA).1, fun head x answer => ?_⟩
  rcases World.exec_loadHead answer with ⟨value, same⟩
  subst x
  subst head
  refine ⟨keepA, L.guar_refl _, ?_⟩
  intro b move' keepB
  refine ⟨(grants.loads keepB).2.1, fun tail x answer => ?_⟩
  rcases World.exec_loadTail answer with ⟨value, same⟩
  subst x
  subst tail
  refine ⟨keepB, L.guar_refl _, ?_⟩
  have later := Quiet.rely grants move'
  have last := rest b keepB ((Quiet.rely grants move).trans later) (stable move' (stable move frame))
  rwa [later.head] at last

include grants stable framed in
theorem tryPushBatch_spec (span : List UInt8) {w : World} (frame : F w)
    (allowed : ∀ u count, F u → ProducerView w.ring { u.ring with slots := w.ring.slots } →
      count ≤ (frames span).length → ok u ((frames span).take count)) :
    L.wp (tryPushBatch span) (fun n v => Pushed w v span n ∧ F v) w := by
  rw [tryPushBatch]
  split
  · next wrong =>
      intro v move _
      refine ⟨⟨.nothing (Quiet.rely grants move), ?_⟩, stable move frame⟩
      intro _ aligned
      rcases wrong with none | unaligned
      · simp [none, frames_length]
      · exact absurd aligned unaligned
  apply openCheck_spec grants stable frame
  · intro v _ quiet frameV closed
    exact ⟨⟨.nothing quiet, fun opened => absurd opened closed⟩, frameV⟩
  intro v keepV quietV frameV opened
  apply loadIndices_spec grants stable frameV
  intro b keepB quietB frameB
  have quiet := quietV.trans quietB
  have ring := grants.ring keepB
  have le := ring.released_le
  have bound := ring.bounded
  have seen := quiet.released
  have free : subU64 capacityFrames (subU64 b.ring.head b.ring.tail) =
      b.ring.released + capacityFrames - b.ring.published.length := by
    rw [ring.tail_eq, ring.distance le bound, subU64]
    rw [capacityFrames_eq] at *
    omega
  simp only [free, ← frames_length]
  generalize count_eq : min (frames span).length
    (b.ring.released + capacityFrames - b.ring.published.length) = count
  have most : min (frames span).length (capacityFrames - w.ring.occupancy) ≤ count := by
    rw [← count_eq, Layout.occupancy, quiet.published]
    omega
  split
  · next zero =>
      intro u move _
      subst zero
      exact ⟨⟨.nothing (quiet.trans (Quiet.rely grants move)), fun _ _ => most⟩, stable move frameB⟩
  next positive =>
  have counted : ((frames span).take count).length = count := by
    rw [List.length_take]
    omega
  have room : b.ring.published.length + ((frames span).take count).length ≤
      b.ring.released + capacityFrames := by
    rw [counted]
    omega
  apply Logic.wp_seq keepB (copyInWrapped_spec grants stable framed keepB frameB room)
  rintro _ u _ ⟨quietU, holds, frameU⟩
  have last := publish_spec grants stable framed (w := b) count span count quietU frameU
    (fun none => positive (by rw [← counted, none]; rfl)) rfl counted
    (fun x frameX view => allowed x count frameX ⟨view.head.trans quiet.head, rfl,
      view.published.trans quiet.published, view.closed.trans quiet.closed,
      quiet.released.trans view.released⟩ (by omega))
    holds room (quiet.closed.trans opened)
  apply Logic.wp_mono last
  rintro n x _ ⟨rfl, published, frameX⟩
  exact ⟨⟨.quiet_left quiet published, fun _ _ => most⟩, frameX⟩

include grants stable framed in
theorem tryPush_spec (span : List UInt8) {w : World} (frame : F w)
    (allowed : ∀ u count, F u → ProducerView w.ring { u.ring with slots := w.ring.slots } →
      count ≤ (frames span).length → ok u ((frames span).take count)) :
    L.wp (tryPush span) (fun b v => Published w v span (if b then 1 else 0) ∧ F v) w := by
  rw [tryPush]
  split
  · intro v move _
    exact ⟨.nothing (Quiet.rely grants move), stable move frame⟩
  next size =>
  have whole : span.length = kFrameSize := by simpa using size
  have single : frames span = [Frame.ofBytes span] := by
    have cut := Blocks.blocks_block_append (by decide : 0 < kFrameSize) whole []
    have none : Blocks.blocks kFrameSize ([] : List UInt8) = [] := Blocks.blocks_of_lt (by decide)
    rw [List.append_nil, none] at cut
    rw [frames, cut, List.map_cons, List.map_nil]
  apply openCheck_spec grants stable frame
  · intro v _ quiet frameV _
    exact ⟨.nothing quiet, frameV⟩
  intro v keepV quietV frameV opened
  apply loadIndices_spec grants stable frameV
  intro b keepB quietB frameB
  have quiet := quietV.trans quietB
  have ring := grants.ring keepB
  have distance : subU64 b.ring.head b.ring.tail = b.ring.occupancy := by
    rw [ring.tail_eq, ring.distance ring.released_le ring.bounded, Layout.occupancy]
  simp only [distance]
  split
  · intro u move _
    exact ⟨.nothing (quiet.trans (Quiet.rely grants move)), stable move frameB⟩
  next notFull =>
  have room : b.ring.published.length + 1 ≤ b.ring.released + capacityFrames := by
    have le := ring.released_le
    rw [Layout.occupancy] at notFull
    omega
  have place : b.ring.head % capacityFrames = b.ring.published.length % capacityFrames := by
    rw [ring.head_eq, RingInv.slot_index]
  have below : b.ring.head % capacityFrames < capacityFrames := Nat.mod_lt _ capacityFrames_pos
  -- storing one slot is a copy of one frame
  have copy := copyIn_spec grants stable framed [Frame.ofBytes span]
    (b.ring.head % capacityFrames) _ keepB frameB le_rfl room (fun _ => place) below
  apply Logic.wp_seq (p := storeSlot _ _) keepB copy
  rintro _ u _ ⟨quietU, slots, frameU⟩
  have holds : RingInv.Holds u.ring [Frame.ofBytes span] := by
    intro i inside
    have first : i = 0 := by simpa using inside
    subst first
    rw [quietU.published, slots, Nat.add_zero, ← place]
    exact fillSlots_inside _ _ _ 0 inside
  have last := publish_spec grants stable framed (w := b) true span 1 quietU frameU (by simp)
    (by rw [single]; rfl) rfl (fun x frameX view => by
      have okay := allowed x 1 frameX ⟨view.head.trans quiet.head, rfl,
        view.published.trans quiet.published, view.closed.trans quiet.closed,
        quiet.released.trans view.released⟩ (by rw [single]; simp)
      rwa [single] at okay)
    holds room (quiet.closed.trans opened)
  apply Logic.wp_mono last
  rintro r x _ ⟨rfl, published, frameX⟩
  exact ⟨.quiet_left quiet published, frameX⟩

include grants in
/-- `pendingFrames` called by the producer answers the occupancy at its load of the tail. -/
theorem pendingFrames_producer {w : World} {Q : Nat → World → Prop}
    (at_load : ∀ v, L.rely w v → L.inv v → Q v.ring.occupancy v)
    (lasts : ∀ n v u, L.rely v u → L.inv u → Q n v → Q n u) : L.wp pendingFrames Q w := by
  intro a move keepA
  refine ⟨(grants.loads keepA).2.1, fun tail x answer => ?_⟩
  rcases World.exec_loadTail answer with ⟨value, same⟩
  subst x
  subst tail
  refine ⟨keepA, L.guar_refl _, ?_⟩
  intro b move' keepB
  refine ⟨(grants.loads keepB).1, fun head x answer => ?_⟩
  rcases World.exec_loadHead answer with ⟨value, same⟩
  subst x
  subst head
  refine ⟨keepB, L.guar_refl _, ?_⟩
  have ring := grants.ring keepA
  have seen : subU64 b.ring.head a.ring.tail = a.ring.occupancy := by
    rw [(grants.view move').head, ring.tail_eq, ring.distance ring.released_le ring.bounded,
      Layout.occupancy]
  intro u move'' keepU
  rw [seen]
  exact lasts _ b u move'' keepU (lasts _ a b move' keepB (at_load a move keepA))

end
end Ipc
end TelemetryServer
