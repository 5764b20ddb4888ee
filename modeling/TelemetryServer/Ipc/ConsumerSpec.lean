import TelemetryServer.Ipc.ProducerSpec

namespace TelemetryServer

open Protocol Ipc Atomic

namespace World

def release (w : World) (count : Nat) : World :=
  { w with
    ring := { w.ring with
      tail := u64 (w.ring.tail + count)
      released := w.ring.released + count }
    past := { w.past with spaceOwed := true } }

theorem exec_loadSlot {w u : World} {i : Nat} {r : Frame}
    (answer : exec (.ring (.loadSlot i)) w r = some u) : r = w.ring.slots i ∧ u = w := by
  simp only [exec, RingCall.exec] at answer
  split at answer
  · next same =>
      simp only [Option.map_some, noteRing, Option.some.injEq] at answer
      exact ⟨same, answer.symm⟩
  · simp at answer

theorem exec_storeTail {w u : World} {count value : Nat} (ring : RingInv w.ring)
    (small : count ≤ capacityFrames) (target : value = u64 (w.ring.tail + count))
    (answer : exec (.ring (.storeTail value)) w () = some u) : u = w.release count := by
  simp only [target, exec, RingCall.exec, Option.map_some, noteRing, Option.some.injEq,
    ring.tail_step count small] at answer
  exact answer.symm

end World

namespace Ipc

structure Consumes (L : Logic) : Prop where
  ring : ∀ {w}, L.inv w → RingInv w.ring
  view : ∀ {w v}, L.rely w v → ConsumerView w.ring v.ring
  own : ∀ {w v}, L.rely w v → v.past.spaceOwed = w.past.spaceOwed
  loads : ∀ {w}, L.inv w → L.pre (.ring .loadHead) w ∧ L.pre (.ring .loadTail) w ∧
    L.pre (.ring .loadProducerClosed) w
  slot : ∀ {w i}, L.inv w → UnreadSlot w.ring i → L.pre (.ring (.loadSlot i)) w
  release : ∀ {w count}, L.inv w → 0 < count → count ≤ w.ring.occupancy →
    L.pre (.ring (.storeTail (u64 (w.ring.tail + count)))) w ∧
    L.inv (w.release count) ∧ L.guar w (w.release count)

/-- The consumer has given nothing back between `w` and `v`. -/
structure Steady (w v : World) : Prop where
  view : ConsumerView w.ring v.ring
  spaceOwed : v.past.spaceOwed = w.past.spaceOwed

theorem Steady.refl (w : World) : Steady w w := ⟨.refl _, rfl⟩

theorem Steady.trans {w v u : World} (first : Steady w v) (second : Steady v u) : Steady w u :=
  ⟨first.view.trans second.view, second.spaceOwed.trans first.spaceOwed⟩

theorem Steady.frame_eq {w v : World} (steady : Steady w v) {k : Nat}
    (old : k < w.ring.published.length) : v.ring.frames[k]? = w.ring.frames[k]? := by
  rcases steady.view.published with ⟨new, same⟩
  rw [Layout.frames, Layout.frames, ← same, List.map_append, List.getElem?_append_left]
  simpa using old

section

variable {L : Logic} (grants : Consumes L)
  {F : World → Prop} (stable : ∀ {w v}, L.rely w v → F w → F v)
  (framed : ∀ {w l d}, F w → F { w with ring := l, past := { w.past with spaceOwed := d } })

include grants in
theorem Steady.rely {w v : World} (move : L.rely w v) : Steady w v :=
  ⟨grants.view move, grants.own move⟩

include grants stable in
/-- Copying unread slots out, `k` being the position in the stream of the first of them. -/
theorem copyOut_spec (count index k : Nat) {w v : World} (steady : Steady w v) (frame : F v)
    (unread : w.ring.released ≤ k) (there : k + count ≤ w.ring.published.length)
    (place : count ≠ 0 → index = k % capacityFrames) (fits : index + count ≤ capacityFrames) :
    L.wp (copyOut index count) (fun fs u => fs = (w.ring.frames.drop k).take count ∧
      Steady w u ∧ F u) v := by
  induction count generalizing index k v with
  | zero =>
      intro u move _
      exact ⟨by simp, steady.trans (Steady.rely grants move), stable move frame⟩
  | succ count ih =>
      intro u move keep
      have steadyU := steady.trans (Steady.rely grants move)
      have ring := grants.ring keep
      have here : index = k % capacityFrames := place (by omega)
      have low : u.ring.released ≤ k := by rw [steadyU.view.released]; exact unread
      have old : k < w.ring.published.length := by omega
      have high : k < u.ring.published.length :=
        Nat.lt_of_lt_of_le old steadyU.view.published.length_le
      refine ⟨grants.slot keep (by rw [here]; exact RingInv.unreadSlot low high), ?_⟩
      intro r x answer
      rcases World.exec_loadSlot answer with ⟨value, same⟩
      subst x
      refine ⟨keep, L.guar_refl _, ?_⟩
      have read : w.ring.frames[k]? = some r := by
        rw [value, here, ← steadyU.frame_eq old]
        exact ring.slot_eq low high
      have next : count ≠ 0 → index + 1 = (k + 1) % capacityFrames := by
        intro more
        rw [capacityFrames_eq] at here fits ⊢
        omega
      have rest := ih (index + 1) (k + 1) steadyU (stable move frame) (by omega)
        (by omega) next (by omega)
      apply Logic.wp_bind (p := copyOut (index + 1) count) keep
      apply Logic.wp_mono rest
      rintro fs y _ ⟨rfl, steadyY, frameY⟩ z move' _
      refine ⟨?_, steadyY.trans (Steady.rely grants move'), stable move' frameY⟩
      have bound : k < w.ring.frames.length := by rw [frames_length_eq]; exact old
      have head : w.ring.frames[k] = r := by
        rw [List.getElem?_eq_getElem bound] at read
        exact Option.some.inj read
      rw [List.drop_eq_getElem_cons bound, List.take_succ_cons, head]

include grants stable in
theorem copyOutWrapped_spec {count : Nat} {w : World} (keep : L.inv w) (frame : F w)
    (there : w.ring.released + count ≤ w.ring.published.length) :
    L.wp (copyOutWrapped w.ring.tail count) (fun fs v =>
      fs = (w.ring.frames.drop w.ring.released).take count ∧ Steady w v ∧ F v) w := by
  have ring := grants.ring keep
  have bound := ring.bounded
  have place : w.ring.tail % capacityFrames = w.ring.released % capacityFrames := by
    rw [ring.tail_eq, RingInv.slot_index]
  generalize index_eq : w.ring.tail % capacityFrames = index at place
  generalize first_eq : min count (capacityFrames - index) = first
  have below : index < capacityFrames := by
    rw [← index_eq]
    exact Nat.mod_lt _ capacityFrames_pos
  simp only [copyOutWrapped, index_eq, first_eq]
  have front := copyOut_spec grants stable first index w.ring.released (Steady.refl w) frame le_rfl
    (by omega) (fun _ => place) (by omega)
  apply Logic.wp_seq keep front
  rintro fs v keepV ⟨rfl, steady, frameV⟩
  by_cases whole : first = count
  · simp only [whole, ne_eq, not_true_eq_false, if_false]
    intro u move _
    exact ⟨rfl, steady.trans (Steady.rely grants move), stable move frameV⟩
  · simp only [whole, ne_eq, not_false_eq_true, if_true]
    have edge : first = capacityFrames - index ∧ first < count := by omega
    have back := copyOut_spec grants stable (count - first) 0 (w.ring.released + first) steady
      frameV (by omega) (by omega)
      (fun _ => by rw [capacityFrames_eq] at place edge below ⊢; omega) (by omega)
    apply Logic.wp_seq keepV back
    rintro fs u _ ⟨rfl, steadyU, frameU⟩ x move _
    refine ⟨?_, steadyU.trans (Steady.rely grants move), stable move frameU⟩
    have sum : count = first + (count - first) := by omega
    conv_rhs => rw [sum, List.take_add, List.drop_drop]

/-- What `tryPopBatch` answers: the next unread frames, which it has given back. -/
structure Popped (w v : World) (size : Nat) (fs : List Frame) : Prop where
  taken : fs = (v.ring.frames.drop w.ring.released).take fs.length
  released : v.ring.released = w.ring.released + fs.length
  published : w.ring.published <+: v.ring.published
  closed : w.ring.producerClosed ≠ 0 →
    v.ring.producerClosed ≠ 0 ∧ v.ring.published = w.ring.published
  spaceOwed : v.past.spaceOwed = (w.past.spaceOwed || !fs.isEmpty)
  count_le : fs.length ≤ size / kFrameSize
  most : size % kFrameSize = 0 → min (size / kFrameSize) w.ring.occupancy ≤ fs.length

theorem Popped.steady_right {w v u : World} {size : Nat} {fs : List Frame}
    (popped : Popped w v size fs) (keep : RingInv v.ring) (steady : Steady v u) :
    Popped w u size fs := by
  refine ⟨?_, steady.view.released.trans popped.released,
    popped.published.trans steady.view.published, ?_, steady.spaceOwed.trans popped.spaceOwed,
    popped.count_le, popped.most⟩
  · have le := keep.released_le
    rw [popped.released] at le
    rcases steady.view.published with ⟨new, same⟩
    have longer : u.ring.frames = v.ring.frames ++ new.map Prod.snd := by
      rw [Layout.frames, Layout.frames, ← same, List.map_append]
    have enough : fs.length ≤ (v.ring.frames.drop w.ring.released).length := by
      rw [List.length_drop, frames_length_eq]
      omega
    rw [longer, List.drop_append_of_le_length (by rw [frames_length_eq]; omega),
      List.take_append_of_le_length enough]
    exact popped.taken
  · intro closed
    have middle := popped.closed closed
    have last := steady.view.closed middle.1
    exact ⟨last.1, last.2.trans middle.2⟩

theorem Popped.nothing {w v : World} {size : Nat} (steady : Steady w v)
    (reason : size % kFrameSize = 0 → min (size / kFrameSize) w.ring.occupancy = 0) :
    Popped w v size [] :=
  ⟨by simp, by simpa using steady.view.released, steady.view.published, steady.view.closed,
    by simpa using steady.spaceOwed, Nat.zero_le _, fun aligned => le_of_eq (reason aligned)⟩

include grants stable in
/-- The consumer's two index loads. The head may be stale when `k` runs, the tail is not. -/
theorem loadOccupancy_spec {α : Type} {w : World} {k : Nat → Nat → Proc α} {Q : α → World → Prop}
    (frame : F w)
    (rest : ∀ v, L.inv v → Steady w v → F v → L.wp (k v.ring.tail v.ring.head) Q v) :
    L.wp (loadTail >>= fun tail => loadHead >>= fun head => k tail head) Q w := by
  intro a move keepA
  refine ⟨(grants.loads keepA).2.1, fun tail x answer => ?_⟩
  rcases World.exec_loadTail answer with ⟨value, same⟩
  subst x
  subst tail
  refine ⟨keepA, L.guar_refl _, ?_⟩
  intro b move' keepB
  refine ⟨(grants.loads keepB).1, fun head x answer => ?_⟩
  rcases World.exec_loadHead answer with ⟨value, same⟩
  subst x
  subst head
  refine ⟨keepB, L.guar_refl _, ?_⟩
  have later := Steady.rely grants move'
  have last := rest b keepB ((Steady.rely grants move).trans later) (stable move' (stable move frame))
  rwa [later.view.tail] at last

theorem distance_eq {l : Layout} (ring : RingInv l) : subU64 l.head l.tail = l.occupancy := by
  rw [ring.tail_eq, ring.distance ring.released_le ring.bounded, Layout.occupancy]

theorem Steady.occupancy_le {w v : World} (steady : Steady w v) :
    w.ring.occupancy ≤ v.ring.occupancy := by
  have longer := steady.view.published.length_le
  have same := steady.view.released
  simp only [Layout.occupancy]
  omega

include grants stable framed in
/-- Giving back what has been copied: the store to `tail`, then the answer. -/
theorem release_spec {α : Type} (answer : α) (size : Nat) {w v : World} {count : Nat}
    {fs : List Frame} (steady : Steady w v)
    (frame : F v) (copied : fs = (w.ring.frames.drop w.ring.released).take count)
    (there : count ≤ w.ring.occupancy) (positive : 0 < count) (fits : count ≤ size / kFrameSize)
    (most : size % kFrameSize = 0 → min (size / kFrameSize) w.ring.occupancy ≤ count) :
    L.wp (storeTail (u64 (w.ring.tail + count)) >>= fun _ => pure answer)
      (fun r u => r = answer ∧ Popped w u size fs ∧ F u) v := by
  intro u move keep
  have steadyU := steady.trans (Steady.rely grants move)
  have ring := grants.ring keep
  have le := ring.released_le
  have counted : fs.length = count := by
    rw [copied, List.length_take, List.length_drop, frames_length_eq]
    rw [Layout.occupancy] at there
    omega
  have there' : count ≤ u.ring.occupancy := there.trans steadyU.occupancy_le
  rcases grants.release keep positive there' with ⟨before, after, granted⟩
  have target : u64 (w.ring.tail + count) = u64 (u.ring.tail + count) := by
    rw [steadyU.view.tail]
  refine ⟨by rw [target]; exact before, fun r x reply => ?_⟩
  have same := World.exec_storeTail ring (there'.trans ring.occupancy_le) target reply
  subst x
  refine ⟨after, granted, fun y move' _ => ⟨rfl, ?_, stable move' (framed (stable move frame))⟩⟩
  have base : Popped w (u.release count) size fs := by
    refine ⟨?_, ?_, steadyU.view.published, steadyU.view.closed, ?_, ?_, ?_⟩
    · rcases steadyU.view.published with ⟨new, extended⟩
      have longer : u.ring.frames = w.ring.frames ++ new.map Prod.snd := by
        rw [Layout.frames, Layout.frames, ← extended, List.map_append]
      rw [Layout.occupancy] at there
      change fs = (u.ring.frames.drop w.ring.released).take fs.length
      rw [counted, longer, List.drop_append_of_le_length (by rw [frames_length_eq]; omega),
        List.take_append_of_le_length (by rw [List.length_drop, frames_length_eq]; omega)]
      exact copied
    · simp only [World.release, counted, steadyU.view.released]
    · have some : fs.isEmpty = false := by
        rw [List.isEmpty_eq_false_iff, ← List.length_pos_iff]
        omega
      simp [World.release, some]
    · rw [counted]
      exact fits
    · rw [counted]
      exact most
  exact base.steady_right (grants.ring after) (Steady.rely grants move')

theorem Popped.steady_left {w v u : World} {size : Nat} {fs : List Frame} (steady : Steady w v)
    (popped : Popped v u size fs) : Popped w u size fs := by
  refine ⟨?_, ?_, steady.view.published.trans popped.published, ?_, ?_, popped.count_le, ?_⟩
  · rw [← steady.view.released]
    exact popped.taken
  · rw [popped.released, steady.view.released]
  · intro closed
    have middle := steady.view.closed closed
    have last := popped.closed middle.1
    exact ⟨last.1, last.2.trans middle.2⟩
  · rw [popped.spaceOwed, steady.spaceOwed]
  · intro aligned
    have grown := steady.occupancy_le
    exact (min_le_min_left _ grown).trans (popped.most aligned)

include grants stable framed in
/-- `E` is what the consumer learns when it finds the ring empty. -/
theorem tryPopBatch_spec (size : Nat) {w : World} {E : World → Prop} (frame : F w)
    (whole : size ≠ 0 ∧ size % kFrameSize = 0)
    (onEmpty : ∀ v, L.inv v → F v → v.ring.occupancy = 0 → E v)
    (lasts : ∀ {v u}, L.rely v u → E v → E u) :
    L.wp (tryPopBatch size) (fun fs v => Popped w v size fs ∧ F v ∧ (fs = [] → E v)) w := by
  have proper : ¬ (size = 0 ∨ size % kFrameSize ≠ 0) := by omega
  rw [tryPopBatch, if_neg proper]
  apply loadOccupancy_spec grants stable frame
  intro v keepV steady frameV
  have ring := grants.ring keepV
  rw [distance_eq ring]
  have room : 1 ≤ size / kFrameSize := by
    simp only [kFrameSize] at whole ⊢
    omega
  generalize count_eq : min (size / kFrameSize) v.ring.occupancy = count
  by_cases zero : count = 0
  · simp only [zero, if_true]
    intro u move _
    have empty : v.ring.occupancy = 0 := by omega
    have occupancy : w.ring.occupancy = 0 := by
      have grown := steady.occupancy_le
      omega
    refine ⟨.nothing (steady.trans (Steady.rely grants move)) (fun _ => by omega),
      stable move frameV, fun _ => lasts move (onEmpty v keepV frameV empty)⟩
  · simp only [zero, if_false]
    have there : v.ring.released + count ≤ v.ring.published.length := by
      have le := ring.released_le
      rw [Layout.occupancy] at count_eq
      omega
    apply Logic.wp_seq keepV (copyOutWrapped_spec grants stable keepV frameV there)
    rintro fs u _ ⟨copied, steadyU, frameU⟩
    have last := release_spec grants stable framed fs size steadyU frameU copied
      (by omega) (by omega) (by omega) (fun _ => by omega)
    apply Logic.wp_mono last
    rintro r x _ ⟨rfl, popped, frameX⟩
    refine ⟨.steady_left steady popped, frameX, fun none => ?_⟩
    have few := popped.most whole.2
    rw [none] at few
    simp only [List.length_nil] at few
    omega

include grants stable framed in
/-- A batch pop into any span; one that holds no whole number of frames gets nothing. -/
theorem tryPopBatch_any (size : Nat) {w : World} (frame : F w) :
    L.wp (tryPopBatch size) (fun fs v => Popped w v size fs ∧ F v) w := by
  by_cases proper : size ≠ 0 ∧ size % kFrameSize = 0
  · apply Logic.wp_mono (tryPopBatch_spec grants stable framed size (E := fun _ => True) frame proper
      (fun _ _ _ _ => trivial) (fun _ _ => trivial))
    intro fs v _ result
    exact ⟨result.1, result.2.1⟩
  · have wrong : size = 0 ∨ size % kFrameSize ≠ 0 := by omega
    rw [tryPopBatch, if_pos wrong]
    intro v move _
    refine ⟨.nothing (Steady.rely grants move) (fun aligned => ?_), stable move frame⟩
    have zero : size = 0 := by omega
    simp [zero]

include grants stable framed in
theorem tryPop_spec (size : Nat) {w : World} (frame : F w) :
    L.wp (tryPop size) (fun r v => Popped w v (if size = kFrameSize then size else 0) r.toList ∧ F v)
      w := by
  rw [tryPop]
  by_cases proper : size = kFrameSize
  · simp only [proper, ne_eq, not_true_eq_false, if_false, if_true]
    apply loadOccupancy_spec grants stable frame
    intro v keepV steady frameV
    have ring := grants.ring keepV
    have same : v.ring.tail = v.ring.head ↔ v.ring.occupancy = 0 := by
      have le := ring.released_le
      have bound := ring.bounded
      rw [ring.tail_eq, ring.head_eq, Layout.occupancy]
      rw [capacityFrames_eq] at bound
      omega
    by_cases empty : v.ring.tail = v.ring.head
    · rw [if_pos empty]
      intro u move _
      refine ⟨.nothing (steady.trans (Steady.rely grants move)) (fun _ => ?_), stable move frameV⟩
      have grown := steady.occupancy_le
      have zero := same.mp empty
      have before : w.ring.occupancy = 0 := by omega
      simp [before]
    · rw [if_neg empty]
      have unread : v.ring.occupancy ≠ 0 := fun zero => empty (same.mpr zero)
      have there : v.ring.released + 1 ≤ v.ring.published.length := by
        rw [Layout.occupancy] at unread
        omega
      have below : v.ring.tail % capacityFrames < capacityFrames := Nat.mod_lt _ capacityFrames_pos
      have place : v.ring.tail % capacityFrames = v.ring.released % capacityFrames := by
        rw [ring.tail_eq, RingInv.slot_index]
      -- loading one slot is a copy of one frame
      have copy := copyOut_spec grants stable 1 (v.ring.tail % capacityFrames) _
        (Steady.refl v) frameV le_rfl there (fun _ => place) below
      intro u move keepU
      rcases copy u move keepU with ⟨before, answers⟩
      refine ⟨before, fun r x answer => ?_⟩
      rcases answers r x answer with ⟨after, granted, rest⟩
      refine ⟨after, granted, ?_⟩
      rcases Logic.wp_post (a := [r]) after rest with ⟨copied, steadyX, frameX⟩
      have last := release_spec grants stable framed (some r) kFrameSize steadyX frameX copied (by omega)
        (by omega) (by decide) (fun _ => min_le_left _ _)
      apply Logic.wp_mono last
      rintro a y _ ⟨rfl, popped, frameY⟩
      exact ⟨.steady_left steady popped, frameY⟩
  · simp only [ne_eq, proper, not_false_eq_true, if_true, if_false]
    intro v move _
    exact ⟨.nothing (Steady.rely grants move) (fun _ => by simp), stable move frame⟩

include grants in
/-- `pendingFrames` called by the consumer answers the occupancy at its load of the head. -/
theorem pendingFrames_consumer {w : World} {Q : Nat → World → Prop}
    (at_load : ∀ v, Steady w v → L.inv v → Q v.ring.occupancy v)
    (lasts : ∀ n v u, L.rely v u → L.inv u → Q n v → Q n u) : L.wp pendingFrames Q w := by
  apply loadOccupancy_spec (F := fun _ => True) grants (fun _ _ => trivial) trivial
  intro v keepV steady _ u move keepU
  rw [distance_eq (grants.ring keepV)]
  exact lasts _ v u move keepU (at_load v steady keepV)

end
end Ipc
end TelemetryServer
