import Mathlib.Data.List.Induction
import TelemetryServer.Ipc.RingInvariant
import TelemetryServer.Ipc.Totality

namespace TelemetryServer.Ipc

open Protocol Atomic

/-- `tryPush` on frame after frame, up to the first that is refused. -/
def pushEach : List Frame → Proc Nat
  | [] => return 0
  | frame :: rest => do
      if ← tryPush frame.bytes then
        let count ← pushEach rest
        return count + 1
      else
        return 0

/-- `tryPop` at most `n` times, up to the first that finds nothing. -/
def popEach : Nat → Proc (List Frame)
  | 0 => return []
  | n + 1 => do
      match ← tryPop kFrameSize with
      | none => return []
      | some frame =>
          let rest ← popEach n
          return frame :: rest

/-- Any contents of the ring, at any position of its indices. -/
structure Within (l : Layout) : Prop where
  head : l.head < 2 ^ 64
  tail : l.tail < 2 ^ 64
  filled : subU64 l.head l.tail ≤ capacityFrames

def free (l : Layout) : Nat :=
  if l.producerClosed ≠ 0 then 0 else capacityFrames - subU64 l.head l.tail

def pushOne (w : World) (frame : Frame) : World :=
  { w with
    ring := { w.ring with
      slots := Function.update w.ring.slots (w.ring.head % capacityFrames) frame
      head := u64 (w.ring.head + 1)
      published := w.ring.published ++ [(w.net.lastRecv, frame)] }
    past := { w.past with dataOwed := true } }

section Steps

variable {α : Type} {Q : α → World → Prop} {w : World}

/-- An access to the shared memory has one outcome. -/
theorem alone_ring (call : RingCall) {k : call.Resp → Proc α} {value : call.Resp} {after : Layout}
    (outcome : ∀ r l, call.exec w.net.lastRecv w.ring r = some l → r = value ∧ l = after)
    (rest : (Logic.alone World.exec).wp (k value) Q
      { w with ring := after, past := World.noteRing w.past call }) :
    (Logic.alone World.exec).wp (Proc.call (.ring call) >>= k) Q w := by
  apply Logic.alone_call
  intro r u answer
  simp only [World.exec, Option.map_eq_some_iff] at answer
  rcases answer with ⟨l, done, rfl⟩
  rcases outcome r l done with ⟨rfl, rfl⟩
  exact rest

theorem load_outcome {β : Type} [DecidableEq β] {r value : β} {l m : Layout}
    (answer : (if r = value then some l else none) = some m) : r = value ∧ m = l := by
  rcases Option.ite_none_right_eq_some.mp answer with ⟨same, kept⟩
  exact ⟨same, (Option.some.inj kept).symm⟩

theorem alone_loadHead {k : Nat → Proc α} (rest : (Logic.alone World.exec).wp (k w.ring.head) Q w) :
    (Logic.alone World.exec).wp (loadHead >>= k) Q w :=
  alone_ring .loadHead (fun _ _ answer => load_outcome answer) rest

theorem alone_loadTail {k : Nat → Proc α} (rest : (Logic.alone World.exec).wp (k w.ring.tail) Q w) :
    (Logic.alone World.exec).wp (loadTail >>= k) Q w :=
  alone_ring .loadTail (fun _ _ answer => load_outcome answer) rest

theorem alone_loadSlot {index : Nat} {k : Frame → Proc α}
    (rest : (Logic.alone World.exec).wp (k (w.ring.slots index)) Q w) :
    (Logic.alone World.exec).wp (loadSlot index >>= k) Q w :=
  alone_ring (.loadSlot index) (fun _ _ answer => load_outcome answer) rest

theorem alone_producerClosed {k : Bool → Proc α}
    (rest : (Logic.alone World.exec).wp (k (w.ring.producerClosed != 0)) Q w) :
    (Logic.alone World.exec).wp (producerClosed >>= k) Q w :=
  alone_ring .loadProducerClosed (fun _ _ answer => load_outcome answer) rest

theorem alone_storeSlot {index : Nat} {frame : Frame} {k : Unit → Proc α}
    (rest : (Logic.alone World.exec).wp (k ()) Q { w with ring := { w.ring with
      slots := Function.update w.ring.slots index frame } }) :
    (Logic.alone World.exec).wp (storeSlot index frame >>= k) Q w :=
  alone_ring (.storeSlot index frame)
    (fun _ _ answer => ⟨rfl, (Option.some.inj answer).symm⟩) rest

theorem alone_storeHead {value : Nat} {k : Unit → Proc α}
    (rest : (Logic.alone World.exec).wp (k ()) Q { w with
      ring := { w.ring with
        head := value
        published := w.ring.published ++
          (w.ring.exposed value).map (fun frame => (w.net.lastRecv, frame)) }
      past := { w.past with dataOwed := true } }) :
    (Logic.alone World.exec).wp (storeHead value >>= k) Q w :=
  alone_ring (.storeHead value) (fun _ _ answer => ⟨rfl, (Option.some.inj answer).symm⟩) rest

theorem alone_storeTail {value : Nat} {k : Unit → Proc α}
    (rest : (Logic.alone World.exec).wp (k ()) Q { w with
      ring := { w.ring with
        tail := value
        released := w.ring.released + subU64 value w.ring.tail }
      past := { w.past with spaceOwed := true } }) :
    (Logic.alone World.exec).wp (storeTail value >>= k) Q w :=
  alone_ring (.storeTail value) (fun _ _ answer => ⟨rfl, (Option.some.inj answer).symm⟩) rest

end Steps

/-- The slots once `fs` is written behind position `at`, wrapping at the end. -/
def filled (slots : Nat → Frame) (position : Nat) : List Frame → Nat → Frame
  | [] => slots
  | frame :: rest => filled (Function.update slots (position % capacityFrames) frame) (position + 1) rest

theorem filled_append (slots : Nat → Frame) (position : Nat) (a b : List Frame) :
    filled slots position (a ++ b) = filled (filled slots position a) (position + a.length) b := by
  induction a generalizing slots position with
  | nil => rfl
  | cons frame rest ih =>
      rw [List.cons_append, filled, ih, filled, List.length_cons, Nat.add_assoc, Nat.add_comm 1]

theorem filled_other {slots : Nat → Frame} {position index : Nat} {fs : List Frame}
    (outside : ∀ i < fs.length, index ≠ (position + i) % capacityFrames) :
    filled slots position fs index = slots index := by
  induction fs generalizing slots position with
  | nil => rfl
  | cons frame rest ih =>
      have here := outside 0 (Nat.succ_pos _)
      rw [Nat.add_zero] at here
      rw [filled, ih, Function.update_of_ne here]
      intro i inside
      have later := outside (i + 1) (Nat.succ_lt_succ inside)
      rwa [Nat.add_assoc, Nat.add_comm 1]

theorem filled_get (slots : Nat → Frame) (position : Nat) {fs : List Frame}
    (short : fs.length ≤ capacityFrames) {i : Nat} (inside : i < fs.length) :
    fs[i]? = some (filled slots position fs ((position + i) % capacityFrames)) := by
  induction fs generalizing slots position i with
  | nil => cases inside
  | cons frame rest ih =>
      rw [List.length_cons] at short inside
      rw [filled]
      cases i with
      | zero =>
          have first : position + 0 = position := rfl
          rw [first, filled_other, Function.update_self]
          · rfl
          intro j less
          rw [capacityFrames_eq] at short ⊢
          omega
      | succ i =>
          have next := ih (Function.update slots (position % capacityFrames) frame) (position + 1)
            (by omega) (Nat.lt_of_succ_lt_succ inside)
          rw [List.getElem?_cons_succ, next, Nat.add_assoc, Nat.add_comm 1]

/-- A store of the head makes exactly the copied frames visible. -/
theorem exposed_filled (l : Layout) {fs : List Frame} (bound : l.head < 2 ^ 64)
    (short : fs.length ≤ capacityFrames) :
    ({ l with slots := filled l.slots l.head fs } : Layout).exposed (u64 (l.head + fs.length)) = fs := by
  have count : subU64 (u64 (l.head + fs.length)) l.head = fs.length := by
    rw [subU64, u64]
    rw [capacityFrames_eq] at short
    omega
  rw [Layout.exposed]
  change (List.range (subU64 (u64 (l.head + fs.length)) l.head)).map _ = fs
  rw [count]
  apply List.ext_getElem?
  intro i
  rcases Nat.lt_or_ge i fs.length with inside | outside
  · have index : u64 (l.head + i) % capacityFrames = (l.head + i) % capacityFrames :=
      RingInv.slot_index _
    rw [filled_get l.slots l.head short inside, List.getElem?_map,
      List.getElem?_range inside, Option.map_some]
    change some (filled l.slots l.head fs (u64 (l.head + i) % capacityFrames)) = _
    rw [index]
  · rw [List.getElem?_eq_none outside, List.getElem?_eq_none]
    simpa using outside

def pushAll (w : World) (fs : List Frame) : World :=
  { w with
    ring := { w.ring with
      slots := filled w.ring.slots w.ring.head fs
      head := u64 (w.ring.head + fs.length)
      published := w.ring.published ++ fs.map (fun frame => (w.net.lastRecv, frame)) }
    past := { w.past with dataOwed := true } }

theorem foldl_pushOne {w : World} {fs : List Frame} (some : fs ≠ []) :
    fs.foldl pushOne w = pushAll w fs := by
  induction fs using List.reverseRecOn with
  | nil => exact absurd rfl some
  | append_singleton front frame ih =>
      rw [List.foldl_append, List.foldl_cons, List.foldl_nil]
      cases front with
      | nil => rfl
      | cons first rest =>
          rw [ih nofun, pushAll, pushOne, pushAll, filled_append]
          have index : u64 (w.ring.head + (first :: rest).length) % capacityFrames =
              (w.ring.head + (first :: rest).length) % capacityFrames := RingInv.slot_index _
          have head : u64 (u64 (w.ring.head + (first :: rest).length) + 1) =
              u64 (w.ring.head + (first :: rest ++ [frame]).length) := by
            rw [List.length_append, List.length_singleton, u64, u64, u64, Nat.mod_add_mod, Nat.add_assoc]
          simp only [index, head, filled, List.map_append, List.map_cons, List.map_nil,
            List.append_assoc]

section Push

variable {w : World}

theorem subU64_succ {l : Layout} (within : Within l) (room : subU64 l.head l.tail < capacityFrames) :
    subU64 (u64 (l.head + 1)) l.tail = subU64 l.head l.tail + 1 := by
  have head := within.head
  have tail := within.tail
  rw [capacityFrames_eq] at room
  simp only [subU64, u64] at room ⊢
  omega

theorem pushOne_within (within : Within w.ring) (room : subU64 w.ring.head w.ring.tail < capacityFrames)
    (frame : Frame) : Within (pushOne w frame).ring := by
  refine ⟨Nat.mod_lt _ (by decide), within.tail, ?_⟩
  change subU64 (u64 (w.ring.head + 1)) w.ring.tail ≤ capacityFrames
  rw [subU64_succ within room]
  exact room

theorem tryPush_alone (within : Within w.ring) (frame : Frame) :
    (Logic.alone World.exec).wp (tryPush frame.bytes) (fun ok v =>
      if 0 < free w.ring then ok = true ∧ v = pushOne w frame else ok = false ∧ v = w) w := by
  rw [tryPush, if_neg (by simpa using frame.size_eq)]
  apply alone_producerClosed
  cases closed : w.ring.producerClosed != 0 with
  | true =>
      apply Logic.alone_pure
      have none : free w.ring = 0 := if_pos (by simpa using closed)
      rw [none]
      exact ⟨rfl, rfl⟩
  | false =>
      have room : free w.ring = capacityFrames - subU64 w.ring.head w.ring.tail :=
        if_neg (by simpa using closed)
      apply alone_loadHead
      apply alone_loadTail
      rw [room]
      split
      · next full =>
          apply Logic.alone_pure
          rw [if_neg (by omega)]
          exact ⟨rfl, rfl⟩
      · next space =>
          apply alone_storeSlot
          apply alone_storeHead
          apply Logic.alone_pure
          rw [if_pos (by omega), Frame.ofBytes_self]
          refine ⟨rfl, ?_⟩
          have one : [frame].length ≤ capacityFrames := by
            rw [capacityFrames_eq]
            exact Nat.le_of_ble_eq_true rfl
          have visible := exposed_filled w.ring within.head one
          change ({ w.ring with slots := Function.update w.ring.slots (w.ring.head % capacityFrames) frame } :
            Layout).exposed (u64 (w.ring.head + 1)) = [frame] at visible
          rw [pushOne, visible]
          rfl

theorem pushEach_alone (within : Within w.ring) (fs : List Frame) :
    (Logic.alone World.exec).wp (pushEach fs) (fun n v =>
      n = min fs.length (free w.ring) ∧ v = (fs.take n).foldl pushOne w) w := by
  induction fs generalizing w with
  | nil => exact Logic.alone_pure ⟨by simp, rfl⟩
  | cons frame rest ih =>
      apply Logic.alone_seq (tryPush_alone within frame)
      rintro ok t done
      by_cases room : 0 < free w.ring
      · rw [if_pos room] at done
        rcases done with ⟨rfl, rfl⟩
        have opened : w.ring.producerClosed = 0 := by
          by_contra closed
          rw [free, if_pos closed] at room
          exact absurd room (lt_irrefl 0)
        have before : free w.ring = capacityFrames - subU64 w.ring.head w.ring.tail :=
          if_neg (by simpa using opened)
        have space : subU64 w.ring.head w.ring.tail < capacityFrames := by omega
        have after : free (pushOne w frame).ring = free w.ring - 1 := by
          have same : free (pushOne w frame).ring =
              capacityFrames - subU64 (u64 (w.ring.head + 1)) w.ring.tail :=
            if_neg (fun closed => closed opened)
          rw [same, subU64_succ within space, before]
          omega
        apply Logic.alone_seq (ih (pushOne_within within space frame))
        rintro n v ⟨count, rfl⟩
        apply Logic.alone_pure
        rw [after] at count
        refine ⟨?_, rfl⟩
        rw [List.length_cons]
        omega
      · rw [if_neg room] at done
        rcases done with ⟨rfl, rfl⟩
        apply Logic.alone_pure
        have none : free t.ring = 0 := by omega
        rw [none]
        exact ⟨by simp, rfl⟩

theorem copyIn_alone {α : Type} {Q : α → World → Prop} {k : Unit → Proc α} (position : Nat)
    {index : Nat} {fs : List Frame} (start : position % capacityFrames = index)
    (inside : index + fs.length ≤ capacityFrames)
    (rest : (Logic.alone World.exec).wp (k ()) Q { w with ring := { w.ring with
      slots := filled w.ring.slots position fs } }) :
    (Logic.alone World.exec).wp (copyIn index fs >>= k) Q w := by
  induction fs generalizing w position index with
  | nil => exact rest
  | cons frame fs ih =>
      rw [List.length_cons] at inside
      rw [copyIn, Prog.monad_bind_assoc]
      apply alone_storeSlot
      rcases Nat.lt_or_ge (index + 1) capacityFrames with more | last
      · apply ih (position + 1) _ (by omega)
        · rw [filled, start] at rest
          exact rest
        · rw [Nat.add_mod, start, Nat.mod_eq_of_lt (a := 1) (by rw [capacityFrames_eq]; omega),
            Nat.mod_eq_of_lt more]
      · have none : fs = [] := List.length_eq_zero_iff.mp (by omega)
        subst none
        rw [filled, filled, start] at rest
        exact rest

theorem copyInWrapped_alone {α : Type} {Q : α → World → Prop} {k : Unit → Proc α} {fs : List Frame}
    (short : fs.length ≤ capacityFrames)
    (rest : (Logic.alone World.exec).wp (k ()) Q { w with ring := { w.ring with
      slots := filled w.ring.slots w.ring.head fs } }) :
    (Logic.alone World.exec).wp (copyInWrapped w.ring.head fs >>= k) Q w := by
  have below := Nat.mod_lt w.ring.head capacityFrames_pos
  have size : (fs.take (min fs.length (capacityFrames - w.ring.head % capacityFrames))).length =
      min fs.length (capacityFrames - w.ring.head % capacityFrames) := by
    rw [List.length_take]
    omega
  rw [copyInWrapped]
  change (Logic.alone World.exec).wp (((copyIn _ _) >>= fun _ => _) >>= k) Q w
  rw [Prog.monad_bind_assoc]
  apply copyIn_alone w.ring.head rfl
  · rw [size]
    omega
  · split
    · next wraps =>
        apply copyIn_alone (w.ring.head +
          min fs.length (capacityFrames - w.ring.head % capacityFrames))
        · have first : min fs.length (capacityFrames - w.ring.head % capacityFrames) =
              capacityFrames - w.ring.head % capacityFrames := by omega
          rw [first]
          rw [capacityFrames_eq] at below ⊢
          omega
        · rw [List.length_drop]
          omega
        · have whole := filled_append w.ring.slots w.ring.head
            (fs.take (min fs.length (capacityFrames - w.ring.head % capacityFrames)))
            (fs.drop (min fs.length (capacityFrames - w.ring.head % capacityFrames)))
          rw [List.take_append_drop, size] at whole
          rw [whole] at rest
          exact rest
    · next fits =>
        have all : min fs.length (capacityFrames - w.ring.head % capacityFrames) = fs.length := by
          simpa using fits
        rw [all, List.take_length]
        exact rest

theorem tryPushBatch_alone (within : Within w.ring) {span : List UInt8} (some : span ≠ [])
    (whole : span.length % kFrameSize = 0) :
    (Logic.alone World.exec).wp (tryPushBatch span) (fun n v =>
      n = min (frames span).length (free w.ring) ∧ v = ((frames span).take n).foldl pushOne w) w := by
  have ok : ¬ (span = [] ∨ span.length % kFrameSize ≠ 0) := by
    rintro (none | ragged)
    · exact some none
    · exact ragged whole
  rw [tryPushBatch, if_neg ok]
  apply alone_producerClosed
  cases closed : w.ring.producerClosed != 0 with
  | true =>
      apply Logic.alone_pure
      have none : free w.ring = 0 := if_pos (by simpa using closed)
      rw [none]
      exact ⟨by simp, rfl⟩
  | false =>
      have room : free w.ring = subU64 capacityFrames (subU64 w.ring.head w.ring.tail) := by
        have most := within.filled
        have exact' : free w.ring = capacityFrames - subU64 w.ring.head w.ring.tail :=
          if_neg (by simpa using closed)
        rw [exact']
        generalize subU64 w.ring.head w.ring.tail = used at most ⊢
        rw [subU64]
        rw [capacityFrames_eq] at most ⊢
        omega
      apply alone_loadHead
      apply alone_loadTail
      dsimp only
      rw [← frames_length, ← room]
      split
      · next none =>
          apply Logic.alone_pure
          rw [none]
          exact ⟨rfl, rfl⟩
      · next count =>
          have size : ((frames span).take (min (frames span).length (free w.ring))).length =
              min (frames span).length (free w.ring) := by
            rw [List.length_take]
            omega
          have most : free w.ring ≤ capacityFrames := by
            rw [free]
            split
            · exact Nat.zero_le _
            · exact Nat.sub_le _ _
          apply copyInWrapped_alone (by omega)
          apply alone_storeHead
          apply Logic.alone_pure
          refine ⟨rfl, ?_⟩
          have short : ((frames span).take (min (frames span).length (free w.ring))).length ≤
              capacityFrames := by omega
          have visible := exposed_filled w.ring within.head short
          rw [size] at visible
          rw [foldl_pushOne (by intro none; rw [none] at size; exact count size.symm), pushAll,
            size, visible]

end Push

section Pop

variable {w : World}

def released (w : World) (count : Nat) : World :=
  if count = 0 then w else
  { w with
    ring := { w.ring with
      tail := u64 (w.ring.tail + count)
      released := w.ring.released + count }
    past := { w.past with spaceOwed := true } }

def unread (l : Layout) (count : Nat) : List Frame :=
  (List.range count).map (fun i => l.slots ((l.tail + i) % capacityFrames))

theorem subU64_pred {l : Layout} (within : Within l) (some : 0 < subU64 l.head l.tail) :
    subU64 l.head (u64 (l.tail + 1)) = subU64 l.head l.tail - 1 := by
  have head := within.head
  have tail := within.tail
  simp only [subU64, u64] at some ⊢
  omega

theorem subU64_eq_zero {l : Layout} (within : Within l) : l.tail = l.head ↔ subU64 l.head l.tail = 0 := by
  have head := within.head
  have tail := within.tail
  rw [subU64]
  omega

theorem subU64_back {l : Layout} (within : Within l) {count : Nat} (small : count ≤ capacityFrames) :
    subU64 (u64 (l.tail + count)) l.tail = count := by
  have tail := within.tail
  rw [capacityFrames_eq] at small
  rw [subU64, u64]
  omega

theorem released_within (within : Within w.ring) (some : 0 < subU64 w.ring.head w.ring.tail) :
    Within (released w 1).ring := by
  refine ⟨within.head, Nat.mod_lt _ (by decide), ?_⟩
  change subU64 w.ring.head (u64 (w.ring.tail + 1)) ≤ capacityFrames
  rw [subU64_pred within some]
  have most := within.filled
  omega

theorem released_succ (w : World) (count : Nat) : released (released w 1) count = released w (count + 1) := by
  rcases Nat.eq_zero_or_pos count with rfl | positive
  · rfl
  · have tail : u64 (u64 (w.ring.tail + 1) + count) = u64 (w.ring.tail + (count + 1)) := by
      rw [u64, u64, u64, Nat.mod_add_mod]
      congr 1
      omega
    have count' : w.ring.released + 1 + count = w.ring.released + (count + 1) := by omega
    rw [released, if_neg (by omega), released, if_neg (by decide), released, if_neg (by omega)]
    simp only [tail, count']

theorem unread_succ (w : World) (count : Nat) : unread w.ring (count + 1) =
    w.ring.slots (w.ring.tail % capacityFrames) :: unread (released w 1).ring count := by
  rw [unread, List.range_succ_eq_map, List.map_cons, List.map_map, unread]
  congr 1
  apply List.map_congr_left
  intro i _
  change w.ring.slots ((w.ring.tail + (i + 1)) % capacityFrames) =
    w.ring.slots ((u64 (w.ring.tail + 1) + i) % capacityFrames)
  have index : (u64 (w.ring.tail + 1) + i) % capacityFrames =
      (w.ring.tail + (i + 1)) % capacityFrames := by
    rw [capacityFrames_eq, u64]
    omega
  rw [index]

theorem tryPop_alone (within : Within w.ring) :
    (Logic.alone World.exec).wp (tryPop kFrameSize) (fun frame v =>
      if subU64 w.ring.head w.ring.tail = 0 then frame = none ∧ v = w
      else frame = some (w.ring.slots (w.ring.tail % capacityFrames)) ∧ v = released w 1) w := by
  rw [tryPop, if_neg (by simp)]
  apply alone_loadTail
  apply alone_loadHead
  split
  · next same =>
      apply Logic.alone_pure
      rw [if_pos ((subU64_eq_zero within).mp same)]
      exact ⟨rfl, rfl⟩
  · next other =>
      apply alone_loadSlot
      apply alone_storeTail
      apply Logic.alone_pure
      rw [if_neg (fun none => other ((subU64_eq_zero within).mpr none)),
        subU64_back within (by rw [capacityFrames_eq]; omega)]
      exact ⟨rfl, rfl⟩

theorem popEach_alone (within : Within w.ring) (n : Nat) :
    (Logic.alone World.exec).wp (popEach n) (fun fs v =>
      fs = unread w.ring (min n (subU64 w.ring.head w.ring.tail)) ∧
      v = released w (min n (subU64 w.ring.head w.ring.tail))) w := by
  induction n generalizing w with
  | zero =>
      apply Logic.alone_pure
      rw [Nat.zero_min]
      exact ⟨rfl, rfl⟩
  | succ n ih =>
      apply Logic.alone_seq (tryPop_alone within)
      rintro frame t done
      by_cases none : subU64 w.ring.head w.ring.tail = 0
      · rw [if_pos none] at done
        rcases done with ⟨rfl, rfl⟩
        apply Logic.alone_pure
        rw [none, Nat.min_zero]
        exact ⟨rfl, rfl⟩
      · rw [if_neg none] at done
        rcases done with ⟨rfl, rfl⟩
        have some : 0 < subU64 w.ring.head w.ring.tail := by omega
        apply Logic.alone_seq (ih (released_within within some))
        rintro fs v ⟨rfl, rfl⟩
        apply Logic.alone_pure
        have count : subU64 (released w 1).ring.head (released w 1).ring.tail =
            subU64 w.ring.head w.ring.tail - 1 := subU64_pred within some
        have more : min (n + 1) (subU64 w.ring.head w.ring.tail) =
            min n (subU64 w.ring.head w.ring.tail - 1) + 1 := by omega
        rw [count, more, unread_succ, released_succ]
        exact ⟨rfl, rfl⟩

theorem copyOut_alone (index count : Nat) :
    (Logic.alone World.exec).wp (copyOut index count) (fun fs v =>
      fs = (List.range count).map (fun i => w.ring.slots (index + i)) ∧ v = w) w := by
  induction count generalizing index with
  | zero => exact Logic.alone_pure ⟨rfl, rfl⟩
  | succ count ih =>
      apply alone_loadSlot
      apply Logic.alone_seq (ih (index + 1))
      rintro fs v ⟨rfl, rfl⟩
      apply Logic.alone_pure
      refine ⟨?_, rfl⟩
      rw [List.range_succ_eq_map, List.map_cons, List.map_map, Nat.add_zero]
      congr 1
      apply List.map_congr_left
      intro i _
      rw [Function.comp_apply, Nat.add_assoc, Nat.add_comm 1]

theorem copyOutWrapped_alone {count : Nat} (short : count ≤ capacityFrames) :
    (Logic.alone World.exec).wp (copyOutWrapped w.ring.tail count) (fun fs v =>
      fs = unread w.ring count ∧ v = w) w := by
  have below := Nat.mod_lt w.ring.tail capacityFrames_pos
  generalize first_eq : min count (capacityFrames - w.ring.tail % capacityFrames) = first
  have front : (List.range first).map (fun i => w.ring.slots (w.ring.tail % capacityFrames + i)) =
      unread w.ring first := by
    apply List.map_congr_left
    intro i inside
    have less := List.mem_range.mp inside
    have index : (w.ring.tail + i) % capacityFrames = w.ring.tail % capacityFrames + i := by
      rw [capacityFrames_eq] at below first_eq ⊢
      omega
    rw [index]
  rw [copyOutWrapped, first_eq]
  apply Logic.alone_seq (copyOut_alone _ _)
  rintro fs v ⟨rfl, rfl⟩
  rw [front]
  split
  · next wraps =>
      have edge : first = capacityFrames - v.ring.tail % capacityFrames := by omega
      have back : (List.range (count - first)).map (fun i => v.ring.slots (0 + i)) =
          (List.range (count - first)).map (fun i => v.ring.slots ((v.ring.tail + (first + i)) %
            capacityFrames)) := by
        apply List.map_congr_left
        intro i inside
        have less := List.mem_range.mp inside
        have index : (v.ring.tail + (first + i)) % capacityFrames = 0 + i := by
          rw [capacityFrames_eq] at below edge short ⊢
          omega
        rw [index]
      apply Logic.alone_seq (copyOut_alone _ _)
      rintro fs u ⟨rfl, rfl⟩
      apply Logic.alone_pure
      refine ⟨?_, rfl⟩
      have split : count = first + (count - first) := by omega
      rw [back]
      conv_rhs => rw [unread, split, List.range_add, List.map_append, List.map_map]
      rfl
  · next fits =>
      apply Logic.alone_pure
      have all : first = count := by simpa using fits
      rw [all]
      exact ⟨rfl, rfl⟩

theorem tryPopBatch_alone (within : Within w.ring) {n : Nat} (positive : 1 ≤ n) :
    (Logic.alone World.exec).wp (tryPopBatch (n * kFrameSize)) (fun fs v =>
      fs = unread w.ring (min n (subU64 w.ring.head w.ring.tail)) ∧
      v = released w (min n (subU64 w.ring.head w.ring.tail))) w := by
  have ok : ¬ (n * kFrameSize = 0 ∨ n * kFrameSize % kFrameSize ≠ 0) := by
    rw [kFrameSize]
    omega
  have most := within.filled
  rw [tryPopBatch, if_neg ok]
  apply alone_loadTail
  apply alone_loadHead
  dsimp only
  rw [Nat.mul_div_cancel n (by decide)]
  generalize count_eq : min n (subU64 w.ring.head w.ring.tail) = count
  split
  · next none =>
      apply Logic.alone_pure
      rw [none]
      exact ⟨rfl, rfl⟩
  · next some =>
      apply Logic.alone_seq (copyOutWrapped_alone (by omega))
      rintro fs v ⟨rfl, rfl⟩
      apply alone_storeTail
      apply Logic.alone_pure
      rw [subU64_back within (by omega), released, if_neg some]
      exact ⟨rfl, rfl⟩

end Pop

theorem pushEach_total (fs : List Frame) : Prog.Total World.exec (pushEach fs) := by
  induction fs with
  | nil => trivial
  | cons frame rest ih =>
      apply (tryPush_total frame.bytes).bind
      intro ok
      split
      · exact ih.bind (fun _ => trivial)
      · trivial

theorem popEach_total (n : Nat) : Prog.Total World.exec (popEach n) := by
  induction n with
  | zero => trivial
  | succ n ih =>
      apply (tryPop_total kFrameSize).bind
      intro frame
      cases frame with
      | none => trivial
      | some frame => exact ih.bind (fun _ => trivial)

/-- Programs that end everywhere, and in one way each, are equivalent if the ways agree. -/
theorem ends_iff {α : Type} {p q : Proc α} {w : World} {a : α} {u : World}
    (totalP : Prog.Total World.exec p) (totalQ : Prog.Total World.exec q)
    (endP : (Logic.alone World.exec).wp p (fun b v => b = a ∧ v = u) w)
    (endQ : (Logic.alone World.exec).wp q (fun b v => b = a ∧ v = u) w) :
    (∃ b v, Prog.Ends World.exec p w b v) ∧
      ∀ b v, Prog.Ends World.exec p w b v ↔ Prog.Ends World.exec q w b v := by
  rcases totalP.completes (fun _ _ => False) w with ⟨b, v, runP⟩
  rcases totalQ.completes (fun _ _ => False) w with ⟨c, x, runQ⟩
  rcases Logic.alone_ends endP runP with ⟨rfl, rfl⟩
  rcases Logic.alone_ends endQ runQ with ⟨rfl, rfl⟩
  refine ⟨⟨c, x, runP⟩, fun b v => ⟨fun run => ?_, fun run => ?_⟩⟩
  · rcases Logic.alone_ends endP run with ⟨rfl, rfl⟩
    exact runQ
  · rcases Logic.alone_ends endQ run with ⟨rfl, rfl⟩
    exact runP

/-- Whatever the ring holds and wherever its indices stand, a batch of whole frames moves the
frames that single calls would move and leaves what they would leave; any other span moves
nothing. -/
theorem batch_eq_iterated {w : World} (within : Within w.ring) :
    (∀ span : List UInt8, span ≠ [] → span.length % kFrameSize = 0 →
      (∃ n v, Prog.Ends World.exec (tryPushBatch span) w n v) ∧
      ∀ n v, Prog.Ends World.exec (tryPushBatch span) w n v ↔
        Prog.Ends World.exec (pushEach (frames span)) w n v) ∧
    (∀ n, 1 ≤ n → (∃ fs v, Prog.Ends World.exec (tryPopBatch (n * kFrameSize)) w fs v) ∧
      ∀ fs v, Prog.Ends World.exec (tryPopBatch (n * kFrameSize)) w fs v ↔
        Prog.Ends World.exec (popEach n) w fs v) ∧
    (∀ span : List UInt8, span = [] ∨ span.length % kFrameSize ≠ 0 →
      ∀ n v, Prog.Ends World.exec (tryPushBatch span) w n v ↔ n = 0 ∧ v = w) ∧
    (∀ size, size = 0 ∨ size % kFrameSize ≠ 0 →
      ∀ fs v, Prog.Ends World.exec (tryPopBatch size) w fs v ↔ fs = [] ∧ v = w) := by
  refine ⟨?_, ?_, ?_, ?_⟩
  · intro span some whole
    apply ends_iff (tryPushBatch_total span) (pushEach_total (frames span))
      (a := min (frames span).length (free w.ring))
      (u := ((frames span).take (min (frames span).length (free w.ring))).foldl pushOne w)
    · apply Logic.wp_mono (tryPushBatch_alone within some whole)
      rintro n v _ ⟨rfl, rfl⟩
      exact ⟨rfl, rfl⟩
    · apply Logic.wp_mono (pushEach_alone within (frames span))
      rintro n v _ ⟨rfl, rfl⟩
      exact ⟨rfl, rfl⟩
  · intro n positive
    exact ends_iff (tryPopBatch_total _) (popEach_total n) (tryPopBatch_alone within positive)
      (popEach_alone within n)
  · intro span refused n v
    have nothing : tryPushBatch span = pure 0 := if_pos refused
    rw [nothing]
    constructor
    · exact Logic.alone_ends (Q := fun m u => m = 0 ∧ u = w) (Logic.alone_pure ⟨rfl, rfl⟩)
    · rintro ⟨rfl, rfl⟩
      exact .start
  · intro size refused fs v
    have nothing : tryPopBatch size = pure [] := if_pos refused
    rw [nothing]
    constructor
    · exact Logic.alone_ends (Q := fun gs u => gs = [] ∧ u = w) (Logic.alone_pure ⟨rfl, rfl⟩)
    · rintro ⟨rfl, rfl⟩
      exact .start

/-- A batch of two frames across the wrap of both the indices and the slots. -/
theorem batch_eq_iterated_wrapping :
    Within ({ head := 2 ^ 64 - 1, tail := 2 ^ 64 - 1 } : Layout) ∧
    ∃ n v, Prog.Ends World.exec (tryPushBatch (List.replicate 64 7))
        { ring := { head := 2 ^ 64 - 1, tail := 2 ^ 64 - 1 } } n v ∧
      Prog.Ends World.exec (pushEach (frames (List.replicate 64 7)))
        { ring := { head := 2 ^ 64 - 1, tail := 2 ^ 64 - 1 } } n v := by
  have within : Within ({ head := 2 ^ 64 - 1, tail := 2 ^ 64 - 1 } : Layout) :=
    ⟨by decide, by decide, by decide⟩
  have same := (batch_eq_iterated (w := { ring := { head := 2 ^ 64 - 1, tail := 2 ^ 64 - 1 } })
    within).1 (List.replicate 64 7) (by decide) (by decide)
  rcases same.1 with ⟨n, v, run⟩
  exact ⟨within, n, v, run, (same.2 n v).mp run⟩

end TelemetryServer.Ipc
