import Mathlib.Algebra.Order.Sub.Basic
import TelemetryServer.Ipc.SharedRingBuffer

/-! The ring as a bounded queue: what its indices and slots stand for. -/

namespace TelemetryServer.Ipc

open Protocol

theorem capacityFrames_eq : capacityFrames = 131072 := by decide

theorem capacityFrames_pos : 0 < capacityFrames := by
  rw [capacityFrames_eq]
  omega

/-- The indices count published and released frames modulo `2 ^ 64`, and the slots of the
unread range hold its frames. -/
structure RingInv (l : Layout) : Prop where
  head_eq : l.head = l.published.length % 2 ^ 64
  tail_eq : l.tail = l.released % 2 ^ 64
  released_le : l.released ≤ l.published.length
  bounded : l.published.length ≤ l.released + capacityFrames
  slots_eq : ∀ i, l.released ≤ i → i < l.published.length →
    l.frames[i]? = some (l.slots (i % capacityFrames))

def Layout.occupancy (l : Layout) : Nat := l.published.length - l.released

def FreeSlot (l : Layout) (i : Nat) : Prop :=
  i < capacityFrames ∧ ∀ j, l.released ≤ j → j < l.published.length → j % capacityFrames ≠ i

def UnreadSlot (l : Layout) (i : Nat) : Prop :=
  ∃ j, l.released ≤ j ∧ j < l.published.length ∧ j % capacityFrames = i

/-- What the producer can count on between its steps. -/
structure ProducerView (l m : Layout) : Prop where
  head : m.head = l.head
  slots : m.slots = l.slots
  published : m.published = l.published
  closed : m.producerClosed = l.producerClosed
  released : l.released ≤ m.released

structure ConsumerView (l m : Layout) : Prop where
  tail : m.tail = l.tail
  released : m.released = l.released
  published : l.published <+: m.published
  closed : l.producerClosed ≠ 0 → m.producerClosed ≠ 0 ∧ m.published = l.published

theorem ProducerView.refl (l : Layout) : ProducerView l l := ⟨rfl, rfl, rfl, rfl, le_rfl⟩

theorem ProducerView.trans {l m n : Layout} (first : ProducerView l m) (second : ProducerView m n) :
    ProducerView l n :=
  ⟨second.head.trans first.head, second.slots.trans first.slots,
    second.published.trans first.published, second.closed.trans first.closed,
    first.released.trans second.released⟩

theorem ConsumerView.refl (l : Layout) : ConsumerView l l :=
  ⟨rfl, rfl, List.prefix_rfl, fun closed => ⟨closed, rfl⟩⟩

theorem ConsumerView.trans {l m n : Layout} (first : ConsumerView l m) (second : ConsumerView m n) :
    ConsumerView l n := by
  refine ⟨second.tail.trans first.tail, second.released.trans first.released,
    first.published.trans second.published, fun closed => ?_⟩
  have middle := first.closed closed
  have last := second.closed middle.1
  exact ⟨last.1, last.2.trans middle.2⟩

theorem frames_length_eq (l : Layout) : l.frames.length = l.published.length := by
  simp [Layout.frames]

namespace RingInv

variable {l m : Layout}

theorem initial (slots : Nat → Frame) : RingInv { slots := slots } :=
  ⟨rfl, rfl, le_rfl, Nat.zero_le _, by intro i _ bound; simp at bound⟩

theorem occupancy_le (ring : RingInv l) : l.occupancy ≤ capacityFrames := by
  have bound := ring.bounded
  rw [Layout.occupancy]
  omega

/-- The difference of the indices is exact for any tail the producer may have seen. -/
theorem distance (ring : RingInv l) {released : Nat} (seen : released ≤ l.published.length)
    (near : l.published.length ≤ released + capacityFrames) :
    subU64 l.head (released % 2 ^ 64) = l.published.length - released := by
  rw [ring.head_eq, subU64]
  rw [capacityFrames_eq] at near
  omega

theorem slot_index (n : Nat) : n % 2 ^ 64 % capacityFrames = n % capacityFrames := by
  rw [capacityFrames_eq]
  omega

theorem freeSlot (ring : RingInv l) {k : Nat} (start : l.published.length ≤ k)
    (room : k < l.released + capacityFrames) : FreeSlot l (k % capacityFrames) := by
  have le := ring.released_le
  simp only [FreeSlot, capacityFrames_eq] at room ⊢
  constructor
  · omega
  · intro j low high same
    omega

theorem unreadSlot {k : Nat} (low : l.released ≤ k) (high : k < l.published.length) :
    UnreadSlot l (k % capacityFrames) := ⟨k, low, high, rfl⟩

/-- Writing a free slot disturbs no unread frame. -/
theorem putSlot (ring : RingInv l) {i : Nat} (free : FreeSlot l i) (frame : Frame) :
    RingInv { l with slots := Function.update l.slots i frame } := by
  refine ⟨ring.head_eq, ring.tail_eq, ring.released_le, ring.bounded, ?_⟩
  intro j low high
  have other : j % capacityFrames ≠ i := free.2 j low high
  have old := ring.slots_eq j low high
  simpa only [Layout.frames, Function.update_of_ne other] using old

def Holds (l : Layout) (fs : List Frame) : Prop :=
  ∀ i, i < fs.length → fs[i]? = some (l.slots ((l.published.length + i) % capacityFrames))

theorem exposed_eq (ring : RingInv l) {fs : List Frame} (holds : Holds l fs)
    (short : fs.length ≤ capacityFrames) : l.exposed (u64 (l.head + fs.length)) = fs := by
  have count : subU64 (u64 (l.head + fs.length)) l.head = fs.length := by
    rw [ring.head_eq, subU64, u64]
    rw [capacityFrames_eq] at short
    omega
  rw [Layout.exposed, count]
  apply List.ext_getElem?
  intro i
  rcases Nat.lt_or_ge i fs.length with inside | outside
  · have index : u64 (l.head + i) % capacityFrames =
        (l.published.length + i) % capacityFrames := by
      rw [ring.head_eq, u64, capacityFrames_eq]
      omega
    rw [holds i inside, List.getElem?_map, List.getElem?_range inside, Option.map_some, index]
  · rw [List.getElem?_eq_none outside, List.getElem?_eq_none]
    simpa using outside

theorem publish (ring : RingInv l) {fs : List Frame} (holds : Holds l fs) (origin : Nat)
    (room : l.published.length + fs.length ≤ l.released + capacityFrames) :
    RingInv { l with
      head := u64 (l.head + fs.length)
      published := l.published ++ fs.map (fun frame => (origin, frame)) } := by
  have le := ring.released_le
  refine ⟨?_, ring.tail_eq, ?_, ?_, ?_⟩
  · simp only [List.length_append, List.length_map, ring.head_eq, u64]
    omega
  · simp only [List.length_append, List.length_map]
    omega
  · simpa only [List.length_append, List.length_map] using room
  · intro i low high
    simp only [List.length_append, List.length_map] at high
    have split : (l.published ++ fs.map (fun frame => (origin, frame))).map Prod.snd =
        l.frames ++ fs := by
      simp [Layout.frames, Function.comp_def]
    change ((l.published ++ fs.map (fun frame => (origin, frame))).map Prod.snd)[i]? = _
    rw [split]
    rcases Nat.lt_or_ge i l.published.length with old | new
    · rw [List.getElem?_append_left (by rw [frames_length_eq]; exact old)]
      exact ring.slots_eq i low old
    · rw [List.getElem?_append_right (by rw [frames_length_eq]; exact new), frames_length_eq]
      have here := holds (i - l.published.length) (by omega)
      rwa [Nat.add_sub_cancel' new] at here

theorem release (ring : RingInv l) {count : Nat} (there : count ≤ l.occupancy) :
    RingInv { l with tail := u64 (l.tail + count), released := l.released + count } := by
  have le := ring.released_le
  have bound := ring.bounded
  rw [Layout.occupancy] at there
  refine ⟨ring.head_eq, ?_, ?_, ?_, ?_⟩
  · simp only [ring.tail_eq, u64]
    omega
  · simp only
    omega
  · simp only
    omega
  · intro i low high
    exact ring.slots_eq i (by simp only at low; omega) high

/-- An unread frame is still the one its slot holds. -/
theorem slot_eq (ring : RingInv l) {k : Nat} (low : l.released ≤ k) (high : k < l.published.length) :
    l.frames[k]? = some (l.slots (k % capacityFrames)) := ring.slots_eq k low high

theorem tail_step (ring : RingInv l) (count : Nat) (small : count ≤ capacityFrames) :
    subU64 (u64 (l.tail + count)) l.tail = count := by
  rw [ring.tail_eq, subU64, u64]
  rw [capacityFrames_eq] at small
  omega

end RingInv

end TelemetryServer.Ipc
