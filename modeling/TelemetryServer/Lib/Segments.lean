import Mathlib.Algebra.BigOperators.Ring.List
import TelemetryServer.Lib.Blocks

/-! A log kept as full segments and one active segment. -/

namespace Segmented

variable {α : Type} {limit : Nat} {base : List α}

structure Log (α : Type) where
  archived : List (List α) := []
  active : List α := []

namespace Log

def contents (s : Log α) : List α := s.archived.flatten ++ s.active

def write (s : Log α) (new : List α) : Log α := { s with active := s.active ++ new }

def rotate (s : Log α) : Log α := { archived := s.archived ++ [s.active], active := [] }

theorem contents_rotate (s : Log α) : s.rotate.contents = s.contents := by
  simp [contents, rotate]

/-- Cutting the active segment cuts the log, if the archived ones are made of whole blocks. -/
theorem contents_cut {n : Nat} {s : Log α} (aligned : ∀ a ∈ s.archived, n ∣ a.length) :
    Blocks.cut n s.contents = s.archived.flatten ++ Blocks.cut n s.active := by
  have whole : n ∣ s.archived.flatten.length := by
    rw [List.length_flatten]
    apply List.dvd_sum
    intro length member
    rcases List.mem_map.mp member with ⟨a, inside, rfl⟩
    exact aligned a inside
  rw [contents, Blocks.cut_append whole]

end Log

/-- Segments archived at `limit` elements. A `base` the log started with may be longer: it
is archived as it is, before anything is added to it. -/
structure Shape (limit : Nat) (base : List α) (s : Log α) : Prop where
  full : base.length ≤ limit → ∀ a ∈ s.archived, a.length = limit
  first : limit < base.length →
    s.archived = [] ∧ s.active = base ∨
      ∃ rest, s.archived = base :: rest ∧ ∀ a ∈ rest, a.length = limit
  active : s.active.length ≤ limit ∨ s.archived = [] ∧ s.active = base

namespace Shape

variable {s : Log α}

theorem initial : Shape limit base { active := base } :=
  ⟨fun _ _ member => absurd member List.not_mem_nil, fun _ => Or.inl ⟨rfl, rfl⟩, Or.inr ⟨rfl, rfl⟩⟩

theorem write (shape : Shape limit base s) {new : List α}
    (fits : (s.active ++ new).length ≤ limit) : Shape limit base (s.write new) := by
  refine ⟨shape.full, ?_, Or.inl fits⟩
  intro long
  rcases shape.first long with ⟨_, whole⟩ | later
  · rw [whole, List.length_append] at fits
    omega
  · exact Or.inr later

/-- A segment is full when it is archived, or it is the long one the log started with. -/
theorem rotate (shape : Shape limit base s) (reached : limit ≤ s.active.length) :
    Shape limit base s.rotate := by
  refine ⟨?_, ?_, Or.inl (Nat.zero_le _)⟩
  · intro short a member
    rcases List.mem_append.mp member with old | new
    · exact shape.full short a old
    · rw [List.mem_singleton.mp new]
      rcases shape.active with le | ⟨_, same⟩
      · omega
      · rw [same] at reached ⊢
        omega
  · intro long
    right
    rcases shape.first long with ⟨none, whole⟩ | ⟨rest, same, sizes⟩
    · exact ⟨[], by simp [Log.rotate, none, whole], by simp⟩
    · refine ⟨rest ++ [s.active], by simp [Log.rotate, same], ?_⟩
      intro a member
      rcases List.mem_append.mp member with old | new
      · exact sizes a old
      · rw [List.mem_singleton.mp new]
        rcases shape.active with le | ⟨none, _⟩
        · omega
        · simp [same] at none

theorem archived_dvd (shape : Shape limit base s) {n : Nat} (whole : n ∣ limit)
    (started : n ∣ base.length) : ∀ a ∈ s.archived, n ∣ a.length := by
  intro a member
  by_cases short : base.length ≤ limit
  · rw [shape.full short a member]
    exact whole
  · rcases shape.first (by omega) with ⟨none, _⟩ | ⟨rest, same, sizes⟩
    · rw [none] at member
      exact absurd member List.not_mem_nil
    · rw [same] at member
      rcases List.mem_cons.mp member with head | tail
      · rw [head]
        exact started
      · rw [sizes a tail]
        exact whole

end Shape
end Segmented
