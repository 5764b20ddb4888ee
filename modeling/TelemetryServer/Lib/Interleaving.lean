import Mathlib.Logic.Function.Basic

namespace Interleaving

variable {ι α : Type} [DecidableEq ι]

/-- `merged` takes its elements from the front of the sequences `parts` until all are used up. -/
inductive Interleaves : (ι → List α) → List α → Prop
  | nil : Interleaves (fun _ => []) []
  | cons {parts : ι → List α} {merged : List α} (i : ι) (a : α) : Interleaves parts merged →
      Interleaves (Function.update parts i (a :: parts i)) (a :: merged)

def part (tagged : List (ι × α)) (i : ι) : List α :=
  (tagged.filter (fun entry => entry.1 = i)).map Prod.snd

theorem part_cons (i : ι) (a : α) (rest : List (ι × α)) :
    part ((i, a) :: rest) = Function.update (part rest) i (a :: part rest i) := by
  funext j
  rcases eq_or_ne j i with rfl | apart
  · simp [part]
  · simp [part, apart, apart.symm]

theorem interleaves_part (tagged : List (ι × α)) :
    Interleaves (part tagged) (tagged.map Prod.snd) := by
  induction tagged with
  | nil => exact .nil
  | cons entry rest ih =>
      rcases entry with ⟨i, a⟩
      rw [part_cons]
      exact .cons i a ih

end Interleaving
