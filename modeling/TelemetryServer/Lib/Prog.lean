import Mathlib.Logic.Basic

/-! Programs that touch the outside world one atomic step at a time.

`E` names the calls a program can make, `R e` is what call `e` may answer, and `σ` is
the state of the world. Loops are part of the syntax, so a retry loop needs no fuel. -/

namespace Atomic

inductive Prog (E : Type) (R : E → Type) (σ : Type) : Type → Type 1
  | pure {α : Type} (a : α) : Prog E R σ α
  | act {α β : Type} (f : σ → β × σ) (k : β → Prog E R σ α) : Prog E R σ α
  | call {α : Type} (e : E) (k : R e → Prog E R σ α) : Prog E R σ α
  | loop {α β γ : Type} (body : β → Prog E R σ (β ⊕ γ)) (b : β) (k : γ → Prog E R σ α) :
      Prog E R σ α

namespace Prog

variable {E : Type} {R : E → Type} {σ α β γ : Type}

def bind : {α : Type} → Prog E R σ α → (α → Prog E R σ β) → Prog E R σ β
  | _, .pure a, f => f a
  | _, .act g k, f => .act g (fun b => bind (k b) f)
  | _, .call e k, f => .call e (fun r => bind (k r) f)
  | _, .loop body b k, f => .loop body b (fun c => bind (k c) f)

instance : Monad (Prog E R σ) where
  pure := .pure
  bind := bind

theorem bind_assoc {δ : Type} (p : Prog E R σ α) (f : α → Prog E R σ β) (g : β → Prog E R σ δ) :
    (p.bind f).bind g = p.bind (fun a => (f a).bind g) := by
  induction p with
  | pure a => rfl
  | act h k ih => simp only [bind, ih]
  | call e k ih => simp only [bind, ih]
  | loop body b k _ ih => simp only [bind, ih]

theorem monad_bind_assoc {δ : Type} (p : Prog E R σ α) (f : α → Prog E R σ β)
    (g : β → Prog E R σ δ) : (p >>= f) >>= g = p >>= fun a => f a >>= g := bind_assoc p f g

/-- What follows one pass of a loop body: another pass, or the rest of the program. -/
def resume (body : β → Prog E R σ (β ⊕ γ)) (k : γ → Prog E R σ α) : β ⊕ γ → Prog E R σ α
  | .inl b => .loop body b k
  | .inr c => k c

/-- Repeat `body` from `b` until it answers on the right. -/
def iterate (body : β → Prog E R σ (β ⊕ γ)) (b : β) : Prog E R σ γ :=
  .loop body b .pure

/-- The next step of the program is call `e`. -/
def Calls (p : Prog E R σ α) (e : E) : Prop := ∃ k, p = .call e k

section Semantics

variable (exec : (e : E) → σ → R e → Option σ)

/-- `exec e s r = some t` says that call `e` may answer `r` in `s` and leaves `t`. A call
with no possible answer blocks. -/
inductive Step : Prog E R σ α → σ → Prog E R σ α → σ → Prop
  | act {β : Type} (f : σ → β × σ) (k : β → Prog E R σ α) (s : σ) :
      Step (.act f k) s (k (f s).1) (f s).2
  | call (e : E) (k : R e → Prog E R σ α) (s t : σ) (r : R e) (answer : exec e s r = some t) :
      Step (.call e k) s (k r) t
  | loop {β γ : Type} (body : β → Prog E R σ (β ⊕ γ)) (b : β) (k : γ → Prog E R σ α) (s : σ) :
      Step (.loop body b k) s ((body b).bind (resume body k)) s

/-- The states a program reaches while the environment moves by `env` between its steps. -/
inductive Reach (env : σ → σ → Prop) (p : Prog E R σ α) (s : σ) : Prog E R σ α → σ → Prop
  | start : Reach env p s p s
  | step {q q' : Prog E R σ α} {t t' : σ} :
      Reach env p s q t → Step exec q t q' t' → Reach env p s q' t'
  | env {q : Prog E R σ α} {t t' : σ} : Reach env p s q t → env t t' → Reach env p s q t'

def Ends (p : Prog E R σ α) (s : σ) (a : α) (t : σ) : Prop :=
  Reach exec (fun _ _ => False) p s (.pure a) t

/-- Two programs over one world, in any interleaving. The right one moves only while
`alive` holds. -/
inductive Par (alive : σ → Prop) (env : σ → σ → Prop) (p : Prog E R σ α) (c : Prog E R σ β)
    (s : σ) : Prog E R σ α → Prog E R σ β → σ → Prop
  | start : Par alive env p c s p c s
  | left {q q' : Prog E R σ α} {d : Prog E R σ β} {t t' : σ} :
      Par alive env p c s q d t → Step exec q t q' t' → Par alive env p c s q' d t'
  | right {q : Prog E R σ α} {d d' : Prog E R σ β} {t t' : σ} :
      Par alive env p c s q d t → alive t → Step exec d t d' t' → Par alive env p c s q d' t'
  | env {q : Prog E R σ α} {d : Prog E R σ β} {t t' : σ} :
      Par alive env p c s q d t → env t t' → Par alive env p c s q d t'

/-- A program without loops whose calls can always be answered. -/
def Total : {α : Type} → Prog E R σ α → Prop
  | _, .pure _ => True
  | _, .act _ k => ∀ b, Total (k b)
  | _, .call e k => (∀ s, ∃ r t, exec e s r = some t) ∧ ∀ r, Total (k r)
  | _, .loop _ _ _ => False

variable {exec}

theorem Reach.trans {env : σ → σ → Prop} {p q r : Prog E R σ α} {s t u : σ}
    (first : Reach exec env p s q t) (second : Reach exec env q t r u) :
    Reach exec env p s r u := by
  induction second with
  | start => exact first
  | step _ move ih => exact ih.step move
  | env _ move ih => exact ih.env move

theorem Total.bind {p : Prog E R σ α} {f : α → Prog E R σ β} (first : Total exec p)
    (rest : ∀ a, Total exec (f a)) : Total exec (p.bind f) := by
  induction p with
  | pure a => exact rest a
  | act g k ih => exact fun b => ih b (first b) rest
  | call e k ih => exact ⟨first.1, fun r => ih r (first.2 r) rest⟩
  | loop body b k => exact first.elim

/-- A total program can run to its end from anywhere. -/
theorem Total.completes {p : Prog E R σ α} (total : Total exec p) (env : σ → σ → Prop) (s : σ) :
    ∃ a t, Reach exec env p s (.pure a) t := by
  induction p generalizing s with
  | pure a => exact ⟨a, s, .start⟩
  | act g k ih =>
      rcases ih (g s).1 (total (g s).1) (g s).2 with ⟨a, t, rest⟩
      exact ⟨a, t, Reach.trans (Reach.step .start (.act g k s)) rest⟩
  | call e k ih =>
      rcases total.1 s with ⟨r, t, answer⟩
      rcases ih r (total.2 r) t with ⟨a, u, rest⟩
      exact ⟨a, u, Reach.trans (Reach.step .start (.call e k s t r answer)) rest⟩
  | loop body b k => exact total.elim

/-- The right program may run while the left one waits. -/
theorem Reach.par {alive : σ → Prop} {env : σ → σ → Prop} {p : Prog E R σ α}
    {c d : Prog E R σ β} {s t : σ} (lives : ∀ s, alive s)
    (run : Reach exec (fun _ _ => False) c s d t) : Par exec alive env p c s p d t := by
  induction run with
  | start => exact .start
  | step _ move ih => exact ih.right (lives _) move
  | env _ move _ => exact move.elim

end Semantics
end Prog
end Atomic
