import TelemetryServer.Lib.Among

namespace Atomic
namespace Prog

variable {E : Type} {R : E → Type} {σ α β γ : Type}

/-- However the others move, `p` goes on from `s` until it returns, and `Q` holds then. -/
inductive Settles (exec : (e : E) → σ → R e → Option σ) (env : σ → σ → Prop) (Q : α → σ → Prop) :
    Prog E R σ α → σ → Prop
  | pure {a : α} {s : σ} (holds : ∀ t, env s t → Q a t) : Settles exec env Q (.pure a) s
  | act {β : Type} {f : σ → β × σ} {k : β → Prog E R σ α} {s : σ}
      (rest : ∀ t, env s t → Settles exec env Q (k (f t).1) (f t).2) :
      Settles exec env Q (.act f k) s
  | call {e : E} {k : R e → Prog E R σ α} {s : σ}
      (answered : ∀ t, env s t → ∃ r u, exec e t r = some u)
      (rest : ∀ t r u, env s t → exec e t r = some u → Settles exec env Q (k r) u) :
      Settles exec env Q (.call e k) s
  | loop {β γ : Type} {body : β → Prog E R σ (β ⊕ γ)} {b : β} {k : γ → Prog E R σ α} {s : σ}
      (rest : Settles exec env Q ((body b).bind (resume body k)) s) :
      Settles exec env Q (.loop body b k) s

namespace Settles

variable {exec : (e : E) → σ → R e → Option σ} {env : σ → σ → Prop} {p : Prog E R σ α} {s : σ}

theorem mono {P Q : α → σ → Prop} (settles : Settles exec env P p s) (weaker : ∀ a t, P a t → Q a t) :
    Settles exec env Q p s := by
  induction settles with
  | pure holds => exact .pure fun t move => weaker _ t (holds t move)
  | act _ ih => exact .act fun t move => ih t move
  | call answered _ ih => exact .call answered fun t r u move answer => ih t r u move answer
  | loop _ ih => exact .loop ih

theorem bind (refl : ∀ s, env s s) {P : α → σ → Prop} {Q : β → σ → Prop} {f : α → Prog E R σ β}
    (first : Settles exec env P p s) (rest : ∀ a t, P a t → Settles exec env Q (f a) t) :
    Settles exec env Q (p.bind f) s := by
  induction first with
  | pure holds => exact rest _ _ (holds _ (refl _))
  | act _ ih => exact .act fun t move => ih t move
  | call answered _ ih => exact .call answered fun t r u move answer => ih t r u move answer
  | loop _ ih =>
      apply Settles.loop
      rw [resume_bind]
      exact ih

/-- What returns does so as its specification says. -/
theorem meets {L : Logic exec} {P Q : α → σ → Prop} (settles : Settles exec L.rely P p s)
    (keep : L.inv s) (holds : L.wp p Q s) : Settles exec L.rely (fun a t => P a t ∧ Q a t) p s := by
  induction settles with
  | pure early =>
      exact .pure fun t move =>
        ⟨early t move, Logic.wp_post (L.rely_inv move keep) (Logic.wp_rely holds move)⟩
  | act _ ih =>
      refine .act fun t move => ?_
      rcases holds t move (L.rely_inv move keep) with ⟨after, _, rest⟩
      exact ih t move after rest
  | call answered _ ih =>
      refine .call answered fun t r u move answer => ?_
      rcases (holds t move (L.rely_inv move keep)).2 r u answer with ⟨after, _, rest⟩
      exact ih t r u move answer after rest
  | loop _ ih =>
      rcases Logic.wp_step keep holds (.loop _ _ _ _) with ⟨after, _, rest⟩
      exact .loop (ih after rest)

end Settles

end Prog
end Atomic
