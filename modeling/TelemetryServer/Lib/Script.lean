import TelemetryServer.Lib.Among

/-! Runs in which one call is answered from a script, among others. -/

namespace Atomic.Prog

variable {E : Type} {R : E → Type} {σ α β γ : Type}

/-- From `s`, while the others move by `env`, every run of `p` in which call `source` is
answered by the script, one answer after the other, comes to an end, has used up the script
by then, and leaves what `Q` says of its answer, its last state and its calls. -/
inductive Fed (exec : (e : E) → σ → R e → Option σ) (env : σ → σ → Prop) (source : E) :
    Prog E R σ α → σ → List (R source) → (α → σ → List (Event σ R) → Prop) → Prop
  | pure (a : α) {s : σ} {Q : α → σ → List (Event σ R) → Prop} (post : ∀ t, env s t → Q a t []) :
      Fed exec env source (.pure a) s [] Q
  | act {β : Type} (f : σ → β × σ) (k : β → Prog E R σ α) {s : σ} {script : List (R source)}
      {Q : α → σ → List (Event σ R) → Prop}
      (rest : ∀ t, env s t → Fed exec env source (k (f t).1) (f t).2 script Q) :
      Fed exec env source (.act f k) s script Q
  | call (e : E) (k : R e → Prog E R σ α) {s : σ} {script : List (R source)}
      {Q : α → σ → List (Event σ R) → Prop} (other : e ≠ source)
      (answered : ∀ t, env s t → ∃ r u, exec e t r = some u)
      (rest : ∀ t r u, env s t → exec e t r = some u →
        Fed exec env source (k r) u script (fun a v events => Q a v (⟨t, e, r⟩ :: events))) :
      Fed exec env source (.call e k) s script Q
  | hear (k : R source → Prog E R σ α) (r : R source) {s : σ} {script : List (R source)}
      {Q : α → σ → List (Event σ R) → Prop} (answered : ∀ t, env s t → ∃ u, exec source t r = some u)
      (rest : ∀ t u, env s t → exec source t r = some u →
        Fed exec env source (k r) u script (fun a v events => Q a v (⟨t, source, r⟩ :: events))) :
      Fed exec env source (.call source k) s (r :: script) Q
  | loop {β γ : Type} (body : β → Prog E R σ (β ⊕ γ)) (b : β) (k : γ → Prog E R σ α) {s : σ}
      {script : List (R source)} {Q : α → σ → List (Event σ R) → Prop}
      (rest : Fed exec env source ((body b).bind (resume body k)) s script Q) :
      Fed exec env source (.loop body b k) s script Q

namespace Fed

variable {exec : (e : E) → σ → R e → Option σ} {env : σ → σ → Prop} {source : E} {s : σ}
  {script more : List (R source)} {Q : α → σ → List (Event σ R) → Prop}

theorem mono {p : Prog E R σ α} {Q' : α → σ → List (Event σ R) → Prop}
    (fed : Fed exec env source p s script Q) (weaker : ∀ a t events, Q a t events → Q' a t events) :
    Fed exec env source p s script Q' := by
  induction fed generalizing Q' with
  | pure a post => exact .pure a (fun t move => weaker a t [] (post t move))
  | act f k _ ih => exact .act f k (fun t move => ih t move weaker)
  | call e k other answered _ ih =>
      exact .call e k other answered
        (fun t r u move answer => ih t r u move answer (fun a v events => weaker a v _))
  | hear k r answered _ ih =>
      exact .hear k r answered
        (fun t u move answer => ih t u move answer (fun a v events => weaker a v _))
  | loop body b k _ ih => exact .loop body b k (ih weaker)

theorem map {p : Prog E R σ β} {f : β → α} {P : β → σ → List (Event σ R) → Prop}
    (fed : Fed exec env source p s script P) (weaker : ∀ b t events, P b t events → Q (f b) t events) :
    Fed exec env source (p.bind fun b => .pure (f b)) s script Q := by
  induction fed generalizing Q with
  | pure b post => exact .pure (f b) (fun t move => weaker b t [] (post t move))
  | act g k _ ih => exact .act g _ (fun t move => ih t move weaker)
  | call e k other answered _ ih =>
      exact .call e _ other answered
        (fun t r u move answer => ih t r u move answer (fun b v events => weaker b v _))
  | hear k r answered _ ih =>
      exact .hear _ r answered
        (fun t u move answer => ih t u move answer (fun b v events => weaker b v _))
  | loop body b k _ ih =>
      apply Fed.loop
      rw [resume_bind]
      exact ih weaker

theorem bind (refl : ∀ s, env s s) {p : Prog E R σ β} {f : β → Prog E R σ α}
    {P : β → σ → List (Event σ R) → Prop} (first : Fed exec env source p s script P)
    (rest : ∀ b t events, P b t events →
      Fed exec env source (f b) t more (fun a u later => Q a u (events ++ later))) :
    Fed exec env source (p.bind f) s (script ++ more) Q := by
  induction first generalizing Q with
  | @pure b s P post => exact rest b s [] (post s (refl s))
  | act g k _ ih => exact .act g (fun b => (k b).bind f) (fun t move => ih t move rest)
  | call e k other answered _ ih =>
      exact .call e (fun r => (k r).bind f) other answered
        (fun t r u move answer => ih t r u move answer (fun b v events holds => rest b v _ holds))
  | hear k r answered _ ih =>
      exact .hear (fun r => (k r).bind f) r answered
        (fun t u move answer => ih t u move answer (fun b v events holds => rest b v _ holds))
  | loop body b k _ ih =>
      apply Fed.loop
      rw [resume_bind]
      exact ih rest

/-- One pass of a loop and what follows it. -/
theorem iterate (refl : ∀ s, env s s) {body : β → Prog E R σ (β ⊕ γ)} {b : β}
    {Q : γ → σ → List (Event σ R) → Prop} {P : β ⊕ γ → σ → List (Event σ R) → Prop}
    (pass : Fed exec env source (body b) s script P)
    (again : ∀ b' t events, P (.inl b') t events →
      Fed exec env source (Prog.iterate body b') t more (fun c u later => Q c u (events ++ later)))
    (ended : ∀ c t events, P (.inr c) t events →
      Fed exec env source (.pure c) t more (fun c u later => Q c u (events ++ later))) :
    Fed exec env source (Prog.iterate body b) s (script ++ more) Q := by
  apply Fed.loop
  apply bind refl pass
  intro x t events holds
  cases x with
  | inl b' => exact again b' t events holds
  | inr c => exact ended c t events holds

theorem front (trans : ∀ s t u, env s t → env t u → env s u) {p : Prog E R σ α} {u : σ}
    (fed : Fed exec env source p s script Q) (gap : env s u) : Fed exec env source p u script Q := by
  induction fed with
  | pure a post => exact .pure a (fun t move => post t (trans _ _ _ gap move))
  | act f k rest => exact .act f k (fun t move => rest t (trans _ _ _ gap move))
  | call e k other answered rest =>
      exact .call e k other (fun t move => answered t (trans _ _ _ gap move))
        (fun t r x move => rest t r x (trans _ _ _ gap move))
  | hear k r answered rest =>
      exact .hear k r (fun t move => answered t (trans _ _ _ gap move))
        (fun t x move => rest t x (trans _ _ _ gap move))
  | loop body b k _ ih => exact .loop body b k (ih gap)

end Fed
end Atomic.Prog
