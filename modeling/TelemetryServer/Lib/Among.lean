import TelemetryServer.Lib.Logic

namespace Atomic

/-- A call, the state it was made in, and its answer. -/
structure Event (σ : Type) {E : Type} (R : E → Type) where
  before : σ
  call : E
  answer : R call

namespace Prog

variable {E : Type} {R : E → Type} {σ α β γ : Type}

/-- A run of `p` from `s` that goes through `events` and ends in `t` with answer `a`, while
the others move by `env` before each of its steps and after the last one. -/
inductive Among (exec : (e : E) → σ → R e → Option σ) (env : σ → σ → Prop) :
    Prog E R σ α → σ → List (Event σ R) → α → σ → Prop
  | pure (a : α) {s t : σ} (gap : env s t) : Among exec env (.pure a) s [] a t
  | act {β : Type} (f : σ → β × σ) (k : β → Prog E R σ α) {s s' t : σ} {events : List (Event σ R)}
      {a : α} (gap : env s s') (rest : Among exec env (k (f s').1) (f s').2 events a t) :
      Among exec env (.act f k) s events a t
  | call (e : E) (k : R e → Prog E R σ α) {s s' t u : σ} {r : R e} {events : List (Event σ R)}
      {a : α} (gap : env s s') (answer : exec e s' r = some u)
      (rest : Among exec env (k r) u events a t) :
      Among exec env (.call e k) s (⟨s', e, r⟩ :: events) a t
  | loop {β γ : Type} (body : β → Prog E R σ (β ⊕ γ)) (b : β) (k : γ → Prog E R σ α) {s t : σ}
      {events : List (Event σ R)} {a : α}
      (rest : Among exec env ((body b).bind (resume body k)) s events a t) :
      Among exec env (.loop body b k) s events a t

variable {exec : (e : E) → σ → R e → Option σ} {env : σ → σ → Prop} {s t u : σ}
  {events : List (Event σ R)} {a : α}

theorem resume_bind (body : β → Prog E R σ (β ⊕ γ)) {δ : Type} (k : γ → Prog E R σ δ)
    (f : δ → Prog E R σ α) (b : β) : (body b).bind (resume body fun c => (k c).bind f) =
      ((body b).bind (resume body k)).bind f := by
  rw [bind_assoc]
  congr 1
  funext x
  cases x <;> rfl

namespace Among

theorem reach {p : Prog E R σ α} (run : Among exec env p s events a t) :
    Reach exec env p s (.pure a) t := by
  induction run with
  | pure a gap => exact Reach.env .start gap
  | act f k gap _ ih => exact Reach.trans (Reach.step (Reach.env .start gap) (.act f k _)) ih
  | call e k gap answer _ ih =>
      exact Reach.trans (Reach.step (Reach.env .start gap) (.call e k _ _ _ answer)) ih
  | loop body b k _ ih => exact Reach.trans (Reach.step .start (.loop body b k _)) ih

theorem post {L : Logic exec} {p : Prog E R σ α} {Q : α → σ → Prop}
    (run : Among exec L.rely p s events a t) (keep : L.inv s) (holds : L.wp p Q s) :
    L.inv t ∧ Q a t := by
  have done := Logic.wp_reach keep holds (fun move => move) run.reach
  exact ⟨done.1, Logic.wp_post done.1 done.2⟩

theorem weaken {env' : σ → σ → Prop} {p : Prog E R σ α} (run : Among exec env p s events a t)
    (freer : ∀ {s t}, env s t → env' s t) : Among exec env' p s events a t := by
  induction run with
  | pure a gap => exact .pure a (freer gap)
  | act f k gap _ ih => exact .act f k (freer gap) ih
  | call e k gap answer _ ih => exact .call e k (freer gap) answer ih
  | loop body b k _ ih => exact .loop body b k ih

theorem front (trans : ∀ s t u, env s t → env t u → env s u) {p : Prog E R σ α}
    (gap : env s u) (run : Among exec env p u events a t) : Among exec env p s events a t := by
  induction run generalizing s with
  | pure a gap' => exact .pure a (trans _ _ _ gap gap')
  | act f k gap' rest => exact .act f k (trans _ _ _ gap gap') rest
  | call e k gap' answer rest => exact .call e k (trans _ _ _ gap gap') answer rest
  | loop body b k _ ih => exact .loop body b k (ih gap)

theorem split (refl : ∀ s, env s s) {p : Prog E R σ β} {f : β → Prog E R σ α}
    (run : Among exec env (p.bind f) s events a t) :
    ∃ b u first rest, Among exec env p s first b u ∧ Among exec env (f b) u rest a t ∧
      events = first ++ rest := by
  generalize whole : p.bind f = q at run
  induction run generalizing p with
  | @pure a s t gap =>
      cases p with
      | pure b =>
          change f b = .pure a at whole
          exact ⟨b, s, [], [], .pure b (refl s), whole ▸ .pure a gap, rfl⟩
      | act g k => cases whole
      | call e k => cases whole
      | loop body c k => cases whole
  | @act β f' k' s s' t events a gap rest ih =>
      cases p with
      | pure b =>
          change f b = .act f' k' at whole
          exact ⟨b, s, [], events, .pure b (refl s), whole ▸ .act f' k' gap rest, rfl⟩
      | act g k =>
          cases whole
          rcases ih rfl with ⟨b, u, first, last, run, next, same⟩
          exact ⟨b, u, first, last, .act f' k gap run, next, same⟩
      | call e k => cases whole
      | loop body c k => cases whole
  | @call e' k' s s' t u r events a gap answer rest ih =>
      cases p with
      | pure b =>
          change f b = .call e' k' at whole
          exact ⟨b, s, [], _, .pure b (refl s), whole ▸ .call e' k' gap answer rest, rfl⟩
      | act g k => cases whole
      | call e k =>
          cases whole
          rcases ih rfl with ⟨b, u, first, last, run, next, same⟩
          exact ⟨b, u, _ :: first, last, .call e' k gap answer run, next, by rw [same]; rfl⟩
      | loop body c k => cases whole
  | @loop β' γ' body' b' k' s t events a rest ih =>
      cases p with
      | pure b =>
          change f b = .loop body' b' k' at whole
          exact ⟨b, s, [], events, .pure b (refl s), whole ▸ .loop body' b' k' rest, rfl⟩
      | act g k => cases whole
      | call e k => cases whole
      | loop body c k =>
          cases whole
          rcases ih (resume_bind body' k f b').symm with ⟨b, u, first, last, run, next, eq⟩
          exact ⟨b, u, first, last, .loop body' b' k run, next, eq⟩

theorem seq (trans : ∀ s t u, env s t → env t u → env s u) {p : Prog E R σ β}
    {f : β → Prog E R σ α} {b : β} {first rest : List (Event σ R)}
    (run : Among exec env p s first b u) (next : Among exec env (f b) u rest a t) :
    Among exec env (p.bind f) s (first ++ rest) a t := by
  induction run with
  | pure b gap => exact front trans gap next
  | act g k gap _ ih => exact .act g (fun b => (k b).bind f) gap (ih next)
  | call e k gap answer _ ih => exact .call e (fun r => (k r).bind f) gap answer (ih next)
  | loop body c k _ ih =>
      apply Among.loop
      rw [resume_bind]
      exact ih next

/-- The invariant rule for a loop that has ended. -/
theorem iterate_induct (refl : ∀ s, env s s) {body : β → Prog E R σ (β ⊕ γ)} {b : β} {c : γ}
    (I : β → σ → List (Event σ R) → Prop) {Q : γ → σ → List (Event σ R) → Prop}
    (run : Among exec env (iterate body b) s events c t) (start : I b s [])
    (pass : ∀ b s seen events x t, I b s seen → Among exec env (body b) s events x t →
      x.elim (fun b' => I b' t (seen ++ events)) (fun c => Q c t (seen ++ events))) :
    Q c t events := by
  -- `p` is what is left of the pass that began in `s₀`, after the events `passed`
  suffices general : ∀ (q : Prog E R σ γ) s events c t, Among exec env q s events c t →
      ∀ (p : Prog E R σ (β ⊕ γ)) b₀ s₀ seen passed, q = p.bind (resume body .pure) → I b₀ s₀ seen →
        (∀ x u rest, Among exec env p s rest x u →
          Among exec env (body b₀) s₀ (passed ++ rest) x u) →
        Q c t (seen ++ passed ++ events) by
    cases run with
    | loop _ _ _ rest =>
        exact general _ _ _ _ _ rest (body b) b s [] [] rfl start (fun _ _ _ tail => tail)
  intro q s events c t run
  induction run with
  | @pure c s t gap =>
      intro p b₀ s₀ seen passed whole inside extend
      cases p with
      | pure x =>
          cases x with
          | inl b' => cases whole
          | inr d =>
              cases whole
              rw [List.append_assoc]
              exact pass _ _ _ _ (.inr _) _ inside (extend _ _ [] (.pure _ gap))
      | act g k => cases whole
      | call e k => cases whole
      | loop body' b' k => cases whole
  | @act β' f k s s' t events c gap rest ih =>
      intro p b₀ s₀ seen passed whole inside extend
      cases p with
      | pure x => cases x <;> cases whole
      | act g k' =>
          cases whole
          exact ih _ b₀ s₀ seen passed rfl inside
            (fun x u tail run => extend x u tail (.act f k' gap run))
      | call e k' => cases whole
      | loop body' b' k' => cases whole
  | @call e k s s' t u r events c gap answer rest ih =>
      intro p b₀ s₀ seen passed whole inside extend
      cases p with
      | pure x => cases x <;> cases whole
      | act g k' => cases whole
      | call e' k' =>
          cases whole
          have step := ih (k' r) b₀ s₀ seen (passed ++ [⟨s', e, r⟩]) rfl inside
            (fun x u tail run => by
              rw [List.append_assoc]
              exact extend x u _ (.call e k' gap answer run))
          simpa using step
      | loop body' b' k' => cases whole
  | @loop β' γ' body' b' k s t events c rest ih =>
      intro p b₀ s₀ seen passed whole inside extend
      cases p with
      | pure x =>
          have before := extend x s [] (.pure x (refl s))
          rw [List.append_nil] at before
          cases x with
          | inl b'' =>
              cases whole
              have next := pass _ _ _ _ (.inl b'') _ inside before
              have step := ih (body b'') b'' s (seen ++ passed) [] rfl next (fun _ _ _ tail => tail)
              rwa [List.append_nil] at step
          | inr d => cases whole
      | act g k' => cases whole
      | call e k' => cases whole
      | loop body'' b'' k' =>
          cases whole
          exact ih _ b₀ s₀ seen passed (resume_bind body' k' (resume body .pure) b') inside
            (fun x u tail run => extend x u tail (.loop body' b' k' run))

end Among

def Within (P : E → Prop) : {α : Type} → Prog E R σ α → Prop
  | _, .pure _ => True
  | _, .act _ k => ∀ b, Within P (k b)
  | _, .call e k => P e ∧ ∀ r, Within P (k r)
  | _, .loop body _ k => (∀ b, Within P (body b)) ∧ ∀ c, Within P (k c)

namespace Within

variable {P : E → Prop}

theorem bind {p : Prog E R σ α} {f : α → Prog E R σ β} (first : Within P p)
    (rest : ∀ a, Within P (f a)) : Within P (p >>= f) := by
  induction p with
  | pure a => exact rest a
  | act g k ih => exact fun b => ih b (first b) rest
  | call e k ih => exact ⟨first.1, fun r => ih r (first.2 r) rest⟩
  | loop body b k _ ih => exact ⟨first.1, fun c => ih c (first.2 c) rest⟩

theorem mono {P' : E → Prop} {p : Prog E R σ α} (within : Within P p) (more : ∀ e, P e → P' e) :
    Within P' p := by
  induction p with
  | pure a => trivial
  | act g k ih => exact fun b => ih b (within b)
  | call e k ih => exact ⟨more e within.1, fun r => ih r (within.2 r)⟩
  | loop body b k ihBody ih => exact ⟨fun b => ihBody b (within.1 b), fun c => ih c (within.2 c)⟩

theorem iterate {body : β → Prog E R σ (β ⊕ γ)} {b : β} (pass : ∀ b, Within P (body b)) :
    Within P (Prog.iterate body b) :=
  ⟨pass, fun _ => trivial⟩

theorem unfold {body : β → Prog E R σ (β ⊕ γ)} {b : β} {k : γ → Prog E R σ α}
    (within : Within P (.loop body b k)) : Within P ((body b).bind (resume body k)) := by
  apply bind (within.1 b)
  intro x
  cases x with
  | inl b' => exact within
  | inr c => exact within.2 c

end Within

def Moves (A : σ → σ → Prop) : {α : Type} → Prog E R σ α → Prop
  | _, .pure _ => True
  | _, .act f k => (∀ s, A s (f s).2) ∧ ∀ b, Moves A (k b)
  | _, .call _ k => ∀ r, Moves A (k r)
  | _, .loop body _ k => (∀ b, Moves A (body b)) ∧ ∀ c, Moves A (k c)

namespace Moves

variable {A : σ → σ → Prop}

theorem bind {p : Prog E R σ α} {f : α → Prog E R σ β} (first : Moves A p)
    (rest : ∀ a, Moves A (f a)) : Moves A (p >>= f) := by
  induction p with
  | pure a => exact rest a
  | act g k ih => exact ⟨first.1, fun b => ih b (first.2 b) rest⟩
  | call e k ih => exact fun r => ih r (first r) rest
  | loop body b k _ ih => exact ⟨first.1, fun c => ih c (first.2 c) rest⟩

theorem iterate {body : β → Prog E R σ (β ⊕ γ)} {b : β} (pass : ∀ b, Moves A (body b)) :
    Moves A (Prog.iterate body b) :=
  ⟨pass, fun _ => trivial⟩

theorem unfold {body : β → Prog E R σ (β ⊕ γ)} {b : β} {k : γ → Prog E R σ α}
    (moves : Moves A (.loop body b k)) : Moves A ((body b).bind (resume body k)) := by
  apply bind (moves.1 b)
  intro x
  cases x with
  | inl b' => exact moves
  | inr c => exact moves.2 c

end Moves

namespace Among

theorem within {P : E → Prop} {p : Prog E R σ α} (run : Among exec env p s events a t)
    (only : Within P p) : ∀ event ∈ events, P event.call := by
  induction run with
  | pure a gap =>
      intro event member
      cases member
  | act f k _ _ ih => exact ih (only _)
  | call e k _ _ _ ih =>
      intro event member
      rcases List.mem_cons.mp member with rfl | later
      · exact only.1
      · exact ih (only.2 _) event later
  | loop body b k _ ih => exact ih only.unfold

/-- What every step and every move of the others does is done by the whole run. -/
theorem closed {C : σ → List (Event σ R) → σ → Prop} {A : σ → σ → Prop} {P : E → Prop}
    (others : ∀ {s t}, env s t → C s [] t) (acts : ∀ {s t}, A s t → C s [] t)
    (calls : ∀ {e s r t}, P e → exec e s r = some t → C s [⟨s, e, r⟩] t)
    (further : ∀ {s t u first rest}, C s first t → C t rest u → C s (first ++ rest) u)
    {p : Prog E R σ α} (run : Among exec env p s events a t) (moves : Moves A p)
    (only : Within P p) : C s events t := by
  induction run with
  | pure a gap => exact others gap
  | act f k gap _ ih =>
      exact further (further (others gap) (acts (moves.1 _))) (ih (moves.2 _) (only _))
  | call e k gap answer _ ih =>
      exact further (further (others gap) (calls only.1 answer)) (ih (moves _) (only.2 _))
  | loop body b k _ ih => exact ih moves.unfold only.unfold

end Among

end Prog

/-- What every step of a program of known calls does, it does as a whole. -/
theorem Logic.wp_within {E : Type} {R : E → Type} {σ α : Type} {exec : (e : E) → σ → R e → Option σ}
    {s : σ} {L : Logic exec} {C A : σ → σ → Prop} {P : E → Prop}
    (further : ∀ {s t u}, C s t → C t u → C s u) (others : ∀ {s t}, L.rely s t → C s t)
    (acts : ∀ {s t}, L.inv s → A s t → L.inv t ∧ L.guar s t ∧ C s t)
    (calls : ∀ {s e}, L.inv s → P e → L.pre e s ∧
      ∀ r t, exec e s r = some t → L.inv t ∧ L.guar s t ∧ C s t)
    {p : Prog E R σ α} (only : Prog.Within P p) (moves : Prog.Moves A p) :
    L.wp p (fun _ t => C s t) s := by
  suffices general : ∀ t, C s t → L.wp p (fun _ u => C s u) t from
    general s (others (L.rely_refl s))
  induction p with
  | pure a => exact fun t here u move _ => further here (others move)
  | act f k ih =>
      intro t here u move keep
      rcases acts keep (moves.1 u) with ⟨after, granted, step⟩
      exact ⟨after, granted, ih _ (only _) (moves.2 _) _ (further (further here (others move)) step)⟩
  | call e k ih =>
      intro t here u move keep
      rcases calls keep only.1 with ⟨before, answers⟩
      refine ⟨before, ?_⟩
      intro r x answer
      rcases answers r x answer with ⟨after, granted, step⟩
      exact ⟨after, granted, ih _ (only.2 _) (moves _) _ (further (further here (others move)) step)⟩
  | loop body b k ihBody ihRest =>
      intro t here
      refine ⟨fun _ u => C s u, fun u move _ => further here (others move), ?_⟩
      intro b' u _ inside
      apply Logic.wp_mono (ihBody b' (only.1 b') (moves.1 b') u inside)
      intro x v _ holds
      cases x with
      | inl b'' => exact holds
      | inr c => exact ihRest c (only.2 c) (moves.2 c) v holds

/-- The same assertions about programs that make calls of `P` only. -/
def Logic.only {E : Type} {R : E → Type} {σ : Type} {exec : (e : E) → σ → R e → Option σ}
    (L : Logic exec) (P : E → Prop) : Logic exec where
  inv := L.inv
  rely := L.rely
  guar := L.guar
  pre := fun e s => L.pre e s ∧ P e
  rely_refl := L.rely_refl
  rely_trans := L.rely_trans
  rely_inv := L.rely_inv
  guar_refl := L.guar_refl

theorem Logic.wp_only {E : Type} {R : E → Type} {σ α : Type} {exec : (e : E) → σ → R e → Option σ}
    {s : σ} {L : Logic exec} {P : E → Prop} {p : Prog E R σ α} {Q : α → σ → Prop}
    (within : Prog.Within P p) (holds : L.wp p Q s) : (L.only P).wp p Q s := by
  induction p generalizing s with
  | pure a => exact holds
  | act f k ih =>
      intro t move keep
      rcases holds t move keep with ⟨after, granted, rest⟩
      exact ⟨after, granted, ih _ (within _) rest⟩
  | call e k ih =>
      intro t move keep
      rcases holds t move keep with ⟨before, later⟩
      refine ⟨⟨before, within.1⟩, fun r u answer => ?_⟩
      rcases later r u answer with ⟨after, granted, rest⟩
      exact ⟨after, granted, ih r (within.2 r) rest⟩
  | loop body b k ihBody ihRest =>
      rcases holds with ⟨I, first, pass⟩
      refine ⟨I, first, fun b' t keep inside => ?_⟩
      apply Logic.wp_mono (ihBody b' (within.1 b') (pass b' t keep inside))
      intro x u _ result
      cases x with
      | inl b'' => exact result
      | inr c => exact ihRest c (within.2 c) result

end Atomic
