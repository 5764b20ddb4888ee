import TelemetryServer.Lib.Trace

/-! Where a run is: in which part of a sequence, and in which pass of a loop. -/

namespace Atomic
namespace Prog

variable {E : Type} {R : E → Type} {σ α β γ : Type} {exec : (e : E) → σ → R e → Option σ}
  {env : σ → σ → Prop} {s t u : σ}

theorem Step.bind_cases {p : Prog E R σ α} {f : α → Prog E R σ β} {q : Prog E R σ β}
    (move : Step exec (p.bind f) s q t) :
    (∃ a, p = .pure a ∧ Step exec (f a) s q t) ∨ ∃ p', Step exec p s p' t ∧ q = p'.bind f := by
  cases p with
  | pure a => exact Or.inl ⟨a, rfl, move⟩
  | act g k =>
      cases move with
      | act => exact Or.inr ⟨_, .act g k s, rfl⟩
  | call e k =>
      cases move with
      | call _ _ _ _ r answer => exact Or.inr ⟨_, .call e k s t r answer, rfl⟩
  | loop body b k =>
      cases move with
      | loop => exact Or.inr ⟨_, .loop body b k s, resume_bind body k f b⟩

/-- A point of `p >>= f` is one of `p`, or one of what follows it. -/
theorem Reach.bind_cases {p : Prog E R σ α} {f : α → Prog E R σ β} {q : Prog E R σ β}
    (run : Reach exec env (p.bind f) s q t) :
    (∃ p', Reach exec env p s p' t ∧ q = p'.bind f) ∨
    ∃ a u, Reach exec env p s (.pure a) u ∧ Reach exec env (f a) u q t := by
  induction run with
  | start => exact Or.inl ⟨p, .start, rfl⟩
  | env _ move ih =>
      rcases ih with ⟨p', run, rfl⟩ | ⟨a, u, first, rest⟩
      · exact Or.inl ⟨p', run.env move, rfl⟩
      · exact Or.inr ⟨a, u, first, rest.env move⟩
  | step _ move ih =>
      rcases ih with ⟨p', run, rfl⟩ | ⟨a, u, first, rest⟩
      · rcases move.bind_cases with ⟨a, rfl, next⟩ | ⟨p'', next, rfl⟩
        · exact Or.inr ⟨a, _, run, Reach.step .start next⟩
        · exact Or.inl ⟨p'', run.step next, rfl⟩
      · exact Or.inr ⟨a, u, first, rest.step move⟩

/-- After `n` finished passes of a loop that began at `b` in `s`, the next pass begins at `c`
in `t`. -/
inductive Turns (exec : (e : E) → σ → R e → Option σ) (env : σ → σ → Prop)
    (body : β → Prog E R σ (β ⊕ γ)) (b : β) (s : σ) : Nat → β → σ → Prop
  | start : Turns exec env body b s 0 b s
  | turn {n : Nat} {c d : β} {t u : σ} : Turns exec env body b s n c t →
      Reach exec env (body c) t (.pure (.inl d)) u → Turns exec env body b s (n + 1) d u

variable {body : β → Prog E R σ (β ⊕ γ)} {b c : β}

/-- What holds where a loop begins, and is kept by each pass, holds where any pass begins. -/
theorem Turns.induct {n : Nat} (I : Nat → β → σ → Prop) (turns : Turns exec env body b s n c t)
    (start : I 0 b s)
    (pass : ∀ n c t d u, I n c t → Reach exec env (body c) t (.pure (.inl d)) u → I (n + 1) d u) :
    I n c t := by
  induction turns with
  | start => exact start
  | turn _ run ih => exact pass _ _ _ _ _ ih run

/-- Every point of a loop lies before or in the pass that follows some finished ones. -/
theorem Reach.turns {q : Prog E R σ γ} (run : Reach exec env (iterate body b) s q t) :
    ∃ n c u p, Turns exec env body b s n c u ∧ Reach exec env (body c) u p t ∧
      (q = iterate body c ∧ p = body c ∨ q = p.bind (resume body .pure)) := by
  induction run with
  | start => exact ⟨0, b, s, body b, .start, .start, Or.inl ⟨rfl, rfl⟩⟩
  | env _ move ih =>
      rcases ih with ⟨n, c, u, p, turns, inside, same⟩
      exact ⟨n, c, u, p, turns, inside.env move, same⟩
  | step _ move ih =>
      rcases ih with ⟨n, c, u, p, turns, inside, ⟨rfl, rfl⟩ | rfl⟩
      · cases move with
        | loop => exact ⟨n, c, u, body c, turns, inside, Or.inr rfl⟩
      · rcases move.bind_cases with ⟨x, rfl, next⟩ | ⟨p', next, rfl⟩
        · cases x with
          | inl d =>
              cases next with
              | loop => exact ⟨n + 1, d, _, body d, turns.turn inside, .start, Or.inr rfl⟩
          | inr c' => cases next
        · exact ⟨n, c, u, p', turns, inside.step next, Or.inr rfl⟩

/-- The calls that are still to come are among those of the whole program. -/
theorem Reach.within {P : E → Prop} {p q : Prog E R σ α} (run : Reach exec env p s q t)
    (only : Within P p) : Within P q := by
  induction run with
  | start => exact only
  | env _ _ ih => exact ih
  | step _ move ih =>
      cases move with
      | act f k _ => exact ih _
      | call e k _ _ r answer => exact ih.2 r
      | loop body b k _ => exact ih.unfold

theorem Reach.moves {A : σ → σ → Prop} {p q : Prog E R σ α} (run : Reach exec env p s q t)
    (moves : Moves A p) : Moves A q := by
  induction run with
  | start => exact moves
  | env _ _ ih => exact ih
  | step _ move ih =>
      cases move with
      | act f k _ => exact ih.2 _
      | call e k _ _ r answer => exact ih r
      | loop body b k _ => exact ih.unfold

section Call

variable {e : E}

theorem Reach.bind_call {p : Prog E R σ α} {f : α → Prog E R σ β} {k : R e → Prog E R σ β}
    (run : Reach exec env (p.bind f) s (.call e k) t) :
    (∃ k', Reach exec env p s (.call e k') t ∧ k = fun r => (k' r).bind f) ∨
    ∃ a u, Reach exec env p s (.pure a) u ∧ Reach exec env (f a) u (.call e k) t := by
  rcases run.bind_cases with ⟨p', first, same⟩ | rest
  · cases p' with
    | pure a => exact Or.inr ⟨a, t, first, same ▸ .start⟩
    | act g k' => cases same
    | call e' k' =>
        cases same
        exact Or.inl ⟨k', first, rfl⟩
    | loop body b k' => cases same
  · exact Or.inr rest

/-- A program that does not make the call has ended before it. -/
theorem Reach.past {P : E → Prop} {p : Prog E R σ α} {f : α → Prog E R σ β} {k : R e → Prog E R σ β}
    (run : Reach exec env (p.bind f) s (.call e k) t) (only : Within P p) (other : ¬ P e) :
    ∃ a u, Reach exec env p s (.pure a) u ∧ Reach exec env (f a) u (.call e k) t := by
  rcases run.bind_call with ⟨k', inside, _⟩ | rest
  · exact absurd (inside.within only).1 other
  · exact rest

/-- What does not make the call has not begun. -/
theorem Reach.inside {P : E → Prop} {p : Prog E R σ α} {f : α → Prog E R σ β}
    {k : R e → Prog E R σ β} (run : Reach exec env (p.bind f) s (.call e k) t)
    (only : ∀ a, Within P (f a)) (other : ¬ P e) :
    ∃ k', Reach exec env p s (.call e k') t ∧ k = fun r => (k' r).bind f := by
  rcases run.bind_call with inside | ⟨a, u, _, rest⟩
  · exact inside
  · exact absurd (rest.within (only a)).1 other

theorem Reach.call_cases {f : R e → Prog E R σ α} {q : Prog E R σ α}
    (run : Reach exec env (.call e f) s q t) :
    q = .call e f ∨ ∃ r u v, exec e u r = some v ∧ Reach exec env (f r) v q t := by
  induction run with
  | start => exact Or.inl rfl
  | env _ move ih =>
      rcases ih with same | ⟨r, u, v, answer, rest⟩
      · exact Or.inl same
      · exact Or.inr ⟨r, u, v, answer, rest.env move⟩
  | step _ move ih =>
      rcases ih with rfl | ⟨r, u, v, answer, rest⟩
      · cases move with
        | call _ _ _ _ r answer => exact Or.inr ⟨r, _, _, answer, .start⟩
      · exact Or.inr ⟨r, u, v, answer, rest.step move⟩

theorem Reach.loop_call {k : R e → Prog E R σ γ}
    (run : Reach exec env (iterate body b) s (.call e k) t) :
    ∃ n c u k', Turns exec env body b s n c u ∧ Reach exec env (body c) u (.call e k') t ∧
      k = fun r => (k' r).bind (resume body .pure) := by
  rcases run.turns with ⟨n, c, u, p, turns, inside, ⟨wrong, _⟩ | same⟩
  · cases wrong
  · cases p with
    | pure x =>
        cases x with
        | inl d => cases same
        | inr c' => cases same
    | act g k' => cases same
    | call e' k' =>
        cases same
        exact ⟨n, c, u, k', turns, inside, rfl⟩
    | loop body' b' k' => cases same

theorem Calls.bind {p : Prog E R σ α} (calls : p.Calls e) (f : α → Prog E R σ β) :
    (p.bind f).Calls e := by
  rcases calls with ⟨k, rfl⟩
  exact ⟨_, rfl⟩

/-- What comes to be in a run comes to be at one of its calls. -/
theorem Reach.crossed {D : σ → Prop} {A : σ → σ → Prop} {p q : Prog E R σ α}
    (run : Reach exec env p s q t) (moves : Moves A p) (before : ¬ D s) (after : D t)
    (others : ∀ {u v}, env u v → D v → D u) (acts : ∀ {u v}, A u v → D v → D u) :
    ∃ e k r u v, Reach exec env p s (.call e k) u ∧ exec e u r = some v ∧ ¬ D u ∧ D v := by
  induction run with
  | start => exact absurd after before
  | env _ move ih => exact ih (others move after)
  | @step q q' t t' first move ih =>
      by_cases here : D t
      · exact ih here
      · cases move with
        | act f k _ => exact absurd (acts ((first.moves moves).1 t) after) here
        | call e k _ _ r answer => exact ⟨e, k, r, t, t', first, answer, here, after⟩
        | loop body b k _ => exact absurd after here

end Call

abbrev Alone (exec : (e : E) → σ → R e → Option σ) (p : Prog E R σ α) (s : σ) (q : Prog E R σ α)
    (t : σ) : Prop :=
  Reach exec (fun _ _ => False) p s q t

theorem Step.trace {p q : Prog E R σ α} {events : List (Event σ R)} {a : α}
    (move : Step exec p s q t) (run : Trace exec q t events a u) :
    ∃ events', Trace exec p s events' a u := by
  cases move with
  | act f k _ => exact ⟨events, .act f k run⟩
  | call e k _ _ r answer => exact ⟨⟨s, e, r⟩ :: events, .call e k answer run⟩
  | loop body b k _ => exact ⟨events, .loop body b k run⟩

theorem Alone.trace {p : Prog E R σ α} {a : α} (run : Alone exec p s (.pure a) t) :
    ∃ events, Trace exec p s events a t := by
  suffices general : ∀ q t, Alone exec p s q t → ∀ events a u, Trace exec q t events a u →
      ∃ events', Trace exec p s events' a u from general _ t run [] a t (.pure a t)
  intro q t run
  induction run with
  | start => exact fun events a u rest => ⟨events, rest⟩
  | env _ move _ => exact move.elim
  | step _ move ih =>
      intro events a u rest
      rcases move.trace rest with ⟨events', longer⟩
      exact ih events' a u longer

end Prog
end Atomic
