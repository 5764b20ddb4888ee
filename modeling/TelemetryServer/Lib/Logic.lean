import TelemetryServer.Lib.Prog

/-! Rely-guarantee weakest preconditions for atomic-step programs.

A logic fixes what always holds (`inv`), what the others may do between two steps (`rely`),
what each own step must respect (`guar`) and what must be true before a call (`pre`). -/

namespace Atomic

variable {E : Type} {R : E → Type} {σ α β γ : Type} {exec : (e : E) → σ → R e → Option σ}

structure Logic (exec : (e : E) → σ → R e → Option σ) where
  inv : σ → Prop
  rely : σ → σ → Prop
  guar : σ → σ → Prop
  pre : E → σ → Prop
  rely_refl : ∀ s, rely s s
  rely_trans : ∀ {s t u}, rely s t → rely t u → rely s u
  rely_inv : ∀ {s t}, rely s t → inv s → inv t
  guar_refl : ∀ s, guar s s

namespace Logic

variable (L : Logic exec)

/-- From `s`, every run of `p` among steps of `rely` keeps `inv`, `guar` and `pre`, and
ends only in states of `Q`. A loop is covered by some invariant of its passes. -/
def wp : {α : Type} → Prog E R σ α → (α → σ → Prop) → σ → Prop
  | _, .pure a, Q, s => ∀ t, L.rely s t → L.inv t → Q a t
  | _, .act f k, Q, s => ∀ t, L.rely s t → L.inv t →
      L.inv (f t).2 ∧ L.guar t (f t).2 ∧ wp (k (f t).1) Q (f t).2
  | _, .call e k, Q, s => ∀ t, L.rely s t → L.inv t → L.pre e t ∧
      ∀ r u, exec e t r = some u → L.inv u ∧ L.guar t u ∧ wp (k r) Q u
  | _, .loop (β := β) body b k, Q, s => ∃ I : β → σ → Prop,
      (∀ t, L.rely s t → L.inv t → I b t) ∧
      ∀ b' t, L.inv t → I b' t → wp (body b') (fun x u => match x with
        | .inl b'' => I b'' u
        | .inr c => wp (k c) Q u) t

variable {L} {p : Prog E R σ α} {Q Q' : α → σ → Prop} {s t : σ}

theorem wp_rely (holds : L.wp p Q s) (move : L.rely s t) : L.wp p Q t := by
  cases p with
  | pure a => exact fun u later keep => holds u (L.rely_trans move later) keep
  | act f k => exact fun u later keep => holds u (L.rely_trans move later) keep
  | call e k => exact fun u later keep => holds u (L.rely_trans move later) keep
  | loop body b k =>
      obtain ⟨I, first, pass⟩ := holds
      exact ⟨I, fun u later keep => first u (L.rely_trans move later) keep, pass⟩

theorem wp_mono (holds : L.wp p Q s) (weaker : ∀ a t, L.inv t → Q a t → Q' a t) :
    L.wp p Q' s := by
  induction p generalizing s with
  | pure a => exact fun t move keep => weaker a t keep (holds t move keep)
  | act f k ih =>
      intro t move keep
      obtain ⟨after, granted, rest⟩ := holds t move keep
      exact ⟨after, granted, ih _ rest weaker⟩
  | call e k ih =>
      intro t move keep
      obtain ⟨before, answers⟩ := holds t move keep
      refine ⟨before, fun r u answer => ?_⟩
      obtain ⟨after, granted, rest⟩ := answers r u answer
      exact ⟨after, granted, ih _ rest weaker⟩
  | loop body b k ihBody ihRest =>
      obtain ⟨I, first, pass⟩ := holds
      refine ⟨I, first, fun b' t keep inside => ihBody b' (pass b' t keep inside) ?_⟩
      rintro (b'' | c) u keep' result
      · exact result
      · exact ihRest c result weaker

/-- A postcondition may be taken up to later steps of the others. -/
theorem wp_stable (holds : L.wp p Q s) :
    L.wp p (fun a t => ∀ u, L.rely t u → L.inv u → Q a u) s := by
  induction p generalizing s with
  | pure a => exact fun t move _ u later keep => holds u (L.rely_trans move later) keep
  | act f k ih =>
      intro t move keep
      obtain ⟨after, granted, rest⟩ := holds t move keep
      exact ⟨after, granted, ih _ rest⟩
  | call e k ih =>
      intro t move keep
      obtain ⟨before, answers⟩ := holds t move keep
      refine ⟨before, fun r u answer => ?_⟩
      obtain ⟨after, granted, rest⟩ := answers r u answer
      exact ⟨after, granted, ih _ rest⟩
  | loop body b k _ ihRest =>
      obtain ⟨I, first, pass⟩ := holds
      refine ⟨I, first, fun b' t keep inside => wp_mono (pass b' t keep inside) ?_⟩
      rintro (b'' | c) u _ result
      · exact result
      · exact ihRest c result

theorem wp_bind {f : α → Prog E R σ β} {Q : β → σ → Prop} (keep : L.inv s)
    (holds : L.wp p (fun a t => L.wp (f a) Q t) s) : L.wp (p.bind f) Q s := by
  induction p generalizing s with
  | pure a => exact holds s (L.rely_refl s) keep
  | act g k ih =>
      intro t move keep'
      obtain ⟨after, granted, rest⟩ := holds t move keep'
      exact ⟨after, granted, ih _ after rest⟩
  | call e k ih =>
      intro t move keep'
      obtain ⟨before, answers⟩ := holds t move keep'
      refine ⟨before, fun r u answer => ?_⟩
      obtain ⟨after, granted, rest⟩ := answers r u answer
      exact ⟨after, granted, ih _ after rest⟩
  | loop body b k _ ihRest =>
      obtain ⟨I, first, pass⟩ := holds
      refine ⟨I, first, fun b' t keep' inside => wp_mono (pass b' t keep' inside) ?_⟩
      rintro (b'' | c) u keep'' result
      · exact result
      · exact ihRest c keep'' result

/-- A logic that relies on more, grants less and asks for less covers as much. -/
theorem wp_weaken {L M : Logic exec} {Q : α → σ → Prop} (inv : ∀ {s}, L.inv s ↔ M.inv s)
    (rely : ∀ {s t}, M.rely s t → L.rely s t) (guar : ∀ {s t}, L.guar s t → M.guar s t)
    (pre : ∀ {e s}, L.pre e s → M.pre e s) (holds : L.wp p Q s) : M.wp p Q s := by
  induction p generalizing s with
  | pure a => exact fun t move keep => holds t (rely move) (inv.mpr keep)
  | act f k ih =>
      intro t move keep
      obtain ⟨after, granted, rest⟩ := holds t (rely move) (inv.mpr keep)
      exact ⟨inv.mp after, guar granted, ih _ rest⟩
  | call e k ih =>
      intro t move keep
      obtain ⟨before, answers⟩ := holds t (rely move) (inv.mpr keep)
      refine ⟨pre before, fun r u answer => ?_⟩
      obtain ⟨after, granted, rest⟩ := answers r u answer
      exact ⟨inv.mp after, guar granted, ih _ rest⟩
  | loop body b k ihBody ihRest =>
      obtain ⟨I, first, pass⟩ := holds
      refine ⟨I, fun t move keep => first t (rely move) (inv.mpr keep), fun b' t keep inside => ?_⟩
      apply wp_mono (ihBody b' (pass b' t (inv.mpr keep) inside))
      rintro (b'' | c) u _ result
      · exact result
      · exact ihRest c result

/-- What each own step grants and each step of the others is, the whole of both is. -/
theorem wp_closed {C : σ → σ → Prop} (here : ∀ s, C s s) (further : ∀ {s t u}, C s t → C t u → C s u)
    (own : ∀ {s t}, L.guar s t → C s t) (others : ∀ {s t}, L.rely s t → C s t)
    (holds : L.wp p Q s) : L.wp p (fun a t => Q a t ∧ C s t) s := by
  suffices general : ∀ {t}, L.wp p Q t → C s t → L.wp p (fun a u => Q a u ∧ C s u) t from
    general holds (here s)
  clear holds
  induction p with
  | pure a => exact fun holds past u move keep => ⟨holds u move keep, further past (others move)⟩
  | act f k ih =>
      intro t holds past u move keep
      obtain ⟨after, granted, rest⟩ := holds u move keep
      exact ⟨after, granted, ih _ rest (further (further past (others move)) (own granted))⟩
  | call e k ih =>
      intro t holds past u move keep
      obtain ⟨before, answers⟩ := holds u move keep
      refine ⟨before, fun r v answer => ?_⟩
      obtain ⟨after, granted, rest⟩ := answers r v answer
      exact ⟨after, granted, ih _ rest (further (further past (others move)) (own granted))⟩
  | loop body b k ihBody ihRest =>
      intro t holds past
      obtain ⟨I, first, pass⟩ := holds
      refine ⟨fun b' u => I b' u ∧ C s u,
        fun u move keep => ⟨first u move keep, further past (others move)⟩, ?_⟩
      intro b' u keep inside
      apply wp_mono (ihBody b' (pass b' u keep inside.1) inside.2)
      rintro (b'' | c) v _ result
      · exact result
      · exact ihRest c result.1 result.2

theorem wp_and {L M : Logic exec} {Q Q' : α → σ → Prop} (inv : ∀ {s}, L.inv s → M.inv s)
    (rely : ∀ {s t}, L.rely s t → M.rely s t) (holds : L.wp p Q s) (other : M.wp p Q' s) :
    L.wp p (fun a t => Q a t ∧ Q' a t) s := by
  induction p generalizing s with
  | pure a => exact fun t move keep => ⟨holds t move keep, other t (rely move) (inv keep)⟩
  | act f k ih =>
      intro t move keep
      obtain ⟨after, granted, rest⟩ := holds t move keep
      exact ⟨after, granted, ih _ rest (other t (rely move) (inv keep)).2.2⟩
  | call e k ih =>
      intro t move keep
      obtain ⟨before, answers⟩ := holds t move keep
      refine ⟨before, fun r u answer => ?_⟩
      obtain ⟨after, granted, rest⟩ := answers r u answer
      exact ⟨after, granted, ih _ rest ((other t (rely move) (inv keep)).2 r u answer).2.2⟩
  | loop body b k ihBody ihRest =>
      obtain ⟨I, first, pass⟩ := holds
      obtain ⟨I', first', pass'⟩ := other
      refine ⟨fun b' t => I b' t ∧ I' b' t,
        fun t move keep => ⟨first t move keep, first' t (rely move) (inv keep)⟩, ?_⟩
      intro b' t keep inside
      apply wp_mono (ihBody b' (pass b' t keep inside.1) (pass' b' t (inv keep) inside.2))
      rintro (b'' | c) u _ result
      · exact result
      · exact ihRest c result.1 result.2

theorem wp_seq {f : α → Prog E R σ β} {Q : β → σ → Prop} {P : α → σ → Prop} (keep : L.inv s)
    (first : L.wp p P s) (rest : ∀ a t, L.inv t → P a t → L.wp (f a) Q t) :
    L.wp (p >>= f) Q s :=
  wp_bind keep (wp_mono first rest)

theorem wp_iterate {body : β → Prog E R σ (β ⊕ γ)} {b : β} {Q : γ → σ → Prop}
    (I : β → σ → Prop) (stable : ∀ t, L.rely s t → L.inv t → I b t)
    (pass : ∀ b' t, L.inv t → I b' t → L.wp (body b') (fun x u => match x with
      | .inl b'' => I b'' u
      | .inr c => Q c u) t) :
    L.wp (Prog.iterate body b) Q s := by
  refine ⟨I, stable, fun b' t keep inside => wp_mono (wp_stable (pass b' t keep inside)) ?_⟩
  rintro (b'' | c) u keep' result
  · exact result u (L.rely_refl u) keep'
  · exact fun v move keep'' => result v move keep''

/-- One own step keeps the invariant, respects the guarantee and leaves the rest covered. -/
theorem wp_step {q : Prog E R σ α} (keep : L.inv s) (holds : L.wp p Q s)
    (move : Prog.Step exec p s q t) : L.inv t ∧ L.guar s t ∧ L.wp q Q t := by
  cases move with
  | act f k => exact holds s (L.rely_refl s) keep
  | call e k _ _ r answer => exact (holds s (L.rely_refl s) keep).2 r t answer
  | loop body b k =>
      obtain ⟨I, first, pass⟩ := holds
      have inside := pass b s keep (first s (L.rely_refl s) keep)
      refine ⟨keep, L.guar_refl s, wp_bind keep (wp_mono (wp_stable inside) ?_)⟩
      rintro (b' | c) u keep' result
      · exact ⟨I, result, pass⟩
      · exact result u (L.rely_refl u) keep'

theorem wp_pre {e : E} (keep : L.inv s) (holds : L.wp p Q s) (next : p.Calls e) : L.pre e s := by
  rcases next with ⟨k, rfl⟩
  exact (holds s (L.rely_refl s) keep).1

theorem wp_post {a : α} (keep : L.inv s) (holds : L.wp (.pure a) Q s) : Q a s :=
  holds s (L.rely_refl s) keep

theorem wp_reach {env : σ → σ → Prop} {q : Prog E R σ α} (keep : L.inv s) (holds : L.wp p Q s)
    (allowed : ∀ {s t}, env s t → L.rely s t) (run : Prog.Reach exec env p s q t) :
    L.inv t ∧ L.wp q Q t := by
  induction run with
  | start => exact ⟨keep, holds⟩
  | step _ move ih =>
      obtain ⟨after, _, rest⟩ := wp_step ih.1 ih.2 move
      exact ⟨after, rest⟩
  | env _ move ih => exact ⟨L.rely_inv (allowed move) ih.1, wp_rely ih.2 (allowed move)⟩

/-- What every grant implies of one step, and every move of the environment, holds of the
whole run. -/
theorem reach_closed {env : σ → σ → Prop} {q : Prog E R σ α} (keep : L.inv s) (holds : L.wp p Q s)
    (allowed : ∀ {s t}, env s t → L.rely s t) {C : σ → σ → Prop} (here : ∀ s, C s s)
    (further : ∀ {s t u}, C s t → C t u → C s u) (own : ∀ {s t}, L.guar s t → C s t)
    (other : ∀ {s t}, env s t → C s t) (run : Prog.Reach exec env p s q t) : C s t := by
  induction run with
  | start => exact here s
  | step before move ih =>
      rcases wp_reach keep holds allowed before with ⟨now, rest⟩
      exact further ih (own (wp_step now rest move).2.1)
  | env _ move ih => exact further ih (other move)

/-- Two programs that each grant what the other relies on keep both of their assertions,
in every interleaving. The grants of the second count only while it is alive. -/
theorem wp_par_while {L M : Logic exec} {alive : σ → Prop} {env : σ → σ → Prop} {p q : Prog E R σ α}
    {c d : Prog E R σ β} {P : α → σ → Prop} {Q : β → σ → Prop} {s t : σ}
    (leftGrants : ∀ {s t}, L.guar s t → M.rely s t)
    (rightGrants : ∀ {s t}, alive s → M.guar s t → L.rely s t)
    (leftAllows : ∀ {s t}, env s t → L.rely s t) (rightAllows : ∀ {s t}, env s t → M.rely s t)
    (keepLeft : L.inv s) (keepRight : M.inv s) (left : L.wp p P s) (right : M.wp c Q s)
    (run : Prog.Par exec alive env p c s q d t) :
    (L.inv t ∧ L.wp q P t) ∧ M.inv t ∧ M.wp d Q t := by
  induction run with
  | start => exact ⟨⟨keepLeft, left⟩, keepRight, right⟩
  | left _ move ih =>
      obtain ⟨⟨keep, holds⟩, keep', holds'⟩ := ih
      obtain ⟨after, granted, rest⟩ := wp_step keep holds move
      have other := leftGrants granted
      exact ⟨⟨after, rest⟩, M.rely_inv other keep', wp_rely holds' other⟩
  | right _ living move ih =>
      obtain ⟨⟨keep, holds⟩, keep', holds'⟩ := ih
      obtain ⟨after, granted, rest⟩ := wp_step keep' holds' move
      have other := rightGrants living granted
      exact ⟨⟨L.rely_inv other keep, wp_rely holds other⟩, after, rest⟩
  | env _ move ih =>
      obtain ⟨⟨keep, holds⟩, keep', holds'⟩ := ih
      exact ⟨⟨L.rely_inv (leftAllows move) keep, wp_rely holds (leftAllows move)⟩,
        M.rely_inv (rightAllows move) keep', wp_rely holds' (rightAllows move)⟩

theorem wp_par {L M : Logic exec} {alive : σ → Prop} {env : σ → σ → Prop} {p q : Prog E R σ α}
    {c d : Prog E R σ β} {P : α → σ → Prop} {Q : β → σ → Prop} {s t : σ}
    (leftGrants : ∀ {s t}, L.guar s t → M.rely s t) (rightGrants : ∀ {s t}, M.guar s t → L.rely s t)
    (leftAllows : ∀ {s t}, env s t → L.rely s t) (rightAllows : ∀ {s t}, env s t → M.rely s t)
    (keepLeft : L.inv s) (keepRight : M.inv s) (left : L.wp p P s) (right : M.wp c Q s)
    (run : Prog.Par exec alive env p c s q d t) :
    (L.inv t ∧ L.wp q P t) ∧ M.inv t ∧ M.wp d Q t :=
  wp_par_while leftGrants (fun _ => rightGrants) leftAllows rightAllows keepLeft keepRight left right run

/-- What every grant of either side implies of one step holds of the whole run. -/
theorem par_closed {L M : Logic exec} {alive : σ → Prop} {env : σ → σ → Prop} {p q : Prog E R σ α}
    {c d : Prog E R σ β} {P : α → σ → Prop} {Q : β → σ → Prop} {s t : σ}
    (leftGrants : ∀ {s t}, L.guar s t → M.rely s t) (rightGrants : ∀ {s t}, M.guar s t → L.rely s t)
    (leftAllows : ∀ {s t}, env s t → L.rely s t) (rightAllows : ∀ {s t}, env s t → M.rely s t)
    (keepLeft : L.inv s) (keepRight : M.inv s) (left : L.wp p P s) (right : M.wp c Q s)
    {C : σ → σ → Prop} (here : ∀ s, C s s) (further : ∀ {s t u}, C s t → C t u → C s u)
    (leftStep : ∀ {s t}, L.guar s t → C s t) (rightStep : ∀ {s t}, M.guar s t → C s t)
    (envStep : ∀ {s t}, env s t → C s t) (run : Prog.Par exec alive env p c s q d t) : C s t := by
  induction run with
  | start => exact here s
  | left before move ih =>
      have both := wp_par leftGrants rightGrants leftAllows rightAllows keepLeft keepRight left right
        before
      exact further ih (leftStep (wp_step both.1.1 both.1.2 move).2.1)
  | right before _ move ih =>
      have both := wp_par leftGrants rightGrants leftAllows rightAllows keepLeft keepRight left right
        before
      exact further ih (rightStep (wp_step both.2.1 both.2.2 move).2.1)
  | env _ move ih => exact further ih (envStep move)

def alone (exec : (e : E) → σ → R e → Option σ) : Logic exec where
  inv := fun _ => True
  rely := Eq
  guar := fun _ _ => True
  pre := fun _ _ => True
  rely_refl := fun _ => rfl
  rely_trans := Eq.trans
  rely_inv := fun _ _ => trivial
  guar_refl := fun _ => trivial

theorem alone_pure {a : α} (holds : Q a s) : (alone exec).wp (pure a) Q s := by
  rintro _ rfl _
  exact holds

theorem alone_call {e : E} {k : R e → Prog E R σ α}
    (answers : ∀ r u, exec e s r = some u → (alone exec).wp (k r) Q u) :
    (alone exec).wp (.call e k) Q s := by
  rintro _ rfl _
  exact ⟨trivial, fun r u answer => ⟨trivial, trivial, answers r u answer⟩⟩

theorem alone_seq {f : α → Prog E R σ β} {Q : β → σ → Prop} {P : α → σ → Prop}
    (first : (alone exec).wp p P s) (rest : ∀ a t, P a t → (alone exec).wp (f a) Q t) :
    (alone exec).wp (p >>= f) Q s :=
  wp_seq trivial first (fun a t _ holds => rest a t holds)

theorem alone_ends {a : α} (holds : (alone exec).wp p Q s) (run : Prog.Ends exec p s a t) : Q a t :=
  wp_post trivial (wp_reach trivial holds (fun impossible => impossible.elim) run).2

end Logic
end Atomic
