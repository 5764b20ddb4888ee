import TelemetryServer.Lib.Among

namespace Atomic

namespace Prog

variable {E : Type} {R : E → Type} {σ α β γ : Type}

inductive Trace (exec : (e : E) → σ → R e → Option σ) :
    Prog E R σ α → σ → List (Event σ R) → α → σ → Prop
  | pure (a : α) (s : σ) : Trace exec (.pure a) s [] a s
  | act {β : Type} (f : σ → β × σ) (k : β → Prog E R σ α) {s t : σ} {events : List (Event σ R)}
      {a : α} (rest : Trace exec (k (f s).1) (f s).2 events a t) :
      Trace exec (.act f k) s events a t
  | call (e : E) (k : R e → Prog E R σ α) {s t u : σ} {r : R e} {events : List (Event σ R)} {a : α}
      (answer : exec e s r = some u) (rest : Trace exec (k r) u events a t) :
      Trace exec (.call e k) s (⟨s, e, r⟩ :: events) a t
  | loop {β γ : Type} (body : β → Prog E R σ (β ⊕ γ)) (b : β) (k : γ → Prog E R σ α) {s t : σ}
      {events : List (Event σ R)} {a : α}
      (rest : Trace exec ((body b).bind (resume body k)) s events a t) :
      Trace exec (.loop body b k) s events a t

variable {exec exec' : (e : E) → σ → R e → Option σ} {s t u : σ} {events : List (Event σ R)} {a : α}

namespace Trace

theorem mono {p : Prog E R σ α} (run : Trace exec p s events a t)
    (more : ∀ e s r t, exec e s r = some t → exec' e s r = some t) :
    Trace exec' p s events a t := by
  induction run with
  | pure a s => exact .pure a s
  | act f k _ ih => exact .act f k ih
  | call e k answer _ ih => exact .call e k (more _ _ _ _ answer) ih
  | loop body b k _ ih => exact .loop body b k ih

theorem among_iff {p : Prog E R σ α} :
    Trace exec p s events a t ↔ Among exec Eq p s events a t := by
  constructor
  · intro run
    induction run with
    | pure a s => exact .pure a rfl
    | act f k _ ih => exact .act f k rfl ih
    | call e k answer _ ih => exact .call e k rfl answer ih
    | loop body b k _ ih => exact .loop body b k ih
  · intro run
    induction run with
    | pure a gap =>
        cases gap
        exact .pure a _
    | act f k gap _ ih =>
        cases gap
        exact .act f k ih
    | call e k gap answer _ ih =>
        cases gap
        exact .call e k answer ih
    | loop body b k _ ih => exact .loop body b k ih

theorem seq {p : Prog E R σ β} {f : β → Prog E R σ α} {b : β} {first rest : List (Event σ R)}
    (run : Trace exec p s first b u) (next : Trace exec (f b) u rest a t) :
    Trace exec (p.bind f) s (first ++ rest) a t := by
  have trans : ∀ s t u : σ, s = t → t = u → s = u := fun _ _ _ => Eq.trans
  exact among_iff.mpr (Among.seq trans (among_iff.mp run) (among_iff.mp next))

theorem split {p : Prog E R σ β} {f : β → Prog E R σ α}
    (run : Trace exec (p.bind f) s events a t) :
    ∃ b u first rest, Trace exec p s first b u ∧ Trace exec (f b) u rest a t ∧
      events = first ++ rest := by
  rcases Among.split Eq.refl (among_iff.mp run) with ⟨b, u, first, rest, run, next, same⟩
  exact ⟨b, u, first, rest, among_iff.mpr run, among_iff.mpr next, same⟩

theorem pure_iff {b : α} :
    Trace exec (Pure.pure b : Prog E R σ α) s events a t ↔ events = [] ∧ a = b ∧ t = s := by
  constructor
  · intro run
    cases run
    exact ⟨rfl, rfl, rfl⟩
  · rintro ⟨rfl, rfl, rfl⟩
    exact .pure a t

theorem act_iff {f : σ → β × σ} {k : β → Prog E R σ α} :
    Trace exec (.act f k) s events a t ↔ Trace exec (k (f s).1) (f s).2 events a t := by
  constructor
  · intro run
    cases run with
    | act _ _ rest => exact rest
  · exact .act f k

theorem call_iff {e : E} {k : R e → Prog E R σ α} :
    Trace exec (.call e k) s events a t ↔ ∃ r u rest, exec e s r = some u ∧
      Trace exec (k r) u rest a t ∧ events = ⟨s, e, r⟩ :: rest := by
  constructor
  · intro run
    cases run with
    | call _ _ answer rest => exact ⟨_, _, _, answer, rest, rfl⟩
  · rintro ⟨r, u, rest, answer, run, rfl⟩
    exact .call e k answer run

theorem bind_iff {p : Prog E R σ β} {f : β → Prog E R σ α} :
    Trace exec (p >>= f) s events a t ↔ ∃ b u first rest, Trace exec p s first b u ∧
      Trace exec (f b) u rest a t ∧ events = first ++ rest := by
  constructor
  · exact split
  · rintro ⟨b, u, first, rest, run, next, rfl⟩
    exact seq run next

/-- An operation whose failure ends the caller as well. -/
theorem check_iff {p : Prog E R σ Bool} {bad : α} {rest : Prog E R σ α} :
    Trace exec (p >>= fun ok => if (!ok) = true then Pure.pure bad else rest) s events a t ↔
      (Trace exec p s events false t ∧ a = bad) ∨ ∃ u first last, Trace exec p s first true u ∧
        Trace exec rest u last a t ∧ events = first ++ last := by
  rw [bind_iff]
  constructor
  · rintro ⟨ok, u, first, last, done, next, rfl⟩
    cases ok with
    | false =>
        rcases pure_iff.mp next with ⟨rfl, rfl, rfl⟩
        rw [List.append_nil]
        exact Or.inl ⟨done, rfl⟩
    | true => exact Or.inr ⟨u, first, last, done, next, rfl⟩
  · rintro (⟨done, rfl⟩ | ⟨u, first, last, done, next, rfl⟩)
    · exact ⟨false, t, events, [], done, .pure a t, (List.append_nil _).symm⟩
    · exact ⟨true, u, first, last, done, next, rfl⟩

theorem iterate_iff {body : β → Prog E R σ (β ⊕ γ)} {b : β} {c : γ} :
    Trace exec (iterate body b) s events c t ↔ ∃ x u first rest, Trace exec (body b) s first x u ∧
      Trace exec (Sum.elim (iterate body) Prog.pure x) u rest c t ∧ events = first ++ rest := by
  have resumed : ∀ x, resume body Prog.pure x = Sum.elim (iterate body) Prog.pure x := by
    intro x
    cases x <;> rfl
  constructor
  · intro run
    cases run with
    | loop _ _ _ rest =>
        rcases split rest with ⟨x, u, first, last, run, next, same⟩
        exact ⟨x, u, first, last, run, resumed x ▸ next, same⟩
  · rintro ⟨x, u, first, rest, run, next, rfl⟩
    exact .loop body b .pure (seq run (resumed x ▸ next))

/-- The invariant rule for a loop that has ended. -/
theorem iterate_induct {body : β → Prog E R σ (β ⊕ γ)} {b : β} {c : γ}
    (I : β → σ → List (Event σ R) → Prop) {Q : γ → σ → List (Event σ R) → Prop}
    (run : Trace exec (iterate body b) s events c t) (start : I b s [])
    (pass : ∀ b s seen events x t, I b s seen → Trace exec (body b) s events x t →
      x.elim (fun b' => I b' t (seen ++ events)) (fun c => Q c t (seen ++ events))) :
    Q c t events :=
  Among.iterate_induct Eq.refl I (among_iff.mp run) start
    (fun b s seen events x t inside run => pass b s seen events x t inside (among_iff.mpr run))

end Trace

namespace Trace

variable {P : E → Prop}

/-- What is true of every call that is answered is true of every event. -/
theorem forall_events {p : Prog E R σ α} {Q : Event σ R → Prop} (run : Trace exec p s events a t)
    (answered : ∀ e s r t, exec e s r = some t → Q ⟨s, e, r⟩) : ∀ event ∈ events, Q event := by
  induction run with
  | pure a s =>
      intro event member
      cases member
  | act f k _ ih => exact ih
  | call e k answer _ ih =>
      intro event member
      rcases List.mem_cons.mp member with rfl | later
      · exact answered _ _ _ _ answer
      · exact ih event later
  | loop body b k _ ih => exact ih

theorem within {p : Prog E R σ α} (run : Trace exec p s events a t) (only : Within P p) :
    ∀ event ∈ events, P event.call :=
  Among.within (among_iff.mp run) only

/-- A program whose calls have one possible answer each has one run. -/
theorem unique {p : Prog E R σ α} {events' : List (Event σ R)} {a' : α}
    (run : Trace exec p s events a t) (only : Within P p)
    (determined : ∀ e, P e → ∀ s r r' t t', exec e s r = some t → exec e s r' = some t' → r = r')
    (other : Trace exec p s events' a' u) : events = events' ∧ a = a' ∧ t = u := by
  induction run generalizing events' with
  | pure a s =>
      cases other
      exact ⟨rfl, rfl, rfl⟩
  | act f k _ ih =>
      cases other with
      | act _ _ rest => exact ih (only _) rest
  | call e k answer _ ih =>
      cases other with
      | call _ _ answer' rest =>
          cases determined e only.1 _ _ _ _ _ answer answer'
          cases answer.symm.trans answer'
          rcases ih (only.2 _) rest with ⟨rfl, rfl, rfl⟩
          exact ⟨rfl, rfl, rfl⟩
  | loop body b k _ ih =>
      cases other with
      | loop _ _ _ rest => exact ih only.unfold rest

end Trace

end Prog
end Atomic
