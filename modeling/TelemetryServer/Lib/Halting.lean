import TelemetryServer.Lib.Progress

/-! Programs that come to an end once some condition holds.

Such a program may go round its loops for as long as it likes before, and may be held up by
some answers, such as that a call was interrupted. A variant says how near a loop is to its end.
Only the passes that start while the condition holds, and that are not held up, have to come
nearer. -/

namespace Atomic

variable {E : Type} {R : E → Type} {σ α β γ : Type}

namespace Prog

section

variable (exec few : (e : E) → σ → R e → Option σ)

/-- As long as all calls are answered as in `few`, the answer of `p` is one of `A`. -/
def Answers : {α : Type} → (α → Prop) → Prog E R σ α → Prop
  | _, A, .pure a => A a
  | _, A, .act _ k => ∀ b, Answers A (k b)
  | _, A, .call e k => ∀ s r t, few e s r = some t → Answers A (k r)
  | _, A, .loop _ _ k => ∀ c, Answers A (k c)

/-- Every loop of `p` has a variant in the value that its passes hand on. -/
def Brief : {α : Type} → Prog E R σ α → Prop
  | _, .pure _ => True
  | _, .act _ k => ∀ b, Brief (k b)
  | _, .call e k => ∀ s r t, exec e s r = some t → Brief (k r)
  | _, .loop (β := β) body _ k => (∃ variant : β → Nat, ∀ b, Brief (body b) ∧
      Answers few (fun x => ∀ b', x = .inl b' → variant b' < variant b) (body b)) ∧ ∀ c, Brief (k c)

end

variable {exec few : (e : E) → σ → R e → Option σ} {A : α → Prop}

theorem Answers.mono {B : α → Prop} {p : Prog E R σ α} (answers : Answers few A p)
    (weaker : ∀ a, A a → B a) : Answers few B p := by
  induction p with
  | pure a => exact weaker a answers
  | act f k ih => exact fun b => ih b (answers b) weaker
  | call e k ih => exact fun s r t answer => ih r (answers s r t answer) weaker
  | loop body b k _ ih => exact fun c => ih c (answers c) weaker

theorem Answers.bind {p : Prog E R σ β} {f : β → Prog E R σ α} (rest : ∀ b, Answers few A (f b)) :
    Answers few A (p >>= f) := by
  induction p with
  | pure b => exact rest b
  | act g k ih => exact fun b => ih b rest
  | call e k ih => exact fun _ r _ _ => ih r rest
  | loop body b k _ ih => exact fun c => ih c rest

theorem Answers.seq {B : β → Prop} {p : Prog E R σ β} {f : β → Prog E R σ α}
    (first : Answers few B p) (rest : ∀ b, B b → Answers few A (f b)) : Answers few A (p >>= f) := by
  induction p with
  | pure b => exact rest b first
  | act g k ih => exact fun b => ih b (first b) rest
  | call e k ih => exact fun s r t answer => ih r (first s r t answer) rest
  | loop body b k _ ih => exact fun c => ih c (first c) rest

theorem Brief.bind {p : Prog E R σ α} {f : α → Prog E R σ β} (first : Brief exec few p)
    (rest : ∀ a, Brief exec few (f a)) : Brief exec few (p >>= f) := by
  induction p with
  | pure a => exact rest a
  | act g k ih => exact fun b => ih b (first b) rest
  | call e k ih => exact fun s r t answer => ih r (first s r t answer) rest
  | loop body b k _ ih => exact ⟨first.1, fun c => ih c (first.2 c) rest⟩

theorem Brief.iterate {body : β → Prog E R σ (β ⊕ γ)} {b : β} (variant : β → Nat)
    (pass : ∀ b, Brief exec few (body b))
    (nearer : ∀ b, Answers few (fun x => ∀ b', x = .inl b' → variant b' < variant b) (body b)) :
    Brief exec few (Prog.iterate body b) :=
  ⟨⟨variant, fun b => ⟨pass b, nearer b⟩⟩, fun _ => trivial⟩

end Prog

namespace Logic

variable {exec few : (e : E) → σ → R e → Option σ}

/-- The same assertions where fewer answers are given. -/
def along (L : Logic exec) (few : (e : E) → σ → R e → Option σ) : Logic few where
  inv := L.inv
  rely := L.rely
  guar := L.guar
  pre := L.pre
  rely_refl := L.rely_refl
  rely_trans := L.rely_trans
  rely_inv := L.rely_inv
  guar_refl := L.guar_refl

theorem wp_along {L : Logic exec} {p : Prog E R σ α} {Q : α → σ → Prop} {s : σ}
    (fewer : ∀ {e s r t}, few e s r = some t → exec e s r = some t) (holds : L.wp p Q s) :
    (L.along few).wp p Q s := by
  induction p generalizing s with
  | pure a => exact holds
  | act f k ih =>
      intro t move keep
      rcases holds t move keep with ⟨after, granted, rest⟩
      exact ⟨after, granted, ih _ rest⟩
  | call e k ih =>
      intro t move keep
      rcases holds t move keep with ⟨before, later⟩
      refine ⟨before, fun r u answer => ?_⟩
      rcases later r u (fewer answer) with ⟨after, granted, rest⟩
      exact ⟨after, granted, ih r rest⟩
  | loop body b k ihBody ihRest =>
      rcases holds with ⟨I, first, pass⟩
      refine ⟨I, first, fun b' t keep inside => wp_mono (ihBody b' (pass b' t keep inside)) ?_⟩
      intro x u _ result
      cases x with
      | inl b'' => exact result
      | inr c => exact ihRest c result

variable {L : Logic exec} {D : σ → Prop} {p : Prog E R σ α} {Q : α → σ → Prop} {s t : σ}

/-- What is shown of two programs in a row is shown of the first and then of the second. -/
theorem wp_unbind {f : α → Prog E R σ β} {Q : β → σ → Prop} (holds : L.wp (p.bind f) Q s) :
    L.wp p (fun a t => L.wp (f a) Q t) s := by
  induction p generalizing s with
  | pure a => exact fun t move _ => wp_rely holds move
  | act g k ih =>
      intro t move keep
      rcases holds t move keep with ⟨after, granted, rest⟩
      exact ⟨after, granted, ih _ rest⟩
  | call e k ih =>
      intro t move keep
      rcases holds t move keep with ⟨before, later⟩
      refine ⟨before, fun r u answer => ?_⟩
      rcases later r u answer with ⟨after, granted, rest⟩
      exact ⟨after, granted, ih r rest⟩
  | loop body b k _ ihRest =>
      rcases holds with ⟨I, first, pass⟩
      refine ⟨I, first, fun b' t keep inside => wp_mono (pass b' t keep inside) ?_⟩
      intro x u _ result
      cases x with
      | inl b'' => exact result
      | inr c => exact ihRest c result

theorem wp_answers {A : α → Prop} (answers : Prog.Answers exec A p) (holds : L.wp p Q s) :
    L.wp p (fun a t => Q a t ∧ A a) s := by
  induction p generalizing s with
  | pure a => exact fun t move keep => ⟨holds t move keep, answers⟩
  | act f k ih =>
      intro t move keep
      rcases holds t move keep with ⟨after, granted, rest⟩
      exact ⟨after, granted, ih _ (answers _) rest⟩
  | call e k ih =>
      intro t move keep
      rcases holds t move keep with ⟨before, later⟩
      refine ⟨before, fun r u answer => ?_⟩
      rcases later r u answer with ⟨after, granted, rest⟩
      exact ⟨after, granted, ih r (answers t r u answer) rest⟩
  | loop body b k _ ihRest =>
      rcases holds with ⟨I, first, pass⟩
      refine ⟨I, first, fun b' t keep inside => wp_mono (pass b' t keep inside) ?_⟩
      intro x u _ result
      cases x with
      | inl b'' => exact result
      | inr c => exact ihRest c (answers c) result

/-- What every pass adds to what is shown of it, its last one adds for the whole loop. -/
theorem wp_iterate_add {body : β → Prog E R σ (β ⊕ γ)} {b : β} {C : σ → Prop} {P Q : γ → σ → Prop}
    (moved : ∀ {s t}, L.rely s t → C s → C t) (lasts : ∀ {c s t}, L.rely s t → P c s → P c t)
    (pass : ∀ {b Q t}, L.inv t → C t → L.wp (body b) Q t → L.wp (body b) (fun x u => Q x u ∧
      match x with
      | .inl _ => C u
      | .inr c => P c u) t)
    (here : C s) (holds : L.wp (Prog.iterate body b) Q s) :
    L.wp (Prog.iterate body b) (fun c t => Q c t ∧ P c t) s := by
  rcases holds with ⟨I, first, passes⟩
  refine ⟨fun b t => I b t ∧ C t, fun t move keep => ⟨first t move keep, moved move here⟩, ?_⟩
  intro b' t keep inside
  apply wp_mono (pass keep inside.2 (passes b' t keep inside.1))
  intro x u _ result
  cases x with
  | inl b'' => exact result
  | inr c => exact fun v move keepV => ⟨result.1 v move keepV, lasts move result.2⟩

section

variable (L few D)

/-- From `s`, every run of `p` among steps of `rely` comes to its end if `D` holds and nothing
holds it up from some point on. -/
def Halts : {α : Type} → Prog E R σ α → σ → Prop
  | _, .pure _, _ => True
  | _, .act f k, s => ∀ t, L.rely s t → L.inv t → Halts (k (f t).1) (f t).2
  | _, .call e k, s => ∀ t, L.rely s t → L.inv t → ∀ r u, exec e t r = some u → Halts (k r) u
  | _, .loop (β := β) body b k, s => ∃ (I : β → σ → Prop) (variant : β → σ → Nat),
      (∀ t, L.rely s t → L.inv t → I b t) ∧ ∀ b' t, L.inv t → I b' t → Halts (body b') t ∧
        L.wp (body b') (fun x u => match x with
          | .inl b'' => I b'' u
          | .inr c => Halts (k c) u) t ∧
        (L.along few).wp (body b') (fun x u =>
          ∀ b'', x = .inl b'' → D t → variant b'' u < variant b' t) t

structure Halting {α : Type} (p : Prog E R σ α) : Prop where
  halts : ∀ {Q : α → σ → Prop} {s : σ}, L.inv s → L.wp p Q s → L.Halts few D p s

end

theorem halts_rely (halts : L.Halts few D p s) (move : L.rely s t) : L.Halts few D p t := by
  cases p with
  | pure a => trivial
  | act f k => exact fun u later keep => halts u (L.rely_trans move later) keep
  | call e k => exact fun u later keep => halts u (L.rely_trans move later) keep
  | loop body b k =>
      rcases halts with ⟨I, variant, first, pass⟩
      exact ⟨I, variant, fun u later keep => first u (L.rely_trans move later) keep, pass⟩

theorem halts_bind {f : α → Prog E R σ β} (keep : L.inv s) (first : L.Halts few D p s)
    (rest : L.wp p (fun a t => L.Halts few D (f a) t) s) : L.Halts few D (p.bind f) s := by
  induction p generalizing s with
  | pure a => exact rest s (L.rely_refl s) keep
  | act g k ih =>
      intro t move keepT
      rcases rest t move keepT with ⟨after, _, later⟩
      exact ih _ after (first t move keepT) later
  | call e k ih =>
      intro t move keepT r u answer
      rcases (rest t move keepT).2 r u answer with ⟨after, _, later⟩
      exact ih r after (first t move keepT r u answer) later
  | loop body b k _ ihRest =>
      rcases first with ⟨I, variant, start, pass⟩
      rcases rest with ⟨J, start', pass'⟩
      refine ⟨fun b' t => I b' t ∧ J b' t, variant,
        fun t move keepT => ⟨start t move keepT, start' t move keepT⟩, ?_⟩
      intro b' t keepT inside
      rcases pass b' t keepT inside.1 with ⟨here, passed, nearer⟩
      refine ⟨here, ?_, nearer⟩
      apply wp_mono (wp_and id id passed (pass' b' t keepT inside.2))
      intro x u keepU result
      cases x with
      | inl b'' => exact result
      | inr c => exact ihRest c keepU result.1 result.2

theorem halts_step {q : Prog E R σ α} (keep : L.inv s) (halts : L.Halts few D p s)
    (move : Prog.Step exec p s q t) : L.Halts few D q t := by
  cases move with
  | act f k => exact halts s (L.rely_refl s) keep
  | call e k _ _ r answer => exact halts s (L.rely_refl s) keep r t answer
  | loop body b k =>
      rcases halts with ⟨I, variant, first, pass⟩
      rcases pass b s keep (first s (L.rely_refl s) keep) with ⟨here, passed, _⟩
      apply halts_bind keep here
      apply wp_mono (wp_stable passed)
      intro x u keepU result
      cases x with
      | inl b' => exact ⟨I, variant, result, pass⟩
      | inr c => exact result u (L.rely_refl u) keepU

theorem halts_reach {env : σ → σ → Prop} {q : Prog E R σ α}
    (allowed : ∀ {s t}, env s t → L.rely s t) (keep : L.inv s) (holds : L.wp p Q s)
    (halts : L.Halts few D p s) (run : Prog.Reach exec env p s q t) : L.Halts few D q t := by
  induction run with
  | start => exact halts
  | step before move ih => exact halts_step (wp_reach keep holds allowed before).1 ih move
  | env _ move ih => exact halts_rely ih (allowed move)

theorem halts_weaken {L M : Logic exec} (inv : ∀ {s}, L.inv s ↔ M.inv s)
    (rely : ∀ {s t}, M.rely s t → L.rely s t) (guar : ∀ {s t}, L.guar s t → M.guar s t)
    (pre : ∀ {e s}, L.pre e s → M.pre e s) (halts : L.Halts few D p s) : M.Halts few D p s := by
  induction p generalizing s with
  | pure a => trivial
  | act f k ih => exact fun t move keep => ih _ (halts t (rely move) (inv.mpr keep))
  | call e k ih =>
      exact fun t move keep r u answer => ih r (halts t (rely move) (inv.mpr keep) r u answer)
  | loop body b k ihBody ihRest =>
      rcases halts with ⟨I, variant, first, pass⟩
      refine ⟨I, variant, fun t move keep => first t (rely move) (inv.mpr keep), ?_⟩
      intro b' t keep inside
      rcases pass b' t (inv.mpr keep) inside with ⟨here, passed, nearer⟩
      refine ⟨ihBody b' here, ?_, wp_weaken (L := L.along few) inv rely guar pre nearer⟩
      apply wp_mono (wp_weaken inv rely guar pre passed)
      intro x u _ result
      cases x with
      | inl b'' => exact result
      | inr c => exact ihRest c result

/-- As `wp_par_while`, of the second program. -/
theorem halts_par {L M : Logic exec} {alive : σ → Prop} {env : σ → σ → Prop} {q : Prog E R σ α}
    {c d : Prog E R σ β} {P : α → σ → Prop} {Q : β → σ → Prop}
    (leftGrants : ∀ {s t}, L.guar s t → M.rely s t)
    (rightGrants : ∀ {s t}, alive s → M.guar s t → L.rely s t)
    (leftAllows : ∀ {s t}, env s t → L.rely s t) (rightAllows : ∀ {s t}, env s t → M.rely s t)
    (keepLeft : L.inv s) (keepRight : M.inv s) (left : L.wp p P s) (right : M.wp c Q s)
    (halts : M.Halts few D c s) (run : Prog.Par exec alive env p c s q d t) : M.Halts few D d t := by
  induction run with
  | start => exact halts
  | left before move ih =>
      have both := wp_par_while leftGrants rightGrants leftAllows rightAllows keepLeft keepRight left
        right before
      exact halts_rely ih (leftGrants (wp_step both.1.1 both.1.2 move).2.1)
  | right before _ move ih =>
      have both := wp_par_while leftGrants rightGrants leftAllows rightAllows keepLeft keepRight left
        right before
      exact halts_step both.2.1 ih move
  | env _ move ih => exact halts_rely ih (rightAllows move)

/-- What halts once `D` holds goes on to its end from a state in which `D` does, as long as the
others leave it so and every call that comes is answered. -/
theorem Halts.settles {env : σ → σ → Prop} {C : σ → Prop} (halts : L.Halts few D p s)
    (fewer : ∀ {e s r t}, few e s r = some t → exec e s r = some t)
    (refl : ∀ s, env s s) (within : ∀ {s t}, env s t → L.rely s t) (due : ∀ {s}, C s → D s)
    (moved : ∀ {s t}, env s t → C s → C t) (stepped : ∀ {s t}, L.guar s t → C s → C t)
    (answered : ∀ {e s}, L.inv s → L.pre e s → C s → ∃ r t, few e s r = some t)
    (keep : L.inv s) (holds : (L.along few).wp p Q s) (here : C s) :
    Prog.Settles few env (fun a t => Q a t ∧ L.inv t ∧ C t) p s := by
  induction p generalizing s with
  | pure a =>
      refine .pure fun t move => ?_
      have keepT := L.rely_inv (within move) keep
      exact ⟨holds t (within move) keepT, keepT, moved move here⟩
  | act f k ih =>
      refine .act fun t move => ?_
      have keepT := L.rely_inv (within move) keep
      rcases holds t (within move) keepT with ⟨after, granted, rest⟩
      exact ih _ (halts t (within move) keepT) after rest (stepped granted (moved move here))
  | call e k ih =>
      refine .call (fun t move => ?_) (fun t r u move answer => ?_)
      · have keepT := L.rely_inv (within move) keep
        exact answered keepT (holds t (within move) keepT).1 (moved move here)
      · have keepT := L.rely_inv (within move) keep
        rcases (holds t (within move) keepT).2 r u answer with ⟨after, granted, rest⟩
        exact ih r (halts t (within move) keepT r u (fewer answer)) after rest
          (stepped granted (moved move here))
  | loop body b k ihBody ihRest =>
      rcases halts with ⟨I, variant, first, pass⟩
      rcases holds with ⟨J, first', pass'⟩
      -- by induction on the variant, from the head of any pass
      suffices general : ∀ n b' t, variant b' t = n → L.inv t → I b' t → J b' t → C t →
          Prog.Settles few env (fun a u => Q a u ∧ L.inv u ∧ C u) (.loop body b' k) t by
        have start := L.rely_refl s
        exact general _ b s rfl keep (first s start keep) (first' s start keep) here
      intro n
      induction n using Nat.strongRecOn with
      | ind n ih =>
          intro b' t same keepT insideI insideJ hereT
          rcases pass b' t keepT insideI with ⟨halts, passed, nearer⟩
          have all := wp_and id id (wp_and id id (wp_along fewer passed) (pass' b' t keepT insideJ)) nearer
          apply Prog.Settles.loop
          apply Prog.Settles.bind refl (ihBody b' halts keepT all hereT)
          intro x u result
          rcases result with ⟨⟨⟨result, result'⟩, lower⟩, keepU, hereU⟩
          cases x with
          | inl b'' =>
              have less := lower b'' rfl (due hereT)
              rw [same] at less
              exact ih (variant b'' u) less b'' u rfl keepU result result' hereU
          | inr c => exact ihRest c result keepU result' hereU

theorem halts_brief (fewer : ∀ {e s r t}, few e s r = some t → exec e s r = some t)
    (brief : Prog.Brief exec few p) (holds : L.wp p Q s) : L.Halts few D p s := by
  induction p generalizing s with
  | pure a => trivial
  | act f k ih => exact fun t move keep => ih _ (brief _) (holds t move keep).2.2
  | call e k ih =>
      exact fun t move keep r u answer =>
        ih r (brief t r u answer) ((holds t move keep).2 r u answer).2.2
  | loop body b k ihBody ihRest =>
      rcases brief with ⟨⟨variant, passes⟩, rest⟩
      rcases holds with ⟨I, first, pass⟩
      refine ⟨I, fun b' _ => variant b', first, fun b' t keep inside => ?_⟩
      have here := pass b' t keep inside
      refine ⟨ihBody b' (passes b').1 here, ?_, ?_⟩
      · apply wp_mono here
        intro x u _ result
        cases x with
        | inl b'' => exact result
        | inr c => exact ihRest c (rest c) result
      · apply wp_mono (wp_answers (passes b').2 (wp_along fewer here))
        exact fun x u _ result b'' same _ => result.2 b'' same

namespace Halting

variable (fewer : ∀ {e s r t}, few e s r = some t → exec e s r = some t)

include fewer in
theorem of_brief (brief : Prog.Brief exec few p) : L.Halting few D p :=
  ⟨fun _ holds => halts_brief fewer brief holds⟩

theorem bind {f : α → Prog E R σ β} (first : L.Halting few D p) (rest : ∀ a, L.Halting few D (f a)) :
    L.Halting few D (p >>= f) := by
  refine ⟨fun keep holds => ?_⟩
  have later := wp_unbind holds
  exact halts_bind keep (first.halts keep later)
    (wp_mono later fun a t keepT more => (rest a).halts keepT more)

include fewer in
/-- A loop whose passes come nearer to the end when they start while `D` holds. -/
theorem iterate {body : β → Prog E R σ (β ⊕ γ)} {b : β} (variant : β → σ → Nat)
    (pass : ∀ b, L.Halting few D (body b))
    (nearer : ∀ {b Q t}, L.inv t → D t → (L.along few).wp (body b) Q t →
      (L.along few).wp (body b) (fun x u => ∀ b', x = .inl b' → variant b' u < variant b t) t) :
    L.Halting few D (Prog.iterate body b) := by
  refine ⟨fun _ holds => ?_⟩
  rcases holds with ⟨I, first, passes⟩
  refine ⟨I, variant, first, fun b' t keepT inside => ?_⟩
  have here := passes b' t keepT inside
  refine ⟨(pass b').halts keepT here, ?_, ?_⟩
  · apply wp_mono here
    intro x u _ result
    cases x with
    | inl b'' => exact result
    | inr c => trivial
  · by_cases due : D t
    · apply wp_mono (nearer keepT due (wp_along fewer here))
      exact fun x u _ result b'' same _ => result b'' same
    · apply wp_mono (wp_along fewer here)
      exact fun x u _ _ b'' _ wrong => absurd wrong due

end Halting

end Logic
end Atomic
