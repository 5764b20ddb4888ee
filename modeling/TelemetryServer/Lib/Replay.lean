import TelemetryServer.Lib.Trace

/-! Executable runs: the answers to a program's calls are given by a function of the number
of steps left and the state. -/

namespace Atomic.Prog

variable {E : Type} {R : E → Type} {σ α β : Type} (exec : (e : E) → σ → R e → Option σ)
  (oracle : Nat → (e : E) → σ → R e)

def advance (n : Nat) : Prog E R σ α → σ → Option (Prog E R σ α × σ)
  | .pure _, _ => none
  | .act f k, s => some (k (f s).1, (f s).2)
  | .call e k, s => (exec e s (oracle n e s)).map (fun t => (k (oracle n e s), t))
  | .loop body b k, s => some ((body b).bind (resume body k), s)

def replay : Nat → Prog E R σ α → σ → Option (Prog E R σ α × σ)
  | 0, p, s => some (p, s)
  | n + 1, p, s => (advance exec oracle n p s).bind (fun next => replay n next.1 next.2)

variable {exec}

variable {oracle} in
theorem advance_step {n : Nat} {p q : Prog E R σ α} {s t : σ}
    (moved : advance exec oracle n p s = some (q, t)) : Step exec p s q t := by
  cases p with
  | pure a => simp [advance] at moved
  | act f k =>
      simp only [advance, Option.some.injEq, Prod.mk.injEq] at moved
      rw [← moved.1, ← moved.2]
      exact .act f k s
  | call e k =>
      simp only [advance, Option.map_eq_some_iff, Prod.mk.injEq] at moved
      rcases moved with ⟨u, answer, rfl, rfl⟩
      exact .call e k s u _ answer
  | loop body b k =>
      simp only [advance, Option.some.injEq, Prod.mk.injEq] at moved
      rw [← moved.1, ← moved.2]
      exact .loop body b k s

theorem replay_reach {env : σ → σ → Prop} (n : Nat) {p q : Prog E R σ α} {s t : σ}
    (done : replay exec oracle n p s = some (q, t)) : Reach exec env p s q t := by
  induction n generalizing p s with
  | zero =>
      simp only [replay, Option.some.injEq, Prod.mk.injEq] at done
      rw [← done.1, ← done.2]
      exact .start
  | succ n ih =>
      simp only [replay, Option.bind_eq_some_iff] at done
      rcases done with ⟨⟨next, u⟩, moved, rest⟩
      exact Reach.trans (Reach.step .start (advance_step moved)) (ih rest)

variable (exec) in
/-- Runs of some steps, each followed by a move of the environment, and then a last run. -/
def session (last : Nat) : List (Nat × (σ → Option σ)) → Prog E R σ α → σ → Option (Prog E R σ α × σ)
  | [], p, s => replay exec oracle last p s
  | (n, move) :: rest, p, s => (replay exec oracle n p s).bind (fun here =>
      (move here.2).bind (fun t => session last rest here.1 t))

theorem session_reach {env : σ → σ → Prop} (last : Nat) {stages : List (Nat × (σ → Option σ))}
    (allowed : ∀ stage ∈ stages, ∀ s t, stage.2 s = some t → env s t) {p q : Prog E R σ α} {s t : σ}
    (done : session exec oracle last stages p s = some (q, t)) : Reach exec env p s q t := by
  induction stages generalizing p s with
  | nil => exact replay_reach oracle last done
  | cons stage rest ih =>
      simp only [session, Option.bind_eq_some_iff] at done
      rcases done with ⟨⟨here, u⟩, run, t', moved, more⟩
      have first : Reach exec env p s here t' :=
        Reach.env (replay_reach oracle stage.1 run) (allowed stage List.mem_cons_self u t' moved)
      exact first.trans (ih (fun other member => allowed other (List.mem_cons_of_mem _ member)) more)

def next : Prog E R σ α → Option E
  | .call e _ => some e
  | _ => none

theorem calls_of_next {p : Prog E R σ α} {e : E} (about : p.next = some e) : p.Calls e := by
  cases p with
  | call e' k =>
      cases about
      exact ⟨k, rfl⟩
  | pure a => cases about
  | act f k => cases about
  | loop body b k => cases about

/-- A run that was carried out shows that what is seen at its end can be reached. -/
theorem session_shows {env : σ → σ → Prop} (last : Nat) {stages : List (Nat × (σ → Option σ))}
    (allowed : ∀ stage ∈ stages, ∀ s t, stage.2 s = some t → env s t) {p : Prog E R σ α} {s : σ}
    {e : E} {P : σ → Prop} [DecidableEq E] [DecidablePred P]
    (seen : (session exec oracle last stages p s).any
      (fun here => decide (here.1.next = some e) && decide (P here.2)) = true) :
    ∃ q t, Reach exec env p s q t ∧ q.Calls e ∧ P t := by
  rw [Option.any_eq_true] at seen
  rcases seen with ⟨⟨q, t⟩, done, good⟩
  rw [Bool.and_eq_true, decide_eq_true_eq, decide_eq_true_eq] at good
  exact ⟨q, t, session_reach oracle last allowed done, calls_of_next good.1, good.2⟩

theorem replay_calls {env : σ → σ → Prop} [DecidableEq E] (n : Nat) {p : Prog E R σ α} {s : σ} {e : E}
    (seen : (replay exec oracle n p s).any (fun here => decide (here.1.next = some e)) = true) :
    ∃ k t, Reach exec env p s (.call e k) t := by
  rw [Option.any_eq_true] at seen
  rcases seen with ⟨⟨q, t⟩, done, good⟩
  rw [decide_eq_true_eq] at good
  rcases calls_of_next good with ⟨k, rfl⟩
  exact ⟨k, t, replay_reach oracle n done⟩

/-- As `replay_calls`, and what the program is about to call when it has gone on. -/
theorem replay_answers {env : σ → σ → Prop} [DecidableEq E] (n m : Nat) {p : Prog E R σ α} {s : σ}
    {e e' : E} (seen : (replay exec oracle n p s).any (fun here => decide (here.1.next = some e) &&
      (replay exec oracle (m + 1) here.1 here.2).any (fun last => decide (last.1.next = some e'))) = true) :
    ∃ k t u q v, Reach exec env p s (.call e k) t ∧ exec e t (oracle m e t) = some u ∧
      Reach exec env (k (oracle m e t)) u q v ∧ q.Calls e' := by
  rw [Option.any_eq_true] at seen
  rcases seen with ⟨⟨here, t⟩, done, good⟩
  rw [Bool.and_eq_true, decide_eq_true_eq, Option.any_eq_true] at good
  rcases good with ⟨about, ⟨q, v⟩, later, last⟩
  rw [decide_eq_true_eq] at last
  rcases calls_of_next about with ⟨k, rfl⟩
  simp only [replay, Option.bind_eq_some_iff, advance, Option.map_eq_some_iff] at later
  rcases later with ⟨next, ⟨u, answer, rfl⟩, rest⟩
  exact ⟨k, t, u, q, v, replay_reach oracle n done, answer, replay_reach oracle m rest, calls_of_next last⟩

def result : Prog E R σ α → Option α
  | .pure a => some a
  | _ => none

theorem eq_pure_of_result {p : Prog E R σ α} {a : α} (ended : p.result = some a) : p = .pure a := by
  cases p with
  | pure b =>
      cases ended
      rfl
  | act f k => cases ended
  | call e k => cases ended
  | loop body b k => cases ended

theorem replay_ends {env : σ → σ → Prop} (n : Nat) {p : Prog E R σ α} {s : σ} {a : α} {P : σ → Prop}
    [DecidableEq α] [DecidablePred P] (seen : (replay exec oracle n p s).any
      (fun here => decide (here.1.result = some a) && decide (P here.2)) = true) :
    ∃ t, Reach exec env p s (.pure a) t ∧ P t := by
  rw [Option.any_eq_true] at seen
  rcases seen with ⟨⟨q, t⟩, done, good⟩
  rw [Bool.and_eq_true, decide_eq_true_eq, decide_eq_true_eq] at good
  obtain rfl := eq_pure_of_result good.1
  exact ⟨t, replay_reach oracle n done, good.2⟩

/-- Whose turn it is when two programs run, and for how many steps, or what neither of them
does. -/
inductive Turn (σ : Type)
  | left (steps : Nat)
  | right (steps : Nat)
  | env (move : σ → Option σ)

variable (exec)

/-- A run that must not go on where it is not allowed to. -/
def replayWhile (alive : σ → Prop) [DecidablePred alive] :
    Nat → Prog E R σ α → σ → Option (Prog E R σ α × σ)
  | 0, p, s => some (p, s)
  | n + 1, p, s =>
      if alive s then (advance exec oracle n p s).bind (fun next => replayWhile alive n next.1 next.2)
      else none

def duet (alive : σ → Prop) [DecidablePred alive] :
    List (Turn σ) → Prog E R σ α → Prog E R σ β → σ → Option (Prog E R σ α × Prog E R σ β × σ)
  | [], q, d, s => some (q, d, s)
  | .left n :: rest, q, d, s =>
      (replayWhile exec oracle (fun _ => True) n q s).bind (fun here => duet alive rest here.1 d here.2)
  | .right n :: rest, q, d, s =>
      (replayWhile exec oracle alive n d s).bind (fun here => duet alive rest q here.1 here.2)
  | .env move :: rest, q, d, s => (move s).bind (duet alive rest q d)

variable {exec}

section

variable {alive : σ → Prop} [DecidablePred alive] {env : σ → σ → Prop} {p q : Prog E R σ α}
  {c d : Prog E R σ β} {s₀ s : σ}

theorem replayWhile_keeps {M : Prog E R σ α → σ → Prop}
    (step : ∀ {p s q t}, M p s → alive s → Step exec p s q t → M q t) (n : Nat) {t : σ}
    (start : M p s) (done : replayWhile exec oracle alive n p s = some (q, t)) : M q t := by
  induction n generalizing p s with
  | zero =>
      simp only [replayWhile, Option.some.injEq, Prod.mk.injEq] at done
      rw [← done.1, ← done.2]
      exact start
  | succ n ih =>
      simp only [replayWhile, Option.ite_none_right_eq_some, Option.bind_eq_some_iff] at done
      obtain ⟨living, ⟨next, u⟩, moved, rest⟩ := done
      exact ih (step start living (advance_step moved)) rest

theorem duet_par {turns : List (Turn σ)}
    (allowed : ∀ move, Turn.env move ∈ turns → ∀ s t, move s = some t → env s t)
    (moment : Par exec alive env p c s₀ q d s) {q' : Prog E R σ α} {d' : Prog E R σ β} {t : σ}
    (done : duet exec oracle alive turns q d s = some (q', d', t)) :
    Par exec alive env p c s₀ q' d' t := by
  induction turns generalizing q d s with
  | nil =>
      simp only [duet, Option.some.injEq, Prod.mk.injEq] at done
      rw [← done.1, ← done.2.1, ← done.2.2]
      exact moment
  | cons turn rest ih =>
      have later := fun move member => allowed move (List.mem_cons_of_mem turn member)
      cases turn with
      | left n =>
          simp only [duet, Option.bind_eq_some_iff] at done
          obtain ⟨⟨here, u⟩, run, more⟩ := done
          have next : Par exec alive env p c s₀ here d u :=
            replayWhile_keeps (M := fun q s => Par exec alive env p c s₀ q d s) oracle
              (fun moment _ move => .left moment move) n moment run
          exact ih later next more
      | right n =>
          simp only [duet, Option.bind_eq_some_iff] at done
          obtain ⟨⟨here, u⟩, run, more⟩ := done
          have next : Par exec alive env p c s₀ q here u :=
            replayWhile_keeps (M := fun d s => Par exec alive env p c s₀ q d s) oracle
              (fun moment living move => .right moment living move) n moment run
          exact ih later next more
      | env move =>
          simp only [duet, Option.bind_eq_some_iff] at done
          obtain ⟨u, moved, more⟩ := done
          exact ih later (.env moment (allowed move List.mem_cons_self _ _ moved)) more

/-- What two programs that took turns have come to can be reached. -/
theorem duet_shows {turns : List (Turn σ)}
    (allowed : ∀ move, Turn.env move ∈ turns → ∀ s t, move s = some t → env s t)
    {P : Prog E R σ α → Prog E R σ β → σ → Prop} [∀ q d t, Decidable (P q d t)]
    (seen : (duet exec oracle alive turns p c s).any
      (fun here => decide (P here.1 here.2.1 here.2.2)) = true) :
    ∃ q d t, Par exec alive env p c s q d t ∧ P q d t := by
  rw [Option.any_eq_true] at seen
  obtain ⟨⟨q, d, t⟩, done, good⟩ := seen
  exact ⟨q, d, t, duet_par oracle allowed .start done, of_decide_eq_true good⟩

end

variable (exec) in
/-- A whole run, with the events it goes through. -/
def perform : Nat → Prog E R σ α → σ → Option (List (Event σ R) × α × σ)
  | _, .pure a, s => some ([], a, s)
  | 0, _, _ => none
  | n + 1, .act f k, s => perform n (k (f s).1) (f s).2
  | n + 1, .call e k, s => (exec e s (oracle n e s)).bind (fun t =>
      (perform n (k (oracle n e s)) t).map (fun last => (⟨s, e, oracle n e s⟩ :: last.1, last.2)))
  | n + 1, .loop body b k, s => perform n ((body b).bind (resume body k)) s

theorem perform_trace (n : Nat) {p : Prog E R σ α} {s t : σ} {events : List (Event σ R)} {a : α}
    (done : perform exec oracle n p s = some (events, a, t)) : Trace exec p s events a t := by
  induction n generalizing p s events with
  | zero =>
      cases p with
      | pure b =>
          cases done
          exact .pure _ _
      | act f k => cases done
      | call e k => cases done
      | loop body b k => cases done
  | succ n ih =>
      cases p with
      | pure b =>
          cases done
          exact .pure _ _
      | act f k => exact .act f k (ih done)
      | call e k =>
          simp only [perform, Option.bind_eq_some_iff, Option.map_eq_some_iff, Prod.mk.injEq] at done
          rcases done with ⟨u, answer, ⟨rest, b, x⟩, last, rfl, same⟩
          cases same
          exact .call e k answer (ih last)
      | loop body b k => exact .loop body b k (ih done)

end Atomic.Prog
