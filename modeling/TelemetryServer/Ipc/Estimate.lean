import TelemetryServer.Ipc.RingSystem

/-! What `pendingFrames` is worth while the other side moves. Its two loads are not atomic
together: the producer may have seen an old tail, the consumer an old head. -/

namespace TelemetryServer.Ipc

open Protocol Atomic

inductive Look
  | pendingFrames
  | pendingBytes
  | empty
  | full
  | producerClosed

def Look.run : Look → Proc Unit
  | .pendingFrames => do
      let _ ← Ipc.pendingFrames
      return ()
  | .pendingBytes => do
      let _ ← Ipc.pendingBytes
      return ()
  | .empty => do
      let _ ← Ipc.empty
      return ()
  | .full => do
      let _ ← Ipc.full
      return ()
  | .producerClosed => do
      let _ ← Ipc.producerClosed
      return ()

/-- A call of one side: a command of its own, or a look. -/
inductive Use (Command : Type)
  | own (command : Command)
  | look (look : Look)

def producing : List (Use ProducerCommand) → Proc Unit
  | [] => return ()
  | .own command :: rest => do
      command.run
      producing rest
  | .look look :: rest => do
      look.run
      producing rest

def consuming : List (Use ConsumerCommand) → Proc Unit
  | [] => return ()
  | .own command :: rest => do
      command.run
      consuming rest
  | .look look :: rest => do
      look.run
      consuming rest

def Use.Silent : Use ProducerCommand → Prop
  | .own .closeProducer | .look _ => True
  | _ => False

section

variable {L : Logic} {w s v u : World}

theorem load_spec {α : Type} {call : Call} {k : call.Resp → Proc α} {Q : α → World → Prop}
    (before : ∀ v, L.inv v → L.pre call v)
    (reads : ∀ v r u, World.exec call v r = some u → u = v)
    (rest : ∀ v r, L.rely w v → L.inv v → L.wp (k r) Q v) : L.wp (.call call k) Q w := by
  intro v move keep
  refine ⟨before v keep, fun r u answer => ?_⟩
  rw [reads v r u answer]
  exact ⟨keep, L.guar_refl v, rest v r move keep⟩

theorem Look.run_spec (loads : ∀ {w}, L.inv w → L.pre (.ring .loadHead) w ∧
      L.pre (.ring .loadTail) w ∧ L.pre (.ring .loadProducerClosed) w) (look : Look) :
    L.wp look.run (fun _ v => L.rely w v) w := by
  have tail : ∀ v r u, World.exec (.ring .loadTail) v r = some u → u = v :=
    fun v r u answer => (World.exec_loadTail answer).2
  have head : ∀ v r u, World.exec (.ring .loadHead) v r = some u → u = v :=
    fun v r u answer => (World.exec_loadHead answer).2
  have closed : ∀ v r u, World.exec (.ring .loadProducerClosed) v r = some u → u = v :=
    fun v r u answer => (World.exec_loadProducerClosed answer).2
  cases look with
  | producerClosed =>
      apply load_spec (fun _ keep => (loads keep).2.2) closed
      exact fun v _ move _ u move' _ => L.rely_trans move move'
  | pendingFrames | pendingBytes | empty | full =>
      apply load_spec (fun _ keep => (loads keep).2.1) tail
      intro v _ move _
      apply load_spec (fun _ keep => (loads keep).1) head
      exact fun u _ move' _ x move'' _ => L.rely_trans (L.rely_trans move move') move''

/-- The producer's answer `n` was the occupancy at some moment between `s` and `v`; by `v`
frames may have gone. -/
structure FromAbove (s v : World) (n : Nat) : Prop where
  /-- The difference of the counts of published and of released frames is exact. -/
  exact : ∃ released, s.ring.released ≤ released ∧ released ≤ v.ring.released ∧
    released ≤ v.ring.published.length ∧ n = v.ring.published.length - released
  bounded : n ≤ capacityFrames
  occupancy : v.ring.occupancy ≤ n

/-- The consumer's answer `n` was the occupancy at some moment between `s` and `v`; by `v`
frames may have come. -/
structure FromBelow (s v : World) (n : Nat) : Prop where
  exact : ∃ published, s.ring.published.length ≤ published ∧
    published ≤ v.ring.published.length ∧ v.ring.released ≤ published ∧
    n = published - v.ring.released
  bounded : n ≤ capacityFrames
  occupancy : n ≤ v.ring.occupancy

theorem FromAbove.of_load (keep : QueueInv v) (move : ProducerRely s v) :
    FromAbove s v v.ring.occupancy :=
  ⟨⟨v.ring.released, move.view.released, le_rfl, keep.ring.released_le, rfl⟩,
    keep.ring.occupancy_le, le_rfl⟩

theorem FromAbove.rely {n : Nat} (load : FromAbove s v n) (move : ProducerRely v u) :
    FromAbove s u n := by
  have fewer := move.view.released
  have same := move.view.published
  obtain ⟨released, low, high, inside, exact⟩ := load.exact
  refine ⟨⟨released, low, high.trans fewer, ?_, ?_⟩, load.bounded, ?_⟩
  · rwa [same]
  · rwa [same]
  · have most := load.occupancy
    rw [Layout.occupancy] at most ⊢
    rw [same]
    omega

theorem FromBelow.of_load (keep : QueueInv v) (steady : Steady s v) :
    FromBelow s v v.ring.occupancy :=
  ⟨⟨v.ring.published.length, steady.view.published.length_le, le_rfl, keep.ring.released_le, rfl⟩,
    keep.ring.occupancy_le, le_rfl⟩

theorem FromBelow.rely {n : Nat} (load : FromBelow s v n) (move : ConsumerRely v u) :
    FromBelow s u n := by
  have longer := move.view.published.length_le
  have same := move.view.released
  obtain ⟨published, low, high, inside, exact⟩ := load.exact
  refine ⟨⟨published, low, high.trans longer, ?_, ?_⟩, load.bounded, ?_⟩
  · rwa [same]
  · rwa [same]
  · have least := load.occupancy
    rw [Layout.occupancy] at least ⊢
    rw [same]
    omega

theorem pendingFrames_above : producerLogic.wp pendingFrames (fun n v => FromAbove s v n) s :=
  pendingFrames_producer producerLogic_produces (fun _ move keep => .of_load keep move)
    (fun _ _ _ move _ load => load.rely move)

theorem pendingFrames_below : consumerLogic.wp pendingFrames (fun n v => FromBelow s v n) s :=
  pendingFrames_consumer consumerLogic_consumes (fun _ steady keep => .of_load keep steady)
    (fun _ _ _ move _ load => load.rely move)

theorem empty_above (keep : QueueInv s) :
    producerLogic.wp empty (fun none v => none = true → v.ring.occupancy = 0) s := by
  apply Logic.wp_seq keep pendingFrames_above
  intro n v _ load u move _ none
  have zero : n = 0 := of_decide_eq_true none
  have most := (load.rely move).occupancy
  omega

/-- With nothing published since `s`, a consumer that finds the ring empty has taken all. -/
theorem empty_below (keep : QueueInv s) (received : Received s) :
    consumerLogic.wp empty (fun none v => Received v ∧
      (none = true → v.ring.published = s.ring.published → v.past.delivered = v.ring.frames)) s := by
  apply loadOccupancy_spec consumerLogic_consumes
    (F := fun v => v.past.delivered = s.past.delivered)
    (k := fun tail head => pure (subU64 head tail == 0))
    (fun move same => move.delivered.trans same) rfl
  intro v keepV steady undelivered u move keepU
  have view := steady.view.trans move.view
  have receivedU : Received u := by
    rw [Received, move.delivered, undelivered, view.released,
      take_frames view.published keep.ring.released_le]
    exact received
  refine ⟨receivedU, fun none unpublished => ?_⟩
  have nothing : v.ring.occupancy = 0 := by
    rw [← distance_eq keepV.ring]
    exact of_decide_eq_true none
  have all : u.ring.frames.length ≤ u.ring.released := by
    have longer := steady.view.published.length_le
    have le := keepV.ring.released_le
    rw [Layout.occupancy] at nothing
    rw [frames_length_eq, unpublished, move.view.released]
    omega
  rw [receivedU, List.take_of_length_le all]

theorem producerClosed_below (keep : QueueInv s) (received : Received s) :
    consumerLogic.wp producerClosed
      (fun closed v => Received v ∧ (closed = true → v.ring.producerClosed ≠ 0)) s := by
  intro v move keepV
  refine ⟨trivial, fun value x answer => ?_⟩
  rcases World.exec_loadProducerClosed answer with ⟨loaded, same⟩
  subst x
  subst value
  refine ⟨keepV, .refl v, ?_⟩
  intro u move' keepU
  have receivedV := received.rely keep.ring move
  refine ⟨receivedV.rely keepV.ring move', fun closed => ?_⟩
  exact (move'.view.closed (bne_iff_ne.mp closed)).1

theorem producing_spec (uses : List (Use ProducerCommand)) (keep : QueueInv s)
    (settled : s.ring.frames = s.past.reported) :
    producerLogic.wp (producing uses) (fun _ v => v.ring.frames = v.past.reported) s := by
  have still : ∀ {v u : World}, ProducerRely v u → v.ring.frames = v.past.reported →
      u.ring.frames = u.past.reported := by
    intro v u move settled
    rw [Layout.frames, move.view.published, move.reported]
    exact settled
  induction uses generalizing s with
  | nil => exact fun v move _ => still move settled
  | cons use rest ih =>
      cases use with
      | own command =>
          apply Logic.wp_seq keep (command.run_spec keep settled)
          exact fun _ v keepV settledV => ih keepV settledV
      | look look =>
          apply Logic.wp_seq keep (look.run_spec producerLogic_produces.loads)
          exact fun _ v keepV move => ih keepV (still move settled)

theorem consuming_spec (uses : List (Use ConsumerCommand)) (keep : QueueInv s)
    (received : Received s) : consumerLogic.wp (consuming uses) (fun _ v => Received v) s := by
  induction uses generalizing s with
  | nil => exact fun v move _ => received.rely keep.ring move
  | cons use rest ih =>
      cases use with
      | own command =>
          apply Logic.wp_seq keep (command.run_spec keep received (Or.inl rfl))
          exact fun _ v keepV caught => ih keepV caught.received
      | look look =>
          apply Logic.wp_seq keep (look.run_spec consumerLogic_consumes.loads)
          exact fun _ v keepV move => ih keepV (received.rely keep.ring move)

def silentLogic : Logic :=
  { producerLogic with
    guar := fun w v => ConsumerRely w v ∧ v.ring.published = w.ring.published
    guar_refl := fun w => ⟨.refl w, rfl⟩ }

theorem silent_spec (uses : List (Use ProducerCommand)) (silent : ∀ use ∈ uses, use.Silent)
    (keep : QueueInv s) : silentLogic.wp (producing uses) (fun _ _ => True) s := by
  induction uses generalizing s with
  | nil => exact fun _ _ _ => trivial
  | cons use rest ih =>
      have later : ∀ v, QueueInv v → silentLogic.wp (producing rest) (fun _ _ => True) v :=
        fun v keepV => ih (fun use member => silent use (List.mem_cons_of_mem _ member)) keepV
      have first := silent use List.mem_cons_self
      cases use with
      | own command =>
          cases command with
          | tryPush span | tryPushBatch span => exact first.elim
          | closeProducer =>
              intro v _ keepV
              refine ⟨trivial, ?_⟩
              intro r x answer
              cases answer
              have ring : RingInv { v.ring with producerClosed := 1 } :=
                ⟨keepV.ring.head_eq, keepV.ring.tail_eq, keepV.ring.released_le,
                  keepV.ring.bounded, keepV.ring.slots_eq⟩
              have after : QueueInv { v with
                  ring := { v.ring with producerClosed := 1 }
                  past := { v.past with dataOwed := true } } :=
                ⟨ring, keepV.delivered, keepV.reported⟩
              exact ⟨after, ⟨⟨⟨rfl, rfl, List.prefix_rfl, fun _ => ⟨Nat.one_ne_zero, rfl⟩⟩,
                rfl, rfl, fun _ => after⟩, rfl⟩, later _ after⟩
      | look look =>
          have loads : ∀ {w}, silentLogic.inv w → silentLogic.pre (.ring .loadHead) w ∧
              silentLogic.pre (.ring .loadTail) w ∧
              silentLogic.pre (.ring .loadProducerClosed) w :=
            fun _ => ⟨trivial, trivial, trivial⟩
          apply Logic.wp_seq keep (look.run_spec loads)
          exact fun _ v keepV _ => later v keepV

end

abbrev RingRunOf {α β : Type} (p : Proc α) (c : Proc β) (w : World) (q : Proc α) (d : Proc β)
    (v : World) : Prop :=
  Prog.Par World.exec (fun _ => True) (fun _ _ => False) p c w q d v

/-- What the looks of either side are worth, at a moment of a run: `q` and `d` are what the
producer and the consumer still have to do. -/
structure Estimates (q d : Proc Unit) (v : World) : Prop where
  producer : q = .pure () → ∀ n d₁ u, RingRunOf pendingFrames d v (.pure n) d₁ u →
    FromAbove v u n
  consumer : d = .pure () → ∀ n q₁ u, RingRunOf q pendingFrames v q₁ (.pure n) u →
    FromBelow v u n
  /-- A producer that has found the ring empty and pushes no more leaves it empty. -/
  drained : q = .pure () → ∀ d₁ u, RingRunOf empty d v (.pure true) d₁ u →
    ∀ uses, (∀ use ∈ uses, Use.Silent use) → ∀ q₂ d₂ x,
      RingRunOf (producing uses) d₁ u q₂ d₂ x → x.ring.occupancy = 0
  /-- A consumer that has found the producer closed and later the ring empty has popped every
  frame there will be. -/
  finished : d = .pure () → ∀ q₁ u, RingRunOf q producerClosed v q₁ (.pure true) u →
    ∀ uses q₂ x, RingRunOf q₁ (consuming uses) u q₂ (.pure ()) x →
    ∀ q₃ y, RingRunOf q₂ empty x q₃ (.pure true) y → y.past.delivered = y.ring.frames ∧
      ∀ more q₄ d₄ z, RingRunOf q₃ (consuming more) y q₄ d₄ z → z.ring.frames = y.past.delivered

section

variable {w v u : World} {q d : Proc Unit}

theorem uses_reached {uses : List (Use ProducerCommand)} {calls : List (Use ConsumerCommand)}
    (created : Created w) (run : RingRunOf (producing uses) (consuming calls) w q d v) :
    (QueueInv v ∧ producerLogic.wp q (fun _ u => u.ring.frames = u.past.reported) v) ∧
      QueueInv v ∧ consumerLogic.wp d (fun _ u => Received u) v := by
  have keep := created.queueInv
  have none : w.ring.frames = [] := by rw [Layout.frames, created.published, List.map_nil]
  have settled : w.ring.frames = w.past.reported := by rw [none, created.reported]
  have received : Received w := by rw [Received, none, created.delivered, List.take_nil]
  exact Logic.wp_par (L := producerLogic) (M := consumerLogic) id id False.elim False.elim keep keep
    (producing_spec uses keep settled) (consuming_spec calls keep received) run

/-- Both sides go on from a reachable moment, each with a program of its own. -/
theorem go_on {α β : Type} {p p' : Proc α} {c c' : Proc β} {P : α → World → Prop}
    {Q : β → World → Prop} (keep : QueueInv v) (left : producerLogic.wp p P v)
    (right : consumerLogic.wp c Q v) (run : RingRunOf p c v p' c' u) :
    (QueueInv u ∧ producerLogic.wp p' P u) ∧ QueueInv u ∧ consumerLogic.wp c' Q u :=
  Logic.wp_par (L := producerLogic) (M := consumerLogic) id id False.elim False.elim keep keep left
    right run

theorem drained_stays {d' d'' : Proc Unit} {q' : Proc Unit} {x : World}
    {uses : List (Use ProducerCommand)} (silent : ∀ use ∈ uses, use.Silent) (keep : QueueInv u)
    {Q : Unit → World → Prop} (right : consumerLogic.wp d' Q u) (none : u.ring.occupancy = 0)
    (run : RingRunOf (producing uses) d' u q' d'' x) : x.ring.occupancy = 0 := by
  have left := silent_spec uses silent keep
  have frozen : x.ring.published = u.ring.published ∧ u.ring.released ≤ x.ring.released :=
    Logic.par_closed (L := silentLogic) (M := consumerLogic) And.left id False.elim False.elim keep
      keep left right
      (C := fun s t => t.ring.published = s.ring.published ∧ s.ring.released ≤ t.ring.released)
      (fun _ => ⟨rfl, le_rfl⟩)
      (fun first second => ⟨second.1.trans first.1, first.2.trans second.2⟩)
      (fun granted => ⟨granted.2, granted.1.view.released.ge⟩)
      (fun granted => ⟨granted.view.published, granted.view.released⟩)
      False.elim run
  rw [Layout.occupancy] at none ⊢
  rw [frozen.1]
  omega

theorem finished_popped {q₁ q₂ q₃ : Proc Unit} {x y : World} {uses : List (Use ConsumerCommand)}
    {P : Unit → World → Prop} (keep : QueueInv v) (received : Received v)
    (left : producerLogic.wp q P v) (closing : RingRunOf q producerClosed v q₁ (.pure true) u)
    (between : RingRunOf q₁ (consuming uses) u q₂ (.pure ()) x)
    (ending : RingRunOf q₂ empty x q₃ (.pure true) y) :
    QueueInv y ∧ producerLogic.wp q₃ P y ∧ Received y ∧ y.ring.producerClosed ≠ 0 ∧
      y.past.delivered = y.ring.frames := by
  have atClosed := go_on keep left (producerClosed_below keep received) closing
  obtain ⟨receivedU, closed⟩ := Logic.wp_post atClosed.2.1 atClosed.2.2
  have uses_right := consuming_spec uses atClosed.2.1 receivedU
  have atBetween := go_on atClosed.2.1 atClosed.1.2 uses_right between
  have frozen := closed_frozen atClosed.2.1 atClosed.1.2 uses_right (closed rfl) between
  have receivedX := Logic.wp_post atBetween.2.1 atBetween.2.2
  have empty_right := empty_below atBetween.2.1 receivedX
  have atEmpty := go_on atBetween.2.1 atBetween.1.2 empty_right ending
  have frozen' := closed_frozen atBetween.2.1 atBetween.1.2 empty_right frozen.1 ending
  obtain ⟨receivedY, all⟩ := Logic.wp_post atEmpty.2.1 atEmpty.2.2
  exact ⟨atEmpty.2.1, atEmpty.1.2, receivedY, frozen'.1, all rfl frozen'.2⟩

theorem pendingFrames_estimates {uses : List (Use ProducerCommand)}
    {calls : List (Use ConsumerCommand)} (created : Created w)
    (run : RingRunOf (producing uses) (consuming calls) w q d v) : Estimates q d v := by
  obtain ⟨⟨keep, left⟩, _, right⟩ := uses_reached created run
  constructor
  · intro _ n d₁ u look
    have after := go_on keep pendingFrames_above right look
    have answer := Logic.wp_post after.1.1 after.1.2
    exact answer
  · intro _ n q₁ u look
    have after := go_on keep left pendingFrames_below look
    have answer := Logic.wp_post after.2.1 after.2.2
    exact answer
  · intro _ d₁ u look uses silent q₂ d₂ x later
    have after := go_on keep (empty_above keep) right look
    have none := Logic.wp_post after.1.1 after.1.2 rfl
    exact drained_stays silent after.1.1 after.2.2 none later
  · intro done q₁ u closing uses q₂ x between q₃ y ending
    subst done
    have received := Logic.wp_post keep right
    obtain ⟨keepY, leftY, receivedY, closed, all⟩ :=
      finished_popped keep received left closing between ending
    refine ⟨all, fun more q₄ d₄ z later => ?_⟩
    have frozen := closed_frozen keepY leftY (consuming_spec more keepY receivedY) closed later
    rw [all, Layout.frames, frozen.2, Layout.frames]

end

def pushThenLook : List (Use ProducerCommand) :=
  [.own (.tryPushBatch (plainFrame 1 ++ plainFrame 2)), .look .pendingFrames]

def lookThenPop : List (Use ConsumerCommand) :=
  [.look .empty, .own (.tryPop 32), .own (.tryPop 32)]

/-- Between the two loads of the producer's last look the consumer pops the last frame, which is
still counted. -/
theorem pendingFrames_estimates_turns : ∃ q d v d₁ u,
    RingRunOf (producing pushThenLook) (consuming lookThenPop) {} q d v ∧ Estimates q d v ∧
    bytesOf v.past.delivered = plainFrame 1 ∧
    RingRunOf pendingFrames d v (.pure 1) d₁ u ∧ u.ring.occupancy = 0 ∧ FromAbove v u 1 := by
  have created : Created {} := ⟨rfl, rfl, rfl, rfl, rfl, rfl, rfl⟩
  rcases taking_turns (producing pushThenLook) (consuming lookThenPop) {}
    [.left 4, .right 1, .left 4, .right 5, .left 1, .right 1] (by simp)
    (P := fun q d v => q.result = some () ∧ bytesOf v.past.delivered = plainFrame 1 ∧
      (Prog.duet World.exec Calm.answer (fun _ => True) [.left 1, .right 4, .left 1] pendingFrames
        d v).any (fun here => decide (here.1.result = some 1 ∧ here.2.2.ring.occupancy = 0)) = true)
    (by decide +kernel) with ⟨q, d, v, run, ended, delivered, looked⟩
  rcases taking_turns pendingFrames d v _ (by simp)
    (P := fun p _ u => p.result = some 1 ∧ u.ring.occupancy = 0) looked with
    ⟨p, d₁, u, look, answer, none⟩
  obtain rfl := Prog.eq_pure_of_result ended
  obtain rfl := Prog.eq_pure_of_result answer
  have estimates := pendingFrames_estimates created run
  exact ⟨_, d, v, d₁, u, run, estimates, delivered, look, none, estimates.producer rfl 1 d₁ u look⟩

end TelemetryServer.Ipc
