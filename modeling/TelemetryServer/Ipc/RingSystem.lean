import TelemetryServer.Calm
import TelemetryServer.Ipc.ConsumerSpec
import TelemetryServer.Ipc.Totality

namespace TelemetryServer.Ipc

open Protocol Atomic

inductive ProducerCommand
  | tryPush (span : List UInt8)
  | tryPushBatch (span : List UInt8)
  | closeProducer

inductive ConsumerCommand
  | tryPop (size : Nat)
  | tryPopBatch (size : Nat)

/-- A call of the producer, which reports how many leading frames of the span it took. -/
def ProducerCommand.run : ProducerCommand → Proc Unit
  | .tryPush span => do
      let ok ← Ipc.tryPush span
      Proc.point (.pushed span (if ok then 1 else 0))
  | .tryPushBatch span => do
      let count ← Ipc.tryPushBatch span
      Proc.point (.pushed span count)
  | .closeProducer => Ipc.closeProducer

def ConsumerCommand.run : ConsumerCommand → Proc Unit
  | .tryPop size => do
      let frame ← Ipc.tryPop size
      Proc.point (.popped frame.toList)
  | .tryPopBatch size => do
      let fs ← Ipc.tryPopBatch size
      Proc.point (.popped fs)

def producer : List ProducerCommand → Proc Unit
  | [] => return ()
  | command :: rest => do
      command.run
      producer rest

def consumer : List ConsumerCommand → Proc Unit
  | [] => return ()
  | command :: rest => do
      command.run
      consumer rest

def ConsumerCommand.Proper : ConsumerCommand → Prop
  | .tryPop size => size = kFrameSize
  | .tryPopBatch size => size ≠ 0 ∧ size % kFrameSize = 0

/-- The world right after `create`, whatever the mapped slots hold. -/
structure Created (w : World) : Prop where
  head : w.ring.head = 0
  tail : w.ring.tail = 0
  opened : w.ring.producerClosed = 0
  published : w.ring.published = []
  released : w.ring.released = 0
  reported : w.past.reported = []
  delivered : w.past.delivered = []

structure QueueInv (w : World) : Prop where
  ring : RingInv w.ring
  delivered : w.past.delivered <+: w.ring.frames
  reported : w.past.reported <+: w.ring.frames

theorem Created.queueInv {w : World} (created : Created w) : QueueInv w := by
  have empty : w.ring.frames = [] := by rw [Layout.frames, created.published, List.map_nil]
  refine ⟨⟨?_, ?_, ?_, ?_, ?_⟩, ?_, ?_⟩
  · rw [created.head, created.published]
    rfl
  · rw [created.tail, created.released]
    rfl
  · rw [created.released]
    exact Nat.zero_le _
  · rw [created.published]
    exact Nat.zero_le _
  · intro i _ high
    rw [created.published] at high
    exact absurd high (Nat.not_lt_zero i)
  · rw [created.delivered]
    exact List.nil_prefix
  · rw [created.reported]
    exact List.nil_prefix

structure ProducerRely (w v : World) : Prop where
  view : ProducerView w.ring v.ring
  reported : v.past.reported = w.past.reported
  lastRecv : v.net.lastRecv = w.net.lastRecv
  dataOwed : v.past.dataOwed = w.past.dataOwed
  keeps : QueueInv w → QueueInv v

structure ConsumerRely (w v : World) : Prop where
  view : ConsumerView w.ring v.ring
  delivered : v.past.delivered = w.past.delivered
  spaceOwed : v.past.spaceOwed = w.past.spaceOwed
  keeps : QueueInv w → QueueInv v

theorem ProducerRely.refl (w : World) : ProducerRely w w := ⟨.refl _, rfl, rfl, rfl, id⟩

theorem ConsumerRely.refl (w : World) : ConsumerRely w w := ⟨.refl _, rfl, rfl, id⟩

theorem ProducerRely.trans {w v u : World} (first : ProducerRely w v) (second : ProducerRely v u) :
    ProducerRely w u :=
  ⟨first.view.trans second.view, second.reported.trans first.reported,
    second.lastRecv.trans first.lastRecv, second.dataOwed.trans first.dataOwed,
    fun keep => second.keeps (first.keeps keep)⟩

theorem ConsumerRely.trans {w v u : World} (first : ConsumerRely w v) (second : ConsumerRely v u) :
    ConsumerRely w u :=
  ⟨first.view.trans second.view, second.delivered.trans first.delivered,
    second.spaceOwed.trans first.spaceOwed, fun keep => second.keeps (first.keeps keep)⟩

/-- The producer writes free slots only, and what it reports is what it has published. -/
def producerPre : Call → World → Prop
  | .ring (.storeSlot index _), w => FreeSlot w.ring index
  | .point (.pushed span count), w => count ≤ (frames span).length ∧
      w.ring.frames = w.past.reported ++ (frames span).take count
  | _, _ => True

def consumerPre : Call → World → Prop
  | .ring (.loadSlot index), w => UnreadSlot w.ring index
  | _, _ => True

def producerLogic : Logic where
  inv := QueueInv
  rely := ProducerRely
  guar := ConsumerRely
  pre := producerPre
  rely_refl := ProducerRely.refl
  rely_trans := ProducerRely.trans
  rely_inv := fun move keep => move.keeps keep
  guar_refl := ConsumerRely.refl

def consumerLogic : Logic where
  inv := QueueInv
  rely := ConsumerRely
  guar := ProducerRely
  pre := consumerPre
  rely_refl := ConsumerRely.refl
  rely_trans := ConsumerRely.trans
  rely_inv := fun move keep => move.keeps keep
  guar_refl := ProducerRely.refl

theorem publish_frames (w : World) (fs : List Frame) :
    (w.publish fs).ring.frames = w.ring.frames ++ fs := by
  simp [World.publish, Layout.frames, Function.comp_def]

theorem producerLogic_produces : Produces producerLogic (fun _ _ => True) where
  ring := fun keep => keep.ring
  view := fun move => move.view
  own := fun move => ⟨move.lastRecv, move.dataOwed⟩
  loads := fun _ => ⟨trivial, trivial, trivial⟩
  slot := by
    intro w i frame keep free
    have after : QueueInv (w.putSlot i frame) :=
      ⟨keep.ring.putSlot free frame, keep.delivered, keep.reported⟩
    have still : ConsumerView w.ring (w.putSlot i frame).ring :=
      ⟨rfl, rfl, List.prefix_rfl, fun closed => ⟨closed, rfl⟩⟩
    exact ⟨free, after, still, rfl, rfl, fun _ => after⟩
  publish := by
    intro w fs keep _ opened _ holds room
    have longer := publish_frames w fs
    have after : QueueInv (w.publish fs) := by
      refine ⟨keep.ring.publish holds w.net.lastRecv room, ?_, ?_⟩
      · rw [longer]
        exact keep.delivered.trans (List.prefix_append _ _)
      · rw [longer]
        exact keep.reported.trans (List.prefix_append _ _)
    have still : ConsumerView w.ring (w.publish fs).ring :=
      ⟨rfl, rfl, List.prefix_append _ _, fun closed => absurd opened closed⟩
    exact ⟨trivial, after, still, rfl, rfl, fun _ => after⟩

theorem consumerLogic_consumes : Consumes consumerLogic where
  ring := fun keep => keep.ring
  view := fun move => move.view
  own := fun move => move.spaceOwed
  loads := fun _ => ⟨trivial, trivial, trivial⟩
  slot := fun _ unread => unread
  release := by
    intro w count keep _ there
    have after : QueueInv (w.release count) :=
      ⟨keep.ring.release there, keep.delivered, keep.reported⟩
    have still : ProducerView w.ring (w.release count).ring :=
      ⟨rfl, rfl, rfl, rfl, Nat.le_add_right _ _⟩
    exact ⟨trivial, after, still, rfl, rfl, rfl, fun _ => after⟩

theorem Published.frames_eq {w v : World} {span : List UInt8} {count : Nat}
    (published : Published w v span count) :
    v.ring.frames = w.ring.frames ++ (frames span).take count := by
  rw [Layout.frames, published.published, List.map_append, List.map_map]
  simp [Layout.frames, Function.comp_def]

/-- Reporting what has just been published settles the account again. -/
theorem report_spec {w v : World} {span : List UInt8} {count : Nat}
    (settled : w.ring.frames = w.past.reported) (published : Published w v span count)
    (unreported : v.past.reported = w.past.reported) :
    producerLogic.wp (Proc.point (.pushed span count)) (fun _ u => u.ring.frames = u.past.reported)
      v := by
  intro u move keep
  have all : u.ring.frames = u.past.reported ++ (frames span).take count := by
    rw [move.reported, unreported, ← settled, ← published.frames_eq, Layout.frames, Layout.frames,
      move.view.published]
  refine ⟨⟨published.count_le, all⟩, ?_⟩
  rintro ⟨⟩ x answer
  cases answer
  have after : QueueInv (u.passing (.pushed span count)) :=
    ⟨keep.ring, keep.delivered, by rw [show (u.passing _).ring.frames = _ from all]; exact List.prefix_rfl⟩
  refine ⟨after, ⟨.refl _, rfl, rfl, fun _ => after⟩, ?_⟩
  intro y move' _
  rw [move'.reported, Layout.frames, move'.view.published]
  exact all

theorem ProducerCommand.run_spec (command : ProducerCommand) {w : World}
    (keep : QueueInv w) (settled : w.ring.frames = w.past.reported) :
    producerLogic.wp command.run (fun _ v => v.ring.frames = v.past.reported) w := by
  have stable : ∀ {v u : World}, producerLogic.rely v u →
      v.past.reported = w.past.reported → u.past.reported = w.past.reported :=
    fun move same => move.reported.trans same
  cases command with
  | tryPush span =>
      have push := tryPush_spec producerLogic_produces
        (F := fun v => v.past.reported = w.past.reported) stable (fun same => same) span rfl
        (fun _ _ _ _ _ => trivial)
      apply Logic.wp_seq keep push
      rintro ok v _ ⟨published, same⟩
      exact report_spec settled published same
  | tryPushBatch span =>
      have push := tryPushBatch_spec producerLogic_produces
        (F := fun v => v.past.reported = w.past.reported) stable (fun same => same) span rfl
        (fun _ _ _ _ _ => trivial)
      apply Logic.wp_seq keep push
      rintro count v _ ⟨pushed, same⟩
      exact report_spec settled pushed.1 same
  | closeProducer =>
      intro v move keepV
      refine ⟨trivial, ?_⟩
      rintro ⟨⟩ x answer
      cases answer
      have after : QueueInv { v with
          ring := { v.ring with producerClosed := 1 }
          past := { v.past with dataOwed := true } } :=
        ⟨⟨keepV.ring.head_eq, keepV.ring.tail_eq, keepV.ring.released_le, keepV.ring.bounded,
          keepV.ring.slots_eq⟩, keepV.delivered, keepV.reported⟩
      have still : ConsumerView v.ring { v.ring with producerClosed := 1 } :=
        ⟨rfl, rfl, List.prefix_rfl, fun _ => ⟨Nat.one_ne_zero, rfl⟩⟩
      refine ⟨after, ⟨still, rfl, rfl, fun _ => after⟩, ?_⟩
      intro u move' _
      rw [Layout.frames, move'.view.published, move'.reported]
      change v.ring.frames = v.past.reported
      rw [Layout.frames, move.view.published, move.reported]
      exact settled

theorem producer_spec (commands : List ProducerCommand) {w : World} (keep : QueueInv w)
    (settled : w.ring.frames = w.past.reported) :
    producerLogic.wp (producer commands) (fun _ v => v.ring.frames = v.past.reported) w := by
  induction commands generalizing w with
  | nil =>
      intro v move _
      rw [Layout.frames, move.view.published, move.reported]
      exact settled
  | cons command rest ih =>
      apply Logic.wp_seq keep (command.run_spec keep settled)
      intro _ v keepV settledV
      exact ih keepV settledV

/-- The consumer stands between two calls: it has been handed all it has given back. -/
def Received (w : World) : Prop := w.past.delivered = w.ring.frames.take w.ring.released

theorem take_frames {l m : Layout} (published : l.published <+: m.published) {n : Nat}
    (old : n ≤ l.published.length) : m.frames.take n = l.frames.take n := by
  rcases published with ⟨new, extended⟩
  rw [Layout.frames, Layout.frames, ← extended, List.map_append]
  exact List.take_append_of_le_length (by simpa using old)

theorem Received.rely {w v : World} (received : Received w) (ring : RingInv w.ring)
    (move : ConsumerRely w v) : Received v := by
  rw [Received, move.delivered, move.view.released, take_frames move.view.published ring.released_le]
  exact received

theorem Popped.received {w v : World} {size : Nat} {fs : List Frame} (ring : RingInv w.ring)
    (received : Received w) (popped : Popped w v size fs) :
    v.ring.frames.take v.ring.released = w.past.delivered ++ fs := by
  calc v.ring.frames.take v.ring.released
      = v.ring.frames.take w.ring.released ++
          (v.ring.frames.drop w.ring.released).take fs.length := by
        rw [popped.released, List.take_add]
    _ = w.past.delivered ++ fs := by
        rw [take_frames popped.published ring.released_le, ← received, ← popped.taken]

/-- What one more call leaves: the consumer has caught up by what the span had room for. -/
structure Caught (w v : World) (room : Nat) : Prop where
  received : Received v
  published : w.ring.published <+: v.ring.published
  released : min w.ring.published.length (w.ring.released + room) ≤ v.ring.released

theorem deliver_spec {w v : World} {size room : Nat} {fs : List Frame} (keep : QueueInv w)
    (keepV : QueueInv v) (received : Received w) (popped : Popped w v size fs)
    (undelivered : v.past.delivered = w.past.delivered)
    (most : min room w.ring.occupancy ≤ fs.length) :
    consumerLogic.wp (Proc.point (.popped fs)) (fun _ u => Caught w u room) v := by
  intro u move keepU
  refine ⟨trivial, ?_⟩
  rintro ⟨⟩ x answer
  cases answer
  have later : Popped w u size fs := popped.steady_right keepV.ring ⟨move.view, move.spaceOwed⟩
  have handed : u.past.delivered ++ fs = u.ring.frames.take u.ring.released := by
    rw [later.received keep.ring received, move.delivered, undelivered]
  have after : QueueInv (u.passing (.popped fs)) := by
    refine ⟨keepU.ring, ?_, keepU.reported⟩
    change u.past.delivered ++ fs <+: u.ring.frames
    rw [handed]
    exact List.take_prefix _ _
  refine ⟨after, ⟨.refl _, rfl, rfl, rfl, fun _ => after⟩, ?_⟩
  intro y move' _
  have here : Received (u.passing (.popped fs)) := handed
  refine ⟨here.rely keepU.ring move', later.published.trans move'.view.published, ?_⟩
  rw [move'.view.released]
  change _ ≤ u.ring.released
  rw [later.released]
  rw [Layout.occupancy] at most
  omega

theorem ConsumerCommand.run_spec (command : ConsumerCommand) {w : World} (keep : QueueInv w)
    (received : Received w) {room : Nat} (fits : room = 0 ∨ command.Proper ∧ room = 1) :
    consumerLogic.wp command.run (fun _ v => Caught w v room) w := by
  have stable : ∀ {v u : World}, consumerLogic.rely v u →
      v.past.delivered = w.past.delivered → u.past.delivered = w.past.delivered :=
    fun move same => move.delivered.trans same
  cases command with
  | tryPop size =>
      have pop := tryPop_spec consumerLogic_consumes
        (F := fun v => v.past.delivered = w.past.delivered) stable (fun same => same) size rfl
      apply Logic.wp_seq keep pop
      rintro frame v keepV ⟨popped, same⟩
      apply deliver_spec keep keepV received popped same
      rcases fits with none | ⟨proper, one⟩
      · simp [none]
      · have whole : size = kFrameSize := proper
        have most := popped.most (by rw [if_pos whole, whole]; decide)
        rw [if_pos whole, whole] at most
        rw [one]
        exact most
  | tryPopBatch size =>
      have pop := tryPopBatch_any consumerLogic_consumes
        (F := fun v => v.past.delivered = w.past.delivered) stable (fun same => same) size rfl
      apply Logic.wp_seq keep pop
      rintro fs v keepV ⟨popped, same⟩
      apply deliver_spec keep keepV received popped same
      rcases fits with none | ⟨proper, one⟩
      · simp [none]
      · have whole : size ≠ 0 ∧ size % kFrameSize = 0 := proper
        have most := popped.most whole.2
        have one_le : 1 ≤ size / kFrameSize := by
          simp only [kFrameSize] at whole ⊢
          omega
        omega

/-- `n` is the number of frames the commands are known to have room for. -/
theorem consumer_spec (commands : List ConsumerCommand) {w : World} (keep : QueueInv w)
    (received : Received w) {n : Nat}
    (fits : n = 0 ∨ (∀ command ∈ commands, command.Proper) ∧ n = commands.length) :
    consumerLogic.wp (consumer commands) (fun _ v => Caught w v n) w := by
  induction commands generalizing w n with
  | nil =>
      intro v move _
      refine ⟨received.rely keep.ring move, move.view.published, ?_⟩
      rw [move.view.released]
      have none : n = 0 := by simpa using fits
      omega
  | cons command rest ih =>
      have first : min n 1 = 0 ∨ command.Proper ∧ min n 1 = 1 := by
        rcases fits with none | ⟨proper, length⟩
        · exact Or.inl (by omega)
        · rw [List.length_cons] at length
          exact Or.inr ⟨proper command List.mem_cons_self, by omega⟩
      have later : n - 1 = 0 ∨ (∀ c ∈ rest, c.Proper) ∧ n - 1 = rest.length := by
        rcases fits with none | ⟨proper, length⟩
        · exact Or.inl (by omega)
        · rw [List.length_cons] at length
          exact Or.inr ⟨fun c member => proper c (List.mem_cons_of_mem _ member), by omega⟩
      apply Logic.wp_seq keep (command.run_spec keep received first)
      intro _ v keepV caught
      apply Logic.wp_mono (ih keepV caught.received later)
      intro _ u _ more
      refine ⟨more.received, caught.published.trans more.published, ?_⟩
      have grown := caught.published.length_le
      have one := caught.released
      have others := more.released
      omega

/-- Runs of both sides, where every access is a step of its own. -/
def RingRun (p c : Proc Unit) (w : World) (q d : Proc Unit) (v : World) : Prop :=
  Prog.Par World.exec (fun _ => True) (fun _ _ => False) p c w q d v

section

variable {commands : List ProducerCommand} {calls : List ConsumerCommand} {w v u : World}
  {q d q' d' : Proc Unit}

/-- What both sides have established wherever a run has come. -/
theorem queue_reached (created : Created w)
    (run : RingRun (producer commands) (consumer calls) w q d v) :
    (QueueInv v ∧ producerLogic.wp q (fun _ u => u.ring.frames = u.past.reported) v) ∧
      QueueInv v ∧ consumerLogic.wp d (fun _ u => Caught w u 0) v := by
  have keep := created.queueInv
  have none : w.ring.frames = [] := by rw [Layout.frames, created.published, List.map_nil]
  have settled : w.ring.frames = w.past.reported := by rw [none, created.reported]
  have received : Received w := by rw [Received, none, created.delivered, List.take_nil]
  exact Logic.wp_par (L := producerLogic) (M := consumerLogic) id id False.elim False.elim keep keep
    (producer_spec commands keep settled) (consumer_spec calls keep received (Or.inl rfl)) run

/-- Once the producer has closed, nothing is published in any run. -/
theorem closed_frozen {α β : Type} {p p' : Proc α} {c c' : Proc β} {P : α → World → Prop}
    {Q : β → World → Prop} (keep : QueueInv v) (left : producerLogic.wp p P v)
    (right : consumerLogic.wp c Q v) (closed : v.ring.producerClosed ≠ 0)
    (run : Prog.Par World.exec (fun _ => True) (fun _ _ => False) p c v p' c' u) :
    u.ring.producerClosed ≠ 0 ∧ u.ring.published = v.ring.published := by
  have frozen := Logic.par_closed (L := producerLogic) (M := consumerLogic) id id False.elim
    False.elim keep keep left right
    (C := fun s t => s.ring.producerClosed ≠ 0 →
      t.ring.producerClosed ≠ 0 ∧ t.ring.published = s.ring.published)
    (fun _ shut => ⟨shut, rfl⟩)
    (fun first second shut =>
      ⟨(second (first shut).1).1, (second (first shut).1).2.trans (first shut).2⟩)
    (fun granted => granted.view.closed)
    (fun granted shut => ⟨by rw [granted.view.closed]; exact shut, granted.view.published⟩)
    False.elim run
  exact frozen closed

theorem published_of_closed {P Q : Unit → World → Prop} (keep : QueueInv v)
    (left : producerLogic.wp q P v) (right : consumerLogic.wp d Q v)
    (closed : v.ring.producerClosed ≠ 0) (run : RingRun q d v q' d' u) :
    u.ring.published = v.ring.published := (closed_frozen keep left right closed run).2

theorem point_total (p : Point) : Prog.Total World.exec (Proc.point p) :=
  ⟨fun w => ⟨(), w.passing p, rfl⟩, fun _ => trivial⟩

theorem ConsumerCommand.run_total (command : ConsumerCommand) :
    Prog.Total World.exec command.run := by
  cases command with
  | tryPop size => exact (tryPop_total size).bind (fun _ => point_total _)
  | tryPopBatch size => exact (tryPopBatch_total size).bind (fun _ => point_total _)

theorem consumer_total (calls : List ConsumerCommand) : Prog.Total World.exec (consumer calls) := by
  induction calls with
  | nil => exact trivial
  | cons call rest ih => exact call.run_total.bind (fun _ => ih)

/-- What makes the ring a bounded FIFO queue at one moment of a run: `q` and `d` are what
the producer and the consumer still have to do. -/
structure BoundedFifo (q d : Proc Unit) (v : World) : Prop where
  delivered : v.past.delivered <+: v.ring.frames
  /-- A call that reports `count` frames has published just these since the last report. -/
  accepted : ∀ span count, q.Calls (.point (.pushed span count)) →
    count ≤ (frames span).length ∧ v.ring.frames = v.past.reported ++ (frames span).take count
  reported : ∀ a, q = .pure a → v.ring.frames = v.past.reported
  head_eq : v.ring.head = v.ring.published.length % 2 ^ 64
  tail_eq : v.ring.tail = v.ring.released % 2 ^ 64
  released_le : v.ring.released ≤ v.ring.published.length
  bounded : v.ring.published.length ≤ v.ring.released + capacityFrames
  writes_free : ∀ index frame, q.Calls (.ring (.storeSlot index frame)) → FreeSlot v.ring index
  reads_unread : ∀ index, d.Calls (.ring (.loadSlot index)) → UnreadSlot v.ring index
  closed : v.ring.producerClosed ≠ 0 → ∀ q' d' u, RingRun q d v q' d' u →
    u.ring.published = v.ring.published
  /-- A consumer between two calls that goes on popping gets everything. -/
  drains : v.ring.producerClosed ≠ 0 → ∀ a more, d = .pure a →
    (∀ call ∈ more, ConsumerCommand.Proper call) → v.ring.occupancy ≤ more.length →
    (∃ u, RingRun q (consumer more) v q (.pure ()) u) ∧
    ∀ q' u, RingRun q (consumer more) v q' (.pure ()) u → u.past.delivered = v.ring.frames

theorem ring_boundedFifo (created : Created w)
    (run : RingRun (producer commands) (consumer calls) w q d v) : BoundedFifo q d v := by
  rcases queue_reached created run with ⟨⟨keep, left⟩, _, right⟩
  refine ⟨keep.delivered, ?_, ?_, keep.ring.head_eq, keep.ring.tail_eq, keep.ring.released_le,
    keep.ring.bounded, ?_, ?_, ?_, ?_⟩
  · intro span count next
    exact Logic.wp_pre keep left next
  · intro a done
    subst done
    exact left v (ProducerRely.refl v) keep
  · intro index frame next
    exact Logic.wp_pre keep left next
  · intro index next
    exact Logic.wp_pre keep right next
  · intro closed q' d' u later
    exact published_of_closed keep left right closed later
  · intro closed a more done proper enough
    subst done
    have between : Received v := (Logic.wp_post keep right).received
    have drain := consumer_spec more keep between (Or.inr ⟨proper, rfl⟩)
    constructor
    · rcases (consumer_total more).completes (fun _ _ => False) v with ⟨⟨⟩, u, alone⟩
      exact ⟨u, alone.par (fun _ => trivial)⟩
    · intro q' u later
      have same := published_of_closed keep left drain closed later
      have both := Logic.wp_par (L := producerLogic) (M := consumerLogic) id id False.elim
        False.elim keep keep left drain later
      have caught := Logic.wp_post both.2.1 both.2.2
      have all : u.ring.frames.length ≤ u.ring.released := by
        have reach := caught.released
        rw [Layout.occupancy] at enough
        rw [frames_length_eq, same]
        omega
      rw [caught.received, List.take_of_length_le all, Layout.frames, same, Layout.frames]

end

/-- What two programs come to that take turns. -/
theorem taking_turns {α β : Type} (p : Proc α) (c : Proc β) (w : World) (turns : List (Prog.Turn World))
    (only : ∀ move, Prog.Turn.env move ∉ turns) {P : Proc α → Proc β → World → Prop}
    [∀ q d v, Decidable (P q d v)] (seen : (Prog.duet World.exec Calm.answer (fun _ => True) turns
      p c w).any (fun here => decide (P here.1 here.2.1 here.2.2)) = true) :
    ∃ q d v, Prog.Par World.exec (fun _ => True) (fun _ _ => False) p c w q d v ∧ P q d v := by
  apply Prog.duet_shows Calm.answer _ seen
  intro move member
  exact absurd member (only move)

def plainFrame (byte : UInt8) : List UInt8 := List.replicate kFrameSize byte

def pushes : List ProducerCommand :=
  [.tryPushBatch (plainFrame 1 ++ plainFrame 2), .tryPush (plainFrame 3), .closeProducer]

def pops : List ConsumerCommand := [.tryPop 32, .tryPop 32, .tryPopBatch 64]

/-- The first pop comes while the batch is copied in and finds nothing, and the second delivers
a frame while the next push is under way. -/
def pushAndPop : List (Prog.Turn World) :=
  [.left 4, .right 3, .left 2, .right 3, .left 2, .right 2]

/-- The last two frames are delivered when the ring is closed. -/
theorem ring_boundedFifo_turns :
    (∃ q d v, RingRun (producer pushes) (consumer pops) {} q d v ∧ BoundedFifo q d v ∧
      v.ring.producerClosed = 0 ∧ v.ring.occupancy = 1 ∧ bytesOf v.past.delivered = plainFrame 1) ∧
    ∃ q d v, RingRun (producer pushes) (consumer pops) {} q d v ∧ BoundedFifo q d v ∧
      v.ring.producerClosed = 1 ∧
      bytesOf v.past.delivered = plainFrame 1 ++ plainFrame 2 ++ plainFrame 3 := by
  have created : Created {} := ⟨rfl, rfl, rfl, rfl, rfl, rfl, rfl⟩
  constructor
  · rcases taking_turns (producer pushes) (consumer pops) {} pushAndPop (by simp [pushAndPop])
      (P := fun _ _ v => v.ring.producerClosed = 0 ∧ v.ring.occupancy = 1 ∧
        bytesOf v.past.delivered = plainFrame 1) (by decide +kernel) with ⟨q, d, v, run, seen⟩
    exact ⟨q, d, v, run, ring_boundedFifo created run, seen⟩
  · rcases taking_turns (producer pushes) (consumer pops) {} (pushAndPop ++ [.left 6, .right 6])
      (by simp [pushAndPop]) (P := fun _ _ v => v.ring.producerClosed = 1 ∧
        bytesOf v.past.delivered = plainFrame 1 ++ plainFrame 2 ++ plainFrame 3)
      (by decide +kernel) with ⟨q, d, v, run, seen⟩
    exact ⟨q, d, v, run, ring_boundedFifo created run, seen⟩

end TelemetryServer.Ipc
