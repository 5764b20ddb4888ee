import TelemetryServer.Ipc.SharedRingBuffer

/-! Every operation of the ring comes to an end from every state: it has no loop, and an
access is always answered. -/

namespace TelemetryServer.Ipc

open Protocol Atomic

theorem total_ring {α : Type} {call : RingCall} {k : call.Resp → Proc α}
    (answers : ∀ origin l, ∃ r m, call.exec origin l r = some m)
    (rest : ∀ r, Prog.Total World.exec (k r)) :
    Prog.Total World.exec (Proc.call (.ring call) >>= k) := by
  refine ⟨fun w => ?_, rest⟩
  rcases answers w.net.lastRecv w.ring with ⟨r, m, done⟩
  refine ⟨r, { w with ring := m, past := World.noteRing w.past call }, ?_⟩
  rw [World.exec, done]
  rfl

theorem RingCall.answers (call : RingCall) (origin : Nat) (l : Layout) :
    ∃ r m, call.exec origin l r = some m := by
  cases call with
  | loadHead => exact ⟨l.head, l, if_pos rfl⟩
  | loadTail => exact ⟨l.tail, l, if_pos rfl⟩
  | loadProducerClosed => exact ⟨l.producerClosed, l, if_pos rfl⟩
  | loadSlot index => exact ⟨l.slots index, l, if_pos rfl⟩
  | storeSlot index frame => exact ⟨(), _, rfl⟩
  | storeHead value => exact ⟨(), _, rfl⟩
  | storeTail value => exact ⟨(), _, rfl⟩
  | storeProducerClosed value => exact ⟨(), _, rfl⟩

theorem copyIn_total (index : Nat) (fs : List Frame) : Prog.Total World.exec (copyIn index fs) := by
  induction fs generalizing index with
  | nil => trivial
  | cons frame rest ih => exact total_ring (RingCall.answers _) (fun _ => ih (index + 1))

theorem copyOut_total (index count : Nat) : Prog.Total World.exec (copyOut index count) := by
  induction count generalizing index with
  | zero => trivial
  | succ count ih =>
      exact total_ring (RingCall.answers _) (fun _ => (ih (index + 1)).bind (fun _ => trivial))

theorem tryPush_total (span : List UInt8) : Prog.Total World.exec (tryPush span) := by
  rw [tryPush]
  split
  · trivial
  rw [producerClosed, Prog.monad_bind_assoc]
  refine total_ring (RingCall.answers _) (fun closed => ?_)
  change Prog.Total World.exec (if (closed != 0) = true then _ else _)
  split
  · trivial
  refine total_ring (RingCall.answers _) (fun head => total_ring (RingCall.answers _) (fun tail => ?_))
  split
  · trivial
  exact total_ring (RingCall.answers _) (fun _ => total_ring (RingCall.answers _) (fun _ => trivial))

theorem tryPushBatch_total (span : List UInt8) : Prog.Total World.exec (tryPushBatch span) := by
  rw [tryPushBatch]
  split
  · trivial
  rw [producerClosed, Prog.monad_bind_assoc]
  refine total_ring (RingCall.answers _) (fun closed => ?_)
  change Prog.Total World.exec (if (closed != 0) = true then _ else _)
  split
  · trivial
  refine total_ring (RingCall.answers _) (fun head => total_ring (RingCall.answers _) (fun tail => ?_))
  dsimp only
  split
  · trivial
  have copied : Prog.Total World.exec (copyInWrapped head ((frames span).take
      (min (span.length / kFrameSize) (subU64 capacityFrames (subU64 head tail))))) := by
    rw [copyInWrapped]
    apply (copyIn_total _ _).bind
    intro _
    split
    · exact copyIn_total _ _
    · trivial
  exact copied.bind (fun _ => total_ring (RingCall.answers _) (fun _ => trivial))

theorem tryPop_total (size : Nat) : Prog.Total World.exec (tryPop size) := by
  rw [tryPop]
  split
  · trivial
  refine total_ring (RingCall.answers _) (fun tail => total_ring (RingCall.answers _) (fun head => ?_))
  split
  · trivial
  exact total_ring (RingCall.answers _) (fun _ => total_ring (RingCall.answers _) (fun _ => trivial))

theorem tryPopBatch_total (size : Nat) : Prog.Total World.exec (tryPopBatch size) := by
  rw [tryPopBatch]
  split
  · trivial
  refine total_ring (RingCall.answers _) (fun tail => total_ring (RingCall.answers _) (fun head => ?_))
  dsimp only
  split
  · trivial
  have copied : Prog.Total World.exec (copyOutWrapped tail
      (min (size / kFrameSize) (subU64 head tail))) := by
    rw [copyOutWrapped]
    apply (copyOut_total _ _).bind
    intro _
    split
    · exact (copyOut_total _ _).bind (fun _ => trivial)
    · trivial
  exact copied.bind (fun _ => total_ring (RingCall.answers _) (fun _ => trivial))

end TelemetryServer.Ipc
