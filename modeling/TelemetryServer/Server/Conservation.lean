import TelemetryServer.Server.Runs

/-! `readClient` with any ring and any answers: no byte and no notification is lost or made
up. Nothing is assumed of the rest of the server, so the specification used for whole runs
does not apply here. -/

namespace TelemetryServer.Server

open Protocol Ipc Atomic

/-- What goes on beside the server: the ring is consumed by its rules, and the server's
memory is its own. -/
structure Elsewhere (w v : World) : Prop where
  view : ProducerView w.ring v.ring
  ring : RingInv w.ring → RingInv v.ring
  server : v.server = w.server
  lastRecv : v.net.lastRecv = w.net.lastRecv
  dataOwed : v.past.dataOwed = w.past.dataOwed

namespace Elsewhere

theorem refl (w : World) : Elsewhere w w := ⟨.refl _, id, rfl, rfl, rfl⟩

theorem trans {w v u : World} (first : Elsewhere w v) (second : Elsewhere v u) : Elsewhere w u :=
  ⟨first.view.trans second.view, second.ring ∘ first.ring, second.server.trans first.server,
    second.lastRecv.trans first.lastRecv, second.dataOwed.trans first.dataOwed⟩

def logic : Logic where
  inv := fun w => RingInv w.ring
  rely := Elsewhere
  guar := fun _ _ => True
  pre := fun _ _ => True
  rely_refl := refl
  rely_trans := trans
  rely_inv := fun move => move.ring
  guar_refl := fun _ => trivial

theorem produces : Produces logic (fun _ _ => True) where
  ring := id
  view := Elsewhere.view
  own := fun move => ⟨move.lastRecv, move.dataOwed⟩
  loads := fun _ => ⟨trivial, trivial, trivial⟩
  slot := fun frame keep free => ⟨trivial, keep.putSlot free frame, trivial⟩
  publish := fun keep _ _ _ holds room => ⟨trivial, keep.publish holds _ room, trivial⟩

end Elsewhere

abbrev Runs {α : Type} (p : Proc α) (w : World) (events : List Happening) (a : α) (v : World) : Prop :=
  Prog.Among World.exec Elsewhere p w events a v

/-- The frames an event makes visible to the consumer. -/
def publishedBy : Happening → List Frame
  | ⟨w, .ring (.storeHead value), _⟩ => w.ring.exposed value
  | _ => []

def receivedBy : Happening → List UInt8
  | ⟨_, .net (.recv _), .data bytes⟩ => bytes
  | _ => []

def isRecv : Happening → Bool
  | ⟨_, .net (.recv _), _⟩ => true
  | _ => false

/-- The end of a `notifyEvent(dataReadyFd)`: a write that is not tried again. -/
def notifies : Happening → Bool
  | ⟨_, .eventWrite .dataReady, .ok⟩ => true
  | ⟨_, .eventWrite .dataReady, .error⟩ => true
  | _ => false

section Steps

variable {α β : Type} {w v : World} {events : List Happening} {a : α}

theorem runs_pure {b : α} (run : Runs (pure b) w events a v) : events = [] ∧ a = b ∧ Elsewhere w v := by
  cases run with
  | pure _ gap => exact ⟨rfl, rfl, gap⟩

theorem runs_bind {p : Proc β} {f : β → Proc α} (run : Runs (p >>= f) w events a v) :
    ∃ b u first rest, Runs p w first b u ∧ Runs (f b) u rest a v ∧ events = first ++ rest :=
  Prog.Among.split Elsewhere.refl run

theorem runs_call {c : Call} {k : c.Resp → Proc α} (run : Runs (Proc.call c >>= k) w events a v) :
    ∃ u r t rest, Elsewhere w u ∧ World.exec c u r = some t ∧ Runs (k r) t rest a v ∧
      events = ⟨u, c, r⟩ :: rest := by
  cases run with
  | call _ _ gap answer rest => exact ⟨_, _, _, _, gap, answer, rest, rfl⟩

theorem runs_memory {k : Memory → Proc α} (run : Runs (memory >>= k) w events a v) :
    Runs (k w.server) w events a v := by
  cases run with
  | act _ _ gap rest =>
      rw [← gap.server]
      have trans : ∀ w v u, Elsewhere w v → Elsewhere v u → Elsewhere w u := fun _ _ _ => Elsewhere.trans
      exact Prog.Among.front trans gap rest

theorem runs_update {f : Memory → Memory} {k : Unit → Proc α}
    (run : Runs (update f >>= k) w events a v) :
    ∃ u, Elsewhere w u ∧ Runs (k ()) { u with server := f w.server } events a v := by
  cases run with
  | act _ _ gap rest =>
      rw [← gap.server]
      exact ⟨_, gap, rest⟩

end Steps

def harmless : Call → Bool
  | .ring .loadHead | .ring .loadTail | .ring .loadProducerClosed => true
  | .net _ | .eventWrite _ | .log _ | .point _ => true
  | _ => false

theorem exec_harmless (call : Call) {w v : World} {r : call.Resp} (allowed : harmless call = true)
    (answer : World.exec call w r = some v) : v.server = w.server ∧ v.ring = w.ring := by
  cases call with
  | ring call =>
      cases call with
      | loadHead => exact (World.exec_loadHead answer).2 ▸ ⟨rfl, rfl⟩
      | loadTail => exact (World.exec_loadTail answer).2 ▸ ⟨rfl, rfl⟩
      | loadProducerClosed => exact (World.exec_loadProducerClosed answer).2 ▸ ⟨rfl, rfl⟩
      | loadSlot i => cases allowed
      | storeSlot i frame => cases allowed
      | storeHead value => cases allowed
      | storeTail value => cases allowed
      | storeProducerClosed value => cases allowed
  | net call =>
      rcases exec_net answer with ⟨net, _, rfl⟩
      exact ⟨rfl, rfl⟩
  | eventWrite fd =>
      simp only [World.exec, Option.map_eq_some_iff] at answer
      rcases answer with ⟨value, _, rfl⟩
      cases fd <;> cases r <;> exact ⟨rfl, rfl⟩
  | log line =>
      cases line <;> cases answer <;> exact ⟨rfl, rfl⟩
  | point p =>
      cases answer
      exact ⟨rfl, rfl⟩
  | eventRead fd => cases allowed
  | fs call => cases allowed
  | epollWait => cases allowed
  | signalfd => cases allowed
  | signalRead => cases allowed
  | kill => cases allowed
  | waitpid => cases allowed
  | exit code => cases allowed
  | iteration keys => cases allowed

/-- The batch an event notes as pushed, and how many of its frames were. -/
def pushedBy : Happening → List (List UInt8 × Nat)
  | ⟨_, .point (.pushed span count), _⟩ => [(span, count)]
  | _ => []

/-- Between `w` and `v` the frames `fs` were published, `notes` notifications made and
`pushes` noted, and nothing was received. -/
structure Tally (w : World) (events : List Happening) (v : World) (fs : List Frame) (notes : Nat)
    (pushes : List (List UInt8 × Nat)) : Prop where
  ring : RingInv w.ring → RingInv v.ring
  frames : v.ring.frames = w.ring.frames ++ fs
  deaf : ∀ event ∈ events, isRecv event = false
  published : events.flatMap publishedBy = fs
  notified : events.countP notifies = notes
  pushed : events.flatMap pushedBy = pushes

namespace Tally

variable {w v u : World} {events first rest : List Happening} {fs gs : List Frame} {notes notes' : Nat}
  {pushes pushes' : List (List UInt8 × Nat)}

theorem append (one : Tally w first v fs notes pushes) (other : Tally v rest u gs notes' pushes') :
    Tally w (first ++ rest) u (fs ++ gs) (notes + notes') (pushes ++ pushes') := by
  refine ⟨other.ring ∘ one.ring, ?_, ?_, ?_, ?_, ?_⟩
  · rw [other.frames, one.frames, List.append_assoc]
  · intro event member
    rcases List.mem_append.mp member with before | after
    · exact one.deaf event before
    · exact other.deaf event after
  · rw [List.flatMap_append, one.published, other.published]
  · rw [List.countP_append, one.notified, other.notified]
  · rw [List.flatMap_append, one.pushed, other.pushed]

theorem gap (move : Elsewhere w v) : Tally w [] v [] 0 [] := by
  refine ⟨move.ring, ?_, ?_, rfl, rfl, rfl⟩
  · simp only [Layout.frames, move.view.published, List.append_nil]
  · intro event member
    cases member

theorem gap_left (move : Elsewhere w v) (tally : Tally v events u fs notes pushes) :
    Tally w events u fs notes pushes := by
  have whole := (gap move).append tally
  rwa [Nat.zero_add] at whole

theorem gap_right (tally : Tally w events v fs notes pushes) (move : Elsewhere v u) :
    Tally w events u fs notes pushes := by
  have whole := tally.append (gap move)
  rwa [List.append_nil, List.append_nil, List.append_nil] at whole

/-- A step on memory before counts for nothing. -/
theorem memory {m : Memory} (tally : Tally { w with server := m } events v fs notes pushes) :
    Tally w events v fs notes pushes :=
  ⟨tally.ring, tally.frames, tally.deaf, tally.published, tally.notified, tally.pushed⟩

theorem received (tally : Tally w events v fs notes pushes) : events.flatMap receivedBy = [] := by
  apply List.flatMap_eq_nil_iff.mpr
  intro event member
  have deaf := tally.deaf event member
  unfold receivedBy
  split
  · cases deaf
  · rfl

end Tally

def tame : Call → Bool
  | .net (.recv _) => false
  | .point (.pushed _ _) => false
  | .eventWrite _ => false
  | call => harmless call

theorem tame.harmless {call : Call} (tamed : tame call = true) : harmless call = true := by
  cases call with
  | net call => rfl
  | point p => rfl
  | log line => rfl
  | ring call => exact tamed
  | eventWrite fd => rfl
  | eventRead fd => cases tamed
  | fs call => cases tamed
  | epollWait => cases tamed
  | signalfd => cases tamed
  | signalRead => cases tamed
  | kill => cases tamed
  | waitpid => cases tamed
  | exit code => cases tamed
  | iteration keys => cases tamed

theorem harmless.published {event : Happening} (allowed : harmless event.call = true) :
    publishedBy event = [] := by
  unfold publishedBy
  split
  · cases allowed
  · rfl

/-- One call that leaves the ring alone. -/
theorem Tally.call {call : Call} {w v : World} {r : call.Resp} (allowed : harmless call = true)
    (deaf : isRecv ⟨w, call, r⟩ = false) (answer : World.exec call w r = some v) {notes : Nat}
    (counted : (if notifies ⟨w, call, r⟩ = true then 1 else 0) = notes) :
    Tally w [⟨w, call, r⟩] v [] notes (pushedBy ⟨w, call, r⟩) := by
  have same := exec_harmless _ allowed answer
  have unpublished : publishedBy ⟨w, call, r⟩ = [] := harmless.published allowed
  refine ⟨fun ring => same.2 ▸ ring, ?_, ?_, ?_, List.countP_singleton.trans counted, ?_⟩
  · rw [same.2, List.append_nil]
  · intro event member
    rw [List.mem_singleton.mp member]
    exact deaf
  · rw [List.flatMap_singleton, unpublished]
  · rw [List.flatMap_singleton]

theorem tame.silent (event : Happening) (tamed : tame event.call = true) :
    isRecv event = false ∧ notifies event = false ∧ pushedBy event = [] := by
  refine ⟨?_, ?_, ?_⟩
  · unfold isRecv
    split
    · cases tamed
    · rfl
  · unfold notifies
    split
    · cases tamed
    · cases tamed
    · rfl
  · unfold pushedBy
    split
    · cases tamed
    · rfl

structure Tamely (w : World) (events : List Happening) (v : World) : Prop where
  tally : Tally w events v [] 0 []
  server : v.server = w.server

namespace Tamely

theorem append {w v u : World} {first rest : List Happening} (one : Tamely w first v)
    (other : Tamely v rest u) : Tamely w (first ++ rest) u :=
  ⟨one.tally.append other.tally, other.server.trans one.server⟩

theorem gap {w v : World} (move : Elsewhere w v) : Tamely w [] v := ⟨.gap move, move.server⟩

theorem call {call : Call} {w v : World} {r : call.Resp} (tamed : tame call = true)
    (answer : World.exec call w r = some v) : Tamely w [⟨w, call, r⟩] v := by
  have allowed := tame.harmless tamed
  rcases tame.silent ⟨w, call, r⟩ tamed with ⟨deaf, silent, unnoted⟩
  have tally := Tally.call allowed deaf answer (if_neg (by rw [silent]; nofun))
  rw [unnoted] at tally
  exact ⟨tally, (exec_harmless _ allowed answer).1⟩

theorem of_runs {α : Type} {p : Proc α} {w v : World} {events : List Happening} {a : α}
    (run : Runs p w events a v) (still : Prog.Moves (fun _ _ => False) p)
    (only : Prog.Within (fun call => tame call = true) p) : Tamely w events v :=
  Prog.Among.closed gap (fun impossible => impossible.elim) call (fun one other => one.append other)
    run still only

end Tamely

section Parts

variable {w v : World} {events : List Happening} {fd : Int}

theorem validate_runs (quiet : Bool) (fs : List Frame) {result : Nat × DecodeError}
    (run : Runs (validate quiet fd fs) w events result v) :
    Tamely w events v ∧ result.1 = (fs.takeWhile (fun frame => decide frame.Valid)).length := by
  induction fs generalizing w v events result with
  | nil =>
      rcases runs_pure run with ⟨rfl, rfl, gap⟩
      exact ⟨.gap gap, rfl⟩
  | cons frame rest ih =>
      have tail : ∀ {u later}, frame.Valid → Runs (validate quiet fd rest >>= fun r =>
          return (r.1 + 1, r.2)) u later result v → Tamely u later v ∧
            result.1 = ((frame :: rest).takeWhile (fun frame => decide frame.Valid)).length := by
        intro u later valid run
        rcases runs_bind run with ⟨⟨count, error⟩, t, first, last, checked, done, rfl⟩
        rcases ih checked with ⟨tamely, counted⟩
        rcases runs_pure done with ⟨rfl, rfl, gap⟩
        refine ⟨tamely.append (.gap gap), ?_⟩
        simpa [valid] using counted
      rw [validate] at run
      split at run
      · next accepted =>
          cases quiet with
          | true => exact tail accepted run
          | false =>
              rcases runs_call run with ⟨u, r, t, later, gap, answer, next, rfl⟩
              rcases tail accepted next with ⟨tamely, counted⟩
              exact ⟨(Tamely.gap gap).append ((Tamely.call rfl answer).append tamely), counted⟩
      · next rejected =>
          have invalid : ¬ frame.Valid := rejected
          rcases runs_pure run with ⟨rfl, rfl, gap⟩
          exact ⟨.gap gap, by simp [invalid]⟩

/-- A store to `head` is what publishes. -/
theorem exec_published {call : RingCall} {r : call.Resp} (answer : World.exec (.ring call) w r = some v) :
    v.ring.frames = w.ring.frames ++ publishedBy ⟨w, .ring call, r⟩ := by
  simp only [World.exec, Option.map_eq_some_iff] at answer
  rcases answer with ⟨l, done, rfl⟩
  have unchanged : publishedBy ⟨w, .ring call, r⟩ = [] → l.published = w.ring.published →
      l.frames = w.ring.frames ++ publishedBy ⟨w, .ring call, r⟩ := by
    intro none same
    rw [none, List.append_nil, Layout.frames, same, Layout.frames]
  cases call with
  | storeHead value =>
      simp only [RingCall.exec, Option.some.injEq] at done
      rw [← done]
      simp only [Layout.frames, List.map_append, List.map_map, Function.comp_def, List.map_id',
        publishedBy]
  | loadHead =>
      simp only [RingCall.exec, Option.ite_none_right_eq_some, Option.some.injEq] at done
      exact unchanged rfl (by rw [done.2])
  | loadTail =>
      simp only [RingCall.exec, Option.ite_none_right_eq_some, Option.some.injEq] at done
      exact unchanged rfl (by rw [done.2])
  | loadProducerClosed =>
      simp only [RingCall.exec, Option.ite_none_right_eq_some, Option.some.injEq] at done
      exact unchanged rfl (by rw [done.2])
  | loadSlot i =>
      simp only [RingCall.exec, Option.ite_none_right_eq_some, Option.some.injEq] at done
      exact unchanged rfl (by rw [done.2])
  | storeSlot i frame =>
      simp only [RingCall.exec, Option.some.injEq] at done
      exact unchanged rfl (by rw [← done])
  | storeTail value =>
      simp only [RingCall.exec, Option.some.injEq] at done
      exact unchanged rfl (by rw [← done])
  | storeProducerClosed value =>
      simp only [RingCall.exec, Option.some.injEq] at done
      exact unchanged rfl (by rw [← done])

structure Plain {α : Type} (P : Call → Prop) (p : Proc α) : Prop where
  within : Prog.Within P p
  still : Prog.Moves (fun _ _ => False) p

theorem Plain.pure {α : Type} {P : Call → Prop} (a : α) : Plain P (Pure.pure a : Proc α) :=
  ⟨trivial, trivial⟩

theorem Plain.call {P : Call → Prop} {c : Call} (allowed : P c) : Plain P (Proc.call c) :=
  ⟨⟨allowed, fun _ => trivial⟩, fun _ => trivial⟩

theorem Plain.bind {α β : Type} {P : Call → Prop} {p : Proc α} {f : α → Proc β} (first : Plain P p)
    (rest : ∀ a, Plain P (f a)) : Plain P (p >>= f) :=
  ⟨first.within.bind (fun a => (rest a).within), first.still.bind (fun a => (rest a).still)⟩

def isRing : Call → Bool
  | .ring _ => true
  | _ => false

theorem copyIn_plain (index : Nat) (fs : List Frame) :
    Plain (fun call => isRing call = true) (copyIn index fs) := by
  induction fs generalizing index with
  | nil => exact .pure ()
  | cons frame rest ih => exact .bind (.call rfl) (fun _ => ih _)

theorem tryPushBatch_plain (span : List UInt8) :
    Plain (fun call => isRing call = true) (tryPushBatch span) := by
  rw [tryPushBatch]
  split
  · exact .pure 0
  refine .bind (.bind (.call rfl) (fun _ => .pure _)) (fun closed => ?_)
  split
  · exact .pure 0
  refine .bind (.call rfl) (fun head => .bind (.call rfl) (fun tail => ?_))
  dsimp only
  split
  · exact .pure 0
  refine .bind ?_ (fun _ => .bind (.call rfl) (fun _ => .pure _))
  rw [copyInWrapped]
  refine .bind (copyIn_plain _ _) (fun _ => ?_)
  split
  · exact copyIn_plain _ _
  · exact .pure ()

theorem pendingBytes_plain : Plain (fun call => tame call = true) pendingBytes :=
  .bind (.bind (.call rfl) (fun _ => .bind (.call rfl) (fun _ => .pure _))) (fun _ => .pure _)

theorem isRing.silent {event : Happening} (ring : isRing event.call = true) :
    isRecv event = false ∧ notifies event = false ∧ pushedBy event = [] := by
  refine ⟨?_, ?_, ?_⟩
  · unfold isRecv
    split
    · cases ring
    · rfl
  · unfold notifies
    split
    · cases ring
    · cases ring
    · rfl
  · unfold pushedBy
    split
    · cases ring
    · rfl

theorem published_runs {α : Type} {p : Proc α} {a : α} (run : Runs p w events a v)
    (plain : Plain (fun call => isRing call = true) p) :
    v.ring.frames = w.ring.frames ++ events.flatMap publishedBy := by
  apply Prog.Among.closed (C := fun w events v =>
      v.ring.frames = w.ring.frames ++ events.flatMap publishedBy)
    (fun move => (Tally.gap move).frames) (fun impossible => impossible.elim) ?_ ?_
    run plain.still plain.within
  · intro call w r v ring answer
    cases call with
    | ring call => rw [List.flatMap_singleton, exec_published answer]
    | _ => cases ring
  · intro w v u first rest one other
    rw [other, one, List.flatMap_append, List.append_assoc]

/-- A batch push publishes the frames it counts. -/
theorem tryPushBatch_runs {span : List UInt8} {count : Nat} (ring : RingInv w.ring)
    (run : Runs (tryPushBatch span) w events count v) :
    Tally w events v ((frames span).take count) 0 [] ∧ v.server = w.server ∧
      count ≤ (frames span).length := by
  have spec := tryPushBatch_spec Elsewhere.produces (F := fun u => u.server = w.server)
    (fun move same => move.server.trans same) (fun same => same) span rfl (fun _ _ _ _ _ => trivial)
  rcases run.post ring spec with ⟨after, ⟨pushed, _⟩, server⟩
  have plain := tryPushBatch_plain span
  have silent := fun event member => isRing.silent (run.within plain.within event member)
  have total := published_runs run plain
  have counted : v.ring.frames = w.ring.frames ++ (frames span).take count := by
    simp [Layout.frames, pushed.published, Function.comp_def]
  refine ⟨⟨fun _ => after, counted, fun event member => (silent event member).1, ?_, ?_, ?_⟩, server,
    pushed.count_le⟩
  · exact List.append_cancel_left (total.symm.trans counted)
  · exact List.countP_eq_zero.mpr (fun event member => by rw [(silent event member).2.1]; simp)
  · exact List.flatMap_eq_nil_iff.mpr (fun event member => (silent event member).2.2)

/-- `notifyEvent` ends with one write that is not tried again. -/
theorem notifyEvent_runs {ok : Bool} (run : Runs (notifyEvent .dataReady) w events ok v) :
    Tally w events v [] 1 [] ∧ v.server = w.server := by
  apply Prog.Among.iterate_induct Elsewhere.refl (fun _ u seen => Tamely w seen u)
    (Q := fun _ v events => Tally w events v [] 1 [] ∧ v.server = w.server) run (.gap (.refl w))
  intro _ s seen events x t before pass
  rcases runs_call pass with ⟨u, r, after, rest, gap, answer, next, rfl⟩
  have here := before.tally.gap_right gap
  have kept : after.server = w.server := by
    rw [(exec_harmless (.eventWrite .dataReady) rfl answer).1, gap.server, before.server]
  cases r with
  | ok =>
      rcases runs_pure next with ⟨rfl, rfl, last⟩
      have written := here.append (.call rfl rfl answer (if_pos rfl))
      exact ⟨written.gap_right last, last.server.trans kept⟩
  | eintr =>
      rcases runs_pure next with ⟨rfl, rfl, last⟩
      have written := here.append (.call rfl rfl answer (if_neg nofun))
      exact ⟨written.gap_right last, last.server.trans kept⟩
  | error =>
      have written := here.append (.call rfl rfl answer (if_pos rfl))
      rcases runs_call next with ⟨u', r', t', rest', gap', answer', next', rfl⟩
      rcases runs_pure next' with ⟨rfl, rfl, last⟩
      have logged := Tamely.call rfl answer'
      have done := ((written.gap_right gap').append logged.tally).gap_right last
      rw [List.append_assoc] at done
      refine ⟨done, ?_⟩
      rw [last.server, logged.server, gap'.server, kept]

theorem notifyPublished_runs {any ok : Bool} (run : Runs (notifyPublished any) w events ok v) :
    Tally w events v [] (if any then 1 else 0) [] ∧ v.server = w.server := by
  cases any with
  | true => exact notifyEvent_runs run
  | false =>
      rcases runs_pure run with ⟨rfl, rfl, gap⟩
      exact ⟨.gap gap, gap.server⟩

theorem removeClient_runs {a : Unit} (run : Runs (removeClient fd) w events a v) :
    Tally w events v [] 0 [] ∧ v.server = w.server.erase fd := by
  rcases runs_call run with ⟨u, r, t, rest, gap, answer, next, rfl⟩
  rcases runs_call next with ⟨u', r', t', rest', gap', answer', next', rfl⟩
  rcases runs_update next' with ⟨u'', gap'', last⟩
  have removed := (Tamely.gap gap).append (Tamely.call rfl answer)
  have closed := (removed.append (.gap gap')).append (Tamely.call rfl answer')
  have logged := Tamely.of_runs last (fun _ => trivial) ⟨rfl, fun _ => trivial⟩
  refine ⟨(closed.tally.gap_right gap'').append logged.tally.memory, ?_⟩
  have same : t'.server = w.server := closed.server
  rw [logged.server, same]

/-- A removal and the answer that follows it. -/
theorem removal_runs {α : Type} {result a : α} (run : Runs (do
    removeClient fd
    return result) w events a v) :
    a = result ∧ Tally w events v [] 0 [] ∧ v.server = w.server.erase fd := by
  rcases runs_bind run with ⟨_, t, first, rest, removed, done, rfl⟩
  rcases removeClient_runs removed with ⟨tally, erased⟩
  rcases runs_pure done with ⟨rfl, rfl, last⟩
  exact ⟨rfl, tally.append (.gap last), last.server.trans erased⟩

theorem logged_removal_runs {α : Type} {line : Line} {result a : α} (run : Runs (do
    Proc.log line
    removeClient fd
    return result) w events a v) :
    a = result ∧ Tally w events v [] 0 [] ∧ v.server = w.server.erase fd := by
  rcases runs_call run with ⟨u, r, t, rest, gap, answer, removing, rfl⟩
  rcases removal_runs removing with ⟨answered, tally, erased⟩
  have logged := (Tamely.gap gap).append (Tamely.call rfl answer)
  exact ⟨answered, logged.tally.append tally, by rw [erased, logged.server]⟩

end Parts

theorem Memory.lookup_modify (m : Memory) (fd : Int) (f : Buffer → Buffer) :
    (m.modify fd f).clients.lookup fd = (m.clients.lookup fd).map f := by
  rw [Memory.modify]
  induction m.clients with
  | nil => rfl
  | cons entry rest ih =>
      rcases entry with ⟨key, b⟩
      rcases eq_or_ne key fd with rfl | apart
      · simp
      · have other : (fd == key) = false := beq_eq_false_iff_ne.mpr apart.symm
        simp only [List.map_cons, if_neg apart, List.lookup_cons, other]
        exact ih

theorem Memory.buffer_modify {m : Memory} {fd : Int} (member : fd ∈ m.keys) (f : Buffer → Buffer) :
    (m.modify fd f).buffer fd = f (m.buffer fd) := by
  rw [Memory.buffer, Memory.lookup_modify, Memory.buffer]
  cases found : m.clients.lookup fd with
  | none =>
      rcases List.mem_map.mp member with ⟨entry, inside, rfl⟩
      have missing := List.lookup_eq_none_iff.mp found entry inside
      simp at missing
  | some b => rfl

theorem Memory.not_mem_erase (m : Memory) (fd : Int) : fd ∉ (m.erase fd).keys := by
  rw [Memory.erase_keys]
  simp

structure Client (fd : Int) (w : World) : Prop where
  ring : RingInv w.ring
  member : fd ∈ w.server.keys
  inside : (w.server.buffer fd).offset ≤ (w.server.buffer fd).data.length

section Chunk

variable {w v : World} {events : List Happening} {fd : Int}

/-- Between `w` and `v` the offset of the client's buffer has moved by `count` frames. -/
structure Advanced (fd : Int) (count : Nat) (w v : World) : Prop where
  keys : v.server.keys = w.server.keys
  buffer : v.server.buffer fd =
    { w.server.buffer fd with offset := (w.server.buffer fd).offset + count * kFrameSize }

/-- What was published is taken off the front of the buffer, and the batch is noted. -/
theorem publishFrames_runs {n : Nat} {result : Bool × Bool × Bool} (client : Client fd w)
    (enough : n ≤ (frames (w.server.buffer fd).unread).length)
    (run : Runs (publishFrames fd n) w events result v) :
    ∃ m pushes, m ≤ n ∧ result.2.1 = (m != 0) ∧ (result.1 = true ↔ m = n) ∧
      Tally w events v ((frames (w.server.buffer fd).unread).take m) 0 pushes ∧ Advanced fd m w v ∧
      ∀ push ∈ pushes, push = ((w.server.buffer fd).unread.take (n * kFrameSize), m) := by
  rw [publishFrames] at run
  split at run
  · next some =>
      have run := runs_memory run
      rcases runs_bind run with ⟨pushed, u, first, rest, push, noting, rfl⟩
      rcases tryPushBatch_runs client.ring push with ⟨published, same, most⟩
      rw [(frames_split enough).1] at published most
      rw [List.length_take, min_eq_left enough] at most
      rw [List.take_take, min_eq_left most] at published
      rcases runs_call noting with ⟨u', r, t, rest, gap, answer, moving, rfl⟩
      have noted := published.append ((Tally.call rfl rfl answer (if_neg Bool.false_ne_true)).gap_left gap)
      rw [List.append_nil] at noted
      rcases runs_update moving with ⟨t', gap', settled⟩
      have server : t.server = w.server := by
        rw [(exec_harmless (.point _) rfl answer).1, gap.server, same]
      have moved : ∀ u, u.server = t.server.modify fd (fun b =>
          { b with offset := b.offset + pushed * kFrameSize }) → Advanced fd pushed w u := by
        intro u changed
        rw [server] at changed
        exact ⟨by rw [changed, Memory.modify_keys],
          by rw [changed, Memory.buffer_modify client.member]⟩
      suffices rest : result.2.1 = (pushed != 0) ∧ (result.1 = true ↔ pushed = n) ∧
          Tamely { t' with server := t.server.modify fd (fun b =>
            { b with offset := b.offset + pushed * kFrameSize }) } rest v by
        rcases rest with ⟨any, fits, tamely⟩
        have whole := (noted.gap_right gap').append tamely.tally.memory
        simp only [List.append_nil, List.append_assoc, List.singleton_append] at whole
        exact ⟨pushed, _, most, any, fits, whole, moved v tamely.server,
          fun push member => List.mem_singleton.mp member⟩
      split at settled
      · next partly =>
          rcases runs_pure settled with ⟨rfl, rfl, last⟩
          exact ⟨rfl, ⟨by simp, fun all => absurd all partly⟩, .gap last⟩
      · next all =>
          rcases runs_bind settled with ⟨pending, x, first', rest', loads, done, rfl⟩
          rcases runs_pure done with ⟨rfl, rfl, last⟩
          have plain := pendingBytes_plain
          exact ⟨rfl, ⟨fun _ => not_not.mp all, fun _ => rfl⟩,
            (Tamely.of_runs loads plain.still plain.within).append (.gap last)⟩
  · next none =>
      rcases runs_pure run with ⟨rfl, rfl, gap⟩
      have zero : n = 0 := by omega
      refine ⟨0, [], Nat.zero_le _, rfl, by simp [zero], .gap gap, ⟨by rw [gap.server], ?_⟩, by simp⟩
      rw [gap.server, Nat.zero_mul, Nat.add_zero]

structure Lingers (fd : Int) (w v : World) : Prop where
  unread : fd ∈ v.server.keys → (v.server.buffer fd).unread = (w.server.buffer fd).unread
  inside : fd ∈ v.server.keys → (v.server.buffer fd).offset ≤ (v.server.buffer fd).data.length

theorem Lingers.same (client : Client fd w) (server : v.server = w.server) : Lingers fd w v := by
  constructor
  · intro _
    rw [server]
  · intro _
    rw [server]
    exact client.inside

theorem Lingers.gone (server : v.server = w.server.erase fd) : Lingers fd w v := by
  have absent : fd ∉ v.server.keys := by
    rw [server]
    exact Memory.not_mem_erase _ _
  exact ⟨fun member => absurd member absent, fun member => absurd member absent⟩

theorem Lingers.compacted (client : Client fd w)
    (server : v.server = w.server.modify fd Buffer.compact) : Lingers fd w v := by
  have compacted : v.server.buffer fd = (w.server.buffer fd).compact := by
    rw [server, Memory.buffer_modify client.member]
  constructor
  · intro _
    rw [compacted, Buffer.compact_unread]
  · intro _
    rw [compacted]
    exact Buffer.compact_sound client.inside

/-- The reader is told of what was published, whatever becomes of the client. -/
theorem settleChunk_runs {error : DecodeError} {fits any pause : Bool} {verdict : Verdict}
    (client : Client fd w) (run : Runs (settleChunk fd error fits any pause) w events verdict v) :
    Tally w events v [] (if any then 1 else 0) [] ∧ Lingers fd w v ∧
      (verdict = none → fd ∈ v.server.keys) ∧
      (fits = false → verdict = some (false, pause) ∧ fd ∈ v.server.keys) := by
  rw [settleChunk] at run
  cases fits with
  | false =>
      rcases runs_bind run with ⟨ok, u, first, rest, notify, ending, rfl⟩
      rcases notifyPublished_runs notify with ⟨told, same⟩
      have closing : Tamely u rest v ∧ verdict = some (false, pause) := by
        cases ok with
        | false =>
            rcases runs_pure ending with ⟨rfl, rfl, gap⟩
            exact ⟨.gap gap, rfl⟩
        | true =>
            rcases runs_call ending with ⟨u', r, t, rest, gap, answer, done, rfl⟩
            rcases runs_pure done with ⟨rfl, rfl, last⟩
            exact ⟨((Tamely.gap gap).append (Tamely.call rfl answer)).append (.gap last), rfl⟩
      have server : v.server = w.server := closing.1.server.trans same
      have member : fd ∈ v.server.keys := by
        rw [server]
        exact client.member
      exact ⟨told.append closing.1.tally, .same client server, fun _ => member,
        fun _ => ⟨closing.2, member⟩⟩
  | true =>
      rcases runs_bind run with ⟨ok, u, first, rest, notify, ending, rfl⟩
      rcases notifyPublished_runs notify with ⟨told, same⟩
      have here : Client fd u := ⟨told.ring client.ring, same ▸ client.member, same ▸ client.inside⟩
      suffices closing : Tally u rest v [] 0 [] ∧ Lingers fd u v ∧
          (verdict = none → fd ∈ v.server.keys) by
        rcases closing with ⟨tally, ⟨unread, inside⟩, stays⟩
        rw [same] at unread
        exact ⟨told.append tally, ⟨unread, inside⟩, stays, by simp⟩
      cases ok with
      | false =>
          rcases runs_pure ending with ⟨rfl, rfl, gap⟩
          exact ⟨.gap gap, .same here gap.server, by simp⟩
      | true =>
          simp only [Bool.not_true, Bool.false_eq_true, if_false] at ending
          split at ending
          · rcases logged_removal_runs ending with ⟨rfl, tally, erased⟩
            exact ⟨tally, .gone erased, by simp⟩
          · rcases runs_update ending with ⟨t, gap, done⟩
            have settled : rest = [] ∧
                Elsewhere { t with server := u.server.modify fd (fun b => b.compact) } v := by
              cases pause with
              | true =>
                  rcases runs_pure done with ⟨rfl, rfl, last⟩
                  exact ⟨rfl, last⟩
              | false =>
                  rcases runs_pure done with ⟨rfl, rfl, last⟩
                  exact ⟨rfl, last⟩
            rcases settled with ⟨rfl, last⟩
            have member : fd ∈ v.server.keys := by
              rw [last.server, Memory.modify_keys]
              exact here.member
            exact ⟨(Tally.gap gap).append (Tally.gap last).memory, .compacted here last.server,
              fun _ => member⟩

/-- All that one received chunk leads to. -/
structure Digested (fd : Int) (bytes : List UInt8) (w : World) (events : List Happening)
    (verdict : Verdict) (v : World) (fs : List Frame) (rest : List UInt8)
    (pushes : List (List UInt8 × Nat)) : Prop where
  tally : Tally w events v fs (if fs = [] then 0 else 1) pushes
  valid : ∀ frame ∈ fs, frame.Valid
  conserved : bytesOf fs ++ rest = (w.server.buffer fd).unread ++ bytes
  unread : fd ∈ v.server.keys → (v.server.buffer fd).unread = rest
  inside : fd ∈ v.server.keys → (v.server.buffer fd).offset ≤ (v.server.buffer fd).data.length
  stays : verdict = none → fd ∈ v.server.keys
  short : ∀ push ∈ pushes, push.2 * kFrameSize ≠ push.1.length → (∃ pause, verdict = some (false, pause)) ∧
    fd ∈ v.server.keys ∧ push.1.drop (push.2 * kFrameSize) <+: rest

/-- Frames taken off the front of the unread bytes and what is left of them. -/
theorem Advanced.unread {count : Nat} (client : Client fd w) (moved : Advanced fd count w v)
    (ring : RingInv v.ring) (enough : count ≤ (frames (w.server.buffer fd).unread).length) :
    Client fd v ∧ (v.server.buffer fd).unread =
      (w.server.buffer fd).unread.drop (count * kFrameSize) := by
  refine ⟨⟨ring, ?_, ?_⟩, ?_⟩
  · rw [moved.keys]
    exact client.member
  · rw [moved.buffer]
    have inside := client.inside
    rw [frames_length, Buffer.unread, List.length_drop] at enough
    simp only [kFrameSize] at enough ⊢
    omega
  · rw [moved.buffer, Buffer.unread, Buffer.unread, List.drop_drop]

/-- A chunk that is kept: its leading valid frames are published as far as they fit. -/
theorem digest_runs {config : ServerConfig} {verdict : Verdict} (client : Client fd w)
    (run : Runs (do
      let (validFrames, invalidError) ← validate config.quiet fd (frames (w.server.buffer fd).unread)
      let (fits, publishedAny, pause) ← publishFrames fd validFrames
      settleChunk fd invalidError fits publishedAny pause) w events verdict v) :
    ∃ fs rest pushes, Digested fd [] w events verdict v fs rest pushes := by
  rcases runs_bind run with ⟨⟨n, error⟩, u, checking, later, checked, publishing, rfl⟩
  rcases validate_runs config.quiet _ checked with ⟨tamely, counted⟩
  rcases valid_prefix _ counted with ⟨enough, valid, _⟩
  have here : Client fd u := ⟨tamely.tally.ring client.ring, tamely.server ▸ client.member,
    tamely.server ▸ client.inside⟩
  rcases runs_bind publishing with ⟨⟨fits, any, pause⟩, t, pushing, last, published, settling, rfl⟩
  have same : (u.server.buffer fd).unread = (w.server.buffer fd).unread := by rw [tamely.server]
  rcases publishFrames_runs here (same ▸ enough) published with
    ⟨m, pushes, most, some, whole, tally, moved, noted⟩
  simp only at some whole
  rw [same] at tally noted
  have fewer : m ≤ (frames (w.server.buffer fd).unread).length := most.trans enough
  rcases moved.unread here (tally.ring here.ring) (same ▸ fewer) with ⟨there, left⟩
  rw [same] at left
  rcases settleChunk_runs there settling with ⟨told, lingers, stays, short⟩
  have front : bytesOf ((frames (w.server.buffer fd).unread).take m) =
      (w.server.buffer fd).unread.take (m * kFrameSize) := by
    rw [← (frames_split fewer).1, (frames_split fewer).2.2]
  have empty : (if any = true then 1 else 0) =
      if (frames (w.server.buffer fd).unread).take m = [] then 0 else 1 := by
    have none : (frames (w.server.buffer fd).unread).take m = [] ↔ m = 0 := by
      rw [← List.length_eq_zero_iff, List.length_take, min_eq_left fewer]
    rw [some]
    simp only [none, bne_iff_ne, ne_eq, ite_not]
  refine ⟨(frames (w.server.buffer fd).unread).take m,
    (w.server.buffer fd).unread.drop (m * kFrameSize), pushes, ?_, ?_, ?_, ?_, lingers.inside, stays, ?_⟩
  · have tallied := tamely.tally.append (tally.append told)
    simp only [List.append_nil, List.nil_append, Nat.zero_add, empty] at tallied
    exact tallied
  · intro frame member
    exact valid frame (List.take_subset_take_left _ most member)
  · rw [front, List.take_append_drop, List.append_nil]
  · intro member
    rw [lingers.unread member, left]
  · intro push member partly
    rw [noted push member] at partly ⊢
    have refused : fits = false := by
      by_contra taken
      apply partly
      rw [whole.mp (Bool.not_eq_false _ ▸ taken), List.length_take, eq_comm, Nat.min_eq_left]
      rw [frames_length] at enough
      simp only [kFrameSize] at enough ⊢
      omega
    rcases short refused with ⟨ended, kept⟩
    refine ⟨⟨pause, ended⟩, kept, ?_⟩
    rw [List.drop_take]
    exact List.take_prefix _ _

theorem processChunk_runs {config : ServerConfig} {bytes : List UInt8} {verdict : Verdict}
    (client : Client fd w) (run : Runs (processChunk config fd bytes) w events verdict v) :
    ∃ fs rest pushes, Digested fd bytes w events verdict v fs rest pushes := by
  rw [processChunk] at run
  rcases runs_update run with ⟨t, gap, inserted⟩
  have opened := runs_memory inserted
  simp only at opened
  have filled : (w.server.modify fd (fun b => b.insert bytes)).buffer fd =
      (w.server.buffer fd).insert bytes := Memory.buffer_modify client.member _
  have grown : ((w.server.buffer fd).insert bytes).unread = (w.server.buffer fd).unread ++ bytes :=
    Buffer.insert_unread _ _ client.inside
  split at opened
  · rcases logged_removal_runs opened with ⟨rfl, tally, erased⟩
    have absent : fd ∉ v.server.keys := by
      rw [erased]
      exact Memory.not_mem_erase _ _
    exact ⟨[], (w.server.buffer fd).unread ++ bytes, [], tally.memory.gap_left gap, nofun, rfl,
      fun member => absurd member absent, fun member => absurd member absent, nofun, nofun⟩
  · have all : (frames ((w.server.modify fd (fun b => b.insert bytes)).buffer fd).unread).take
        (((w.server.modify fd (fun b => b.insert bytes)).buffer fd).pendingBytes / kFrameSize) =
        frames ((w.server.modify fd (fun b => b.insert bytes)).buffer fd).unread := by
      rw [Buffer.pendingBytes_eq, ← frames_length, List.take_length]
    rw [all] at opened
    have kept : Client fd { t with server := w.server.modify fd (fun b => b.insert bytes) } := by
      refine ⟨gap.ring client.ring, ?_, ?_⟩
      · rw [Memory.modify_keys]
        exact client.member
      · rw [filled]
        simp only [Buffer.insert, List.length_append]
        exact client.inside.trans (Nat.le_add_right _ _)
    rcases digest_runs kept opened with ⟨fs, rest, pushes, digested⟩
    have conserved := digested.conserved
    simp only [filled, grown, List.append_nil] at conserved
    exact ⟨fs, rest, pushes, digested.tally.memory.gap_left gap, digested.valid, conserved,
      digested.unread, digested.inside, digested.stays, digested.short⟩

end Chunk

structure RecvRound (round : List Happening) : Prop where
  begins : ∃ recv rest, round = recv :: rest ∧ isRecv recv = true ∧ ∀ event ∈ rest, isRecv event = false
  notified : round.countP notifies = if round.flatMap publishedBy = [] then 0 else 1

/-- What holds of the calls made since `w`, at the start of a pass and at the end of the call. -/
structure Conserves (fd : Int) (w : World) (events : List Happening) (verdict : Verdict) (v : World) :
    Prop where
  ring : RingInv v.ring
  frames : v.ring.frames = w.ring.frames ++ events.flatMap publishedBy
  valid : ∀ frame ∈ events.flatMap publishedBy, frame.Valid
  bytes : ∃ rest, bytesOf (events.flatMap publishedBy) ++ rest =
      (w.server.buffer fd).unread ++ events.flatMap receivedBy ∧
    (fd ∈ v.server.keys → (v.server.buffer fd).unread = rest)
  inside : fd ∈ v.server.keys → (v.server.buffer fd).offset ≤ (v.server.buffer fd).data.length
  stays : verdict = none → fd ∈ v.server.keys
  rounds : ∃ rounds : List (List Happening), events = rounds.flatten ∧ ∀ round ∈ rounds, RecvRound round
  short : ∀ push ∈ events.flatMap pushedBy, push.2 * kFrameSize ≠ push.1.length →
    (∃ pause, verdict = some (false, pause)) ∧ fd ∈ v.server.keys ∧
      push.1.drop (push.2 * kFrameSize) <+: (v.server.buffer fd).unread

section Whole

variable {w v : World} {events : List Happening} {fd : Int}

theorem Conserves.start (client : Client fd w) : Conserves fd w [] none w where
  ring := client.ring
  frames := (List.append_nil _).symm
  valid := nofun
  bytes := ⟨(w.server.buffer fd).unread, (List.append_nil _).symm, fun _ => rfl⟩
  inside := fun _ => client.inside
  stays := fun _ => client.member
  rounds := ⟨[], rfl, nofun⟩
  short := nofun

/-- One more pass of the loop. -/
theorem Conserves.pass {s t u : World} {seen tail : List Happening} {verdict : Verdict}
    {answer : RecvResult} {fs : List Frame} {rest : List UInt8} {pushes : List (List UInt8 × Nat)}
    (before : Conserves fd w seen none s) (gap : Elsewhere s u)
    (answered : World.exec (.net (.recv fd)) u answer = some t)
    (digested : Digested fd (receivedBy ⟨u, .net (.recv fd), answer⟩) t tail verdict v fs rest pushes) :
    Conserves fd w (seen ++ ⟨u, .net (.recv fd), answer⟩ :: tail) verdict v := by
  have same := exec_harmless (.net (.recv fd)) rfl answered
  have tally := digested.tally
  have published : (seen ++ ⟨u, .net (.recv fd), answer⟩ :: tail).flatMap publishedBy =
      seen.flatMap publishedBy ++ fs := by
    rw [List.flatMap_append, List.flatMap_cons, tally.published]
    rfl
  have received : (seen ++ ⟨u, .net (.recv fd), answer⟩ :: tail).flatMap receivedBy =
      seen.flatMap receivedBy ++ receivedBy ⟨u, .net (.recv fd), answer⟩ := by
    rw [List.flatMap_append, List.flatMap_cons, tally.received, List.append_nil]
  have pushed : (seen ++ ⟨u, .net (.recv fd), answer⟩ :: tail).flatMap pushedBy =
      seen.flatMap pushedBy ++ pushes := by
    rw [List.flatMap_append, List.flatMap_cons, tally.pushed]
    rfl
  refine ⟨tally.ring (same.2 ▸ gap.ring before.ring), ?_, ?_, ?_, digested.inside, digested.stays, ?_, ?_⟩
  · have unchanged : u.ring.frames = s.ring.frames ++ [] := (Tally.gap gap).frames
    rw [published, tally.frames, same.2, unchanged, List.append_nil, before.frames, List.append_assoc]
  · intro frame member
    rw [published] at member
    rcases List.mem_append.mp member with old | new
    · exact before.valid frame old
    · exact digested.valid frame new
  · rcases before.bytes with ⟨old, conserved, unread⟩
    have kept : (t.server.buffer fd).unread = old := by
      rw [same.1, gap.server]
      exact unread (before.stays rfl)
    refine ⟨rest, ?_, digested.unread⟩
    rw [published, received, bytesOf_append, List.append_assoc, digested.conserved, kept,
      ← List.append_assoc, conserved, List.append_assoc]
  · rcases before.rounds with ⟨rounds, split, each⟩
    refine ⟨rounds ++ [⟨u, .net (.recv fd), answer⟩ :: tail], ?_, ?_⟩
    · rw [List.flatten_append, ← split, List.flatten_singleton]
    · intro round member
      rcases List.mem_append.mp member with old | new
      · exact each round old
      · rw [List.mem_singleton.mp new]
        refine ⟨⟨_, tail, rfl, rfl, tally.deaf⟩, ?_⟩
        rw [List.countP_cons, List.flatMap_cons, tally.notified, tally.published]
        rfl
  · intro push member partly
    rw [pushed] at member
    rcases List.mem_append.mp member with old | new
    · rcases before.short push old partly with ⟨⟨pause, impossible⟩, _⟩
      cases impossible
    · rcases digested.short push new partly with ⟨ended, kept, left⟩
      exact ⟨ended, kept, digested.unread kept ▸ left⟩

/-- An answer that brings no bytes and after which the client is as it was. -/
theorem Digested.idle {verdict : Verdict} (client : Client fd w) (gap : Elsewhere w v) :
    Digested fd [] w [] verdict v [] (w.server.buffer fd).unread [] where
  tally := .gap gap
  valid := nofun
  conserved := (List.append_nil _).symm
  unread := fun _ => by rw [gap.server]
  inside := fun _ => by rw [gap.server]; exact client.inside
  stays := fun _ => by rw [gap.server]; exact client.member
  short := nofun

theorem Digested.removed {result : Bool × Bool} (tally : Tally w events v [] 0 [])
    (erased : v.server = w.server.erase fd) :
    Digested fd [] w events (some result) v [] (w.server.buffer fd).unread [] := by
  have absent : fd ∉ v.server.keys := by
    rw [erased]
    exact Memory.not_mem_erase _ _
  exact ⟨tally, nofun, (List.append_nil _).symm, fun member => absurd member absent,
    fun member => absurd member absent, nofun, nofun⟩

theorem Digested.gap_right {bytes rest : List UInt8} {verdict : Verdict} {u : World} {fs : List Frame}
    {pushes : List (List UInt8 × Nat)} (digested : Digested fd bytes w events verdict v fs rest pushes)
    (gap : Elsewhere v u) : Digested fd bytes w (events ++ []) verdict u fs rest pushes := by
  rcases digested with ⟨tally, valid, conserved, unread, inside, stays, short⟩
  rw [← gap.server] at unread inside stays short
  exact ⟨by simpa using tally.gap_right gap, valid, conserved, unread, inside, stays, short⟩

theorem readClient_conserves {config : ServerConfig} {result : Bool × Bool} (ring : RingInv w.ring)
    (inside : (w.server.buffer fd).offset ≤ (w.server.buffer fd).data.length)
    (run : Runs (readClient config fd) w events result v) :
    v.ring.frames = w.ring.frames ++ events.flatMap publishedBy ∧
    (∀ frame ∈ events.flatMap publishedBy, frame.Valid) ∧
    (∃ rest, bytesOf (events.flatMap publishedBy) ++ rest =
        (w.server.buffer fd).unread ++ events.flatMap receivedBy ∧
      (fd ∈ v.server.keys → (v.server.buffer fd).unread = rest)) ∧
    (∃ rounds : List (List Happening), events = rounds.flatten ∧ ∀ round ∈ rounds, RecvRound round) ∧
    ∀ push ∈ events.flatMap pushedBy, push.2 * kFrameSize ≠ push.1.length →
      result.1 = false ∧ fd ∈ v.server.keys ∧
        push.1.drop (push.2 * kFrameSize) <+: (v.server.buffer fd).unread := by
  suffices conserves : Conserves fd w events (some result) v by
    refine ⟨conserves.frames, conserves.valid, conserves.bytes, conserves.rounds, ?_⟩
    intro push member partly
    rcases conserves.short push member partly with ⟨⟨pause, ended⟩, kept, left⟩
    cases ended
    exact ⟨rfl, kept, left⟩
  have opened := runs_memory run
  split at opened
  · rcases runs_pure opened with ⟨rfl, rfl, gap⟩
    refine ⟨gap.ring ring, (Tally.gap gap).frames, nofun, ?_, ?_, nofun, ⟨[], rfl, nofun⟩, nofun⟩
    · exact ⟨(w.server.buffer fd).unread, (List.append_nil _).symm, fun _ => by rw [gap.server]⟩
    · intro _
      rw [gap.server]
      exact inside
  next member =>
    have client : Client fd w := ⟨ring, not_not.mp member, inside⟩
    apply Prog.Among.iterate_induct Elsewhere.refl (fun _ s seen => Conserves fd w seen none s)
      (Q := fun result v events => Conserves fd w events (some result) v) opened (.start client)
    intro _ s seen events x t before pass
    rcases runs_call pass with ⟨u, answer, after, tail, gap, answered, next, rfl⟩
    have same := exec_harmless (.net (.recv fd)) rfl answered
    have kept : after.server = s.server := same.1.trans gap.server
    have here : Client fd after := ⟨same.2 ▸ gap.ring before.ring, kept ▸ before.stays rfl,
      kept ▸ before.inside (before.stays rfl)⟩
    cases answer with
    | data bytes =>
        rcases runs_bind next with ⟨verdict, t', first, rest, chunk, last, rfl⟩
        rcases processChunk_runs here chunk with ⟨fs, left, pushes, digested⟩
        cases verdict with
        | none =>
            rcases runs_pure last with ⟨rfl, rfl, gap'⟩
            exact before.pass gap answered (digested.gap_right gap')
        | some result =>
            rcases runs_pure last with ⟨rfl, rfl, gap'⟩
            exact before.pass gap answered (digested.gap_right gap')
    | eof =>
        have asked := runs_memory next
        dsimp only at asked
        split at asked
        · rcases logged_removal_runs asked with ⟨rfl, tally, erased⟩
          exact before.pass gap answered (.removed tally erased)
        · rcases removal_runs asked with ⟨rfl, tally, erased⟩
          exact before.pass gap answered (.removed tally erased)
    | error e =>
        cases e with
        | EINTR =>
            rcases runs_pure next with ⟨rfl, rfl, last⟩
            exact before.pass gap answered (.idle here last)
        | EAGAIN =>
            rcases runs_pure next with ⟨rfl, rfl, last⟩
            exact before.pass gap answered (.idle here last)
        | ECONNABORTED =>
            rcases logged_removal_runs next with ⟨rfl, tally, erased⟩
            exact before.pass gap answered (.removed tally erased)
        | EMFILE =>
            rcases logged_removal_runs next with ⟨rfl, tally, erased⟩
            exact before.pass gap answered (.removed tally erased)
        | other code =>
            rcases logged_removal_runs next with ⟨rfl, tally, erased⟩
            exact before.pass gap answered (.removed tally erased)

end Whole

def desk : World :=
  { machine with
    net := { machine.net with
      fds := Function.update machine.net.fds 7 (some (.client 0))
      conns := fun _ => { inbound := telegram } }
    server := { clients := [(7, {})] } }

theorem readClient_conserves_desk : ∃ events result v, Runs (readClient {} 7) desk events result v ∧
    events.countP notifies = 1 ∧ (v.server.buffer 7).unread = [7] ∧
    ∃ rounds : List (List Happening), events = rounds.flatten ∧ ∀ round ∈ rounds, RecvRound round := by
  have seen : (Prog.perform World.exec (visit oneCaller) 60 (readClient {} 7) desk).any (fun out =>
      decide (out.1.countP notifies = 1) && decide ((out.2.2.server.buffer 7).unread = [7])) = true := by
    decide +kernel
  rw [Option.any_eq_true] at seen
  rcases seen with ⟨⟨events, result, v⟩, done, good⟩
  rw [Bool.and_eq_true, decide_eq_true_eq, decide_eq_true_eq] at good
  have run : Runs (readClient {} 7) desk events result v :=
    (Prog.Trace.among_iff.mp (Prog.perform_trace _ 60 done)).weaken (fun same => same ▸ .refl _)
  have whole := readClient_conserves (RingInv.initial _) (Nat.le_refl _) run
  exact ⟨events, result, v, run, good.1, good.2, whole.2.2.2.1⟩

end TelemetryServer.Server
