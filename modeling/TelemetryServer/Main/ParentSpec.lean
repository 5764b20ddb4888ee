import TelemetryServer.Main.Main
import TelemetryServer.Server.RunSpec

namespace TelemetryServer.Main

open Config Ipc Atomic
open Server (Noted Contract Shared ServerRely ReaderRely Drift Own Setup serverPre serverLogic ownCall
  exec_own exec_fail EXIT_SUCCESS EXIT_FAILURE closeFd)
open Storage (exec_log)

/-- What the parent sees of its child and of the world outside. -/
structure MainRely (K : Contract) (w v : World) : Prop extends ServerRely K w v where
  ended : w.child ≠ .running → v.child = w.child

theorem MainRely.trans {K : Contract} {w v u : World} (first : MainRely K w v)
    (second : MainRely K v u) : MainRely K w u := by
  refine ⟨first.toServerRely.trans second.toServerRely, fun dead => ?_⟩
  have same := first.ended dead
  rw [second.ended (by rw [same]; exact dead), same]

/-- The parent may close any descriptor; otherwise it is held to what the server is. -/
def mainPre (setup : Setup) : Call → World → Prop
  | .net _, _ => True
  | call, w => serverPre setup call w

def mainLogic (K : Contract) (setup : Setup) : Logic where
  inv := Shared K
  rely := MainRely K
  guar := ReaderRely K
  pre := mainPre setup
  rely_refl := fun w => ⟨.refl w, fun _ => rfl⟩
  rely_trans := .trans
  rely_inv := fun move keep => move.keeps keep
  guar_refl := .refl

/-- The producer is closed, and the reader told of it unless something has failed. -/
structure Closed (w : World) : Prop where
  closed : w.ring.producerClosed ≠ 0
  told : w.past.failed = false → w.past.dataOwed = false

theorem Closed.drift {w v : World} (closed : Closed w) (drift : Drift w v) : Closed v := by
  constructor
  · rw [drift.view.closed]
    exact closed.closed
  · intro fine
    rw [drift.dataOwed]
    apply closed.told
    cases failed : w.past.failed with
    | false => rfl
    | true =>
        rw [drift.noted.failed failed] at fine
        cases fine

/-- What the value of `Server::run`, as `main` goes on with it, says of the run. -/
structure Reports (result : Nat) (w : World) : Prop where
  success : result = EXIT_SUCCESS → w.past.shutdown = true ∧ w.past.drained = true
  failure : result ≠ EXIT_SUCCESS → w.past.failed = true ∨ w.past.acceptFailed = true ∨
    w.past.readerGone = true

theorem Reports.noted {w v : World} {result : Nat} (reports : Reports result w)
    (noted : Noted w.past v.past) : Reports result v := by
  constructor
  · intro ok
    rw [noted.drained]
    exact ⟨noted.shutdown (reports.success ok).1, (reports.success ok).2⟩
  · exact fun bad => (reports.failure bad).imp noted.failed (Or.imp noted.acceptFailed noted.readerGone)

/-- The status that `waitpid` has reported is how the child has ended. -/
def Waited (w : World) : WaitResult → Prop
  | .exited code => w.child = .exited code
  | .signaled signal => w.child = .signaled signal
  | _ => w.past.failed = true

theorem Waited.rely {K : Contract} {w v : World} {status : WaitResult} (waited : Waited w status)
    (move : MainRely K w v) : Waited v status := by
  cases status with
  | exited code => exact (move.ended (by rw [show w.child = _ from waited]; simp)).trans waited
  | signaled signal => exact (move.ended (by rw [show w.child = _ from waited]; simp)).trans waited
  | eintr => exact move.drift.noted.failed waited
  | error => exact move.drift.noted.failed waited

/-- What `main` has brought about when it returns `result`. -/
structure Concluded (result : Nat) (w : World) : Prop where
  closed : w.ring.producerClosed ≠ 0
  waited : w.child = .running → w.past.failed = true
  success : result = EXIT_SUCCESS → w.child = .exited EXIT_SUCCESS ∧ w.past.shutdown = true ∧
    w.past.drained = true
  failure : result ≠ EXIT_SUCCESS → w.past.failed = true ∨ w.past.acceptFailed = true ∨
    w.past.readerGone = true ∨ w.child ≠ .exited EXIT_SUCCESS

section

variable {K : Contract} {setup : Setup} {α : Type} {w : World}

theorem serverLogic_main {p : Proc α} {Q : α → World → Prop} (holds : (serverLogic K setup).wp p Q w) :
    (mainLogic K setup).wp p Q w := by
  apply Logic.wp_weaken (L := serverLogic K setup) (M := mainLogic K setup) Iff.rfl
    (fun move => MainRely.toServerRely move) (fun granted => granted.toReaderRely) _ holds
  intro call v ready
  cases call with
  | net call => trivial
  | _ => exact ready

theorem own_rule {Q : α → World → Prop} {call : Call} {k : call.Resp → Proc α}
    (own : ownCall call = true) (free : ∀ v, mainPre setup call v)
    (rest : ∀ r v, Shared K v → Drift w v → (mainLogic K setup).wp (k r) Q v) :
    (mainLogic K setup).wp (Proc.call call >>= k) Q w := by
  intro v move keep
  refine ⟨free v, ?_⟩
  intro r u answer
  have step := exec_own own answer
  exact ⟨step.keeps keep, step.grants, rest r u (step.keeps keep) (move.drift.trans step.drift)⟩

theorem log_rule {Q : α → World → Prop} {line : Line} {k : Unit → Proc α} (plain : line.plain = true)
    (rest : ∀ v, MainRely K w v → Shared K v → (mainLogic K setup).wp (k ()) Q v) :
    (mainLogic K setup).wp (Proc.log line >>= k) Q w := by
  intro v move keep
  constructor
  · cases line with
    | sharedRingFull => simp [Line.plain] at plain
    | inputBufferLimit fd => simp [Line.plain] at plain
    | _ => trivial
  · intro r u answer
    have same := exec_log plain answer
    subst u
    exact ⟨keep, .refl v, rest v move keep⟩

theorem closeProducer_rule {Q : α → World → Prop} {k : Unit → Proc α}
    (rest : ∀ v, Shared K v → Noted w.past v.past → v.ring.producerClosed ≠ 0 →
      (mainLogic K setup).wp (k ()) Q v) :
    (mainLogic K setup).wp (closeProducer >>= k) Q w := by
  intro v move keep
  refine ⟨trivial, ?_⟩
  intro r u answer
  simp only [World.exec, RingCall.exec, Option.map_some, Option.some.injEq, World.noteRing] at answer
  subst u
  have one : (1 : Nat) ≠ 0 := by decide
  have keeps : Shared K v → Shared K { v with
      ring := { v.ring with producerClosed := 1 }, past := { v.past with dataOwed := true } } := by
    intro keep
    have ring := keep.ring.ring
    exact ⟨⟨⟨ring.head_eq, ring.tail_eq, ring.released_le, ring.bounded, ring.slots_eq⟩,
      keep.ring.pending, keep.ring.valid⟩, fun exited => ⟨one, (keep.ended exited).2⟩, keep.pid⟩
  exact ⟨keeps keep, ⟨⟨rfl, rfl, List.prefix_rfl, fun _ => ⟨one, rfl⟩⟩, rfl, rfl, rfl, rfl,
    Or.inl rfl, Or.inr (Or.inl rfl), fun _ => Or.inl rfl, keeps⟩,
    rest _ (keeps keep) (move.drift.noted.trans ⟨id, id, id, id, rfl, rfl, rfl⟩) one⟩

theorem notifyEvent_rule (closed : w.ring.producerClosed ≠ 0) :
    (mainLogic K setup).wp (notifyEvent .dataReady) (fun ok v => Closed v ∧ Noted w.past v.past ∧
      (ok = false → v.past.failed = true)) w := by
  apply Logic.wp_mono (serverLogic_main Server.notifyEvent_rule)
  intro ok v _ result
  cases ok with
  | true =>
      have drift : Drift (Server.World.told w) v := ServerRely.drift result
      have telling : Noted w.past (Server.World.told w).past := ⟨id, id, id, id, rfl, rfl, rfl⟩
      refine ⟨⟨?_, fun _ => drift.dataOwed⟩, telling.trans drift.noted, nofun⟩
      rw [drift.view.closed]
      exact closed
  | false =>
      rcases result with ⟨move, failed⟩
      refine ⟨⟨?_, ?_⟩, move.drift.noted, fun _ => failed⟩
      · rw [move.drift.view.closed]
        exact closed
      · intro fine
        rw [failed] at fine
        cases fine

theorem killReader_rule (closed : Closed w) :
    (mainLogic K setup).wp killReader (fun _ v => Closed v ∧ Noted w.past v.past) w := by
  intro v move keep
  refine ⟨trivial, ?_⟩
  intro r u answer
  have closedV := closed.drift move.drift
  cases r with
  | true =>
      have ended : Shared K u ∧ ReaderRely K v u ∧ Closed u ∧ Noted v.past u.past := by
        rw [← Option.some.inj answer]
        cases status : v.child with
        | running =>
            have keeps : Shared K v → Shared K { v with child := .signaled World.SIGKILL } :=
              fun keep => ⟨keep.ring, by simp, keep.pid⟩
            exact ⟨keeps keep, ⟨.refl _, rfl, rfl, rfl, rfl, Or.inr ⟨_, rfl⟩, Or.inl ⟨rfl, rfl⟩, id,
              keeps⟩, ⟨closedV.closed, closedV.told⟩, .refl _⟩
        | exited code => exact ⟨keep, .refl v, closedV, .refl _⟩
        | signaled signal => exact ⟨keep, .refl v, closedV, .refl _⟩
      exact ⟨ended.1, ended.2.1, fun x move' _ => ⟨ended.2.2.1.drift move'.drift,
        (move.drift.noted.trans ended.2.2.2).trans move'.drift.noted⟩⟩
  | false =>
      rw [← Option.some.inj answer]
      have step := exec_fail v
      refine ⟨step.keeps keep, step.grants, ?_⟩
      change (mainLogic K setup).wp (Proc.log (.perror "kill reader") >>= fun _ => pure ()) _ _
      apply log_rule rfl
      intro x move' _ y move'' _
      have later := step.drift.trans (move'.drift.trans move''.drift)
      exact ⟨closedV.drift later, move.drift.noted.trans later.noted⟩

/-- The wait is made with the producer closed, and ends with the child unless it fails. -/
theorem waitReader_rule (closed : Closed w) : (mainLogic K setup).wp waitReader
    (fun status v => Closed v ∧ Noted w.past v.past ∧ Waited v status) w := by
  apply Logic.wp_iterate (fun _ v => Closed v ∧ Noted w.past v.past)
  · exact fun v move _ => ⟨closed.drift move.drift, move.drift.noted⟩
  rintro _ v _ ⟨closedV, toV⟩ t move keepT
  have here := closedV.drift move.drift
  have toT := toV.trans move.drift.noted
  refine ⟨⟨here.closed, here.told⟩, ?_⟩
  intro r u answer
  cases r with
  | exited code =>
      simp only [World.exec, Option.ite_none_right_eq_some, Option.some.injEq] at answer
      rcases answer with ⟨status, rfl⟩
      have waited : Waited t (.exited code) := status
      exact ⟨keepT, .refl t, fun x move' _ =>
        ⟨here.drift move'.drift, toT.trans move'.drift.noted, waited.rely move'⟩⟩
  | signaled signal =>
      simp only [World.exec, Option.ite_none_right_eq_some, Option.some.injEq] at answer
      rcases answer with ⟨status, rfl⟩
      have waited : Waited t (.signaled signal) := status
      exact ⟨keepT, .refl t, fun x move' _ =>
        ⟨here.drift move'.drift, toT.trans move'.drift.noted, waited.rely move'⟩⟩
  | eintr =>
      rw [← Option.some.inj answer]
      exact ⟨keepT, .refl t, fun x move' _ =>
        ⟨here.drift move'.drift, toT.trans move'.drift.noted⟩⟩
  | error =>
      rw [← Option.some.inj answer]
      have step := exec_fail t
      have waited : Waited t.fail .error := rfl
      refine ⟨step.keeps keepT, step.grants, ?_⟩
      apply log_rule rfl
      intro x move' _ y move'' _
      have later := step.drift.trans (move'.drift.trans move''.drift)
      exact ⟨here.drift later, toT.trans later.noted, (waited.rely move').rely move''⟩

theorem Concluded.failing (closed : Closed w) (waited : w.child = .running → w.past.failed = true)
    (failure : w.past.failed = true ∨ w.past.acceptFailed = true ∨ w.past.readerGone = true ∨
      w.child ≠ .exited EXIT_SUCCESS) : Concluded EXIT_FAILURE w :=
  ⟨closed.closed, waited, nofun, fun _ => failure⟩

theorem conclude_rule {serverResult : Nat} {status : WaitResult} (closed : Closed w)
    (reports : Reports serverResult w) (waited : Waited w status) :
    (mainLogic K setup).wp (conclude serverResult status) Concluded w := by
  cases status with
  | signaled signal =>
      apply log_rule rfl
      intro v move _ u move' _
      have killed : u.child = .signaled signal := (waited.rely move).rely move'
      apply Concluded.failing ((closed.drift move.drift).drift move'.drift)
      · rw [killed]
        nofun
      · rw [killed]
        simp
  | exited code =>
      rw [conclude]
      split
      · next nonzero =>
          apply log_rule rfl
          intro v move _ u move' _
          have exited : u.child = .exited code := (waited.rely move).rely move'
          apply Concluded.failing ((closed.drift move.drift).drift move'.drift)
          · rw [exited]
            nofun
          · rw [exited]
            simpa using Or.inr (Or.inr (Or.inr nonzero))
      · next zero =>
          intro v move _
          have exited : v.child = .exited code := waited.rely move
          have later := reports.noted move.drift.noted
          refine ⟨(closed.drift move.drift).closed, ?_, fun ok => ?_, fun bad => ?_⟩
          · rw [exited]
            nofun
          · rw [exited, not_not.mp zero]
            exact ⟨rfl, later.success ok⟩
          · exact (later.failure bad).imp id (Or.imp id Or.inl)
  | eintr =>
      intro v move _
      have failed : v.past.failed = true := waited.rely move
      exact .failing (closed.drift move.drift) (fun _ => failed) (Or.inl failed)
  | error =>
      intro v move _
      have failed : v.past.failed = true := waited.rely move
      exact .failing (closed.drift move.drift) (fun _ => failed) (Or.inl failed)

theorem endReader_rule {serverResult : Nat} (reports : Reports serverResult w) :
    (mainLogic K setup).wp (endReader serverResult) (fun result v => Closed v ∧ Reports result v) w := by
  apply closeProducer_rule
  intro a keepA toA closed
  apply Logic.wp_seq keepA (notifyEvent_rule closed)
  rintro ok b keepB ⟨closedB, toB, failed⟩
  cases ok with
  | true =>
      exact fun v move _ =>
        ⟨closedB.drift move.drift, reports.noted ((toA.trans toB).trans move.drift.noted)⟩
  | false =>
      apply log_rule rfl
      intro c move keepC
      apply Logic.wp_seq keepC (killReader_rule (closedB.drift move.drift))
      rintro _ v _ ⟨closedV, later⟩ u move' _
      have broken : u.past.failed = true := by
        apply move'.drift.noted.failed
        exact later.failed (move.drift.noted.failed (failed rfl))
      exact ⟨closedV.drift move'.drift, nofun, fun _ => Or.inl broken⟩

theorem close_rule {Q : α → World → Prop} {fd : Int} {k : Unit → Proc α} (closed : Closed w)
    (rest : ∀ v, Shared K v → Noted w.past v.past → Closed v → (mainLogic K setup).wp (k ()) Q v) :
    (mainLogic K setup).wp (closeFd fd >>= k) Q w := by
  apply own_rule (rfl : ownCall (.net (.close fd)) = true) (fun _ => trivial)
  exact fun _ v keep drift => rest v keep drift.noted (closed.drift drift)

theorem abandon_rule (handles : Handles) (failed : w.past.failed = true) :
    (mainLogic K setup).wp (abandon handles) Concluded w := by
  apply log_rule rfl
  intro a toA _
  apply closeProducer_rule
  intro b keepB toB closed
  have woken : (mainLogic K setup).wp wakeReader (fun _ v => Closed v ∧ Noted b.past v.past) b := by
    apply Logic.wp_seq keepB (notifyEvent_rule closed)
    rintro ok c keepC ⟨closedC, toC, _⟩
    cases ok with
    | true => exact fun v move _ => ⟨closedC.drift move.drift, toC.trans move.drift.noted⟩
    | false =>
        apply Logic.wp_mono (killReader_rule closedC)
        exact fun _ v _ ended => ⟨ended.1, toC.trans ended.2⟩
  apply Logic.wp_seq keepB woken
  rintro _ c _ ⟨closedC, toC⟩
  apply close_rule closedC
  intro d _ toD closedD
  apply close_rule closedD
  intro e keepE toE closedE
  apply Logic.wp_seq keepE (waitReader_rule closedE)
  rintro _ f _ ⟨closedF, toF, _⟩ v move _
  have since := (toA.drift.noted.trans toB).trans ((toC.trans toD).trans (toE.trans toF))
  have still : v.past.failed = true := move.drift.noted.failed (since.failed failed)
  exact .failing (closedF.drift move.drift) (fun _ => still) (Or.inl still)

end

section

variable {K : Contract} {config : AppConfig} {handles : Handles} {w : World}

theorem serve_rule (pid : K.readerPid = handles.readerPid) (keep : Shared K w)
    (starting : Server.Starting (setup config handles) none [] w) :
    (mainLogic K (setup config handles)).wp (serve config handles) Concluded w := by
  apply Logic.wp_seq keep (serverLogic_main (Server.run_rule pid starting))
  rintro serverResult a keepA ⟨ended, _⟩
  have reports : Reports serverResult a :=
    ⟨fun ok => ⟨(ended.success ok).1, ended.drained.mp ok⟩, ended.failure⟩
  apply Logic.wp_seq keepA (endReader_rule reports)
  rintro result b _ ⟨closedB, reportsB⟩
  apply close_rule closedB
  intro c _ toC closedC
  apply close_rule closedC
  intro d _ toD closedD
  apply close_rule closedD
  intro e keepE toE closedE
  apply Logic.wp_seq keepE (waitReader_rule closedE)
  rintro status f _ ⟨closedF, toF, waited⟩
  exact conclude_rule closedF (reportsB.noted ((toC.trans toD).trans (toE.trans toF))) waited

/-- `main` does not return before its child has ended, and its value tells how both have done. -/
theorem parent_rule (pid : K.readerPid = handles.readerPid)
    (starting : Server.Starting (setup config handles) none [] w) :
    (mainLogic K (setup config handles)).wp (parent config handles) Concluded w := by
  intro v move keep
  have startingV := starting.rely move.toServerRely
  refine ⟨trivial, ?_⟩
  intro ok u answer
  have step := exec_own (rfl : ownCall .signalfd = true) answer
  refine ⟨step.keeps keep, step.grants, ?_⟩
  cases ok with
  | true =>
      have same : v = u := Option.some.inj answer
      subst same
      exact serve_rule pid keep startingV
  | false =>
      rw [← Option.some.inj answer]
      exact abandon_rule handles rfl

end

end TelemetryServer.Main
