import TelemetryServer.Ipc.Totality
import TelemetryServer.Main.Processes
import TelemetryServer.Reader.GivingUp

namespace TelemetryServer.Main

open Config Protocol Ipc Atomic Storage World
open Reader (fileStore Winds)
open Server (Shared EXIT_SUCCESS)

section

variable {config : AppConfig} {handles : Handles} {initial : List UInt8} {w v : World}

theorem append_halting (batch : List UInt8) :
    (childOf config handles initial).Halting patiently Reader.Closed
      (noted batch (fileStore.appendFrames batch)) := by
  apply Reader.noted_halting
  rintro v _ ⟨done, holding, inside⟩
  have due : Due (readerConfig config).store (v.passing (.appending batch)) := holding.due
  exact appendFrames_halts (appending_stores done batch)
    (fun _ _ _ frame low moment => frame.allowed holding.valid low moment) holding.valid due
    (holding.appending inside)

theorem readerLogic_winds : Winds (childOf config handles initial) fileStore where
  consumes := readerLogic_consumes
  own := by
    intro w v granted
    have view := granted.drift.view
    exact ⟨fun closed => ⟨by rw [Reader.Closed, view.closed]; exact closed, view.published⟩, view.released⟩
  construct := fun config => update_brief (fun _ => { config := config })
  openFile := openFile_brief
  append := append_halting
  sync := sync_brief
  destroy := destroy_brief

/-- The child goes round its loops no more once the producer has closed the ring. -/
theorem child_halts (keep : Tracked (contract config handles initial) config initial w)
    (beginning : Beginning config initial w) :
    (childLogic (contract config handles initial) config initial).Halts patiently Reader.Closed
      (child config) w := by
  have running : (childOf config handles initial).Halts patiently Reader.Closed
      (Reader.run (readerConfig config)) w :=
    (Reader.runWith_halting readerLogic_winds (readerConfig config)).halts keep (run_over beginning)
  apply Logic.halts_bind keep (Logic.halts_weaken (L := childOf config handles initial)
    (M := childLogic (contract config handles initial) config initial) Iff.rfl (fun move => move)
    (fun granted => ReaderGrant.toServerRely granted) (fun ready => ready) running)
  apply Logic.wp_mono (running_over beginning)
  exact fun _ _ _ _ _ _ _ _ _ _ => trivial

end

structure Announced (w : World) : Prop where
  closed : w.ring.producerClosed ≠ 0
  told : w.past.dataOwed = false

/-- The child is then held up by none of its calls. -/
theorem child_answered {K : Server.Contract} {config : AppConfig} {initial : List UInt8} {w : World}
    {call : Call} (ready : childPre K config initial call w) (announced : Announced w) :
    ∃ r v, patiently call w r = some v := by
  cases call with
  | ring call =>
      rcases RingCall.answers call w.net.lastRecv w.ring with ⟨r, m, done⟩
      refine ⟨r, { w with ring := m, past := noteRing w.past call }, ?_⟩
      change World.exec (.ring call) w r = _
      rw [World.exec, done]
      rfl
  | eventRead fd =>
      cases fd with
      | dataReady =>
          have counted : 0 < w.dataReady := by
            rcases ready.2.2.2 with opened | owed | counted
            · exact absurd opened announced.closed
            · rw [announced.told] at owed
              cases owed
            · exact counted
          refine ⟨.ok, { w with dataReady := 0 }, ?_⟩
          simp [patiently, interrupts, waits, exec, counter, setCounter, eventfdRead, counted,
            Nat.ne_of_gt counted]
      | spaceReady => exact ready.elim
  | eventWrite fd => exact ⟨.error, _, rfl⟩
  | fs call => exact Reader.storing_answered (show Reader.Storing (.fs call) from trivial)
  | log line => exact Reader.storing_answered (show Reader.Storing (.log line) from trivial)
  | exit code => exact ⟨(), _, rfl⟩
  | point p => exact ⟨(), _, rfl⟩
  | _ => exact ready.elim

/-- Clients go on as they like, and nothing strikes the child. -/
abbrev Beside : World → World → Prop :=
  Relation.ReflTransGen fun w v => Outside w v ∧ v.child = w.child

section

variable {config : AppConfig} {handles : Handles} {w v : World} {q : Proc Nat} {c : Proc Unit}

theorem Beside.allowed {K : Server.Contract} (moves : Beside w v) : Server.ReaderRely K w v := by
  induction moves with
  | refl => exact .refl w
  | tail _ move ih => exact ih.trans move.1.allowed.2

theorem Announced.beside (announced : Announced w) (moves : Beside w v) : Announced v := by
  induction moves with
  | refl => exact announced
  | tail _ move ih =>
      cases move.1 with
      | client c f grows => exact ⟨ih.closed, ih.told⟩
      | strike signal running => exact ⟨ih.closed, ih.told⟩

theorem Announced.grants {K : Server.Contract} (announced : Announced w)
    (granted : Server.ServerRely K w v) : Announced v :=
  ⟨by rw [granted.drift.view.closed]; exact announced.closed,
    granted.drift.dataOwed.trans announced.told⟩

namespace Forked

theorem halts (forked : Forked config handles w) (moment : Meeting config handles w q c v) :
    (childLogic (agreed config handles w) config (initially config w)).Halts patiently Reader.Closed
      c v := by
  have keep := forked.shared (agreed config handles w) rfl
  exact Logic.halts_par (L := mainLogic (agreed config handles w) (setup config handles))
    (M := childLogic (agreed config handles w) config (initially config w)) (fun granted => granted)
    (fun alive granted => ⟨granted, fun dead => absurd alive dead⟩)
    (fun move => move.allowed.1) (fun move => move.allowed.2) keep forked.tracked
    (parent_rule rfl forked.toStarting) (child_rule forked.tracked forked.beginning)
    (child_halts forked.tracked forked.beginning) moment

end Forked

/-- The shutdown comes to an end. Once the parent waits for its child, the child goes on to its
exit whatever the clients do, unless a call of the server or on an eventfd has failed, or calls
are interrupted for ever. If it then reports success, the files hold what was there and all that
was published. -/
theorem processes_end (forked : Forked config handles w) (moment : Meeting config handles w q c v)
    (awaits : q.Calls .waitpid) (fine : v.past.failed = false) :
    Prog.Settles patiently Beside (fun _ u => u.child ≠ .running ∧
      (u.child = .exited EXIT_SUCCESS → u.fs.archives.length ≤ 2 ^ 64 →
        Persisted (pathFilename config.dataFilePath) (initially config w) u.ring.published u.fs)) c v := by
  rcases forked.reached moment with ⟨keep, left, right⟩
  have closed := Logic.wp_pre keep.toShared left awaits
  have announced : Announced v := ⟨closed.1, closed.2 fine⟩
  apply ((forked.halts moment).settles (C := Announced) patiently_exec (fun _ => .refl)
    (fun moves => Beside.allowed moves) (fun here => here.closed) (fun moves here => here.beside moves)
    (fun granted here => here.grants granted) (fun _ ready here => child_answered ready here) keep
    (Logic.wp_along patiently_exec right) announced).mono
  intro _ u result
  exact ⟨result.1, fun success => (result.2.1.ended success).2⟩

/-- The server has drained the ring, and the reader sleeps. -/
theorem processes_end_draining : ∃ q c v, Meeting quietConfig machineHandles forkedMachine q c v ∧
    c.Calls (.eventRead .dataReady) ∧ v.child = .running ∧
    Prog.Settles patiently Beside (fun _ u => u.child ≠ .running ∧
      (u.child = .exited EXIT_SUCCESS → u.fs.archives.length ≤ 2 ^ 64 →
        Persisted (pathFilename quietConfig.dataFilePath) (initially quietConfig forkedMachine)
          u.ring.published u.fs)) c v := by
  rcases turns_show callThenStop [.left 27, .env (sends 0 Server.telegram), .left 56, .right 58,
    .left 24] (by simp) (fun q c v => q.next = some .waitpid ∧
      c.next = some (.eventRead .dataReady) ∧ v.child = .running ∧ v.past.failed = false)
    (by decide +kernel) with ⟨q, c, v, moment, awaits, sleeps, running, fine⟩
  exact ⟨q, c, v, moment, Prog.calls_of_next sleeps, running,
    processes_end forkedMachine_forked moment (Prog.calls_of_next awaits) fine⟩

end
end TelemetryServer.Main
