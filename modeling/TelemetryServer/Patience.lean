import TelemetryServer.Lib.Halting
import TelemetryServer.World

/-! Runs in which no call is interrupted. -/

namespace TelemetryServer

open Ipc Atomic

namespace World

/-- An answer that says only that the call was interrupted. -/
def interrupts : (call : Call) → call.Resp → Bool
  | .eventRead _, .eintr => true
  | .eventWrite _, .eintr => true
  | .fs (.write _ _), .eintr => true
  | .fs (.fdatasync _), .eintr => true
  | .fs (.fsync _), .eintr => true
  | .net (.accept4 _), .error .EINTR => true
  | .net (.recv _), .error .EINTR => true
  | .epollWait, .eintr => true
  | .signalRead, .error .EINTR => true
  | .waitpid, .eintr => true
  | _, _ => false

/-- The read of an eventfd waits for its counter, `waitpid` for the child. -/
def waits : Call → World → Bool
  | .eventRead fd, w => w.counter fd == 0
  | .waitpid, w => w.child == .running
  | _, _ => false

def patiently (call : Call) (w : World) (r : call.Resp) : Option World :=
  if interrupts call r || waits call w then none else exec call w r

theorem patiently_cases {call : Call} {w v : World} {r : call.Resp}
    (answer : patiently call w r = some v) : interrupts call r = false ∧ exec call w r = some v := by
  simp only [patiently, Option.ite_none_left_eq_some, Bool.or_eq_true, not_or, Bool.not_eq_true] at answer
  exact ⟨answer.1.1, answer.2⟩

theorem patiently_exec {call : Call} {w v : World} {r : call.Resp}
    (answer : patiently call w r = some v) : exec call w r = some v :=
  (patiently_cases answer).2

end World

/-- A program whose loops all have a variant, but for being interrupted. -/
abbrev Brief {α : Type} (p : Proc α) : Prop := Prog.Brief World.exec World.patiently p

namespace Brief

variable {α β : Type}

theorem pure (a : α) : Brief (Pure.pure a : Proc α) := trivial

theorem bind {p : Proc β} {f : β → Proc α} (first : Brief p) (rest : ∀ b, Brief (f b)) :
    Brief (p >>= f) :=
  Prog.Brief.bind first rest

theorem check {p : Proc Bool} {bad : α} {next : Proc α} (first : Brief p) (rest : Brief next) :
    Brief (p >>= fun ok => if (!ok) = true then Pure.pure bad else next) := by
  apply first.bind
  intro ok
  cases ok with
  | false => exact .pure bad
  | true => exact rest

theorem call (call : Call) : Brief (Proc.call call) := fun _ _ _ _ => trivial

/-- A loop that goes round only when it is interrupted. -/
theorem retry {body : Unit → Proc (Unit ⊕ α)} (pass : Brief (body ()))
    (once : Prog.Answers World.patiently (fun x => x.isRight = true) (body ())) :
    Brief (Prog.iterate body ()) := by
  apply Prog.Brief.iterate (fun _ => 0) fun _ => pass
  intro _
  apply once.mono
  intro x right again same
  rw [same] at right
  cases right

end Brief
end TelemetryServer
