import TelemetryServer.Storage.Archives

namespace TelemetryServer.Storage

open Protocol Atomic

def Filing : Call → Prop
  | .fs _ => True
  | .log line => line.plain = true
  | _ => False

def OnlyStore (w v : World) : Prop := v = { w with store := v.store }

structure Keeping (P : Call → Prop) {α : Type} (p : Proc α) : Prop where
  within : Prog.Within P p
  moves : Prog.Moves OnlyStore p

abbrev Apart {α : Type} (p : Proc α) : Prop := Keeping Filing p

theorem filing_answer {call : Call} {r : call.Resp} {w v : World} (filing : Filing call)
    (answer : World.exec call w r = some v) : ∃ fs, v = { w with fs := fs } := by
  cases call with
  | fs call =>
      rcases exec_fs answer with ⟨fs, _, same⟩
      exact ⟨fs, same⟩
  | log line =>
      rw [exec_log filing answer]
      exact ⟨w.fs, rfl⟩
  | _ => exact filing.elim

theorem Aside.filing (call : Call) (aside : Aside call) : Filing call := by
  cases call with
  | fs call => trivial
  | log line => exact aside
  | _ => exact aside.elim

section

variable {α β : Type}

theorem moves_mono {A B : World → World → Prop} {p : Proc α} (moves : Prog.Moves A p)
    (more : ∀ w v, A w v → B w v) : Prog.Moves B p := by
  induction p with
  | pure a => trivial
  | act f k ih => exact ⟨fun w => more _ _ (moves.1 w), fun b => ih b (moves.2 b)⟩
  | call e k ih => exact fun r => ih r (moves r)
  | loop body b k ihBody ih => exact ⟨fun b => ihBody b (moves.1 b), fun c => ih c (moves.2 c)⟩

theorem Still.apart {p : Proc α} (still : Still p) : Apart p :=
  ⟨still.within.mono Aside.filing, moves_mono still.moves fun _ _ retained => retained.same⟩

namespace Keeping

variable {P P' : Call → Prop}

theorem mono {p : Proc α} (keeping : Keeping P p) (more : ∀ call, P call → P' call) : Keeping P' p :=
  ⟨keeping.within.mono more, keeping.moves⟩

theorem pure (a : α) : Keeping P (Pure.pure a : Proc α) := ⟨trivial, trivial⟩

theorem bind {p : Proc β} {f : β → Proc α} (first : Keeping P p) (rest : ∀ b, Keeping P (f b)) :
    Keeping P (p >>= f) :=
  ⟨first.within.bind fun b => (rest b).within, first.moves.bind fun b => (rest b).moves⟩

theorem check {p : Proc Bool} {bad : α} {next : Proc α} (first : Keeping P p) (rest : Keeping P next) :
    Keeping P (p >>= fun ok => if (!ok) = true then Pure.pure bad else next) := by
  apply first.bind
  intro ok
  cases ok with
  | false => exact .pure bad
  | true => exact rest

theorem iterate {body : β → Proc (β ⊕ α)} {b : β} (pass : ∀ b, Keeping P (body b)) :
    Keeping P (Prog.iterate body b) :=
  ⟨.iterate fun b => (pass b).within, .iterate fun b => (pass b).moves⟩

theorem call (call : Call) (allowed : P call) : Keeping P (Proc.call call) :=
  ⟨⟨allowed, fun _ => trivial⟩, fun _ => trivial⟩

end Keeping

theorem update_keeping {P : Call → Prop} (f : FileStore → FileStore) : Keeping P (update f) :=
  ⟨fun _ => trivial, fun _ => rfl, fun _ => trivial⟩

theorem call_apart (call : FsCall) : Apart (Proc.call (.fs call) : Proc call.Resp) :=
  ⟨⟨trivial, fun _ => trivial⟩, fun _ => trivial⟩

end

theorem makeArchiveName_apart : Apart makeArchiveName := by
  apply (call_apart .clockGettime).bind
  intro time
  cases time with
  | error => exact ((log_still rfl).bind fun _ => .pure "").apart
  | ok sec nsec =>
      apply members_still.apart.bind
      intro m
      exact (update_keeping _).bind fun _ => .pure _

theorem rotate_apart : Apart rotate := by
  apply members_still.apart.bind
  intro m
  split
  · exact .pure false
  apply sync_still.apart.check
  apply closeActiveFile_still.apart.check
  apply makeArchiveName_apart.bind
  intro archive
  split
  · exact .pure false
  apply (call_apart (.renameat _ _ _)).bind
  intro ok
  cases ok with
  | false => exact (refuse_still rfl).apart
  | true =>
      apply syncDirectory_still.apart.check
      apply (update_keeping _).bind
      intro _
      exact openActiveFile_still.apart.check ((log_still rfl).bind fun _ => .pure true).apart

theorem appendChunk_apart (frames : List UInt8) (offset : Nat) : Apart (appendChunk frames offset) := by
  have rotated : Apart rotateIfFull := by
    apply members_still.apart.bind
    intro m
    split
    · exact rotate_apart
    · exact .pure true
  apply rotated.check
  apply syncIfDue_still.apart.check
  apply members_still.apart.bind
  intro m
  apply (writeAll_still _ _).apart.check
  apply (update_keeping _).bind
  intro _
  exact syncIfDue_still.apart.check (.pure _)

theorem appendFrames_apart (frames : List UInt8) : Apart (appendFrames frames) := by
  apply members_still.apart.bind
  intro m
  split
  · exact .pure false
  split
  · exact (refuse_still rfl).apart
  apply Keeping.iterate
  intro offset
  rw [appendTurn]
  split
  · apply (appendChunk_apart frames offset).bind
    intro next
    cases next with
    | none => exact .pure _
    | some n => exact .pure _
  · exact .pure _

theorem openDirectory_apart (path : String) : Apart (openDirectory path) := by
  rw [openDirectory]
  dsimp only
  split
  · exact (refuse_still rfl).apart
  apply (update_keeping _).bind
  intro _
  apply (call_apart (.openDirectory _)).bind
  intro opened
  cases opened with
  | ok fd => exact (update_keeping _).bind fun _ => .pure true
  | eexist => exact (update_keeping _).bind fun _ => (refuse_still rfl).apart
  | error => exact (update_keeping _).bind fun _ => (refuse_still rfl).apart

theorem openFile_apart (path : String) : Apart (openFile path) := by
  apply members_still.apart.bind
  intro m
  split
  · exact (refuse_still rfl).apart
  apply validateConfig_still.apart.check
  apply (openDirectory_apart path).check
  apply openActiveFile_still.apart.check
  apply members_still.apart.bind
  intro m
  exact ((log_still rfl).bind fun _ => .pure true).apart

end TelemetryServer.Storage
