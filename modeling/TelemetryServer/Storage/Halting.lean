import TelemetryServer.Patience
import TelemetryServer.Storage.AppendSpec

namespace TelemetryServer.Storage

open Protocol Atomic World

theorem members_brief : Brief members := fun _ => trivial

theorem update_brief (f : FileStore → FileStore) : Brief (update f) := fun _ => trivial

theorem log_brief (line : Line) : Brief (Proc.log line) := .call _

theorem refuse_brief (line : Line) : Brief (refuse line) := (log_brief line).bind fun _ => .pure false

theorem retrySync_brief {call : FsCall} {answer : call.Resp → SyncResult} (message : String)
    (heard : ∀ r, answer r = .eintr → interrupts (.fs call) r = true) :
    Brief (retrySync call answer message) := by
  apply Brief.retry
  · apply (Brief.call (.fs call)).bind
    intro r
    split
    · exact .pure _
    · exact .pure _
    · exact (log_brief _).bind fun _ => .pure _
  · intro w r v done
    have quiet := (patiently_cases done).1
    simp only [Prog.bind]
    cases said : answer r with
    | ok => rfl
    | eintr =>
        rw [heard r said] at quiet
        cases quiet
    | error => exact fun _ _ _ _ => rfl

theorem sync_brief : Brief sync := by
  apply members_brief.bind
  intro m
  split
  · exact .pure false
  apply (retrySync_brief _ ?_).bind
  · intro ok
    cases ok with
    | false => exact .pure false
    | true => exact (update_brief _).bind fun _ => .pure true
  · intro r interrupted
    cases interrupted
    rfl

theorem syncDirectory_brief : Brief syncDirectory := by
  apply members_brief.bind
  intro m
  split
  · exact .pure false
  apply retrySync_brief
  intro r interrupted
  cases interrupted
  rfl

theorem validateConfig_brief : Brief validateConfig := by
  apply members_brief.bind
  intro m
  split
  · exact refuse_brief _
  split
  · exact refuse_brief _
  split
  · exact refuse_brief _
  · exact .pure true

theorem openDirectory_brief (path : String) : Brief (openDirectory path) := by
  rw [openDirectory]
  dsimp only
  split
  · exact refuse_brief _
  apply (update_brief _).bind
  intro _
  apply (Brief.call (.fs (.openDirectory _))).bind
  intro opened
  cases opened with
  | ok fd => exact (update_brief _).bind fun _ => .pure true
  | eexist => exact (update_brief _).bind fun _ => refuse_brief _
  | error => exact (update_brief _).bind fun _ => refuse_brief _

theorem truncatePartialTail_brief (fd : Int) (size : Nat) : Brief (truncatePartialTail fd size) := by
  rw [truncatePartialTail]
  split
  · apply (log_brief _).bind
    intro _
    apply (Brief.call (.fs (.ftruncate fd _))).bind
    intro ok
    cases ok with
    | false => exact refuse_brief _
    | true => exact sync_brief
  · exact .pure true

theorem recoverPartialFrame_brief : Brief recoverPartialFrame := by
  apply members_brief.bind
  intro m
  apply (Brief.call (.fs (.fstat m.fd))).bind
  intro stat
  cases stat with
  | error => exact refuse_brief _
  | ok size regular =>
      cases regular with
      | false => exact refuse_brief _
      | true => exact (truncatePartialTail_brief m.fd size).check ((update_brief _).bind fun _ => .pure true)

theorem openAppend_brief : Brief openAppend := by
  apply members_brief.bind
  intro m
  apply (Brief.call (.fs (.openCreate m.directoryFd m.fileName))).bind
  intro created
  have failed : ∀ message, Brief (do
      update (fun m => { m with fd := -1 })
      Proc.log (.perror message)
      return none : Proc (Option Bool)) :=
    fun message => (update_brief _).bind fun _ => (log_brief _).bind fun _ => .pure none
  cases created with
  | ok fd => exact (update_brief _).bind fun _ => .pure (some true)
  | error => exact failed _
  | eexist =>
      apply (Brief.call (.fs (.openExisting m.directoryFd m.fileName))).bind
      intro opened
      cases opened with
      | ok fd => exact (update_brief _).bind fun _ => .pure (some false)
      | eexist => exact failed _
      | error => exact failed _

theorem openActiveFile_brief : Brief openActiveFile := by
  apply openAppend_brief.bind
  intro opened
  cases opened with
  | none => exact .pure false
  | some created =>
      cases created with
      | false => exact recoverPartialFrame_brief
      | true =>
          apply syncDirectory_brief.bind
          intro ok
          cases ok with
          | false => exact .pure false
          | true => exact recoverPartialFrame_brief

theorem openFile_brief (path : String) : Brief (openFile path) := by
  apply members_brief.bind
  intro m
  split
  · exact refuse_brief _
  apply validateConfig_brief.check
  apply (openDirectory_brief path).check
  apply openActiveFile_brief.check
  apply members_brief.bind
  intro m
  exact (log_brief _).bind fun _ => .pure true

theorem closeActiveFile_brief : Brief closeActiveFile := by
  apply members_brief.bind
  intro m
  split
  · exact .pure true
  apply (update_brief _).bind
  intro _
  apply (Brief.call (.fs (.close m.fd))).bind
  intro ok
  cases ok with
  | false => exact refuse_brief _
  | true => exact .pure true

theorem makeArchiveName_brief : Brief makeArchiveName := by
  apply (Brief.call (.fs .clockGettime)).bind
  intro time
  cases time with
  | error => exact (log_brief _).bind fun _ => .pure ""
  | ok sec nsec => exact members_brief.bind fun m => (update_brief _).bind fun _ => .pure _

theorem rotate_brief : Brief rotate := by
  apply members_brief.bind
  intro m
  split
  · exact .pure false
  apply sync_brief.check
  apply closeActiveFile_brief.check
  apply makeArchiveName_brief.bind
  intro archive
  split
  · exact .pure false
  apply (Brief.call (.fs (.renameat _ _ _))).bind
  intro ok
  cases ok with
  | false => exact refuse_brief _
  | true =>
      apply syncDirectory_brief.check
      apply (update_brief _).bind
      intro _
      exact openActiveFile_brief.check ((log_brief _).bind fun _ => .pure true)

/-- Every write that is taken leaves less to write. -/
theorem writeAll_brief (fd : Int) (bytes : List UInt8) : Brief (writeAll fd bytes) := by
  apply Prog.Brief.iterate (fun written => bytes.length - written)
  · intro written
    rw [writeTurn]
    split
    · apply (Brief.call (.fs (.write fd _))).bind
      intro r
      cases r with
      | written count =>
          change Brief (if 0 < count then _ else _)
          split
          · exact .pure _
          · exact (log_brief _).bind fun _ => .pure _
      | eintr => exact .pure _
      | error => exact (log_brief _).bind fun _ => .pure _
    · exact Brief.pure _
  · intro written
    rw [writeTurn]
    split
    · next more =>
        intro w r v done
        have quiet := (patiently_cases done).1
        cases r with
        | written count =>
            change Prog.Answers patiently _ (if 0 < count then _ else _)
            split
            · next some =>
                intro next same
                cases same
                omega
            · exact fun _ _ _ _ _ same => by cases same
        | eintr => cases quiet
        | error => exact fun _ _ _ _ _ same => by cases same
    · exact fun _ same => by cases same

theorem syncIfDue_brief : Brief syncIfDue := by
  apply members_brief.bind
  intro m
  split
  · exact sync_brief
  · exact .pure true

theorem appendChunk_brief (frames : List UInt8) (offset : Nat) : Brief (appendChunk frames offset) := by
  have rotated : Brief rotateIfFull := by
    apply members_brief.bind
    intro m
    split
    · exact rotate_brief
    · exact .pure true
  apply rotated.check
  apply syncIfDue_brief.check
  apply members_brief.bind
  intro m
  apply (writeAll_brief _ _).check
  apply (update_brief _).bind
  intro _
  exact syncIfDue_brief.check (.pure _)

theorem destroy_brief : Brief destroy := by
  have closed : ∀ fd, Brief (closeIfOpen fd) := by
    intro fd
    rw [closeIfOpen]
    split
    · exact (Brief.call (.fs (.close fd))).bind fun _ => .pure ()
    · exact .pure ()
  apply members_brief.bind
  intro m
  exact (closed m.fd).bind fun _ => closed m.directoryFd

section

variable {L : Logic} {J : World → FileSystem → Prop} {F : World → Prop} {D : World → Prop}
  {config : FileStoreConfig} {name : String} {base start batch : List UInt8} {w : World}

/-- A batch is stored chunk by chunk, and no chunk is empty. -/
theorem appendFrames_halts (grants : Stores L J F) (allowed : ∀ v fs' part, F v → part <+: batch →
      Moment config name base (start ++ part) fs' → J v fs')
    (valid : config.Valid) (due : Due config w) (standing : Standing F config name base start w) :
    L.Halts patiently D (appendFrames batch) w := by
  intro v move keepV
  have hereV := standing.here.rely grants move
  change L.Halts patiently D (if v.store.fd = -1 then _ else _) v
  split
  · trivial
  split
  · intro _ _ _ _ _ _
    trivial
  next proper =>
  have whole : kFrameSize ∣ batch.length := by
    apply Nat.dvd_of_mod_eq_zero
    by_contra wrong
    exact proper (Or.inr wrong)
  refine ⟨fun offset u => Stored F config name base start batch offset u,
    fun offset _ => batch.length - offset, ?_, ?_⟩
  · intro u move' _
    have hereU := hereV.rely grants move'
    refine ⟨Nat.zero_le _, Nat.dvd_zero _, ?_, ?_⟩
    · intro periodic
      rw [hereU.store]
      exact due periodic
    · rw [List.take_zero, List.append_nil]
      exact standing.move hereU
  intro offset u keepU stored
  by_cases more : offset < batch.length
  · rw [appendTurn, if_pos more]
    have chunk := appendChunk_spec grants allowed keepU valid whole more stored
    refine ⟨?_, ?_, ?_⟩
    · apply Logic.halts_bind keepU
        (Logic.halts_brief patiently_exec (appendChunk_brief batch offset) chunk)
      apply Logic.wp_mono chunk
      intro next x _ _
      cases next <;> trivial
    · apply Logic.wp_seq keepU chunk
      intro next x _ result
      cases next with
      | none => exact fun _ _ _ => trivial
      | some n =>
          rcases result n rfl with ⟨_, inside, aligned, dueX, standingX⟩
          intro y move' _
          have hereY := standingX.here.rely grants move'
          refine ⟨inside, aligned, ?_, standingX.move hereY⟩
          intro periodic
          rw [hereY.store]
          exact dueX periodic
    · apply Logic.wp_seq (L := L.along patiently) keepU (Logic.wp_along patiently_exec chunk)
      intro next x _ result
      cases next with
      | none => exact fun _ _ _ _ same => by cases same
      | some n =>
          rcases result n rfl with ⟨later, _⟩
          intro y _ _ b same _
          cases same
          change batch.length - n < batch.length - offset
          omega
  · rw [appendTurn, if_neg more]
    exact ⟨trivial, fun _ _ _ => trivial, fun _ _ _ _ same => by cases same⟩

end

end TelemetryServer.Storage
