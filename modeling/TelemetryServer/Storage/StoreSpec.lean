import TelemetryServer.Storage.StoreView

/-! `FileStore` under any logic that leaves the directory to it. -/

namespace TelemetryServer.Storage

open Protocol Atomic Segmented

theorem exec_fs {call : FsCall} {w u : World} {r : call.Resp}
    (answer : World.exec (.fs call) w r = some u) :
    ∃ fs, call.exec w.fs r = some fs ∧ u = { w with fs := fs } := by
  simp only [World.exec, Option.map_eq_some_iff] at answer
  rcases answer with ⟨fs, done, same⟩
  exact ⟨fs, done, same.symm⟩

theorem exec_log {line : Line} {w u : World} (plain : line.plain = true)
    (answer : World.exec (.log line) w () = some u) : u = w := by
  cases line with
  | cout text => exact (Option.some.inj answer).symm
  | cerr text => exact (Option.some.inj answer).symm
  | perror text => exact (Option.some.inj answer).symm
  | received fd record => exact (Option.some.inj answer).symm
  | sharedRingFull => simp [Line.plain] at plain
  | inputBufferLimit fd => simp [Line.plain] at plain
  | invalidIpcFrame error => simp [Line.plain] at plain
  | telemetry record => simp [Line.plain] at plain

/-- A rename may only be made of a file whose written bytes are all synced. -/
def Ready (fs : FileSystem) : FsCall → Prop
  | .renameat _ source _ => ∀ file, fs.entries source = some file → file.unsynced = 0
  | _ => True

/-- What a logic grants to a store: nobody else touches the directory or the object, and
every state of the directory that `J` allows may be brought about. `F` is what the caller
knows meanwhile. -/
structure Stores (L : Logic) (J : World → FileSystem → Prop) (F : World → Prop) : Prop where
  own : ∀ {w v}, L.rely w v → v.fs = w.fs ∧ v.store = w.store
  member : ∀ {w} store, L.inv w → L.inv { w with store := store } ∧ L.guar w { w with store := store }
  file : ∀ {w fs}, L.inv w → J w fs → L.inv { w with fs := fs } ∧ L.guar w { w with fs := fs }
  call : ∀ {w} call, L.inv w → Ready w.fs call → L.pre (.fs call) w
  line : ∀ {w} line, L.inv w → line.plain = true → L.pre (.log line) w
  stable : ∀ {w v}, L.rely w v → F w → F v
  framed : ∀ {w} fs store, F w → F { w with fs := fs, store := store }

/-- Where a store stands: its directory, its members, and what its caller knows. -/
structure Here (F : World → Prop) (fs : FileSystem) (store : FileStore) (w : World) : Prop where
  fs : w.fs = fs
  store : w.store = store
  frame : F w

def Succeeds (P : World → Prop) (ok : Bool) (w : World) : Prop := ok = true → P w

theorem Succeeds.refused {P : World → Prop} (w : World) : Succeeds P false w :=
  fun wrong => absurd wrong (by simp)

section

variable {L : Logic} {J : World → FileSystem → Prop} {F : World → Prop} (grants : Stores L J F)
  {fs : FileSystem} {store : FileStore} {w : World}

include grants in
theorem Here.rely {v : World} (here : Here F fs store w) (move : L.rely w v) : Here F fs store v :=
  ⟨(grants.own move).1.trans here.fs, (grants.own move).2.trans here.store, grants.stable move here.frame⟩

include grants in
theorem pure_rule {α : Type} {a : α} {Q : α → World → Prop} (here : Here F fs store w)
    (done : ∀ v, Here F fs store v → Q a v) : L.wp (pure a) Q w :=
  fun v move _ => done v (here.rely grants move)

include grants in
theorem members_rule {α : Type} {k : FileStore → Proc α} {Q : α → World → Prop}
    (here : Here F fs store w)
    (rest : ∀ v, L.inv v → Here F fs store v → L.wp (k store) Q v) : L.wp (members >>= k) Q w := by
  intro v move keep
  have hereV := here.rely grants move
  refine ⟨keep, L.guar_refl v, ?_⟩
  have next := rest v keep hereV
  rw [← hereV.store] at next
  exact next

include grants in
theorem update_rule {α : Type} {f : FileStore → FileStore} {k : Unit → Proc α}
    {Q : α → World → Prop} (here : Here F fs store w)
    (rest : ∀ v, L.inv v → Here F fs (f store) v → L.wp (k ()) Q v) :
    L.wp (update f >>= k) Q w := by
  intro v move keep
  have hereV := here.rely grants move
  rcases grants.member (f v.store) keep with ⟨after, granted⟩
  refine ⟨after, granted, ?_⟩
  apply rest _ after
  exact ⟨hereV.fs, by rw [← hereV.store], grants.framed v.fs _ hereV.frame⟩

include grants in
theorem log_rule {α : Type} {line : Line} {k : Unit → Proc α} {Q : α → World → Prop}
    (plain : line.plain = true) (here : Here F fs store w)
    (rest : ∀ v, L.inv v → Here F fs store v → L.wp (k ()) Q v) :
    L.wp (Proc.log line >>= k) Q w := by
  intro v move keep
  refine ⟨grants.line line keep plain, ?_⟩
  intro r u answer
  have same := exec_log plain answer
  subst u
  exact ⟨keep, L.guar_refl v, rest v keep (here.rely grants move)⟩

include grants in
theorem call_rule {α : Type} (call : FsCall) {k : call.Resp → Proc α} {Q : α → World → Prop}
    (here : Here F fs store w) (ready : Ready fs call)
    (allowed : ∀ r fs', call.exec fs r = some fs' → ∀ v, F v → J v fs')
    (rest : ∀ r fs', call.exec fs r = some fs' → ∀ v, L.inv v → Here F fs' store v →
      L.wp (k r) Q v) :
    L.wp ((Proc.call (.fs call) : Proc call.Resp) >>= k) Q w := by
  intro v move keep
  have hereV := here.rely grants move
  refine ⟨grants.call call keep (by rw [hereV.fs]; exact ready), ?_⟩
  intro r u answer
  rcases exec_fs answer with ⟨fs', done, same⟩
  subst u
  rw [hereV.fs] at done
  rcases grants.file keep (allowed r fs' done v hereV.frame) with ⟨after, granted⟩
  exact ⟨after, granted, rest r fs' done _ after
    ⟨rfl, hereV.store, grants.framed _ v.store hereV.frame⟩⟩

include grants in
theorem refuse_rule {line : Line} {P : World → Prop} (plain : line.plain = true)
    (here : Here F fs store w) : L.wp (refuse line) (Succeeds P) w := by
  apply log_rule grants plain here
  intro v _ _ u _ _
  exact Succeeds.refused u

/-- An operation whose failure ends the caller as well. -/
theorem check_rule {α : Type} {p : Proc Bool} {bad : α} {rest : Proc α} {P : World → Prop}
    {Q : α → World → Prop} (keep : L.inv w) (refused : ∀ v, Q bad v)
    (first : L.wp p (Succeeds P) w) (next : ∀ v, L.inv v → P v → L.wp rest Q v) :
    L.wp (p >>= fun ok => if (!ok) = true then pure bad else rest) Q w := by
  apply Logic.wp_seq keep first
  intro ok v keepV result
  cases ok with
  | false => exact fun u _ _ => refused u
  | true => exact next v keepV (result rfl)

include grants in
theorem retrySync_spec (call : FsCall) {answer : call.Resp → SyncResult} {message : String}
    (here : Here F fs store w) (ready : Ready fs call)
    (allowed : ∀ r fs', call.exec fs r = some fs' → ∀ v, F v → J v fs')
    (failed : ∀ r fs', call.exec fs r = some fs' → answer r ≠ .ok → fs' = fs) :
    L.wp (retrySync call answer message) (Succeeds (fun v =>
      ∃ r fs', call.exec fs r = some fs' ∧ answer r = .ok ∧ Here F fs' store v)) w := by
  apply Logic.wp_iterate (fun _ v => Here F fs store v)
  · intro v move _
    exact here.rely grants move
  intro _ v keep hereV
  apply call_rule grants call hereV ready allowed
  intro r fs' done u _ hereU
  cases status : answer r with
  | ok =>
      apply pure_rule grants hereU
      intro x hereX _
      exact ⟨r, fs', done, status, hereX⟩
  | eintr =>
      apply pure_rule grants hereU
      intro x hereX
      have same := failed r fs' done (by simp [status])
      subst same
      exact hereX
  | error =>
      apply log_rule grants rfl hereU
      intro x _ _ y _ _
      exact Succeeds.refused y

include grants in
theorem sync_spec {name : String} {file : File} (here : Here F fs store w)
    (opened : fs.fds store.fd = some (.file name)) (entry : fs.entries name = some file)
    (allowed : ∀ v, F v → J v fs ∧ J v (fs.setFile name { file with unsynced := 0 })) :
    L.wp sync (Succeeds (Here F (fs.setFile name { file with unsynced := 0 })
      { store with unsyncedBytes := 0 })) w := by
  apply members_rule grants here
  intro v keep hereV
  split
  · apply pure_rule grants hereV
    intro u _
    exact Succeeds.refused u
  have found : fs.opened store.fd = some (name, file) := by
    simp [FileSystem.opened, opened, entry]
  have outcome : ∀ r fs', FsCall.exec (.fdatasync store.fd) fs r = some fs' →
      (r = .ok ∧ fs' = fs.setFile name { file with unsynced := 0 }) ∨ (r ≠ .ok ∧ fs' = fs) := by
    intro r fs' done
    cases r <;> simp_all [FsCall.exec]
  apply Logic.wp_seq keep (retrySync_spec grants (.fdatasync store.fd) hereV trivial ?_ ?_)
  · intro ok u keepU result
    cases ok with
    | false =>
        intro x _ _
        exact Succeeds.refused x
    | true =>
        rcases result rfl with ⟨r, fs', done, status, hereU⟩
        rcases outcome r fs' done with ⟨_, same⟩ | ⟨wrong, _⟩
        · subst same
          apply update_rule grants hereU
          intro x _ hereX
          apply pure_rule grants hereX
          intro y hereY _
          exact hereY
        · exact absurd status wrong
  · intro r fs' done x frame
    rcases outcome r fs' done with ⟨_, same⟩ | ⟨_, same⟩
    · rw [same]
      exact (allowed x frame).2
    · rw [same]
      exact (allowed x frame).1
  · intro r fs' done wrong
    rcases outcome r fs' done with ⟨right, _⟩ | ⟨_, same⟩
    · exact absurd right wrong
    · exact same

include grants in
theorem syncDirectory_spec (here : Here F fs store w) (allowed : ∀ v, F v → J v fs) :
    L.wp syncDirectory (Succeeds (Here F fs store)) w := by
  apply members_rule grants here
  intro v keep hereV
  split
  · apply pure_rule grants hereV
    intro u _
    exact Succeeds.refused u
  have outcome : ∀ r fs', FsCall.exec (.fsync store.directoryFd) fs r = some fs' → fs' = fs := by
    intro r fs' done
    exact (Option.some.inj done).symm
  apply Logic.wp_mono (retrySync_spec grants (.fsync store.directoryFd) hereV trivial ?_ ?_)
  · intro ok u _ result yes
    rcases result yes with ⟨r, fs', done, _, hereU⟩
    rw [outcome r fs' done] at hereU
    exact hereU
  · intro r fs' done x frame
    rw [outcome r fs' done]
    exact allowed x frame
  · intro r fs' done _
    exact outcome r fs' done

theorem cut_take (data : List UInt8) :
    data.take (data.length - data.length % kFrameSize) = Blocks.cut kFrameSize data := by
  have size : data.length - data.length % kFrameSize = kFrameSize * (data.length / kFrameSize) := by
    simp only [kFrameSize]
    omega
  rw [size, Blocks.cut]

section Reopen

variable {original : FileSystem} {name : String} {file : File}
  (allowed : ∀ v fs', F v → Reopening original name fs' → J v fs')

include grants allowed in
theorem truncatePartialTail_spec (here : Here F fs store w)
    (opened : fs.fds store.fd = some (.file name)) (entry : fs.entries name = some file)
    (clean : file.unsynced = 0) (counted : store.unsyncedBytes = 0)
    (reopening : Reopening original name fs) (same : file.data = original.data name) :
    L.wp (truncatePartialTail store.fd file.data.length) (Succeeds
      (Here F (fs.setFile name { file with data := Blocks.cut kFrameSize file.data }) store)) w := by
  rw [truncatePartialTail]
  by_cases whole : file.data.length % kFrameSize = 0
  · simp only [whole, ne_eq, not_true_eq_false, if_false]
    apply pure_rule grants here
    intro v hereV _
    have all : Blocks.cut kFrameSize file.data = file.data :=
      Blocks.cut_eq_self (Nat.dvd_of_mod_eq_zero whole)
    rw [all, FileSystem.setFile_self entry]
    exact hereV
  simp only [whole, ne_eq, not_false_eq_true, if_true]
  have shorter : Reopening original name
      (fs.setFile name { file with data := Blocks.cut kFrameSize file.data }) :=
    reopening.setFile (Or.inr (by rw [same])) clean
  have found : fs.opened store.fd = some (name, file) := by
    simp [FileSystem.opened, opened, entry]
  have outcome : ∀ r fs', FsCall.exec (.ftruncate store.fd
      (file.data.length - file.data.length % kFrameSize)) fs r = some fs' →
      r = true ∧ fs' = fs.setFile name { file with data := Blocks.cut kFrameSize file.data } ∨
      r = false ∧ fs' = fs := by
    intro r fs' done
    cases r with
    | false => exact Or.inr ⟨rfl, (Option.some.inj done).symm⟩
    | true =>
        simp only [FsCall.exec, found, cut_take] at done
        exact Or.inl ⟨rfl, (Option.some.inj done).symm⟩
  apply log_rule grants rfl here
  intro v _ hereV
  apply call_rule grants (.ftruncate store.fd _) hereV trivial
  · intro r fs' done u frame
    rcases outcome r fs' done with ⟨_, cut⟩ | ⟨_, left⟩
    · rw [cut]
      exact allowed u _ frame shorter
    · rw [left]
      exact allowed u _ frame reopening
  intro r fs' done u keep hereU
  rcases outcome r fs' done with ⟨yes, cut⟩ | ⟨no, left⟩
  · subst yes
    subst cut
    have synced := sync_spec grants hereU opened (Function.update_self _ _ _) (fun x frame =>
      ⟨allowed x _ frame shorter, allowed x _ frame (shorter.setFile (Or.inr (by rw [same])) rfl)⟩)
    apply Logic.wp_mono synced
    intro ok x _ result yes
    have last := result yes
    rw [FileSystem.setFile_setFile] at last
    rw [clean]
    cases store with
    | mk => exact counted ▸ last
  · subst no
    exact refuse_rule grants rfl hereU

include grants allowed in
theorem recoverPartialFrame_spec (here : Here F fs store w)
    (opened : fs.fds store.fd = some (.file name)) (entry : fs.entries name = some file)
    (clean : file.unsynced = 0) (counted : store.unsyncedBytes = 0)
    (reopening : Reopening original name fs) (same : file.data = original.data name) :
    L.wp recoverPartialFrame (Succeeds (fun v => file.data.length ≤ FileSystem.maxFileBytes ∧
      Here F (fs.setFile name { file with data := Blocks.cut kFrameSize file.data })
        { store with currentSize := (Blocks.cut kFrameSize file.data).length } v)) w := by
  apply members_rule grants here
  intro v keep hereV
  have found : fs.opened store.fd = some (name, file) := by
    simp [FileSystem.opened, opened, entry]
  have outcome : ∀ r fs', FsCall.exec (.fstat store.fd) fs r = some fs' → fs' = fs ∧
      ∀ size regular, r = .ok size regular →
        size = file.data.length ∧ file.data.length ≤ FileSystem.maxFileBytes := by
    intro r fs' done
    cases r with
    | ok size regular =>
        simp only [FsCall.exec, found] at done
        split at done
        · next facts =>
            refine ⟨(Option.some.inj done).symm, ?_⟩
            intro size' regular' equal
            cases equal
            exact ⟨facts.1.symm, by omega⟩
        · simp at done
    | error => exact ⟨(Option.some.inj done).symm, by intro _ _ wrong; cases wrong⟩
  apply call_rule grants (.fstat store.fd) hereV trivial
  · intro r fs' done x frame
    rw [(outcome r fs' done).1]
    exact allowed x fs frame reopening
  intro r fs' done u keepU hereU
  rcases outcome r fs' done with ⟨unchanged, facts⟩
  rw [unchanged] at hereU
  cases r with
  | error => exact refuse_rule grants rfl hereU
  | ok size regular =>
      rcases facts size regular rfl with ⟨length, bound⟩
      subst length
      cases regular with
      | false => exact refuse_rule grants rfl hereU
      | true =>
          apply check_rule keepU Succeeds.refused
            (truncatePartialTail_spec grants allowed hereU opened entry clean counted reopening same)
          intro x _ hereX
          apply update_rule grants hereX
          intro y _ hereY
          apply pure_rule grants hereY
          intro z hereZ _
          have size : file.data.length - file.data.length % kFrameSize =
              (Blocks.cut kFrameSize file.data).length := by
            rw [Blocks.cut_length]
            simp only [kFrameSize]
            omega
          rw [size] at hereZ
          exact ⟨bound, hereZ⟩

end Reopen

structure Reopened (F : World → Prop) (fs : FileSystem) (store : FileStore) (fd : Int) (file : File)
    (w : World) : Prop where
  valid : 0 ≤ fd
  clean : file.unsynced = 0
  here : Here F ((fs.setFile store.fileName file).openAs fd (.file store.fileName))
    { store with fd := fd } w

theorem openCreate_cases {r : OpenResult} {fs fs' : FileSystem} {directoryFd : Int} {name : String}
    (done : FsCall.exec (.openCreate directoryFd name) fs r = some fs') :
    (∃ fd, r = .ok fd ∧ 0 ≤ fd ∧ fs.entries name = none ∧
      fs' = (fs.setFile name {}).openAs fd (.file name)) ∨
    (r = .eexist ∧ fs' = fs) ∨ (r = .error ∧ fs' = fs) := by
  cases r with
  | ok fd =>
      simp only [FsCall.exec] at done
      split at done
      · next facts => exact Or.inl ⟨fd, rfl, facts.1, facts.2.2, (Option.some.inj done).symm⟩
      · simp at done
  | eexist =>
      simp only [FsCall.exec] at done
      split at done
      · exact Or.inr (Or.inl ⟨rfl, (Option.some.inj done).symm⟩)
      · simp at done
  | error => exact Or.inr (Or.inr ⟨rfl, (Option.some.inj done).symm⟩)

theorem openExisting_cases {r : OpenResult} {fs fs' : FileSystem} {directoryFd : Int} {name : String}
    (done : FsCall.exec (.openExisting directoryFd name) fs r = some fs') :
    (∃ fd file, r = .ok fd ∧ 0 ≤ fd ∧ fs.entries name = some file ∧
      fs' = fs.openAs fd (.file name)) ∨
    ((∀ fd, r ≠ .ok fd) ∧ fs' = fs) := by
  cases r with
  | ok fd =>
      simp only [FsCall.exec] at done
      split at done
      · next facts =>
          rcases Option.isSome_iff_exists.mp facts.2.2 with ⟨file, entry⟩
          exact Or.inl ⟨fd, file, rfl, facts.1, entry, (Option.some.inj done).symm⟩
      · simp at done
  | eexist => simp [FsCall.exec] at done
  | error => exact Or.inr ⟨fun fd wrong => (by cases wrong), (Option.some.inj done).symm⟩

include grants in
theorem openAppend_spec (here : Here F fs store w)
    (clean : ∀ file, fs.entries store.fileName = some file → file.unsynced = 0)
    (allowed : ∀ v fs', F v → Reopening fs store.fileName fs' → J v fs') :
    L.wp openAppend (fun created v => created ≠ none → ∃ fd file, file.data = fs.data store.fileName ∧
      Reopened F fs store fd file v) w := by
  have start : Reopening fs store.fileName fs := .refl clean
  apply members_rule grants here
  intro v keep hereV
  apply call_rule grants (.openCreate store.directoryFd store.fileName) hereV trivial
  · intro r fs' done u frame
    rcases openCreate_cases done with ⟨fd, _, _, none, same⟩ | ⟨_, same⟩ | ⟨_, same⟩
    · rw [same]
      apply allowed u _ frame
      exact (start.setFile (Or.inl (by simp [FileSystem.data, none])) rfl).openAs _ _
    · rw [same]
      exact allowed u _ frame start
    · rw [same]
      exact allowed u _ frame start
  intro r fs' done u keepU hereU
  rcases openCreate_cases done with ⟨fd, rfl, valid, none, rfl⟩ | ⟨rfl, rfl⟩ | ⟨rfl, rfl⟩
  · apply update_rule grants hereU
    intro x _ hereX
    apply pure_rule grants hereX
    intro y hereY _
    exact ⟨fd, {}, by simp [FileSystem.data, none], valid, rfl, hereY⟩
  · apply call_rule grants (.openExisting store.directoryFd store.fileName) hereU trivial
    · intro r fs'' done' x frame
      rcases openExisting_cases done' with ⟨fd, _, _, _, _, same⟩ | ⟨_, same⟩
      · rw [same]
        exact allowed x _ frame (start.openAs _ _)
      · rw [same]
        exact allowed x _ frame start
    intro r fs'' done' x _ hereX
    rcases openExisting_cases done' with ⟨fd, file, rfl, valid, entry, rfl⟩ | ⟨failed, rfl⟩
    · apply update_rule grants hereX
      intro y _ hereY
      apply pure_rule grants hereY
      intro z hereZ _
      refine ⟨fd, file, by simp [FileSystem.data, entry], valid, clean file entry, ?_⟩
      rw [FileSystem.setFile_self entry]
      exact hereZ
    · cases r with
      | ok fd => exact absurd rfl (failed fd)
      | eexist =>
          apply update_rule grants hereX
          intro y _ hereY
          apply log_rule grants rfl hereY
          intro z _ hereZ a _ _ wrong
          exact absurd rfl wrong
      | error =>
          apply update_rule grants hereX
          intro y _ hereY
          apply log_rule grants rfl hereY
          intro z _ hereZ a _ _ wrong
          exact absurd rfl wrong
  · apply update_rule grants hereU
    intro y _ hereY
    apply log_rule grants rfl hereY
    intro z _ hereZ a _ _ wrong
    exact absurd rfl wrong

/-- What a successful `openActiveFile` leaves: the complete frames of the file. -/
def Recovered (F : World → Prop) (fs : FileSystem) (store : FileStore) (w : World) : Prop :=
  ∃ fd file, 0 ≤ fd ∧ file.unsynced = 0 ∧
    file.data = Blocks.cut kFrameSize (fs.data store.fileName) ∧
    file.data.length ≤ FileSystem.maxFileBytes ∧
    Here F ((fs.setFile store.fileName file).openAs fd (.file store.fileName))
      { store with fd := fd, currentSize := file.data.length } w

include grants in
theorem openActiveFile_spec (here : Here F fs store w) (keep : L.inv w)
    (clean : ∀ file, fs.entries store.fileName = some file → file.unsynced = 0)
    (counted : store.unsyncedBytes = 0)
    (allowed : ∀ v fs', F v → Reopening fs store.fileName fs' → J v fs') :
    L.wp openActiveFile (Succeeds (Recovered F fs store)) w := by
  have recover : ∀ fd file v, file.data = fs.data store.fileName → Reopened F fs store fd file v →
      L.wp recoverPartialFrame (Succeeds (Recovered F fs store)) v := by
    intro fd file v same opened
    have reopening : Reopening fs store.fileName
        ((fs.setFile store.fileName file).openAs fd (.file store.fileName)) :=
      ((Reopening.refl clean).setFile (Or.inl same) opened.clean).openAs _ _
    have found : ((fs.setFile store.fileName file).openAs fd
        (.file store.fileName)).entries store.fileName = some file := Function.update_self _ _ _
    apply Logic.wp_mono (recoverPartialFrame_spec grants allowed opened.here
      (Function.update_self _ _ _) found opened.clean counted reopening same)
    intro ok u _ result yes
    rcases result yes with ⟨bound, last⟩
    rw [FileSystem.setFile_openAs] at last
    refine ⟨fd, { file with data := Blocks.cut kFrameSize file.data }, opened.valid, opened.clean,
      by rw [← same], ?_, last⟩
    exact (List.length_take_le' _ _).trans bound
  apply Logic.wp_seq keep (openAppend_spec grants here clean allowed)
  intro created v keepV result
  cases created with
  | none =>
      intro u _ _
      exact Succeeds.refused u
  | some fresh =>
      rcases result (by simp) with ⟨fd, file, same, opened⟩
      cases fresh with
      | false => exact recover fd file v same opened
      | true =>
          have synced := syncDirectory_spec grants opened.here (fun u frame =>
            allowed u _ frame (((Reopening.refl clean).setFile (Or.inl same) opened.clean).openAs _ _))
          apply Logic.wp_seq (p := syncDirectory) keepV synced
          intro ok u _ hereU
          cases ok with
          | false =>
              intro x _ _
              exact Succeeds.refused x
          | true => exact recover fd file u same ⟨opened.valid, opened.clean, hereU rfl⟩

include grants in
theorem validateConfig_spec (here : Here F fs store w) :
    L.wp validateConfig (Succeeds (fun v => store.config.Valid ∧ Here F fs store v)) w := by
  apply members_rule grants here
  intro v _ hereV
  split
  · exact refuse_rule grants rfl hereV
  next room =>
  split
  · exact refuse_rule grants rfl hereV
  next whole =>
  split
  · exact refuse_rule grants rfl hereV
  next interval =>
  apply pure_rule grants hereV
  intro u hereU _
  refine ⟨⟨by omega, Nat.dvd_of_mod_eq_zero (by simpa using whole), ?_⟩, hereU⟩
  by_contra long
  exact interval ⟨by omega, by omega⟩

def FileStore.inDirectory (store : FileStore) (path : String) (fd : Int) : FileStore :=
  { store with
    directoryPath := if (parentPath path).isEmpty then "." else parentPath path
    fileName := pathFilename path
    directoryFd := fd }

theorem openDirectory_cases {r : OpenResult} {fs fs' : FileSystem} {path : String}
    (done : FsCall.exec (.openDirectory path) fs r = some fs') :
    (∃ fd, r = .ok fd ∧ 0 ≤ fd ∧ fs' = fs.openAs fd .directory) ∨ (r = .error ∧ fs' = fs) := by
  cases r with
  | ok fd =>
      simp only [FsCall.exec] at done
      split at done
      · next facts => exact Or.inl ⟨fd, rfl, facts.1, (Option.some.inj done).symm⟩
      · simp at done
  | eexist => simp [FsCall.exec] at done
  | error => exact Or.inr ⟨rfl, (Option.some.inj done).symm⟩

include grants in
theorem openDirectory_spec {path : String} (here : Here F fs store w)
    (allowed : ∀ v fd, F v → J v fs ∧ J v (fs.openAs fd .directory)) :
    L.wp (openDirectory path) (Succeeds (fun v => ∃ fd, fd ≠ -1 ∧
      Here F (fs.openAs fd .directory) (store.inDirectory path fd) v)) w := by
  rw [openDirectory]
  split
  · exact refuse_rule grants rfl here
  apply update_rule grants here
  intro v _ hereV
  apply call_rule grants (.openDirectory _) hereV trivial
  · intro r fs' done u frame
    rcases openDirectory_cases done with ⟨fd, _, _, same⟩ | ⟨_, same⟩
    · rw [same]
      exact (allowed u fd frame).2
    · rw [same]
      exact (allowed u 0 frame).1
  intro r fs' done u _ hereU
  rcases openDirectory_cases done with ⟨fd, rfl, valid, rfl⟩ | ⟨rfl, rfl⟩
  · apply update_rule grants hereU
    intro x _ hereX
    apply pure_rule grants hereX
    intro y hereY _
    exact ⟨fd, by omega, hereY⟩
  · apply update_rule grants hereU
    intro x _ hereX
    exact refuse_rule grants rfl hereX

def Opened (F : World → Prop) (fs : FileSystem) (store : FileStore) (path : String) (w : World) :
    Prop :=
  store.config.Valid ∧ ∃ fd, fd ≠ -1 ∧
    Recovered F (fs.openAs fd .directory) (store.inDirectory path fd) w

include grants in
theorem openFile_spec (path : String) (here : Here F fs store w)
    (clean : ∀ file, fs.entries (pathFilename path) = some file → file.unsynced = 0)
    (counted : store.unsyncedBytes = 0)
    (allowed : ∀ v fs', F v → Reopening fs (pathFilename path) fs' → J v fs') :
    L.wp (openFile path) (Succeeds (Opened F fs store path)) w := by
  have start : Reopening fs (pathFilename path) fs := .refl clean
  apply members_rule grants here
  intro v keepV hereV
  split
  · exact refuse_rule grants rfl hereV
  apply check_rule keepV Succeeds.refused (validateConfig_spec grants hereV)
  rintro a keepA ⟨valid, hereA⟩
  apply check_rule keepA Succeeds.refused (openDirectory_spec grants hereA (fun x fd frame =>
    ⟨allowed x _ frame start, allowed x _ frame (start.openAs fd _)⟩))
  rintro b keepB ⟨fd, opened, hereB⟩
  apply check_rule keepB Succeeds.refused (openActiveFile_spec grants hereB keepB clean counted
    (fun x fs' frame reopening => allowed x _ frame reopening.of_openAs))
  intro c keepC recovered
  rcases recovered with ⟨active, file, facts⟩
  apply members_rule grants facts.2.2.2.2
  intro d _ hereD
  apply log_rule grants rfl hereD
  intro e _ hereE
  apply pure_rule grants hereE
  intro f hereF _
  exact ⟨valid, fd, opened, active, file, facts.1, facts.2.1, facts.2.2.1, facts.2.2.2.1, hereF⟩

end

end TelemetryServer.Storage
