import TelemetryServer.Main.Startup

namespace TelemetryServer.Main

open Config Ipc Atomic
open World (SIGINT SIGTERM SIGCHLD)
open Server (EXIT_SUCCESS EXIT_FAILURE)

/-- `main` has returned `code` without a child. -/
structure Returned (argv : List String) (code : Nat) (s : Booting) : Prop where
  closed : ∀ fd, s.eventFds fd = none
  alone : s.reader = none
  unmapped : s.ring = none ∨ .perror "munmap shared ring" ∈ s.output
  success : code = EXIT_SUCCESS ↔ (parseArguments argv {}).status = .helpRequested

/-- `main` has forked. No signal that it manages can come before it is asked for, and the two
processes share an empty ring and two eventfds of their own. -/
structure Prepared (argv : List String) (config : AppConfig) (dataReadyFd spaceReadyFd : Int)
    (readerPid : Nat) (s : Booting) : Prop where
  parsed : (parseArguments argv {}).status = .success ∧ (parseArguments argv {}).config = config
  blocked : ∀ signal ∈ [SIGINT, SIGTERM, SIGCHLD], signal ∈ s.blocked
  lineBuffered : s.lineBuffered = true
  ring : s.ring = some {}
  dataReady : s.eventFds dataReadyFd = some 0
  spaceReady : s.eventFds spaceReadyFd = some 0
  apart : dataReadyFd ≠ spaceReadyFd
  nonneg : 0 ≤ dataReadyFd ∧ 0 ≤ spaceReadyFd
  only : ∀ fd, fd ≠ dataReadyFd → fd ≠ spaceReadyFd → s.eventFds fd = none
  reader : s.reader = some readerPid

def Begun (argv : List String) : Started → Booting → Prop
  | .returned code, s => Returned argv code s
  | .forked config dataReadyFd spaceReadyFd readerPid, s =>
      Prepared argv config dataReadyFd spaceReadyFd readerPid s

abbrev bootLogic : Atomic.Logic BootCall.exec := .alone BootCall.exec

section

variable {s : Booting} {Q : Started → Booting → Prop}

theorem addSignals_spec (signals : List Nat) : bootLogic.wp (addSignals signals) (fun ok v =>
    ∃ mask, v = { s with signalMask := mask } ∧ (ok = true → mask = s.signalMask ++ signals)) s := by
  induction signals generalizing s with
  | nil => exact Logic.alone_pure ⟨s.signalMask, rfl, by simp⟩
  | cons signal signals ih =>
      apply Logic.alone_call
      intro ok u answer
      cases ok with
      | false =>
          cases answer
          exact Logic.alone_pure ⟨s.signalMask, rfl, by simp⟩
      | true =>
          cases answer
          apply Logic.wp_mono ih
          rintro ok v _ ⟨mask, rfl, added⟩
          exact ⟨mask, rfl, fun yes => by simp [added yes]⟩

theorem blockManagedSignals_spec : bootLogic.wp blockManagedSignals (fun ok v => ∃ mask blocked,
    v = { s with signalMask := mask, blocked := blocked } ∧
    (ok = true → ∀ signal ∈ [SIGINT, SIGTERM, SIGCHLD], signal ∈ blocked)) s := by
  apply Logic.alone_call
  intro ok u answer
  cases ok with
  | false =>
      cases answer
      exact Logic.alone_pure ⟨s.signalMask, s.blocked, rfl, by simp⟩
  | true =>
      cases answer
      simp only [Prog.bind, reduceIte]
      apply Logic.alone_seq (addSignals_spec _)
      rintro ok v ⟨mask, rfl, added⟩
      cases ok with
      | false => exact Logic.alone_pure ⟨mask, s.blocked, rfl, by simp⟩
      | true =>
          apply Logic.alone_call
          intro ok u answer
          cases ok with
          | false =>
              cases answer
              exact Logic.alone_pure ⟨mask, s.blocked, rfl, by simp⟩
          | true =>
              cases answer
              refine Logic.alone_pure ⟨mask, s.blocked ++ mask, rfl, fun _ signal member => ?_⟩
              rw [added rfl]
              exact List.mem_append_right _ member

theorem createRing_spec (fresh : s.ring = none) : bootLogic.wp createRing (fun ok v =>
    if ok then v = { s with ring := some {} } else ∃ output, v = { s with output := output }) s := by
  have unmapped : s.ring.isSome = false := by rw [fresh, Option.isSome_none]
  rintro _ rfl _
  refine ⟨trivial, trivial, ?_⟩
  simp only [Prog.bind, unmapped, Bool.false_eq_true, reduceIte]
  apply Logic.alone_call
  intro ok u answer
  cases ok with
  | true =>
      cases answer
      exact Logic.alone_pure rfl
  | false =>
      cases answer
      apply Logic.alone_call
      intro r u answer
      cases answer
      exact Logic.alone_pure ⟨_, rfl⟩

theorem destroyRing_spec : bootLogic.wp destroyRing (fun _ v => ∃ ring output,
    v = { s with ring := ring, output := output } ∧
    (ring = none ∨ .perror "munmap shared ring" ∈ output)) s := by
  rintro _ rfl _
  refine ⟨trivial, trivial, ?_⟩
  cases mapped : s.ring with
  | none =>
      simp only [Prog.bind, mapped, Option.isSome_none, Bool.false_eq_true, reduceIte]
      exact Logic.alone_pure ⟨s.ring, s.output, rfl, Or.inl mapped⟩
  | some layout =>
      simp only [Prog.bind, mapped, Option.isSome_some, reduceIte]
      apply Logic.alone_call
      intro ok u answer
      cases ok with
      | true =>
          cases answer
          exact Logic.alone_pure ⟨none, s.output, rfl, Or.inl rfl⟩
      | false =>
          cases answer
          apply Logic.alone_call
          intro r u answer
          cases answer
          exact Logic.alone_pure ⟨s.ring, _, rfl, Or.inr (by simp)⟩

theorem closeAll_spec (fds : List Int) : bootLogic.wp (fds.forM (fun fd => Boot.call (.close fd)))
    (fun _ v => v = { s with eventFds := fun fd => if fd ∈ fds then none else s.eventFds fd }) s := by
  induction fds generalizing s with
  | nil => exact Logic.alone_pure (by simp)
  | cons fd fds ih =>
      apply Logic.alone_call
      intro r u answer
      cases answer
      apply Logic.wp_mono ih
      rintro _ v _ rfl
      congr 1
      funext other
      by_cases there : other ∈ fds
      · simp [there]
      · simp [there, Function.update_apply]

/-- What is given back on a way out with the eventfds `fds` open. -/
theorem giveUp_spec {argv : List String} (message : String) {fds : List Int}
    (parsed : (parseArguments argv {}).status = .success) (alone : s.reader = none)
    (only : ∀ fd, fd ∉ fds → s.eventFds fd = none) : bootLogic.wp (giveUp message fds) (Begun argv) s := by
  apply Logic.alone_call
  intro r u answer
  cases answer
  apply Logic.alone_seq (closeAll_spec fds)
  rintro _ v rfl
  apply Logic.alone_seq destroyRing_spec
  rintro _ v ⟨ring, output, rfl, unmapped⟩
  apply Logic.alone_pure
  refine ⟨fun fd => ?_, alone, unmapped, ?_⟩
  · simp only [ite_eq_left_iff]
    exact only fd
  · rw [parsed]
    simp [EXIT_SUCCESS, EXIT_FAILURE]

theorem forkReader_spec {argv : List String} {config : AppConfig}
    (parsed : (parseArguments argv {}).status = .success)
    (same : (parseArguments argv {}).config = config)
    (blocked : ∀ signal ∈ [SIGINT, SIGTERM, SIGCHLD], signal ∈ s.blocked)
    (lineBuffered : s.lineBuffered = true) (ring : s.ring = some {}) (alone : s.reader = none)
    (fresh : ∀ fd, s.eventFds fd = none) : bootLogic.wp (forkReader config) (Begun argv) s := by
  apply Logic.alone_call
  intro first u answer
  cases first with
  | none =>
      cases answer
      exact giveUp_spec _ parsed alone fun fd _ => fresh fd
  | some dataReadyFd =>
      simp only [BootCall.exec, Option.ite_none_right_eq_some, Option.some.injEq] at answer
      rcases answer with ⟨⟨nonneg, _⟩, rfl⟩
      apply Logic.alone_call
      intro second u answer
      cases second with
      | none =>
          cases answer
          refine giveUp_spec _ parsed alone fun fd apart => ?_
          rw [List.mem_singleton] at apart
          exact (Function.update_of_ne apart _ _).trans (fresh fd)
      | some spaceReadyFd =>
          simp only [BootCall.exec, Option.ite_none_right_eq_some, Option.some.injEq] at answer
          rcases answer with ⟨⟨nonneg', unused⟩, rfl⟩
          have apart : spaceReadyFd ≠ dataReadyFd := by
            rintro rfl
            rw [Function.update_self] at unused
            cases unused
          have only : ∀ fd, fd ≠ dataReadyFd → fd ≠ spaceReadyFd → Function.update
              (Function.update s.eventFds dataReadyFd (some 0)) spaceReadyFd (some 0) fd = none := by
            intro fd first second
            rw [Function.update_of_ne second, Function.update_of_ne first]
            exact fresh fd
          apply Logic.alone_call
          intro pid u answer
          cases pid with
          | none =>
              cases answer
              refine giveUp_spec _ parsed alone fun fd outside => ?_
              simp only [List.mem_cons, List.not_mem_nil, or_false, not_or] at outside
              exact only fd outside.1 outside.2
          | some readerPid =>
              cases answer
              apply Logic.alone_pure
              refine ⟨⟨parsed, same⟩, blocked, lineBuffered, ring, ?_, ?_, apart.symm, ⟨nonneg, nonneg'⟩,
                only, rfl⟩
              · exact (Function.update_of_ne apart.symm _ _).trans (Function.update_self _ _ _)
              · exact Function.update_self _ _ _

theorem prepare_spec {argv : List String} (parsed : (parseArguments argv {}).status = .success) :
    bootLogic.wp (prepare (parseArguments argv {}).config) (Begun argv) { s with
      ring := none, reader := none, eventFds := fun _ => none } := by
  have failed : EXIT_FAILURE = EXIT_SUCCESS ↔ (parseArguments argv {}).status = .helpRequested := by
    rw [parsed]
    simp [EXIT_SUCCESS, EXIT_FAILURE]
  apply Logic.alone_seq blockManagedSignals_spec
  rintro ok u ⟨mask, blocked, rfl, all⟩
  cases ok with
  | false =>
      apply Logic.alone_call
      intro r u answer
      cases answer
      exact Logic.alone_pure ⟨fun _ => rfl, rfl, Or.inl rfl, failed⟩
  | true =>
      apply Logic.alone_call
      intro ok u answer
      cases ok with
      | false =>
          cases answer
          apply Logic.alone_call
          intro r u answer
          cases answer
          exact Logic.alone_pure ⟨fun _ => rfl, rfl, Or.inl rfl, failed⟩
      | true =>
          cases answer
          simp only [Prog.bind, reduceIte]
          apply Logic.alone_seq (createRing_spec rfl)
          intro ok u created
          cases ok with
          | true =>
              cases created
              exact forkReader_spec parsed rfl (all rfl) rfl rfl rfl fun _ => rfl
          | false =>
              rcases created with ⟨output, rfl⟩
              apply Logic.alone_seq destroyRing_spec
              rintro _ v ⟨ring, output, rfl, unmapped⟩
              exact Logic.alone_pure ⟨fun _ => rfl, rfl, unmapped, failed⟩

theorem startup_spec (argv : List String) : bootLogic.wp (startup argv) (Begun argv) {} := by
  apply Logic.alone_call
  intro r u answer
  cases answer
  cases status : (parseArguments argv {}).status with
  | success =>
      simp only [Prog.bind]
      exact prepare_spec (s := { output := [.cerr (parseArguments argv {}).errorOutput] }) status
  | helpRequested =>
      simp only [Prog.bind]
      apply Logic.alone_call
      intro r u answer
      cases answer
      exact Logic.alone_pure ⟨fun _ => rfl, rfl, Or.inl rfl, fun _ => status, fun _ => rfl⟩
  | error =>
      simp only [Prog.bind]
      apply Logic.alone_call
      intro r u answer
      cases answer
      refine Logic.alone_pure ⟨fun _ => rfl, rfl, Or.inl rfl, ?_⟩
      rw [status]
      simp [EXIT_SUCCESS, EXIT_FAILURE]

end

section Total

theorem BootCall.answered (call : BootCall) (s : Booting) : ∃ r t, call.exec s r = some t := by
  cases call with
  | close fd => exact ⟨(), _, rfl⟩
  | print line => exact ⟨(), _, rfl⟩
  | eventfd => exact ⟨none, _, rfl⟩
  | fork => exact ⟨none, _, rfl⟩
  | _ => exact ⟨false, _, rfl⟩

theorem total_boot {α : Type} {call : BootCall} {k : call.Resp → Boot α}
    (rest : ∀ r, Prog.Total BootCall.exec (k r)) :
    Prog.Total BootCall.exec (Boot.call call >>= k) := ⟨call.answered, rest⟩

theorem print_total (line : Line) : Prog.Total BootCall.exec (Boot.print line) :=
  ⟨BootCall.answered _, fun _ => trivial⟩

theorem addSignals_total (signals : List Nat) : Prog.Total BootCall.exec (addSignals signals) := by
  induction signals with
  | nil => trivial
  | cons signal signals ih =>
      apply total_boot
      intro ok
      cases ok with
      | false => trivial
      | true => exact ih

theorem blockManagedSignals_total : Prog.Total BootCall.exec blockManagedSignals := by
  apply total_boot
  intro ok
  cases ok with
  | false => trivial
  | true =>
      apply (addSignals_total _).bind
      intro ok
      cases ok with
      | false => trivial
      | true => exact ⟨BootCall.answered _, fun _ => trivial⟩

theorem createRing_total : Prog.Total BootCall.exec createRing := by
  intro mapped
  cases mapped with
  | true => trivial
  | false =>
      apply total_boot
      intro ok
      cases ok with
      | true => trivial
      | false => exact (print_total _).bind fun _ => trivial

theorem destroyRing_total : Prog.Total BootCall.exec destroyRing := by
  intro mapped
  cases mapped with
  | false => trivial
  | true =>
      apply total_boot
      intro ok
      cases ok with
      | true => trivial
      | false => exact print_total _

theorem closeAll_total (fds : List Int) :
    Prog.Total BootCall.exec (fds.forM (fun fd => Boot.call (.close fd))) := by
  induction fds with
  | nil => trivial
  | cons fd fds ih => exact total_boot fun _ => ih

theorem giveUp_total (message : String) (fds : List Int) :
    Prog.Total BootCall.exec (giveUp message fds) := by
  apply (print_total _).bind
  intro _
  apply (closeAll_total fds).bind
  intro _
  exact destroyRing_total.bind fun _ => trivial

theorem forkReader_total (config : AppConfig) : Prog.Total BootCall.exec (forkReader config) := by
  apply total_boot
  intro first
  cases first with
  | none => exact giveUp_total _ _
  | some dataReadyFd =>
      apply total_boot
      intro second
      cases second with
      | none => exact giveUp_total _ _
      | some spaceReadyFd =>
          apply total_boot
          intro pid
          cases pid with
          | none => exact giveUp_total _ _
          | some readerPid => trivial

theorem prepare_total (config : AppConfig) : Prog.Total BootCall.exec (prepare config) := by
  apply blockManagedSignals_total.bind
  intro ok
  cases ok with
  | false => exact (print_total _).bind fun _ => trivial
  | true =>
      apply total_boot
      intro ok
      cases ok with
      | false => exact (print_total _).bind fun _ => trivial
      | true =>
          apply createRing_total.bind
          intro ok
          cases ok with
          | false => exact destroyRing_total.bind fun _ => trivial
          | true => exact forkReader_total config

theorem startup_total (argv : List String) : Prog.Total BootCall.exec (startup argv) := by
  apply (print_total _).bind
  intro _
  cases (parseArguments argv {}).status with
  | success => exact prepare_total _
  | helpRequested => exact (print_total _).bind fun _ => trivial
  | error => exact (print_total _).bind fun _ => trivial

end Total

/-- Behind the `fork`, with the data directory as it is found and the descriptor that `signalfd`
will answer. -/
def Booting.world (s : Booting) (dataReadyFd spaceReadyFd signalFd : Int)
    (fs : Storage.FileSystem) (store : Storage.FileStore) (readerPid : Nat) : World where
  ring := s.ring.getD {}
  dataReady := (s.eventFds dataReadyFd).getD 0
  spaceReady := (s.eventFds spaceReadyFd).getD 0
  fs := fs
  store := store
  net := { fds := fun fd =>
    if fd = dataReadyFd then some .dataReady
    else if fd = spaceReadyFd then some .spaceReady
    else if fd = signalFd then some .signal
    else none }
  readerPid := readerPid

theorem Prepared.forked {argv : List String} {config : AppConfig} {handles : Handles} {s : Booting}
    {fs : Storage.FileSystem} {store : Storage.FileStore}
    (prepared : Prepared argv config handles.dataReadyFd handles.spaceReadyFd handles.readerPid s)
    (signal : 0 ≤ handles.signalFd) (unused : s.eventFds handles.signalFd = none)
    (archives : fs.archives = [])
    (unsynced : ∀ name file, fs.entries name = some file → file.unsynced = 0) :
    Forked config handles (s.world handles.dataReadyFd handles.spaceReadyFd handles.signalFd fs
      store handles.readerPid) := by
  have ring : s.ring.getD {} = {} := by rw [prepared.ring, Option.getD_some]
  have other : handles.signalFd ≠ handles.dataReadyFd ∧ handles.signalFd ≠ handles.spaceReadyFd := by
    constructor
    · intro same
      rw [same, prepared.dataReady] at unused
      cases unused
    · intro same
      rw [same, prepared.spaceReady] at unused
      cases unused
  have same : (s.world handles.dataReadyFd handles.spaceReadyFd handles.signalFd fs store
      handles.readerPid).ring = {} := ring
  exact {
    opened := by rw [same]
    unpublished := by rw [same]
    told := rfl
    clients := rfl
    accepted := rfl
    space := by simp [Booting.world, setup, prepared.apart.symm]
    signal := by simp [Booting.world, setup, other.1, other.2]
    alone := by
      intro fd c
      simp only [Booting.world]
      split_ifs <;> simp
    unwatched := fun _ _ => rfl
    orphan := fun _ _ => rfl
    nonneg := by
      intro fd there
      by_contra below
      apply there
      have apart : fd ≠ handles.dataReadyFd ∧ fd ≠ handles.spaceReadyFd ∧ fd ≠ handles.signalFd := by
        have nonneg := prepared.nonneg
        omega
      simp [Booting.world, apart.1, apart.2.1, apart.2.2]
    listener := by
      intro fd
      simp only [Booting.world]
      split_ifs <;> simp
    state := rfl
    undrained := rfl
    ring := by
      rw [same]
      exact forkedMachine_forked.ring
    child := rfl
    pid := rfl
    delivered := rfl
    spaceOwed := rfl
    archives := archives
    unsynced := unsynced }

/-- Whatever the command line is and whatever fails, `main` comes to its end or its `fork`. It
either returns, with success just when it was asked for help, with its eventfds closed, its ring
unmapped unless that has failed and no child; or it forks with its signals blocked and the world
in the state that both processes are to start in. -/
theorem startup_begins (argv : List String) : Prog.Total BootCall.exec (startup argv) ∧
    ∀ result s, Prog.Ends BootCall.exec (startup argv) {} result s → Begun argv result s ∧
      ∀ config dataReadyFd spaceReadyFd readerPid,
        result = .forked config dataReadyFd spaceReadyFd readerPid → ∀ signalFd fs store,
        0 ≤ signalFd → s.eventFds signalFd = none → fs.archives = [] →
        (∀ name file, fs.entries name = some file → file.unsynced = 0) →
        Forked config ⟨dataReadyFd, spaceReadyFd, signalFd, readerPid⟩
          (s.world dataReadyFd spaceReadyFd signalFd fs store readerPid) := by
  refine ⟨startup_total argv, fun result s run => ?_⟩
  have begun : Begun argv result s := Logic.alone_ends (startup_spec argv) run
  refine ⟨begun, ?_⟩
  rintro config dataReadyFd spaceReadyFd readerPid rfl signalFd fs store signal unused archives unsynced
  have prepared : Prepared argv config dataReadyFd spaceReadyFd readerPid s := begun
  exact prepared.forked signal unused archives unsynced

def granted (_ : Nat) : (call : BootCall) → Booting → call.Resp
  | .sigemptyset, _ | .sigaddset _, _ | .sigprocmask, _ | .setvbuf, _ | .mmap, _ | .munmap, _ => true
  | .eventfd, s => some (if s.eventFds 3 = none then 3 else 4)
  | .fork, _ => some 7
  | .close _, _ | .print _, _ => ()

def quietArguments : List String := ["telemetry-server", "--data-file", "t", "--quiet"]

theorem startup_begins_quiet : ∃ s,
    Prog.Ends BootCall.exec (startup quietArguments) {} (.forked quietConfig 3 4 7) s ∧
    Prepared quietArguments quietConfig 3 4 7 s ∧
    ∀ store, Forked quietConfig ⟨3, 4, 5, 7⟩ (s.world 3 4 5 {} store 7) := by
  have shown : ∃ s, Prog.Ends BootCall.exec (startup quietArguments) {} (.forked quietConfig 3 4 7) s ∧
      s.eventFds 5 = none := Prog.replay_ends granted 12 (by decide +kernel)
  rcases shown with ⟨s, run, unused⟩
  have begins := (startup_begins quietArguments).2 _ _ run
  exact ⟨s, run, begins.1,
    fun store => begins.2 _ _ _ _ rfl 5 {} store (by decide) unused rfl (by simp)⟩

end TelemetryServer.Main
