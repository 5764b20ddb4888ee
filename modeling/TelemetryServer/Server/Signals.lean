import TelemetryServer.Lib.Script
import TelemetryServer.Server.Conservation
import TelemetryServer.Server.Runs

namespace TelemetryServer.Server

open Ipc Atomic

/-- What the reads of one signal event deliver before they would block; `none` stands for a
read that was interrupted. -/
abbrev Batch := List (Option SignalInfo)

namespace Batch

def records (batch : Batch) : List SignalInfo := batch.filterMap id

def answer : Option SignalInfo → SignalResult
  | some info => .info info
  | none => .error .EINTR

def script (batch : Batch) : List SignalResult := batch.map answer ++ [.error .EAGAIN]

def asks (batch : Batch) : Bool := batch.records.any World.endsServer

end Batch

def Setup.terminates (setup : Setup) (info : SignalInfo) : Bool :=
  info.signo == World.SIGCHLD && info.pid == setup.readerPid &&
    (info.code == World.CLD_EXITED || info.code == World.CLD_KILLED ||
      info.code == World.CLD_DUMPED)

def Setup.fatal (setup : Setup) (batch : Batch) : Bool := batch.records.any setup.terminates

def Setup.signalEvent (setup : Setup) : Event :=
  { fd := setup.signalFd, events := { readable := true } }

/-- Successive signal events, up to the first that stops the server, and what the calls
returned. -/
def handleSignalEvents (setup : Setup) : Nat → Proc (List Bool)
  | 0 => return []
  | n + 1 => do
      if ← handleSignalEvent setup setup.signalEvent then
        let answers ← handleSignalEvents setup n
        return true :: answers
      else
        return [false]

/-- Draining is begun: the line `handleSignalEvent` writes as it does so. -/
def begins : Happening → Bool
  | ⟨_, .log (.cout text), _⟩ => text == "[server] entering draining state\n"
  | _ => false

def Memory.drained (m : Memory) : Memory :=
  { m with state := .draining, listenFd := -1, clients := [] }

/-- Every run of `p` beside the rest of the system whose signal reads are answered by the
script ends, and as `Q` says. -/
abbrev Feeds {α : Type} (p : Proc α) (w : World) (script : List SignalResult)
    (Q : α → World → List Happening → Prop) : Prop :=
  Prog.Fed World.exec Elsewhere .signalRead p w script Q

section Rules

variable {α β : Type} {w : World} {script more : List SignalResult}
  {Q : α → World → List Happening → Prop}

theorem feeds_pure {a : α} (post : ∀ v, v.server = w.server → Q a v []) : Feeds (pure a) w [] Q :=
  .pure a (fun v move => post v move.server)

theorem feeds_call {c : Call} {k : c.Resp → Proc α} (other : c ≠ .signalRead)
    (answered : ∀ v, ∃ r u, World.exec c v r = some u)
    (rest : ∀ v r u, v.server = w.server → World.exec c v r = some u →
      Feeds (k r) u script (fun a x events => Q a x (⟨v, c, r⟩ :: events))) :
    Feeds (Proc.call c >>= k) w script Q :=
  .call c k other (fun v _ => answered v) (fun v r u move answer => rest v r u move.server answer)

theorem feeds_memory {k : Memory → Proc α} (rest : Feeds (k w.server) w script Q) :
    Feeds (memory >>= k) w script Q := by
  apply Prog.Fed.act
  intro v move
  have trans : ∀ w v u, Elsewhere w v → Elsewhere v u → Elsewhere w u := fun _ _ _ => Elsewhere.trans
  have later := rest.front trans move
  rw [← move.server] at later
  exact later

theorem feeds_update {f : Memory → Memory} {k : Unit → Proc α}
    (rest : ∀ v, v.server = f w.server → Feeds (k ()) v script Q) :
    Feeds (update f >>= k) w script Q := by
  apply Prog.Fed.act
  intro v move
  apply rest
  change f v.server = _
  rw [move.server]

theorem feeds_bind {p : Proc β} {f : β → Proc α} {P : β → World → List Happening → Prop}
    (first : Feeds p w script P) (rest : ∀ b v events, P b v events →
      Feeds (f b) v more (fun a u later => Q a u (events ++ later))) :
    Feeds (p >>= f) w (script ++ more) Q :=
  Prog.Fed.bind Elsewhere.refl first rest

theorem feeds_seq {p : Proc β} {f : β → Proc α} {P : β → World → List Happening → Prop}
    (first : Feeds p w [] P) (rest : ∀ b v events, P b v events →
      Feeds (f b) v script (fun a u later => Q a u (events ++ later))) :
    Feeds (p >>= f) w script Q :=
  feeds_bind first rest

theorem feeds_log {line : Line} {k : Unit → Proc α}
    (rest : ∀ v u, u.server = w.server →
      Feeds (k ()) u script (fun a x events => Q a x (⟨v, .log line, ()⟩ :: events))) :
    Feeds (Proc.log line >>= k) w script Q := by
  apply feeds_call (c := .log line)
  · intro same
    cases same
  · intro v
    cases line <;> exact ⟨(), _, rfl⟩
  · intro v r u same answer
    have kept := (exec_harmless (.log line) rfl answer).1
    exact rest v u (kept.trans same)

end Rules

structure Becomes (m : Memory) (v : World) (events : List Happening) : Prop where
  server : v.server = m
  begun : events.countP begins = 0

theorem Becomes.append {m : Memory} {v : World} {first rest : List Happening}
    (before : first.countP begins = 0) (after : Becomes m v rest) : Becomes m v (first ++ rest) :=
  ⟨after.server, by rw [List.countP_append, before, after.begun]⟩

abbrev Unmoved (w v : World) (events : List Happening) : Prop := Becomes w.server v events

theorem Unmoved.append {w v u : World} {first rest : List Happening} (one : Unmoved w v first)
    (other : Unmoved v u rest) : Unmoved w u (first ++ rest) :=
  ⟨other.server.trans one.server, by rw [List.countP_append, one.begun, other.begun]⟩

section Parts

variable {w : World} {setup : Setup}

theorem plain_line {line : Line} {v : World}
    (other : line ≠ .cout "[server] entering draining state\n") :
    begins ⟨v, .log line, ()⟩ = false := by
  cases line with
  | cout text =>
      apply beq_eq_false_iff_ne.mpr
      intro same
      exact other (congrArg Line.cout same)
  | _ => rfl

theorem log_feeds {α : Type} {line : Line} {a : α}
    (other : line ≠ .cout "[server] entering draining state\n") :
    Feeds (Proc.log line >>= fun _ => pure a) w [] (fun b v events => b = a ∧ Unmoved w v events) := by
  apply feeds_log
  intro v u same
  apply feeds_pure
  intro x same'
  refine ⟨rfl, same'.trans same, ?_⟩
  rw [List.countP_singleton, plain_line other]
  rfl

theorem cerr_feeds {α : Type} {text : String} {a : α} :
    Feeds (Proc.log (.cerr text) >>= fun _ => pure a) w [] (fun b v events =>
      b = a ∧ Unmoved w v events) := by
  apply log_feeds
  intro line
  cases line

def SignalState.note (setup : Setup) (state : SignalState) (info : SignalInfo) : SignalState :=
  { shutdownRequested := state.shutdownRequested || World.endsServer info
    readerTerminated := state.readerTerminated || setup.terminates info }

namespace SignalState

variable {state : SignalState} {info : SignalInfo}

theorem note_shutdown (asked : info.signo = World.SIGINT ∨ info.signo = World.SIGTERM) :
    state.note setup info = { state with shutdownRequested := true } := by
  rcases asked with signo | signo <;>
    simp [note, Setup.terminates, World.endsServer, signo, World.SIGINT, World.SIGTERM,
      World.SIGCHLD]

theorem note_child (child : info.signo = World.SIGCHLD ∧ info.pid = setup.readerPid) :
    state.note setup info = { state with
      readerTerminated := state.readerTerminated || (info.code == World.CLD_EXITED ||
        info.code == World.CLD_KILLED || info.code == World.CLD_DUMPED) } := by
  simp [note, Setup.terminates, World.endsServer, child, World.SIGINT, World.SIGTERM,
    World.SIGCHLD]

theorem note_other (spared : ¬(info.signo = World.SIGINT ∨ info.signo = World.SIGTERM))
    (other : ¬(info.signo = World.SIGCHLD ∧ info.pid = setup.readerPid)) :
    state.note setup info = state := by
  rw [not_or] at spared
  have kept : setup.terminates info = false := by
    rw [Setup.terminates, Bool.and_eq_false_iff]
    left
    simpa using other
  have unasked : World.endsServer info = false := by
    simp [World.endsServer, spared]
  simp [note, unasked, kept]

end SignalState

theorem noteSignal_feeds (state : SignalState) (info : SignalInfo) :
    Feeds (noteSignal setup state info) w [] (fun next v events =>
      next = state.note setup info ∧ Unmoved w v events) := by
  have silent : ∀ {next}, next = state.note setup info →
      Feeds (pure next) w [] (fun next v events =>
        next = state.note setup info ∧ Unmoved w v events) :=
    fun same => feeds_pure (fun v kept => ⟨same, kept, rfl⟩)
  have cout : ∀ {text : String} {next}, next = state.note setup info →
      text ≠ "[server] entering draining state\n" →
      Feeds (Proc.log (.cout text) >>= fun _ => pure next) w [] (fun next v events =>
        next = state.note setup info ∧ Unmoved w v events) := by
    intro text next same other
    rw [← same]
    exact log_feeds (fun line => other (Line.cout.inj line))
  have cerr : ∀ {text : String} {next}, next = state.note setup info →
      Feeds (Proc.log (.cerr text) >>= fun _ => pure next) w [] (fun next v events =>
        next = state.note setup info ∧ Unmoved w v events) := by
    intro text next same
    rw [← same]
    exact cerr_feeds
  rw [noteSignal]
  split
  · next asked =>
      apply cout (SignalState.note_shutdown asked).symm
      intro same
      have text := congrArg String.toList same
      simp at text
  next spared =>
    split
    · next child =>
        have noted := @SignalState.note_child setup state info child
        split
        · next code =>
            apply cerr
            simp [noted, code]
        split
        · next code =>
            apply cerr
            simp [noted, code]
        split
        · next code =>
            apply cerr
            simp [noted, code]
        next exited killed dumped =>
          have alive : state = state.note setup info := by
            have code : (info.code == World.CLD_EXITED || info.code == World.CLD_KILLED ||
                info.code == World.CLD_DUMPED) = false := by
              simp [exited, killed, dumped]
            rw [noted, code, Bool.or_false]
          split
          · apply cout alive
            intro same
            have text := congrArg String.toList same
            simp at text
          split
          · apply cout alive
            decide
          · exact silent alive
    · next other => exact silent (SignalState.note_other spared other).symm

def SignalState.noteAll (setup : Setup) (state : SignalState) (batch : Batch) : SignalState :=
  { shutdownRequested := state.shutdownRequested || batch.asks
    readerTerminated := state.readerTerminated || setup.fatal batch }

theorem SignalState.noteAll_some (state : SignalState) (info : SignalInfo) (rest : Batch) :
    (state.note setup info).noteAll setup rest = state.noteAll setup (some info :: rest) := by
  simp [note, noteAll, Batch.asks, Setup.fatal, Batch.records, Bool.or_assoc]

theorem feeds_read {α : Type} {k : SignalResult → Proc α} {script : List SignalResult}
    {Q : α → World → List Happening → Prop} (r : SignalResult)
    (answered : ∀ v, ∃ u, World.exec .signalRead v r = some u ∧ u.server = v.server)
    (rest : ∀ v u, u.server = w.server →
      Feeds (k r) u script (fun a x events => Q a x (⟨v, .signalRead, r⟩ :: events))) :
    Feeds (Proc.call .signalRead >>= k) w (r :: script) Q := by
  apply Prog.Fed.hear
  · intro v _
    rcases answered v with ⟨u, answer, _⟩
    exact ⟨u, answer⟩
  · intro v u move answer
    rcases answered v with ⟨u', answer', kept⟩
    cases answer.symm.trans answer'
    exact rest v u (kept.trans move.server)

theorem handleSignalFd_feeds (batch : Batch) :
    Feeds (handleSignalFd setup) w batch.script (fun signals v events =>
      signals = some (SignalState.noteAll setup {} batch) ∧ Unmoved w v events) := by
  rw [handleSignalFd]
  generalize ({} : SignalState) = state
  induction batch generalizing state w with
  | nil =>
      change Feeds _ w ([SignalResult.error .EAGAIN] ++ []) _
      apply Prog.Fed.iterate Elsewhere.refl
        (P := fun x v events => x = .inr (some state) ∧ Unmoved w v events)
      · apply feeds_read
        · exact fun v => ⟨v, rfl, rfl⟩
        · intro v u same
          apply feeds_pure
          intro x same'
          exact ⟨rfl, same'.trans same, rfl⟩
      · rintro _ _ _ ⟨impossible, _⟩
        cases impossible
      · rintro _ v events ⟨⟨⟩, unmoved⟩
        apply feeds_pure
        intro u same
        refine ⟨?_, same.trans unmoved.server, ?_⟩
        · simp [SignalState.noteAll, Batch.asks, Setup.fatal, Batch.records]
        · rw [List.append_nil, unmoved.begun]
  | cons read rest ih =>
      change Feeds _ w ([Batch.answer read] ++ Batch.script rest) _
      apply Prog.Fed.iterate Elsewhere.refl
        (P := fun x v events => ∃ next, x = .inl next ∧
          next.noteAll setup rest = state.noteAll setup (read :: rest) ∧ Unmoved w v events)
      · cases read with
        | none =>
            apply feeds_read
            · exact fun v => ⟨v, rfl, rfl⟩
            · intro v u same
              apply feeds_pure
              intro x same'
              exact ⟨state, rfl, rfl, same'.trans same, rfl⟩
        | some info =>
            apply feeds_read
            · exact fun v => ⟨_, rfl, rfl⟩
            · intro v u same
              apply feeds_seq (noteSignal_feeds state info)
              rintro next x events ⟨rfl, unmoved⟩
              apply feeds_pure
              intro y same'
              refine ⟨_, rfl, SignalState.noteAll_some state info rest,
                same'.trans (unmoved.server.trans same), ?_⟩
              rw [List.append_nil, List.countP_cons, unmoved.begun]
              rfl
      · rintro next v events ⟨_, ⟨⟩, noted, unmoved⟩
        apply Prog.Fed.mono (ih next)
        rintro signals u later ⟨rfl, after⟩
        rw [noted]
        exact ⟨rfl, unmoved.append after⟩
      · rintro c v events ⟨_, impossible, _⟩
        cases impossible

theorem feeds_net {α : Type} {c : NetCall} {k : c.Resp → Proc α}
    {Q : α → World → List Happening → Prop} (answered : ∀ net, ∃ r after, c.exec net r = some after)
    (rest : ∀ v r u, u.server = w.server →
      Feeds (k r) u [] (fun a x events => Q a x (⟨v, .net c, r⟩ :: events))) :
    Feeds (Proc.call (.net c) >>= k) w [] Q := by
  apply feeds_call (c := .net c)
  · intro same
    cases same
  · intro v
    rcases answered v.net with ⟨r, net, answer⟩
    exact ⟨r, _, by rw [World.exec, answer]; rfl⟩
  · intro v r u same answer
    exact rest v r u ((exec_harmless (.net c) rfl answer).1.trans same)

theorem removeClient_feeds (fd : Int) :
    Feeds (removeClient fd) w [] (fun _ v events => Becomes (w.server.erase fd) v events) := by
  apply feeds_net (c := .epollCtl .delete fd {})
  · exact fun net => ⟨false, net, rfl⟩
  intro v _ u same
  apply feeds_net (c := .close fd)
  · exact fun net => ⟨(), net.closeFd fd, rfl⟩
  intro v' _ u' same'
  apply feeds_update
  intro x erased
  have other : Line.cout ("[server] client disconnected fd=" ++ toString fd ++ "\n") ≠
      .cout "[server] entering draining state\n" := by
    intro line
    have text := congrArg String.toList (Line.cout.inj line)
    simp at text
  have last : Feeds (Proc.log (.cout ("[server] client disconnected fd=" ++ toString fd ++ "\n")))
      x [] (fun a y events => a = () ∧ Unmoved x y events) := log_feeds (a := ()) other
  apply last.mono
  rintro _ y events ⟨_, unmoved⟩
  refine ⟨by rw [unmoved.server, erased, same', same], ?_⟩
  rw [List.countP_cons, List.countP_cons, unmoved.begun]
  rfl

theorem removeAllClients_feeds : Feeds removeAllClients w []
    (fun _ v events => Becomes { w.server with clients := [] } v events) := by
  -- one client fewer with every pass
  induction h : w.server.clients.length using Nat.strong_induction_on generalizing w with
  | h n ih =>
      change Feeds _ w ([] ++ []) _
      apply Prog.Fed.iterate Elsewhere.refl
        (P := fun x v events => match x with
          | .inl () => ∃ fd ∈ w.server.keys, Becomes (w.server.erase fd) v events
          | .inr () => Becomes { w.server with clients := [] } v events)
      · apply feeds_memory
        apply feeds_call (c := .iteration w.server.keys)
        · intro same
          cases same
        · exact fun v => ⟨w.server.keys, v, if_pos (.refl _)⟩
        · intro v order u same answer
          simp only [World.exec, Option.ite_none_right_eq_some, Option.some.injEq] at answer
          rcases answer with ⟨perm, rfl⟩
          cases order with
          | nil =>
              apply feeds_pure
              intro x same'
              have none : w.server.clients = [] := List.map_eq_nil_iff.mp perm.nil_eq.symm
              refine ⟨?_, rfl⟩
              rw [same', same, ← none]
          | cons fd rest =>
              apply feeds_seq (removeClient_feeds fd)
              intro _ x events removed
              apply feeds_pure
              intro y same'
              refine ⟨fd, perm.subset List.mem_cons_self, ?_, ?_⟩
              · rw [same', removed.server, same]
              · rw [List.append_nil, List.countP_cons, removed.begun]
                rfl
      · rintro ⟨⟩ v events ⟨fd, member, removed⟩
        have fewer : v.server.clients.length < n := by
          rcases List.mem_map.mp member with ⟨entry, inside, same⟩
          rw [removed.server, ← h]
          apply List.length_filter_lt_length_iff_exists.mpr
          exact ⟨entry, inside, by simp [same]⟩
        apply Prog.Fed.mono (ih _ fewer rfl)
        intro _ u later emptied
        rw [removed.server] at emptied
        exact emptied.append removed.begun
      · rintro ⟨⟩ v events emptied
        apply feeds_pure
        intro u same
        refine ⟨same.trans emptied.server, ?_⟩
        rw [List.append_nil, emptied.begun]

theorem beginDraining_feeds : Feeds beginDraining w [] (fun _ v events =>
    Becomes { w.server with listenFd := -1, clients := [] } v events) := by
  apply feeds_memory
  split
  · apply feeds_net (c := .epollCtl .delete w.server.listenFd {})
    · exact fun net => ⟨false, net, rfl⟩
    intro v _ u same
    apply feeds_net (c := .close w.server.listenFd)
    · exact fun net => ⟨(), net.closeFd w.server.listenFd, rfl⟩
    intro v' _ u' same'
    apply feeds_update
    intro x closed
    apply feeds_log
    intro y z same''
    apply Prog.Fed.mono removeAllClients_feeds
    intro _ a events emptied
    refine ⟨?_, ?_⟩
    · rw [emptied.server, same'', closed, same', same]
    · rw [List.countP_cons, List.countP_cons, List.countP_cons, emptied.begun]
      rfl
  · next shut =>
      have closed : w.server.listenFd = -1 := not_not.mp shut
      apply Prog.Fed.mono removeAllClients_feeds
      intro _ a events emptied
      refine ⟨?_, emptied.begun⟩
      rw [emptied.server, ← closed]

/-- What the signals of one event do to a server with memory `m`. -/
structure Reacts (m : Memory) (signals : SignalState) (ok : Bool) (v : World)
    (events : List Happening) : Prop where
  answer : ok = !signals.readerTerminated
  server : v.server = if ok = true ∧ signals.shutdownRequested = true ∧ m.state = .running then
    m.drained else m
  begun : events.countP begins =
    if ok = true ∧ signals.shutdownRequested = true ∧ m.state = .running then 1 else 0

theorem applySignals_feeds (signals : SignalState) : Feeds (applySignals signals) w []
    (fun ok v events => Reacts w.server signals ok v events) := by
  rw [applySignals]
  split
  · next gone =>
      apply Prog.Fed.mono cerr_feeds
      rintro _ v events ⟨rfl, unmoved⟩
      exact ⟨by rw [gone]; rfl, unmoved.server, unmoved.begun⟩
  next alive =>
    have ok : true = !signals.readerTerminated := by simp [alive]
    apply feeds_memory
    split
    · next asked =>
        apply feeds_log
        intro v u same
        apply feeds_update
        intro x entered
        apply feeds_seq beginDraining_feeds
        intro _ y events drained
        apply feeds_pure
        intro z same'
        refine ⟨ok, ?_, ?_⟩
        · rw [if_pos ⟨rfl, asked⟩, same', drained.server, entered, same]
          rfl
        · rw [if_pos ⟨rfl, asked⟩, List.append_nil, List.countP_cons, drained.begun]
          rfl
    · next spared =>
        apply feeds_pure
        intro v same
        refine ⟨ok, ?_, ?_⟩
        · rw [if_neg (fun all => spared all.2), same]
        · rw [if_neg (fun all => spared all.2)]
          rfl

theorem handleSignalEvent_feeds (batch : Batch) :
    Feeds (handleSignalEvent setup setup.signalEvent) w batch.script (fun ok v events =>
      Reacts w.server (SignalState.noteAll setup {} batch) ok v events) := by
  have read : Feeds (readSignals setup) w batch.script (fun ok v events =>
      Reacts w.server (SignalState.noteAll setup {} batch) ok v events) := by
    rw [← List.append_nil batch.script]
    apply feeds_bind (handleSignalFd_feeds batch)
    rintro _ v events ⟨rfl, unmoved⟩
    apply Prog.Fed.mono (applySignals_feeds _)
    intro ok u later reacts
    rw [unmoved.server] at reacts
    refine ⟨reacts.answer, reacts.server, ?_⟩
    rw [List.countP_append, unmoved.begun, Nat.zero_add, reacts.begun]
  rw [← List.append_nil batch.script]
  apply feeds_bind read
  intro ok v events reacts
  suffices ended : Feeds (pure ok) v [] (fun ok u later =>
      Reacts w.server (SignalState.noteAll setup {} batch) ok u (events ++ later)) by
    cases ok with
    | true => exact ended
    | false => exact ended
  apply feeds_pure
  intro u same
  rw [List.append_nil]
  exact ⟨reacts.answer, same.trans reacts.server, reacts.begun⟩

/-- What batches that do not tell of the reader's end leave of a server with memory `m`. -/
structure After (m : Memory) (batches : List Batch) (v : World) (events : List Happening) : Prop where
  server : v.server =
    if batches.any Batch.asks = true ∧ m.state = .running then m.drained else m
  begun : events.countP begins =
    if batches.any Batch.asks = true ∧ m.state = .running then 1 else 0

theorem After.cons {m : Memory} {batch : Batch} {rest : List Batch} {v u : World}
    {events later : List Happening}
    (reacts : Reacts m (SignalState.noteAll setup {} batch) true v events)
    (after : After v.server rest u later) : After m (batch :: rest) u (events ++ later) := by
  have shutdown : (SignalState.noteAll setup {} batch).shutdownRequested = batch.asks :=
    Bool.false_or _
  have server := reacts.server
  have begun := reacts.begun
  simp only [shutdown, true_and] at server begun
  by_cases asked : batch.asks = true ∧ m.state = .running
  · have drained : v.server.state ≠ .running := by
      rw [server, if_pos asked]
      nofun
    have now : (batch :: rest).any Batch.asks = true ∧ m.state = .running := by
      simp [asked]
    rw [if_pos asked] at server begun
    constructor
    · rw [after.server, if_neg (fun both => drained both.2), if_pos now, server]
    · rw [List.countP_append, after.begun, if_neg (fun both => drained both.2), if_pos now, begun]
  · have same : ((batch :: rest).any Batch.asks = true ∧ m.state = .running) ↔
        (rest.any Batch.asks = true ∧ m.state = .running) := by
      constructor
      · rintro ⟨some, running⟩
        rw [List.any_cons, Bool.or_eq_true] at some
        exact ⟨some.resolve_left (fun here => asked ⟨here, running⟩), running⟩
      · rintro ⟨some, running⟩
        exact ⟨by rw [List.any_cons, some, Bool.or_true], running⟩
    rw [if_neg asked] at server begun
    rw [server] at after
    constructor
    · rw [after.server]
      simp only [same]
    · rw [List.countP_append, after.begun, begun, Nat.zero_add]
      simp only [same]

theorem harmless_feeds {batches : List Batch} {n : Nat} {more : List SignalResult}
    {Q : List Bool → World → List Happening → Prop}
    (alive : ∀ batch ∈ batches, setup.fatal batch = false)
    (rest : ∀ v events, After w.server batches v events →
      Feeds (handleSignalEvents setup n) v more (fun answers u later =>
        Q (List.replicate batches.length true ++ answers) u (events ++ later))) :
    Feeds (handleSignalEvents setup (batches.length + n)) w
      (batches.flatMap Batch.script ++ more) Q := by
  induction batches generalizing w Q with
  | nil =>
      have last := rest w [] ⟨by simp, by simp⟩
      rw [List.length_nil, Nat.zero_add]
      exact last
  | cons batch batches ih =>
      have here := alive batch List.mem_cons_self
      rw [List.length_cons, Nat.add_right_comm, List.flatMap_cons, List.append_assoc]
      apply feeds_bind (handleSignalEvent_feeds batch)
      intro ok v events reacts
      have survived : ok = true := by
        rw [reacts.answer, SignalState.noteAll, here]
        rfl
      subst survived
      have others := ih (w := v) (Q := fun answers u later => Q (true :: answers) u (events ++ later))
        (fun batch member => alive batch (List.mem_cons_of_mem _ member))
        (by
          intro u later after
          have last := rest u (events ++ later) (.cons reacts after)
          simpa only [List.length_cons, List.replicate_succ, List.cons_append, List.append_assoc]
            using last)
      exact others.map (fun _ _ _ holds => holds)

end Parts

/-- What signal handling comes to, for all records in all batches. -/
structure SignalHandling (setup : Setup) : Prop where
  /-- A batch that tells of the reader's end stops the server and changes nothing. -/
  fatal : ∀ (w : World) (batch : Batch), setup.fatal batch = true →
    Feeds (handleSignalEvent setup setup.signalEvent) w batch.script (fun ok v _ =>
      ok = false ∧ v.server = w.server)
  /-- Without such a batch every call succeeds, and draining is begun once or not at all. -/
  alive : ∀ (w : World) (batches : List Batch), w.server.state = .running →
    (∀ batch ∈ batches, setup.fatal batch = false) →
    Feeds (handleSignalEvents setup batches.length) w (batches.flatMap Batch.script)
      (fun answers v events => answers = List.replicate batches.length true ∧
        (v.server.state = .draining ↔
          ∃ batch ∈ batches, ∃ info ∈ batch.records, World.endsServer info = true) ∧
        (v.server.state = .draining → v.server = w.server.drained) ∧
        events.countP begins = if v.server.state = .draining then 1 else 0)
  /-- The calls up to the first such batch succeed, and that one is the last. -/
  stopped : ∀ (w : World) (before : List Batch) (batch : Batch) (n : Nat),
    w.server.state = .running → (∀ batch ∈ before, setup.fatal batch = false) →
    setup.fatal batch = true →
    Feeds (handleSignalEvents setup (before.length + (n + 1))) w
      (before.flatMap Batch.script ++ batch.script)
      (fun answers v _ => answers = List.replicate before.length true ++ [false] ∧
        v.server = if before.any Batch.asks = true then w.server.drained else w.server)
  /-- The order of the records within a batch is of no consequence. -/
  order : ∀ (w : World) (batch batch' : Batch), batch.records.Perm batch'.records → ∃ ok m,
    Feeds (handleSignalEvent setup setup.signalEvent) w batch.script (fun answer v _ =>
      answer = ok ∧ v.server = m) ∧
    Feeds (handleSignalEvent setup setup.signalEvent) w batch'.script (fun answer v _ =>
      answer = ok ∧ v.server = m)

section Whole

variable {setup : Setup} {w : World}

theorem fatal_feeds {batch : Batch} (fatal : setup.fatal batch = true) :
    Feeds (handleSignalEvent setup setup.signalEvent) w batch.script (fun ok v _ =>
      ok = false ∧ v.server = w.server) := by
  apply (handleSignalEvent_feeds batch).mono
  intro ok v events reacts
  have gone : ok = false := by
    rw [reacts.answer, SignalState.noteAll, fatal]
    rfl
  refine ⟨gone, ?_⟩
  rw [reacts.server, gone, if_neg (fun all => Bool.false_ne_true all.1)]

theorem After.draining {batches : List Batch} {v : World} {events : List Happening}
    (running : w.server.state = .running) (after : After w.server batches v events) :
    (v.server.state = .draining ↔ batches.any Batch.asks = true) ∧
      (v.server.state = .draining → v.server = w.server.drained) ∧
      events.countP begins = if v.server.state = .draining then 1 else 0 := by
  have server := after.server
  have begun := after.begun
  simp only [running, and_true] at server begun
  by_cases asked : batches.any Batch.asks = true
  · rw [if_pos asked] at server begun
    have state : v.server.state = .draining := by rw [server]; rfl
    exact ⟨⟨fun _ => asked, fun _ => state⟩, fun _ => server, by rw [begun, if_pos state]⟩
  · rw [if_neg asked] at server begun
    have state : v.server.state ≠ .draining := by
      rw [server, running]
      nofun
    exact ⟨⟨fun now => absurd now state, fun now => absurd now asked⟩, fun now => absurd now state,
      by rw [begun, if_neg state]⟩

theorem asks_iff (batches : List Batch) : batches.any Batch.asks = true ↔
    ∃ batch ∈ batches, ∃ info ∈ batch.records, World.endsServer info = true := by
  simp only [List.any_eq_true, Batch.asks]

end Whole

theorem signals_any_order (setup : Setup) : SignalHandling setup where
  fatal := fun _ _ fatal => fatal_feeds fatal
  alive := by
    intro w batches running alive
    have calls : Feeds (handleSignalEvents setup (batches.length + 0)) w
        (batches.flatMap Batch.script ++ []) (fun answers v events =>
          answers = List.replicate batches.length true ∧ After w.server batches v events) := by
      apply harmless_feeds alive
      intro v events after
      apply feeds_pure
      intro u same
      rw [List.append_nil, List.append_nil]
      exact ⟨rfl, same.trans after.server, after.begun⟩
    rw [List.append_nil, Nat.add_zero] at calls
    apply calls.mono
    rintro answers v events ⟨all, after⟩
    have draining := after.draining running
    rw [asks_iff] at draining
    exact ⟨all, draining⟩
  stopped := by
    intro w before batch n running alive fatal
    apply harmless_feeds alive
    intro v events after
    rw [← List.append_nil batch.script]
    apply feeds_bind (fatal_feeds fatal)
    rintro _ u later ⟨rfl, same⟩
    apply feeds_pure
    intro x same'
    refine ⟨rfl, ?_⟩
    rw [same', same, after.server]
    simp only [running, and_true]
  order := by
    intro w batch batch' perm
    have same : SignalState.noteAll setup {} batch' = SignalState.noteAll setup {} batch := by
      rw [SignalState.noteAll, SignalState.noteAll, Batch.asks, Batch.asks, Setup.fatal,
        Setup.fatal, perm.any_eq, perm.any_eq]
    have determined : ∃ m, ∀ ok v events,
        Reacts w.server (SignalState.noteAll setup {} batch) ok v events →
        ok = !(SignalState.noteAll setup {} batch).readerTerminated ∧ v.server = m := by
      refine ⟨if (!(SignalState.noteAll setup {} batch).readerTerminated) = true ∧
        (SignalState.noteAll setup {} batch).shutdownRequested = true ∧
        w.server.state = .running then w.server.drained else w.server, ?_⟩
      intro ok v events reacts
      exact ⟨reacts.answer, reacts.answer ▸ reacts.server⟩
    rcases determined with ⟨m, determined⟩
    refine ⟨!(SignalState.noteAll setup {} batch).readerTerminated, m, ?_, ?_⟩
    · exact (handleSignalEvent_feeds batch).mono determined
    · apply (handleSignalEvent_feeds batch').mono
      rw [same]
      exact determined

/-- Another child has ended, a read is interrupted, and the server is told to stop. -/
def stopping : Batch :=
  [some { signo := World.SIGCHLD, pid := 9, code := World.CLD_EXITED }, none,
    some { signo := World.SIGTERM }]

def readerExits : Batch := [some { signo := World.SIGCHLD, pid := 1, code := World.CLD_EXITED }]

/-- With a client that has just sent, the first of two signal events begins draining, and the
second finds the reader ended. -/
theorem signals_any_order_stopping : ∃ q v, ServerRun machineSetup machine q v ∧ q.Calls .epollWait ∧
    v.server.keys = [7] ∧ v.server.listenFd = 5 ∧
    Feeds (handleSignalEvents machineSetup 2) v (stopping.script ++ readerExits.script)
      (fun answers u _ => answers = [true, false] ∧ u.server = v.server.drained) := by
  rcases machine_shows (visit oneCaller) 0 [(26, sends telegram)] (by
      intro stage member w v done
      rw [List.mem_singleton.mp member] at done
      exact sends_outside done) .epollWait
    (fun v => v.server.state = .running ∧ v.server.keys = [7] ∧ v.server.listenFd = 5)
    (by decide +kernel) with ⟨q, v, moment, waits, running, keys, listener⟩
  have stopped := (signals_any_order machineSetup).stopped v [stopping] readerExits 0 running
    (by decide) (by decide)
  exact ⟨q, v, moment, waits, keys, listener, stopped⟩

end TelemetryServer.Server
