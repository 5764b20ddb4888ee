import TelemetryServer.Bench.TelemetryLoad
import TelemetryServer.Lib.Halting
import TelemetryServer.Lib.Replay
import TelemetryServer.Protocol.CodecSpec

namespace TelemetryServer.Bench

open Protocol Atomic

theorem batch_length (sent count : Nat) : (batch sent count).length = count := by
  simp [batch]

theorem batch_append (sent a b : Nat) : batch sent (a + b) = batch sent a ++ batch (sent + a) b := by
  simp only [batch, List.range_add, List.map_append, List.map_map, Function.comp_def, Nat.add_assoc]

theorem batch_take (sent : Nat) {a b : Nat} (le : a ≤ b) : (batch sent b).take a = batch sent a := by
  have split : b = a + (b - a) := by omega
  rw [split, batch_append]
  exact List.take_left' (batch_length sent a)

theorem batch_valid (sent count : Nat) : ∀ frame ∈ batch sent count, frame.Valid := by
  intro frame member
  simp only [batch, List.mem_map] at member
  rcases member with ⟨i, _, rfl⟩
  exact encode_ok _

/-- What has been sent is the front of all there is to send, and all of it once the stream has
been ended. -/
structure Sound (all : List UInt8) (s : Socket) : Prop where
  inside : s.sent <+: all
  finished : s.fin = true → s.sent = all

theorem Sound.fresh (all : List UInt8) : Sound all {} := ⟨List.nil_prefix, nofun⟩

def loadPre (all : List UInt8) : LoadCall → Socket → Prop
  | .send fd bytes, s => s.fd = some fd ∧ bytes ≠ [] ∧ s.sent ++ bytes <+: all
  | .shutdown fd, s => s.fd = some fd ∧ s.sent = all
  | .close fd, s => s.fd = some fd
  | _, _ => True

def loadLogic (all : List UInt8) : Logic LoadCall.exec where
  inv := Sound all
  rely := Eq
  guar := fun _ _ => True
  pre := loadPre all
  rely_refl := fun _ => rfl
  rely_trans := Eq.trans
  rely_inv := fun same sound => same ▸ sound
  guar_refl := fun _ => trivial

structure Linked (fd : Int) (s : Socket) : Prop where
  fd : s.fd = some fd
  unfinished : s.fin = false

section

variable {all : List UInt8} {α : Type} {Q : α → Socket → Prop} {s : Socket} {o : Options} {fd : Int}

theorem pure_rule {a : α} (done : Q a s) : (loadLogic all).wp (pure a) Q s := by
  rintro _ rfl _
  exact done

theorem call_rule {call : LoadCall} {k : call.Resp → Load α} (before : loadPre all call s)
    (answers : ∀ r u, call.exec s r = some u → Sound all u ∧ (loadLogic all).wp (k r) Q u) :
    (loadLogic all).wp (Load.call call >>= k) Q s := by
  rintro _ rfl _
  exact ⟨before, fun r u answer => ⟨(answers r u answer).1, trivial, (answers r u answer).2⟩⟩

theorem print_rule {output : Output} {k : Unit → Load α} (keep : Sound all s)
    (rest : (loadLogic all).wp (k ()) Q s) : (loadLogic all).wp (Load.print output >>= k) Q s := by
  apply call_rule
  · trivial
  intro r u answer
  cases answer
  exact ⟨keep, rest⟩

theorem sendAll_spec {old data : List UInt8} (linked : Linked fd s) (start : s.sent = old)
    (inside : old ++ data <+: all) :
    (loadLogic all).wp (sendAll fd data) (fun ok u => Linked fd u ∧ (ok = true → u.sent = old ++ data))
      s := by
  apply Logic.wp_iterate (fun offset u => Linked fd u ∧ offset ≤ data.length ∧
    u.sent = old ++ data.take offset)
  · rintro _ rfl _
    exact ⟨linked, Nat.zero_le _, by simpa using start⟩
  intro offset t keep here
  by_cases more : offset < data.length
  · simp only [if_pos more]
    have taken : t.sent ++ data.drop offset = old ++ data := by
      rw [here.2.2, List.append_assoc, List.take_append_drop]
    have some : data.drop offset ≠ [] := by simpa using more
    apply call_rule
    · exact ⟨here.1.fd, some, by rwa [taken]⟩
    intro r u answer
    cases r with
    | sent count =>
        simp only [LoadCall.exec, Option.ite_none_right_eq_some, Option.some.injEq] at answer
        rcases answer with ⟨⟨_, _, _, low⟩, rfl⟩
        have grown : t.sent ++ (data.drop offset).take count = old ++ data.take (offset + count) := by
          rw [here.2.2, List.append_assoc, ← List.take_add]
        have front : old ++ data.take (offset + count) <+: old ++ data :=
          (List.prefix_append_right_inj old).mpr (List.take_prefix _ _)
        have sound : Sound all { t with sent := t.sent ++ (data.drop offset).take count } := by
          refine ⟨?_, ?_⟩
          · rw [grown]
            exact front.trans inside
          · intro ended
            rw [here.1.unfinished] at ended
            cases ended
        rw [List.length_drop] at low
        refine ⟨sound, ?_⟩
        change (loadLogic all).wp (if 0 < count then _ else _) _ _
        split
        · exact pure_rule ⟨⟨here.1.fd, here.1.unfinished⟩, by omega, grown⟩
        · apply print_rule sound
          exact pure_rule ⟨⟨here.1.fd, here.1.unfinished⟩, by simp⟩
    | eintr =>
        cases answer
        exact ⟨keep, pure_rule here⟩
    | error =>
        cases answer
        refine ⟨keep, ?_⟩
        apply print_rule keep
        exact pure_rule ⟨here.1, by simp⟩
  · simp only [if_neg more]
    have done : offset = data.length := by omega
    exact pure_rule ⟨here.1, fun _ => by rw [here.2.2, done, List.take_length]⟩

theorem sendFrames_spec (linked : Linked fd s) (start : s.sent = []) :
    (loadLogic (bytesOf (batch 0 o.frames))).wp (sendFrames o fd) (fun done u => Linked fd u ∧
      ∀ sent, done = some sent → sent = o.frames ∧ u.sent = bytesOf (batch 0 o.frames)) s := by
  apply Logic.wp_iterate (fun sent u => Linked fd u ∧ sent ≤ o.frames ∧
    u.sent = bytesOf (batch 0 sent))
  · rintro _ rfl _
    exact ⟨linked, Nat.zero_le _, start⟩
  intro sent t keep here
  by_cases more : sent < o.frames
  · simp only [if_pos more]
    have fits : sent + min o.batchFrames (o.frames - sent) ≤ o.frames := by omega
    have joined : bytesOf (batch 0 sent) ++ bytesOf (batch sent (min o.batchFrames (o.frames - sent))) =
        bytesOf (batch 0 (sent + min o.batchFrames (o.frames - sent))) := by
      rw [← bytesOf_append, batch_append, Nat.zero_add]
    have inside : bytesOf (batch 0 sent) ++
        bytesOf (batch sent (min o.batchFrames (o.frames - sent))) <+: bytesOf (batch 0 o.frames) := by
      rw [joined, ← batch_take 0 fits]
      conv_rhs => rw [← List.take_append_drop (sent + min o.batchFrames (o.frames - sent))
        (batch 0 o.frames), bytesOf_append]
      exact List.prefix_append _ _
    apply Logic.wp_seq keep (sendAll_spec here.1 here.2.2 inside)
    intro ok u _ result
    cases ok with
    | false => exact pure_rule ⟨result.1, by simp⟩
    | true => exact pure_rule ⟨result.1, fits, by rw [result.2 rfl, joined]⟩
  · simp only [if_neg more]
    have done : sent = o.frames := by omega
    exact pure_rule ⟨here.1, by simp [here.2.2, done]⟩

/-- How the sender ends: its socket is closed, and it reports success just when it has ended the
stream. -/
structure Left (code : Nat) (s : Socket) : Prop where
  closed : s.fd = none
  success : code = EXIT_SUCCESS ↔ s.fin = true

theorem giveUp_spec (keep : Sound all s) (linked : Linked fd s) :
    (loadLogic all).wp (giveUp fd) Left s := by
  apply call_rule
  · exact linked.fd
  intro r u answer
  simp only [LoadCall.exec, if_pos linked.fd, Option.some.injEq] at answer
  rw [← answer]
  refine ⟨⟨keep.inside, keep.finished⟩, pure_rule ⟨rfl, ?_⟩⟩
  simp [linked.unfinished, EXIT_FAILURE, EXIT_SUCCESS]

theorem transmit_spec (keep : Sound (bytesOf (batch 0 o.frames)) s) (linked : Linked fd s)
    (start : s.sent = []) :
    (loadLogic (bytesOf (batch 0 o.frames))).wp (transmit o fd) Left s := by
  apply Logic.wp_seq keep (sendFrames_spec linked start)
  intro done t keepT result
  cases done with
  | none => exact giveUp_spec keepT result.1
  | some sent =>
      have all := (result.2 sent rfl).2
      apply call_rule
      · exact ⟨result.1.fd, all⟩
      intro ended u answer
      cases ended with
      | true =>
          simp only [LoadCall.exec, if_pos result.1.fd, Option.some.injEq] at answer
          rw [← answer]
          refine ⟨⟨keepT.inside, fun _ => all⟩, ?_⟩
          apply call_rule
          · exact result.1.fd
          intro r x closed
          simp only [LoadCall.exec, if_pos result.1.fd, Option.some.injEq] at closed
          rw [← closed]
          have last : Sound (bytesOf (batch 0 o.frames))
              { port := t.port, sent := t.sent, fin := true } := ⟨keepT.inside, fun _ => all⟩
          exact ⟨last, print_rule last (pure_rule ⟨rfl, by simp⟩)⟩
      | false =>
          cases answer
          exact ⟨keepT, print_rule keepT (giveUp_spec keepT result.1)⟩

theorem load_spec : (loadLogic (bytesOf (batch 0 o.frames))).wp (load o) Left {} := by
  have fresh := Sound.fresh (bytesOf (batch 0 o.frames))
  apply call_rule
  · trivial
  intro opened t answer
  cases opened with
  | none =>
      cases answer
      exact ⟨fresh, print_rule fresh (pure_rule ⟨rfl, by simp [EXIT_FAILURE, EXIT_SUCCESS]⟩)⟩
  | some fd =>
      simp only [LoadCall.exec, Option.ite_none_right_eq_some, Option.some.injEq] at answer
      rw [← answer.2]
      refine ⟨⟨List.nil_prefix, nofun⟩, ?_⟩
      apply call_rule
      · trivial
      intro connected u answer
      cases connected with
      | true =>
          simp only [LoadCall.exec, if_true, Option.some.injEq] at answer
          rw [← answer]
          exact ⟨⟨List.nil_prefix, nofun⟩, transmit_spec ⟨List.nil_prefix, nofun⟩ ⟨rfl, rfl⟩ rfl⟩
      | false =>
          cases answer
          exact ⟨⟨List.nil_prefix, nofun⟩,
            print_rule ⟨List.nil_prefix, nofun⟩ (giveUp_spec ⟨List.nil_prefix, nofun⟩ ⟨rfl, rfl⟩)⟩

end

/-- Every answer but that a `send` was interrupted. -/
def LoadCall.patiently : (call : LoadCall) → Socket → call.Resp → Option Socket
  | .send _ _, _, .eintr => none
  | call, s, r => call.exec s r

theorem LoadCall.patiently_exec {call : LoadCall} {s t : Socket} {r : call.Resp}
    (answer : call.patiently s r = some t) : call.exec s r = some t := by
  cases call with
  | send fd bytes =>
      cases r with
      | eintr => cases answer
      | _ => exact answer
  | _ => exact answer

theorem LoadCall.answered (call : LoadCall) (s : Socket) : ∃ r t, call.patiently s r = some t := by
  cases call with
  | socket => exact ⟨none, s, rfl⟩
  | connect fd port => exact ⟨false, s, rfl⟩
  | send fd bytes => exact ⟨.error, s, rfl⟩
  | shutdown fd => exact ⟨false, s, rfl⟩
  | close fd =>
      by_cases there : s.fd = some fd
      · exact ⟨(), { s with fd := none }, if_pos there⟩
      · exact ⟨(), s, if_neg there⟩
  | print output => exact ⟨(), s, rfl⟩

abbrev Ending {α : Type} (p : Load α) : Prop := Prog.Brief LoadCall.exec LoadCall.patiently p

theorem call_ending (call : LoadCall) : Ending (Load.call call) := fun _ _ _ _ => trivial

theorem sendAll_ending (fd : Int) (data : List UInt8) : Ending (sendAll fd data) := by
  apply Prog.Brief.iterate (fun offset => data.length - offset)
  · intro offset
    split
    · apply (call_ending (.send fd _)).bind
      intro r
      cases r with
      | sent count =>
          change Ending (if 0 < count then _ else _)
          split
          · trivial
          · exact (call_ending (.print _)).bind fun _ => trivial
      | eintr => trivial
      | error => exact (call_ending (.print _)).bind fun _ => trivial
    · trivial
  · intro offset
    split
    · next more =>
        intro s r t answer
        cases r with
        | sent count =>
            change Prog.Answers LoadCall.patiently _ (if 0 < count then _ else _)
            split
            · next some =>
                intro next same
                cases same
                omega
            · exact fun _ _ _ _ _ same => nomatch same
        | eintr => cases answer
        | error => exact fun _ _ _ _ _ same => nomatch same
    · exact fun _ same => nomatch same

theorem sendFrames_ending {o : Options} (positive : 1 ≤ o.batchFrames) (fd : Int) :
    Ending (sendFrames o fd) := by
  apply Prog.Brief.iterate (fun sent => o.frames - sent)
  · intro sent
    split
    · apply (sendAll_ending fd _).bind
      intro ok
      cases ok with
      | false => trivial
      | true => trivial
    · trivial
  · intro sent
    split
    · apply Prog.Answers.bind
      intro ok
      cases ok with
      | false => exact fun _ same => nomatch same
      | true =>
          intro next same
          cases same
          omega
    · exact fun _ same => nomatch same

theorem load_ending {o : Options} (positive : 1 ≤ o.batchFrames) : Ending (load o) := by
  have gave : ∀ fd, Ending (giveUp fd) := fun fd => (call_ending (.close fd)).bind fun _ => trivial
  apply (call_ending .socket).bind
  intro opened
  cases opened with
  | none => exact (call_ending (.print _)).bind fun _ => trivial
  | some fd =>
      apply (call_ending (.connect fd o.port)).bind
      intro connected
      cases connected with
      | false => exact (call_ending (.print _)).bind fun _ => gave fd
      | true =>
          apply (sendFrames_ending positive fd).bind
          intro done
          cases done with
          | none => exact gave fd
          | some sent =>
              apply (call_ending (.shutdown fd)).bind
              intro ended
              cases ended with
              | false => exact (call_ending (.print _)).bind fun _ => gave fd
              | true =>
                  apply (call_ending (.close fd)).bind
                  intro _
                  exact (call_ending (.print _)).bind fun _ => trivial

theorem parseFrom_inBounds {arguments : List String} {start o : Options}
    (accepted : parseFrom start arguments = .accepted o) : o.inBounds = true := by
  fun_induction parseFrom start arguments with
  | case1 start sound =>
      cases accepted
      exact sound
  | _ => simp_all

theorem main_reached {argv : List String} {o : Options} {q : Load Nat} {s : Socket}
    (accepted : parseOptions argv = .accepted o)
    (run : Prog.Reach LoadCall.exec (fun _ _ => False) (main argv) {} q s) :
    Sound (bytesOf (batch 0 o.frames)) s ∧ ∀ code, q = .pure code → Left code s := by
  have same : main argv = load o := by rw [main, accepted]
  rw [same] at run
  have here := Logic.wp_reach (L := loadLogic (bytesOf (batch 0 o.frames)))
    (.fresh _) load_spec (fun impossible => impossible.elim) run
  refine ⟨here.1, ?_⟩
  rintro code rfl
  exact Logic.wp_post here.1 here.2

/-- At every moment of every run the sender has sent the front of its frames, in order and each once,
however short and however often interrupted the sends are. It ends the stream behind the last of
them, and reports success just then. It is bound to return if it is not interrupted any more. -/
theorem load_sends {argv : List String} {o : Options} {q : Load Nat} {s : Socket}
    (accepted : parseOptions argv = .accepted o)
    (run : Prog.Reach LoadCall.exec (fun _ _ => False) (main argv) {} q s) :
    Sound (bytesOf (batch 0 o.frames)) s ∧ (∀ code, q = .pure code → Left code s) ∧
    Prog.Settles LoadCall.patiently Eq Left q s := by
  have reached := main_reached accepted run
  refine ⟨reached.1, reached.2, ?_⟩
  have same : main argv = load o := by rw [main, accepted]
  rw [same] at run
  have bounds := parseFrom_inBounds accepted
  simp only [Options.inBounds, Bool.and_eq_true, decide_eq_true_eq] at bounds
  have start : (loadLogic (bytesOf (batch 0 o.frames))).Halts LoadCall.patiently (fun _ => True)
      (load o) {} :=
    Logic.halts_brief LoadCall.patiently_exec (load_ending bounds.1.1.2) load_spec
  have here := Logic.wp_reach (L := loadLogic (bytesOf (batch 0 o.frames))) (.fresh _) load_spec
    False.elim run
  have halts := Logic.halts_reach (L := loadLogic (bytesOf (batch 0 o.frames))) False.elim
    (.fresh _) load_spec start run
  apply (halts.settles (C := fun _ => True) LoadCall.patiently_exec (fun _ => rfl) id id
    (fun _ => id) (fun _ => id) (fun _ _ _ => LoadCall.answered _ _) here.1
    (Logic.wp_along LoadCall.patiently_exec here.2) trivial).mono
  exact fun _ _ result => result.1

/-- No `send` takes more than twenty bytes. -/
def haltingly (_ : Nat) : (call : LoadCall) → Socket → call.Resp
  | .socket, _ => some 3
  | .connect _ _, _ => true
  | .send _ bytes, _ => .sent (min 20 bytes.length)
  | .shutdown _, _ => true
  | .close _, _ => ()
  | .print _, _ => ()

/-- The `send` before the last `left` steps is interrupted. -/
def interrupted (left n : Nat) : (call : LoadCall) → Socket → call.Resp
  | .send fd bytes, s => if n = left then .eintr else haltingly n (.send fd bytes) s
  | call, s => haltingly n call s

def twoFrames : List String := ["telemetry-load", "--frames", "2", "--batch-frames", "1"]

/-- The rest of the first record is sent after an interruption. -/
theorem load_sends_twoFrames :
    (∃ q s, Prog.Reach LoadCall.exec (fun _ _ => False) (main twoFrames) {} q s ∧
      q.Calls (.send 3 ((bytesOf (batch 0 1)).drop 20)) ∧ s.sent = (bytesOf (batch 0 1)).take 20 ∧
      Prog.Settles LoadCall.patiently Eq Left q s) ∧
    ∃ s, Prog.Reach LoadCall.exec (fun _ _ => False) (main twoFrames) {} (.pure EXIT_SUCCESS) s ∧
      s.sent = bytesOf (batch 0 2) := by
  have accepted : parseOptions twoFrames = .accepted { frames := 2, batchFrames := 1 } := by
    decide +kernel
  constructor
  · have retries : ∃ q s, Prog.Reach LoadCall.exec (fun _ _ => False) (main twoFrames) {} q s ∧
        q.Calls (.send 3 ((bytesOf (batch 0 1)).drop 20)) ∧
        s.sent = (bytesOf (batch 0 1)).take 20 :=
      Prog.session_shows (interrupted 1) 8
        (fun stage (none : stage ∈ ([] : List (Nat × (Socket → Option Socket)))) => by cases none)
        (by decide +kernel)
    rcases retries with ⟨q, s, run, calls, sent⟩
    exact ⟨q, s, run, calls, sent, (load_sends accepted run).2.2⟩
  · have ends : ∃ s, Prog.Reach LoadCall.exec (fun _ _ => False) (main twoFrames) {}
        (.pure EXIT_SUCCESS) s ∧ s.fd = none :=
      Prog.replay_ends (interrupted 13) 20 (by decide +kernel)
    rcases ends with ⟨s, run, _⟩
    have here := load_sends accepted run
    exact ⟨s, run, here.1.finished ((here.2.1 _ rfl).success.mp rfl)⟩

end TelemetryServer.Bench
