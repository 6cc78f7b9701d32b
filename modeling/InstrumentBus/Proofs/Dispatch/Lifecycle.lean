import Mathlib
import InstrumentBus.Proofs.Dispatch.Deadlines
import InstrumentBus.Proofs.Dispatch.Ending

/-!
# The life of a bus

As long as the dispatcher gets a turn again and again, everything that came in is handled, unless the
command to end is taken before (`exists_all_handled`). With the accounts of what came in and what was
handled, with what is known of deadlines and with what happens at the end, this is `run_order`.
-/

namespace InstrumentBus

/-- The first actions of a schedule. -/
def upTo (f : Nat → Action) (n : Nat) : List Action := (List.range n).map f

/-- The dispatcher gets a turn again and again. -/
def Fair (f : Nat → Action) : Prop := ∀ n, ∃ m ≥ n, f m = .advance

theorem upTo_succ (f : Nat → Action) (n : Nat) : upTo f (n + 1) = upTo f n ++ [f n] := by
  unfold upTo
  rw [List.range_succ, List.map_append]
  rfl

theorem upTo_isPrefix (f : Nat → Action) {m n : Nat} (h : m ≤ n) : upTo f m <+: upTo f n := by
  induction h with
  | refl => exact List.prefix_rfl
  | step _ ih =>
    rw [upTo_succ]
    exact ih.trans (List.prefix_append _ _)

namespace Dispatcher

variable {config : BusConfig} {as bs : List Action} {f : Nat → Action} {m n : Nat}

/-! ## Logs grow -/

theorem logFrom_isPrefix {α : Type} (g : Dispatcher → Action → List α) (d : Dispatcher)
    (h : as <+: bs) : logFrom g d as <+: logFrom g d bs := by
  obtain ⟨rest, rfl⟩ := h
  rw [logFrom_append]
  exact List.prefix_append _ _

theorem allCommands_isPrefix (config : BusConfig) (h : as <+: bs) :
    allCommands config as <+: allCommands config bs :=
  (List.prefix_append_right_inj _).mpr (logFrom_isPrefix _ _ h)

theorem allMessages_isPrefix (config : BusConfig) (h : as <+: bs) :
    allMessages config as <+: allMessages config bs :=
  (List.prefix_append_right_inj _).mpr (logFrom_isPrefix _ _ h)

/-- What was handled came in before. -/
theorem Accounted.isPrefix_arrived {arrived handled sent heeded : List Envelope} {d : Dispatcher}
    (h : d.Accounted arrived handled sent heeded) : handled <+: arrived := by
  cases hover : d.phase.isOver with
  | false =>
    rw [h.arrived_eq hover]
    exact List.prefix_append _ _
  | true =>
    obtain ⟨e, rest, harrived, -⟩ := h.arrived_over hover
    rw [harrived]
    exact List.prefix_append _ _

/-! ## Turns -/

/-- The state after the first actions of a schedule that follows on `as`. -/
def after (config : BusConfig) (as : List Action) (f : Nat → Action) (n : Nat) : Dispatcher :=
  run config (as ++ upTo f n)

/-- How many commands are handled by then, -/
def commandCount (config : BusConfig) (as : List Action) (f : Nat → Action) (n : Nat) : Nat :=
  (handledCommands config (as ++ upTo f n)).length

/-- and how many envelopes of backends. -/
def messageCount (config : BusConfig) (as : List Action) (f : Nat → Action) (n : Nat) : Nat :=
  (handledMessages config (as ++ upTo f n)).length

theorem counts_le (config : BusConfig) (as : List Action) (f : Nat → Action) (h : m ≤ n) :
    commandCount config as f m ≤ commandCount config as f n ∧
      messageCount config as f m ≤ messageCount config as f n := by
  have hbegins : as ++ upTo f m <+: as ++ upTo f n :=
    (List.prefix_append_right_inj as).mpr (upTo_isPrefix f h)
  exact ⟨(logFrom_isPrefix _ _ hbegins).length_le, (logFrom_isPrefix _ _ hbegins).length_le⟩

theorem after_succ (config : BusConfig) (as : List Action) (f : Nat → Action) (n : Nat) :
    after config as f (n + 1) = (after config as f n).act (f n) := by
  unfold after
  rw [upTo_succ, ← List.append_assoc, run_append]
  rfl

theorem counts_succ (config : BusConfig) (as : List Action) (f : Nat → Action) (n : Nat) :
    commandCount config as f (n + 1) = commandCount config as f n +
        ((after config as f n).commandsHandled (f n)).length ∧
      messageCount config as f (n + 1) = messageCount config as f n +
        ((after config as f n).messagesHandled (f n)).length := by
  unfold commandCount messageCount handledCommands handledMessages
  rw [upTo_succ, ← List.append_assoc, logFrom_concat, logFrom_concat, List.length_append,
    List.length_append]
  exact ⟨rfl, rfl⟩

/-- The next turn of the dispatcher comes, and finds it where it was. -/
theorem exists_turn (hf : Fair f) (config : BusConfig) (as : List Action) (n : Nat) :
    ∃ m ≥ n, f m = .advance ∧ (after config as f m).phase = (after config as f n).phase := by
  obtain ⟨last, hle, hlast⟩ := hf n
  -- on how far away some turn is, which need not be the first one
  obtain ⟨k, rfl⟩ := Nat.exists_eq_add_of_le hle
  induction k generalizing n with
  | zero => exact ⟨n, le_rfl, hlast, rfl⟩
  | succ k ih =>
    by_cases hnow : f n = .advance
    · exact ⟨n, le_rfl, hnow, rfl⟩
    · have hlater : f (n + 1 + k) = .advance := by
        rw [Nat.add_right_comm, Nat.add_assoc]
        exact hlast
      obtain ⟨m, hm, hturn, hphase⟩ := ih (n + 1) (by omega) hlater
      refine ⟨m, by omega, hturn, ?_⟩
      rw [hphase, after_succ, phase_act hnow]

/-- The next turn of the dispatcher and what it has done by then. -/
theorem exists_advance (hf : Fair f) (config : BusConfig) (as : List Action) (n : Nat) :
    ∃ m ≥ n, (after config as f m).phase = (after config as f n).phase ∧
      after config as f (m + 1) = (after config as f m).advance ∧
      commandCount config as f n + ((after config as f m).commandsHandled .advance).length ≤
        commandCount config as f (m + 1) ∧
      messageCount config as f n + ((after config as f m).messagesHandled .advance).length ≤
        messageCount config as f (m + 1) := by
  obtain ⟨m, hm, hturn, hphase⟩ := exists_turn hf config as n
  obtain ⟨hcommands, hmessages⟩ := counts_le config as f hm
  obtain ⟨hcommand, hmessage⟩ := counts_succ config as f m
  have hafter := after_succ config as f m
  rw [hturn] at hcommand hmessage hafter
  exact ⟨m, hm, hphase, hafter, by omega, by omega⟩

/-! ## What was taken is handled -/

section Steps

variable {d : Dispatcher} {e : Envelope} {es : List Envelope}

theorem advance_of_awake (h : d.phase = .awake) :
    d.advance = ⟨d.bus.takeBackend.2, .backends d.bus.backend.items⟩ := by
  obtain ⟨b, phase⟩ := d
  obtain rfl : phase = .awake := h
  rfl

theorem advance_of_backends (h : d.phase = .backends (e :: es)) :
    d.messagesHandled .advance = [e] ∧ d.advance = ⟨d.bus.handleBackend e, .backends es⟩ := by
  obtain ⟨b, phase⟩ := d
  obtain rfl : phase = .backends (e :: es) := h
  exact ⟨rfl, rfl⟩

theorem advance_of_backends_nil (h : d.phase = .backends []) :
    d.advance = ⟨d.bus.takeCommands.2, .commands d.bus.commands.items⟩ := by
  obtain ⟨b, phase⟩ := d
  obtain rfl : phase = .backends [] := h
  rfl

theorem phase_advance_of_commands_nil (h : d.phase = .commands []) : d.advance.phase = .resting := by
  obtain ⟨b, phase⟩ := d
  obtain rfl : phase = .commands [] := h
  rfl

theorem phase_advance_of_resting (h : d.phase = .resting) : d.advance.phase = .awake := by
  obtain ⟨b, phase⟩ := d
  obtain rfl : phase = .resting := h
  rfl

end Steps

/-- Envelopes of backends that were taken are handled, -/
theorem exists_backends_nil (hf : Fair f) {es : List Envelope} {n : Nat}
    (hphase : (after config as f n).phase = .backends es) :
    ∃ m ≥ n, (after config as f m).phase = .backends [] ∧
      messageCount config as f n + es.length ≤ messageCount config as f m := by
  induction es generalizing n with
  | nil => exact ⟨n, le_rfl, hphase, le_rfl⟩
  | cons e es ih =>
    obtain ⟨m, hm, hsame, hafter, -, hcount⟩ := exists_advance hf config as n
    obtain ⟨hhandled, hadvance⟩ := advance_of_backends (hsame.trans hphase)
    have hnext : (after config as f (m + 1)).phase = .backends es := by
      rw [hafter, hadvance]
    obtain ⟨last, hlast, hnil, hrest⟩ := ih hnext
    rw [hhandled, List.length_singleton] at hcount
    refine ⟨last, by omega, hnil, ?_⟩
    rw [List.length_cons]
    omega

/-- and so are commands, up to the command to end. -/
theorem exists_commands_nil (hf : Fair f) {es : List Envelope} {n : Nat}
    (hphase : (after config as f n).phase = .commands es) :
    ∃ m ≥ n, (after config as f m).phase.isOver = true ∨
      (after config as f m).phase = .commands [] ∧
        commandCount config as f n + es.length ≤ commandCount config as f m := by
  induction es generalizing n with
  | nil => exact ⟨n, le_rfl, Or.inr ⟨hphase, le_rfl⟩⟩
  | cons e es ih =>
    obtain ⟨m, hm, hsame, hafter, hcount, -⟩ := exists_advance hf config as n
    have hphase := hsame.trans hphase
    by_cases he : e.topic = .finalize
    · refine ⟨m + 1, by omega, Or.inl ?_⟩
      rw [hafter, advance_of_finalize hphase he]
      rfl
    · have hnext : (after config as f (m + 1)).phase = .commands es := by
        rw [hafter, advance_of_commands hphase he]
      rw [commandsHandled_of_commands hphase he, List.length_singleton] at hcount
      obtain ⟨last, hlast, hover | ⟨hnil, hrest⟩⟩ := ih hnext
      · exact ⟨last, by omega, Or.inl hover⟩
      · refine ⟨last, by omega, Or.inr ⟨hnil, ?_⟩⟩
        rw [List.length_cons]
        omega

/-- A new round begins, unless it is over. -/
theorem exists_awake (hf : Fair f) (config : BusConfig) (as : List Action) (n : Nat) :
    ∃ m ≥ n, (after config as f m).phase.isOver = true ∨ (after config as f m).phase = .awake := by
  have hresting : ∀ n, (after config as f n).phase = .resting →
      ∃ m ≥ n, (after config as f m).phase = .awake := by
    intro n hphase
    obtain ⟨m, hm, hsame, hafter, -⟩ := exists_advance hf config as n
    refine ⟨m + 1, by omega, ?_⟩
    rw [hafter]
    exact phase_advance_of_resting (hsame.trans hphase)
  have hcommands : ∀ n es, (after config as f n).phase = .commands es →
      ∃ m ≥ n, (after config as f m).phase.isOver = true ∨ (after config as f m).phase = .awake := by
    intro n es hphase
    obtain ⟨m, hm, hover | ⟨hnil, -⟩⟩ := exists_commands_nil hf hphase
    · exact ⟨m, hm, Or.inl hover⟩
    · obtain ⟨m', hm', hsame, hafter, -⟩ := exists_advance hf config as m
      have hrests := phase_advance_of_commands_nil (hsame.trans hnil)
      rw [← hafter] at hrests
      obtain ⟨last, hlast, hawake⟩ := hresting _ hrests
      exact ⟨last, by omega, Or.inr hawake⟩
  cases hphase : (after config as f n).phase with
  | awake => exact ⟨n, le_rfl, Or.inr hphase⟩
  | backends es =>
    obtain ⟨m, hm, hnil, -⟩ := exists_backends_nil hf hphase
    obtain ⟨m', hm', hsame, hafter, -⟩ := exists_advance hf config as m
    have htaken : (after config as f (m' + 1)).phase =
        .commands (after config as f m').bus.commands.items := by
      rw [hafter, advance_of_backends_nil (hsame.trans hnil)]
    obtain ⟨last, hlast, hdone⟩ := hcommands _ _ htaken
    exact ⟨last, by omega, hdone⟩
  | commands es => exact hcommands n es hphase
  | resting =>
    obtain ⟨m, hm, hawake⟩ := hresting n hphase
    exact ⟨m, hm, Or.inr hawake⟩
  | ending | closing | ended =>
    refine ⟨n, le_rfl, Or.inl ?_⟩
    rw [hphase]
    rfl

/-- When the envelopes of backends were just taken, they and what was handled are all that came in. -/
theorem length_allMessages_of_awake (hphase : (after config as f m).phase = .awake)
    (hafter : after config as f (m + 1) = (after config as f m).advance) :
    (allMessages config as).length ≤
      messageCount config as f (m + 1) + (after config as f m).bus.backend.items.length := by
  have haccounted := accounted_run config (as ++ upTo f (m + 1))
  have hstate : run config (as ++ upTo f (m + 1)) = _ := hafter.trans (advance_of_awake hphase)
  have hsent := haccounted.sent_eq (by rw [hstate]; exact nofun)
  have hahead : (run config (as ++ upTo f (m + 1))).messagesAhead =
      (after config as f m).bus.backend.items := by
    rw [hstate]
    exact List.append_nil _
  rw [hahead] at hsent
  have hlength := congrArg List.length hsent
  rw [List.length_append] at hlength
  have hle := (allMessages_isPrefix config (List.prefix_append as (upTo f (m + 1)))).length_le
  show _ ≤ (handledMessages config (as ++ upTo f (m + 1))).length + _
  omega

/-- The same for commands. -/
theorem length_allCommands_of_backends_nil (hphase : (after config as f m).phase = .backends [])
    (hafter : after config as f (m + 1) = (after config as f m).advance) :
    (allCommands config as).length ≤
      commandCount config as f (m + 1) + (after config as f m).bus.commands.items.length := by
  have haccounted := accounted_run config (as ++ upTo f (m + 1))
  have hstate : run config (as ++ upTo f (m + 1)) = _ := hafter.trans (advance_of_backends_nil hphase)
  have harrived := haccounted.arrived_eq (by rw [hstate]; rfl)
  have hahead : (run config (as ++ upTo f (m + 1))).commandsAhead =
      (after config as f m).bus.commands.items := by
    rw [hstate]
    exact List.append_nil _
  rw [hahead] at harrived
  have hlength := congrArg List.length harrived
  rw [List.length_append] at hlength
  have hle := (allCommands_isPrefix config (List.prefix_append as (upTo f (m + 1)))).length_le
  show _ ≤ (handledCommands config (as ++ upTo f (m + 1))).length + _
  omega

/-- All that came in is handled, unless it is over before. -/
theorem exists_all_handled (hf : Fair f) (config : BusConfig) (as : List Action) :
    ∃ n, (run config (as ++ upTo f n)).phase.isOver = true ∨
      allCommands config as <+: handledCommands config (as ++ upTo f n) ∧
      allMessages config as <+: handledMessages config (as ++ upTo f n) := by
  obtain ⟨n, -, hover | hawake⟩ := exists_awake hf config as 0
  · exact ⟨n, Or.inl hover⟩
  -- a new round: first the envelopes of backends,
  obtain ⟨m, -, hsame, hafter, -⟩ := exists_advance hf config as n
  have hmessages := length_allMessages_of_awake (hsame.trans hawake) hafter
  have htaken : (after config as f (m + 1)).phase =
      .backends (after config as f m).bus.backend.items := by
    rw [hafter, advance_of_awake (hsame.trans hawake)]
  obtain ⟨n, -, hnil, hcount⟩ := exists_backends_nil hf htaken
  -- then the commands
  obtain ⟨m, hm, hsame, hafter, -⟩ := exists_advance hf config as n
  have hcommands := length_allCommands_of_backends_nil (hsame.trans hnil) hafter
  have htaken : (after config as f (m + 1)).phase =
      .commands (after config as f m).bus.commands.items := by
    rw [hafter, advance_of_backends_nil (hsame.trans hnil)]
  obtain ⟨last, hlast, hover | ⟨-, hcount'⟩⟩ := exists_commands_nil hf htaken
  · exact ⟨last, Or.inl hover⟩
  -- both logs begin like what came in, so it is enough that they are long enough
  have haccounted := accounted_run config (as ++ upTo f last)
  have hlater := (counts_le config as f (show n ≤ last by omega)).2
  refine ⟨last, Or.inr ⟨?_, ?_⟩⟩
  · exact List.prefix_of_prefix_length_le (allCommands_isPrefix config (List.prefix_append _ _))
      haccounted.isPrefix_arrived (hcommands.trans hcount')
  · exact List.prefix_of_prefix_length_le (allMessages_isPrefix config (List.prefix_append _ _))
      haccounted.isPrefix_sent ((hmessages.trans hcount).trans hlater)

/-! ## The whole life -/

/-- In every state of every run, and whatever happens after it:

* Both logs are in order. What was handled of each queue is what came into it, in the same order, up
  to what the dispatcher has in its hands or still finds in the queue; nothing is handled from the
  first command to end on.
* Nothing is left behind: if the dispatcher gets a turn again and again, all that has come in by now
  is handled at some time, unless the command to end is taken before.
* Deadlines are looked at only when nothing is left of what was taken. Until then a call goes on
  waiting, unless an envelope for its topic is handled, and if it is the only one that waits on its
  topic, a return code from outside is its outcome, and stays so.
* Once the command to end is the next one, nothing is handled and no one is called any more, and
  three steps of the dispatcher bring the bus down.
* All calls that travel then are aborted, and those that come later are refused or aborted.
* When the bus is down, all that it had is given up, and so it stays. -/
theorem run_order (config : BusConfig) (as bs : List Action) :
    let d := run config as
    let later := d.runFrom bs
    (d.Accounted (allCommands config as) (handledCommands config as)
        (allMessages config as) (handledMessages config as) ∧
      (∀ e ∈ d.commandsHandled .advance, d.advance.bus = d.bus.handleCommand e) ∧
      ∀ e ∈ d.messagesHandled .advance, d.advance.bus = d.bus.handleBackend e) ∧
    (∀ f, Fair f → ∃ n, (run config (as ++ upTo f n)).phase.isOver = true ∨
      allCommands config as <+: handledCommands config (as ++ upTo f n) ∧
      allMessages config as <+: handledMessages config (as ++ upTo f n)) ∧
    (∀ a, d.deadlineChecks a ≠ [] → d.phase.commandsLeft ++ d.phase.backendsLeft = []) ∧
    (∀ call ∈ d.bus.calls.pending.waiting,
      (later.phase.isOver = false → logFrom deadlineChecks d bs = [] →
        (∀ e ∈ logFrom handles d bs, call.topic ≠ (e.topic.withSuffix .returnCode).text) →
        call ∈ later.bus.calls.pending.waiting) ∧
      ∀ e ∈ d.handles .advance, ∀ code, e.topic.text = call.topic → e.value = .i32 code →
        (∀ other ∈ d.bus.calls.pending.waiting, other.topic = call.topic → other = call) →
        (d.advance.runFrom bs).outcome? call.slot = some ⟨code, none⟩) ∧
    (d.phase.stops = true →
      (logFrom commandsHandled d bs = [] ∧ logFrom messagesHandled d bs = [] ∧ d.Silent later) ∧
      (3 ≤ bs.countP Action.isAdvance → later.phase = .ended) ∧
      (later.phase = .ended → ∀ ticket : Ticket, d.travelling ticket.slot ≠ 0 →
        later.bus.told (.ok (some ticket)) = .error (.ofBus (.aborted ticket.topic))) ∧
      ∀ a s b e timeout, d.finds? a = some (s, b) → b.envelopeFor? s = some (e, timeout) →
        0 < timeout → b.checkPayload e = .ok () → ((d.act a).runFrom bs).phase = .ended →
        ((d.act a).runFrom bs).bus.told (b.submit e timeout false).1 = .error (.ofBus .closed) ∨
        ((d.act a).runFrom bs).bus.told (b.submit e timeout false).1 =
          .error (.ofBus (.aborted e.topic.text))) ∧
    (d.phase = .ended → d.bus.TakenDown ∧ later.phase = .ended ∧ later.bus.TakenDown) := by
  intro d later
  have hsound := sound_run config as
  have hrooted := (run_contents config as).1
  have hsoundLater : later.Sound d.bus.calls.slots := sound_runFrom_run config as bs
  refine ⟨⟨accounted_run config as, fun e he => ?_, fun e he => ?_⟩,
    fun f hf => exists_all_handled hf config as, fun a hchecks => ?_, fun call hcall => ⟨?_, ?_⟩,
    fun hstops => ⟨?_, fun hturns => ?_, fun hended ticket hticket => ?_, ?_⟩, fun hended => ?_⟩
  · obtain ⟨hne, es, hphase⟩ := phase_of_mem_commandsHandled he
    rw [advance_of_commands hphase hne]
  · obtain ⟨es, hphase⟩ := phase_of_mem_messagesHandled he
    rw [(advance_of_backends hphase).2]
  · by_contra hleft
    exact hchecks (deadlineChecks_eq_nil hleft)
  · exact hsound.mem_waiting_runFrom hcall
  · intro e he code htopic hvalue halone
    have houtcome := hsound.outcome?_advance hrooted hcall he htopic hvalue halone
    have hkept := (sound_runFrom_run config (as ++ [.advance]) bs).bus.calls.kept
    rw [run_append] at hkept
    exact hkept.outcome?_eq _ _ houtcome
  · obtain ⟨hcommands, hmessages⟩ := handled_runFrom_of_stops hstops bs
    exact ⟨hcommands, hmessages, silent_runFrom hstops bs⟩
  · have hsteps : later.phase.stepsLeft = _ := stepsLeft_runFrom hstops bs
    have hle : d.phase.stepsLeft ≤ 3 := by
      unfold Phase.stepsLeft
      split <;> omega
    exact ended_of_stepsLeft (by omega)
  · have hforsaken := (hsound.forsaken (Or.inl hticket)).runFrom hsound hstops bs
    have hslot := lt_of_lt_of_le (hsound.lt_slotCount_of_travelling hticket)
      hsoundLater.bus.calls.kept.length_le
    exact Bus.told_of_aborted (hforsaken.outcome?_eq hsoundLater hended hslot)
  · intro a s b e timeout hfinds he htime hpayload hended
    exact hsound.told_of_stops hstops hfinds he htime hpayload bs hended
  · have hlater : later.phase = .ended := ended_runFrom hended bs
    have hdown := takenDown_run config (as ++ bs)
    rw [run_append] at hdown
    exact ⟨takenDown_run config as hended, hlater, hdown hlater⟩

/-- A client sets a value and waits, but the command to end comes before it, and both are taken. -/
def endsBefore : List Action :=
  [.submit (.request (.publish ⟨"@/!final", Value.null, {}, 0, 0⟩ 0)),
    .submit (.request (.publish ⟨"a/x", Value.u8 1, .retained, 0, 0⟩ 5)), .advance, .advance]

/-- Three steps later the client is told that its call was aborted. -/
theorem call_behind_end_aborted :
    ((run {} endsBefore).runFrom (List.replicate 3 .advance)).bus.told
      (.ok (some ⟨0, "a/x", 5⟩)) = .error (.ofBus (.aborted "a/x")) := by
  have hstops : (run {} endsBefore).phase.stops = true := by decide +kernel
  have htravels : (run {} endsBefore).travelling 0 ≠ 0 := by decide +kernel
  obtain ⟨-, hturns, haborted, -⟩ :=
    (run_order {} endsBefore (List.replicate 3 .advance)).2.2.2.2.1 hstops
  exact haborted (hturns (by decide)) ⟨0, "a/x", 5⟩ htravels

end Dispatcher
end InstrumentBus
