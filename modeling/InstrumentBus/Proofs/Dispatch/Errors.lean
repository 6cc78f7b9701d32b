import Mathlib
import InstrumentBus.Proofs.Dispatch.Refusals
import InstrumentBus.Proofs.Dispatch.Store

/-!
# How the errors of subscribers reach callers

Whoever is told of an envelope may answer by a status, and the first one is the outcome of processing
the envelope. A client that waits for the bus is given this outcome. A client that waits for a device
is not: its call is in the table by then, and ends by a return code that is announced for the topic.
That is done for values, but not for the two kinds of requests that a device takes as well, so an error
of a subscriber is lost there: `error_reaches_iff`.
-/

namespace InstrumentBus

variable {b : Bus} {e e' : Envelope} {k : DeliveryClass} {node : NodeId} {s : StatusCode}
  {answers : List (Option StatusCode)}

/-! ## Answers -/

/-- The first status among the answers that is not a success. -/
def firstRefusal (answers : List (Option StatusCode)) : Option StatusCode :=
  answers.findSome? fun answer => answer.filter (·.code ≠ 0)

/-- The first status is the first that is not a success, unless a success comes before. -/
theorem exists_first_of_firstRefusal (h : firstRefusal answers = some s) :
    s.code ≠ 0 ∧ ∃ first, answers.findSome? id = some first ∧ (first = s ∨ first.code = 0) := by
  induction answers with
  | nil => cases h
  | cons answer answers ih =>
    unfold firstRefusal at h ih
    cases answer with
    | none => exact ih h
    | some status =>
      by_cases hzero : status.code = 0
      · -- a success is a status too, and hides the later ones
        have hlater : answers.findSome? (fun answer => answer.filter (·.code ≠ 0)) = some s := by
          rw [List.findSome?_cons, Option.filter_some, if_neg (by simpa using hzero)] at h
          exact h
        exact ⟨(ih hlater).1, status, rfl, Or.inr hzero⟩
      · have hstatus : status = s := by
          rw [List.findSome?_cons, Option.filter_some, if_pos (by simpa using hzero)] at h
          exact Option.some.inj h
        exact ⟨hstatus ▸ hzero, status, rfl, Or.inl hstatus⟩

theorem CallOutcome.ofStatus_inj {s s' : StatusCode} : ofStatus s = ofStatus s' ↔ s = s' := by
  refine ⟨fun h => ?_, congrArg ofStatus⟩
  have hcode : s.code = s'.code := congrArg CallOutcome.code h
  rw [← StatusCode.ofCode_code s, hcode, StatusCode.ofCode_code]

namespace Bus

/-- The bus on which an envelope is delivered, which is kept by then if it is to be kept. -/
def stored (b : Bus) (node : NodeId) (e : Envelope) : DeliveryClass → Bus
  | .publish => { b with tree := b.tree.setRetained node e }
  | .metadata => { b with tree := b.tree.setMetadata node e }
  | _ => b

/-- What is answered to an envelope that is processed by those who are told of it, in their order. -/
def answersGiven (b : Bus) (e : Envelope) : List (Option StatusCode) :=
  match b.tree.contents.delivered? e with
  | some (e', k) =>
    let node := (b.tree.makeLevels Tree.root e.topic.segments).1
    let b := (b.makeKnown e.topic).stored node e' k
    (answersOf receive e' (b.tree.recipients node k e'.origin) b).1
  | none => []

/-- What is answered to a command of a client. The command to end is told to no one, and those to the
bus itself neither. -/
def answersToCommand (b : Bus) (e : Envelope) : List (Option StatusCode) :=
  if e.topic = .finalize ∨ e.topic.isLocal then []
  else (b.holdCall e).answersGiven { e with call := none }

/-! ## The outcome of processing -/

/-- A value that is passed on is new, and is kept before it is delivered. -/
theorem publishValue_of_delivered (hrooted : b.tree.Rooted) (hplain : e.topic.suffix = none)
    (hdelivered : b.tree.contents.delivered? e = some (e', k)) :
    (b.makeKnown e.topic).publishValue (b.tree.makeLevels Tree.root e.topic.segments).1 e =
      announced e'.topic (((b.makeKnown e.topic).stored
        (b.tree.makeLevels Tree.root e.topic.segments).1 e' k).deliver
          (b.tree.makeLevels Tree.root e.topic.segments).1 e' k) := by
  have hvalidate := validate_makeKnown hrooted e
  have hroot := (Contents.delivered?_eq_some hdelivered).1
  rw [Contents.delivered?_of_plain hroot hplain] at hdelivered
  cases hvalidated : e.validated (b.tree.contents.metadata e.topic.segments) with
  | error s =>
    rw [hvalidated] at hdelivered
    cases hdelivered
  | ok e'' =>
    rw [hvalidated] at hvalidate hdelivered
    simp only at hdelivered
    split at hdelivered
    · cases hdelivered
    · rename_i hnew
      cases hdelivered
      exact publishValue_of_new hvalidate (by rw [isDuplicate_makeKnown hrooted]; exact hnew)

/-- Metadata that are passed on can be read, and are kept before they are delivered. -/
theorem publishMetadata_of_isDocument (hdocument : Metadata.isDocument e.value = true)
    (node : NodeId) (b : Bus) :
    b.publishMetadata node e = (b.stored node e .metadata).deliver node e .metadata := by
  obtain ⟨text, hvalue, hcheck⟩ := Metadata.isDocument_iff.mp hdocument
  unfold publishMetadata
  rcases hvalue with hvalue | hvalue <;>
  · simp only [hvalue, hcheck]
    rfl

/-- The first status that is answered to an envelope is the outcome of processing it. -/
theorem process_of_delivered (hrooted : b.tree.Rooted) (hcode : e.topic.suffix ≠ some .returnCode)
    (hdelivered : b.tree.contents.delivered? e = some (e', k)) :
    (b.process e).1 = (b.answersGiven e).findSome? id := by
  set node := (b.tree.makeLevels Tree.root e.topic.segments).1 with hnode
  have houtcome : (b.answersGiven e).findSome? id =
      (((b.makeKnown e.topic).stored node e' k).deliver node e' k).1 := by
    unfold answersGiven
    rw [hdelivered]
    simp only [deliver, Tree.deliver, deliverTo_eq]
    rfl
  have hroot := (Contents.delivered?_eq_some hdelivered).1
  rw [houtcome]
  unfold process
  rw [if_neg fun hpath => hroot (Topic.path_eq_empty_iff_segments.mp hpath), nodeOf_eq]
  cases hsuffix : e.topic.suffix with
  | none =>
    simp only
    rw [publishValue_of_delivered hrooted hsuffix hdelivered, ← hnode]
    -- a return code is announced after the delivery and leaves its outcome alone
    generalize deliver _ node e' k = delivered
    obtain ⟨outcome, b'⟩ := delivered
    cases outcome <;> rfl
  | some suffix =>
    unfold Contents.delivered? at hdelivered
    rw [if_neg hroot, hsuffix] at hdelivered
    cases suffix with
    | returnCode => exact absurd hsuffix hcode
    | metadataRsp =>
      simp only at hdelivered ⊢
      split at hdelivered
      · rename_i hdocument
        cases hdelivered
        rw [publishMetadata_of_isDocument hdocument]
      · cases hdelivered
    | metadataReq | queryReq | queryRsp =>
      cases hdelivered
      rfl

/-- If somebody refuses an envelope, the outcome of processing it is the first status. -/
theorem process_of_firstRefusal (hrooted : b.tree.Rooted) (hcode : e.topic.suffix ≠ some .returnCode)
    (h : firstRefusal (b.answersGiven e) = some s) :
    (b.process e).1 = (b.answersGiven e).findSome? id := by
  cases hdelivered : b.tree.contents.delivered? e with
  | none =>
    -- nobody answers to what is not passed on
    unfold answersGiven at h
    rw [hdelivered] at h
    cases h
  | some delivered => exact process_of_delivered hrooted hcode hdelivered

/-! ## Commands -/

section Commands

variable {base : CallSlots} {es : List Envelope} {call : PendingCall}

/-- A command that somebody refuses is none to the bus itself and not the one to end. -/
theorem answersToCommand_of_firstRefusal (h : firstRefusal (b.answersToCommand e) = some s) :
    e.topic ≠ .finalize ∧ ¬ e.topic.isLocal ∧
      b.answersToCommand e = (b.holdCall e).answersGiven { e with call := none } := by
  unfold answersToCommand at h ⊢
  split at h
  · cases h
  · rename_i hpassed
    obtain ⟨hfinalize, hlocal⟩ := not_or.mp hpassed
    exact ⟨hfinalize, hlocal, if_neg hpassed⟩

/-- A call that waits for a device, and is the only one for its topic, ends by what is announced of its
envelope, or waits. -/
theorem Sound.outcome?_of_deviceAnswers (h : b.Sound base (e :: es)) (hcall : e.call = some call)
    (hanswers : b.deviceAnswers e.topic)
    (halone : ∀ other ∈ b.calls.pending.waiting, other.topic ≠ call.topic) :
    (b.handleCommand e).calls.slots.outcome? call.slot =
      (b.registeredVerdict call e).map (⟨·, none⟩) := by
  have hregistered := (h.register hcall (devicePrefix_of_deviceAnswers hanswers)).calls
  -- the command comes last into the table, and no other call has its topic
  have hwaits := CallTable.waitsAlone_register halone
  rw [handleCommand_calls_of_deviceAnswers b hcall hanswers]
  cases b.registeredVerdict call e with
  | none =>
    exact (CallSlots.isOpen_iff.mp
      (hregistered.owned.isOpen (List.mem_append_right _ hwaits.waits))).2
  | some code =>
    exact hregistered.outcome?_announce hwaits.waits (h.addressed e List.mem_cons_self call hcall)
      hwaits.alone

theorem holdCall_of_deviceAnswers (hcall : e.call = some call) (hanswers : b.deviceAnswers e.topic) :
    b.holdCall e = { b with calls := b.calls.register call } := by
  unfold holdCall
  rw [hcall]
  exact if_pos hanswers

theorem holdCall_of_not_deviceAnswers (hanswers : ¬ b.deviceAnswers e.topic) : b.holdCall e = b := by
  unfold holdCall
  cases e.call with
  | none => rfl
  | some call => exact if_neg hanswers

/-- The first status that is not a success ends a call for the bus, if no other status comes before. -/
theorem Sound.error_reaches_of_not_deviceAnswers (h : b.Sound base (e :: es))
    (hrooted : b.tree.Rooted) (hcall : e.call = some call) (hcode : e.topic.suffix ≠ some .returnCode)
    (hanswers : ¬ b.deviceAnswers e.topic) (hrefused : firstRefusal (b.answersToCommand e) = some s) :
    (b.handleCommand e).calls.slots.outcome? call.slot = some (.ofStatus s) ↔
      (b.answersToCommand e).findSome? id = some s := by
  obtain ⟨-, hlocal, hanswersEq⟩ := answersToCommand_of_firstRefusal hrefused
  rw [holdCall_of_not_deviceAnswers hanswers] at hanswersEq
  obtain ⟨-, first, hfirst, -⟩ := exists_first_of_firstRefusal hrefused
  rw [hanswersEq] at hrefused hfirst ⊢
  have hprocess := process_of_firstRefusal hrooted (e := { e with call := none }) hcode hrefused
  rw [h.outcome?_of_processed hcall hlocal hanswers, hprocess, hfirst, Option.some_inj, Option.some_inj]
  exact CallOutcome.ofStatus_inj

/-- It ends a call that waits for a device under the same condition, but only for a value. -/
theorem Sound.error_reaches_of_deviceAnswers (h : b.Sound base (e :: es))
    (hrooted : b.tree.Rooted) (hcall : e.call = some call) (hcode : e.topic.suffix ≠ some .returnCode)
    (halone : ∀ other ∈ b.calls.pending.waiting, other.topic ≠ call.topic)
    (hanswers : b.deviceAnswers e.topic) (hrefused : firstRefusal (b.answersToCommand e) = some s) :
    (b.handleCommand e).calls.slots.outcome? call.slot = some (.ofStatus s) ↔
      e.topic.suffix = none ∧ (b.answersToCommand e).findSome? id = some s := by
  obtain ⟨-, hlocal, hanswersEq⟩ := answersToCommand_of_firstRefusal hrefused
  rw [holdCall_of_deviceAnswers hcall hanswers] at hanswersEq
  obtain ⟨hnonzero, first, hfirst, -⟩ := exists_first_of_firstRefusal hrefused
  rw [h.outcome?_of_deviceAnswers hcall hanswers halone]
  by_cases hplain : e.topic.suffix = none
  · rw [hanswersEq] at hrefused hfirst ⊢
    have hprocess := process_of_firstRefusal (b := { b with calls := b.calls.register call })
      (e := { e with call := none }) hrooted hcode hrefused
    have hroot : e.topic.path ≠ "" := fun hpath =>
      Topic.pathChars_ne_nil (devicePrefix_of_deviceAnswers hanswers) (Topic.path_eq_empty_iff.mp hpath)
    -- the outcome of processing is what is announced, and success is announced by 0 or not at all
    have hverdict : first.code = (b.registeredVerdict call e).getD 0 := by
      have hannounced := code_process (b := { b with calls := b.calls.register call })
        (e := { e with call := none }) hroot hplain
      rw [hprocess, hfirst] at hannounced
      exact hannounced
    rw [and_iff_right hplain, hfirst, Option.some_inj]
    cases hannounced : b.registeredVerdict call e with
    | none =>
      rw [hannounced] at hverdict
      refine iff_of_false nofun fun hsame => hnonzero ?_
      rw [← hsame]
      exact hverdict
    | some code =>
      rw [hannounced, Option.getD_some] at hverdict
      rw [Option.map_some, Option.some_inj, ← hverdict]
      exact CallOutcome.ofStatus_inj
  · -- nothing is announced of a request
    have hnone : b.registeredVerdict call e = none := verdict_eq_none hplain hcode
    rw [hnone]
    exact iff_of_false nofun fun hboth => hplain hboth.1

end Commands

end Bus

namespace Dispatcher

/-- In every state of every run, let the next command come with a call, be no return code, and let no
other call wait for the return code of its topic. If somebody who is told of it refuses it, the call
ends in this step by the first status that is not a success, exactly if

* the command is not a request that a device takes,
* and nobody has answered by the status of a success before. -/
theorem error_reaches_iff (config : BusConfig) (as : List Action) {e : Envelope} {es : List Envelope}
    {call : PendingCall} {s : StatusCode} (hnext : (run config as).phase.commandsLeft = e :: es)
    (hcall : e.call = some call) (hcode : e.topic.suffix ≠ some .returnCode)
    (halone : ∀ other ∈ (run config as).bus.calls.pending.waiting, other.topic ≠ call.topic)
    (hrefused : firstRefusal ((run config as).bus.answersToCommand e) = some s) :
    (run config (as ++ [.advance])).outcome? call.slot = some (.ofStatus s) ↔
      ((run config as).bus.deviceAnswers e.topic = true → e.topic.suffix = none) ∧
        ((run config as).bus.answersToCommand e).findSome? id = some s := by
  have hphase : (run config as).phase = .commands (e :: es) := phase_of_commandsLeft hnext
  have hsound : (run config as).bus.Sound {} (e :: es) := by
    have hbus := (sound_run config as).bus
    rw [hnext] at hbus
    exact hbus
  have hrooted : (run config as).bus.tree.Rooted := (run_contents config as).1
  obtain ⟨hfinalize, -, -⟩ := Bus.answersToCommand_of_firstRefusal hrefused
  have hbus : (run config (as ++ [.advance])).bus = (run config as).bus.handleCommand e := by
    rw [run_append]
    show (run config as).advance.bus = _
    rw [advance_of_commands hphase hfinalize]
  rw [outcome?, hbus]
  by_cases hanswers : (run config as).bus.deviceAnswers e.topic
  · rw [imp_iff_right hanswers]
    exact hsound.error_reaches_of_deviceAnswers hrooted hcall hcode halone hanswers hrefused
  · rw [and_iff_right fun hyes => absurd hyes hanswers]
    exact hsound.error_reaches_of_not_deviceAnswers hrooted hcall hcode hanswers hrefused

/-! ### A request that is refused -/

/-- A listener refuses what it hears of a topic of a device, and a client publishes to the topic and
waits; its command is the next one. -/
def refusedAt (topic : String) : List Action :=
  [.submit (.registerDevice "u/js220/0001"), .addListener (answering (some .busy)),
    .submit (.request (.subscribe "u/js220/0001/x" "listener"
      { publish := true, metadataReq := true } 0)),
    .submit (.request (.publish ⟨topic, Value.null, {}, 0, 0⟩ 400)),
    .advance, .advance, .advance, .advance]

/-- The command is a value, -/
def refusedValue : Envelope :=
  (run {} (refusedAt "u/js220/0001/x")).phase.commandsLeft.head (by decide +kernel)

/-- or a request for metadata. -/
def refusedRequest : Envelope :=
  (run {} (refusedAt "u/js220/0001/x%")).phase.commandsLeft.head (by decide +kernel)

def refusedCall : PendingCall := ⟨"u/js220/0001/x#", 400, 0⟩

theorem refusedValue_commandsLeft :
    (run {} (refusedAt "u/js220/0001/x")).phase.commandsLeft =
      refusedValue :: (run {} (refusedAt "u/js220/0001/x")).phase.commandsLeft.tail :=
  (List.cons_head_tail _).symm

theorem refusedRequest_commandsLeft :
    (run {} (refusedAt "u/js220/0001/x%")).phase.commandsLeft =
      refusedRequest :: (run {} (refusedAt "u/js220/0001/x%")).phase.commandsLeft.tail :=
  (List.cons_head_tail _).symm

theorem refusedValue_spec :
    refusedValue.call = some refusedCall ∧ refusedValue.topic.suffix = none ∧
      (run {} (refusedAt "u/js220/0001/x")).bus.calls.pending.waiting = [] ∧
      firstRefusal ((run {} (refusedAt "u/js220/0001/x")).bus.answersToCommand refusedValue) =
        some .busy := by
  decide +kernel

theorem refusedRequest_spec :
    refusedRequest.call = some refusedCall ∧ refusedRequest.topic.suffix = some .metadataReq ∧
      (run {} (refusedAt "u/js220/0001/x%")).bus.calls.pending.waiting = [] ∧
      firstRefusal ((run {} (refusedAt "u/js220/0001/x%")).bus.answersToCommand refusedRequest) =
        some .busy := by
  decide +kernel

/-- The client is told that its value was refused, but not of its request. -/
theorem refusedValue_reaches :
    (run {} (refusedAt "u/js220/0001/x" ++ [.advance])).outcome? refusedCall.slot =
        some (.ofStatus .busy) ∧
      (run {} (refusedAt "u/js220/0001/x%" ++ [.advance])).outcome? refusedCall.slot ≠
        some (.ofStatus .busy) := by
  constructor
  · obtain ⟨hcall, hplain, hnone, hrefused⟩ := refusedValue_spec
    refine (error_reaches_iff {} _ refusedValue_commandsLeft hcall (by rw [hplain]; exact nofun)
      (by rw [hnone]; exact List.forall_mem_nil _) hrefused).mpr ⟨fun _ => hplain, ?_⟩
    decide +kernel
  · obtain ⟨hcall, hrequest, hnone, hrefused⟩ := refusedRequest_spec
    have hiff := error_reaches_iff {} _ refusedRequest_commandsLeft hcall
      (by rw [hrequest]; exact nofun) (by rw [hnone]; exact List.forall_mem_nil _) hrefused
    intro hended
    -- the device takes requests as well
    have hvalue := (hiff.mp hended).1 (by decide +kernel)
    rw [hrequest] at hvalue
    cases hvalue

/-- So it is not true that the error of a subscriber always reaches the caller. -/
theorem not_error_always_reaches :
    ¬ ∀ (config : BusConfig) (as : List Action) (e : Envelope) (es : List Envelope)
        (call : PendingCall) (s : StatusCode),
      (run config as).phase.commandsLeft = e :: es → e.call = some call →
      e.topic.suffix ≠ some .returnCode →
      (∀ other ∈ (run config as).bus.calls.pending.waiting, other.topic ≠ call.topic) →
      firstRefusal ((run config as).bus.answersToCommand e) = some s →
      (run config (as ++ [.advance])).outcome? call.slot = some (.ofStatus s) := by
  intro h
  obtain ⟨hcall, hrequest, hnone, hrefused⟩ := refusedRequest_spec
  have hended := h {} (refusedAt "u/js220/0001/x%") refusedRequest _ refusedCall .busy
    refusedRequest_commandsLeft hcall (by rw [hrequest]; exact nofun)
    (by rw [hnone]; exact List.forall_mem_nil _) hrefused
  exact absurd hended (by decide +kernel)

end Dispatcher
end InstrumentBus
