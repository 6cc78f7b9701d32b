import Mathlib
import InstrumentBus.Proofs.Tree.Growth
import InstrumentBus.Proofs.Dispatch.Replays
import InstrumentBus.Proofs.Dispatch.Statuses
import InstrumentBus.Proofs.Dispatch.Store

/-!
# Envelopes that are turned away

An envelope is turned away before it is passed on if it is for the root, if metadata refuse its value,
or if it has metadata that cannot be read. Looking for the node of its topic comes first, and a value
that is refused has its return code announced; nothing else is left of it: `run_rejected`.
-/

namespace InstrumentBus

/-- Why a value is refused as metadata, if it is. -/
def Metadata.refusal? : Value → Option StatusCode
  | .str text | .json text =>
    match syntaxCheck text with
    | .error s => some s
    | .ok () => none
  | _ => some .parameterInvalid

namespace Bus

variable {b b' : Bus} {e : Envelope} {s : StatusCode} {t : Topic} {posts : List Post}

/-- Why an envelope is turned away before anyone is told of it, if it is. -/
def refusal? (b : Bus) (e : Envelope) : Option StatusCode :=
  if e.topic.path = "" then some .notSupported
  else
    match e.topic.suffix with
    | some .metadataRsp => Metadata.refusal? e.value
    | none =>
      match e.validated (b.tree.contents.metadata e.topic.segments) with
      | .error s => some s
      | .ok _ => none
    | _ => none

/-- An envelope that is not turned away is passed on, or is a value that is kept already. -/
theorem refusal?_eq_none_iff : b.refusal? e = none ↔
    (∃ delivered, b.tree.contents.delivered? e = some delivered) ∨
      e.topic.segments ≠ [] ∧ e.topic.suffix = none ∧
        ∃ e', e.validated (b.tree.contents.metadata e.topic.segments) = .ok e' ∧
          e'.repeats (b.tree.contents.value e.topic.segments) = true := by
  unfold refusal? Contents.delivered?
  by_cases hroot : e.topic.segments = []
  · simp [hroot, Topic.path_eq_empty_iff_segments.mpr hroot]
  rw [if_neg fun hpath => hroot (Topic.path_eq_empty_iff_segments.mp hpath), if_neg hroot]
  cases e.topic.suffix with
  | none =>
    cases e.validated (b.tree.contents.metadata e.topic.segments) with
    | error s => simp
    | ok e' =>
      by_cases hagain : e'.repeats (b.tree.contents.value e.topic.segments) <;> simp [hagain, hroot]
  | some suffix =>
    cases suffix with
    | metadataRsp =>
      cases e.value with
      | str text | json text =>
        cases hcheck : Metadata.syntaxCheck text <;>
          simp [Metadata.refusal?, Metadata.isDocument, hcheck, Except.isOk, Except.toBool]
      | _ => simp [Metadata.refusal?, Metadata.isDocument]
    | _ => simp

/-- The subscribers who are told that an envelope was turned away: for a value of a topic, those who
listen for return codes there or above. -/
def toldOfRefusal (b : Bus) (e : Envelope) : List SubscriberId :=
  if e.topic.path ≠ "" ∧ e.topic.suffix = none then
    b.tree.contents.recipients e.topic.segments .returnCode none
  else []

/-! ## What is left of a refusal -/

/-- What is posted to listeners only does not come to the inbox of any device. -/
theorem Posted.inbox_of_clients (h : b.Posted posts b') (hclients : ∀ x ∈ posts, x.1.isClient = true)
    (p : InboxId) : b'.inbox p = b.inbox p := by
  by_cases hp : p < b.inboxes.length
  · have hnone : postsTo (.forwarder p) posts = [] := by
      refine postsTo_eq_nil fun x hx hwho => ?_
      have hclient := hclients x hx
      rw [hwho] at hclient
      cases hclient
    rw [h.inbox_eq p hp, hnone]
    simp
  · unfold inbox
    rw [List.getElem?_eq_none (Nat.not_lt.mp hp),
      List.getElem?_eq_none (h.length_eq ▸ Nat.not_lt.mp hp)]

/-- A return code that is announced makes its topic known and leaves the tree alone otherwise. -/
theorem tree_emitReturnCode (b : Bus) (t : Topic) (code : Int32) :
    (b.emitReturnCode t code).tree = (b.makeKnown t).tree := by
  unfold emitReturnCode
  simp only
  rw [nodeOf_eq]
  exact tree_deliver ..

theorem makeKnown_makeKnown (hrooted : b.tree.Rooted) (t : Topic) :
    (b.makeKnown t).makeKnown t = b.makeKnown t :=
  makeKnown_of_descend (hrooted.made t.segments).descend_eq

/-- Metadata that are refused leave nothing behind, -/
theorem publishMetadata_of_refusal {node : NodeId} (hrefused : Metadata.refusal? e.value = some s) :
    b.publishMetadata node e = (some s, b) := by
  unfold publishMetadata
  generalize e.value = v at hrefused
  cases v with
  | str text | json text =>
    cases hcheck : Metadata.syntaxCheck text with
    | error s' =>
      simp only [Metadata.refusal?, hcheck, Option.some.injEq] at hrefused
      simp only [hcheck, hrefused]
    | ok checked => simp [Metadata.refusal?, hcheck] at hrefused
  | _ =>
    cases hrefused
    rfl

/-- and a value that is refused only its return code. -/
theorem publishValue_of_refusal (hrooted : b.tree.Rooted)
    (hrefused : e.validated (b.tree.contents.metadata e.topic.segments) = .error s) :
    (b.makeKnown e.topic).publishValue (b.tree.makeLevels Tree.root e.topic.segments).1 e =
      (some s, (b.makeKnown e.topic).emitReturnCode e.topic s.code) := by
  unfold publishValue
  rw [validate_makeKnown hrooted, hrefused]

/-- Of an envelope that is turned away, the levels of its topic are left, and the announcement of its
return code if it has a value for a topic. -/
theorem process_of_refusal (hrooted : b.tree.Rooted) (hrefused : b.refusal? e = some s) :
    b.process e =
      (some s,
        if e.topic.path = "" then b
        else if e.topic.suffix = none then (b.makeKnown e.topic).emitReturnCode e.topic s.code
        else b.makeKnown e.topic) := by
  unfold refusal? at hrefused
  unfold process
  by_cases hroot : e.topic.path = ""
  · rw [if_pos hroot, Option.some.injEq] at hrefused
    rw [if_pos hroot, if_pos hroot, hrefused]
  rw [if_neg hroot] at hrefused
  rw [if_neg hroot, if_neg hroot, nodeOf_eq]
  cases hsuffix : e.topic.suffix with
  | none =>
    rw [hsuffix] at hrefused
    simp only at hrefused ⊢
    cases hvalidated : e.validated (b.tree.contents.metadata e.topic.segments) with
    | error s' =>
      rw [hvalidated, Option.some.injEq] at hrefused
      rw [if_pos trivial, publishValue_of_refusal hrooted hvalidated, hrefused]
    | ok e' =>
      rw [hvalidated] at hrefused
      cases hrefused
  | some suffix =>
    rw [hsuffix] at hrefused
    cases suffix with
    | metadataRsp =>
      simp only at hrefused ⊢
      rw [publishMetadata_of_refusal hrefused, if_neg (Option.some_ne_none _)]
    | _ => cases hrefused

/-- The tree has the levels of the topic then, -/
theorem tree_of_refusal (hrooted : b.tree.Rooted) (hrefused : b.refusal? e = some s) :
    (b.process e).2.tree = (b.makeKnown e.topic).tree := by
  rw [process_of_refusal hrooted hrefused]
  by_cases hroot : e.topic.path = ""
  · have hsegments := Topic.path_eq_empty_iff_segments.mp hroot
    have hdescend : b.tree.descend Tree.root e.topic.segments = some Tree.root := by
      rw [hsegments]
      rfl
    rw [if_pos hroot, makeKnown_of_descend hdescend]
  rw [if_neg hroot]
  by_cases hplain : e.topic.suffix = none
  · rw [if_pos hplain, tree_emitReturnCode, makeKnown_makeKnown hrooted]
  · rw [if_neg hplain]

/-- and nobody was told anything but the return code. -/
theorem posted_of_refusal (hrooted : b.tree.Rooted) (hrefused : b.refusal? e = some s) :
    ∃ answer : Envelope, answer.topic = e.topic.withSuffix .returnCode ∧ answer.value = .i32 s.code ∧
      b.Posted ((b.toldOfRefusal e).map (·, answer)) (b.process e).2 := by
  have hmade := hrooted.made e.topic.segments
  obtain ⟨answer, htopic, hvalue, heffect⟩ :=
    effect_announced (b := b.makeKnown e.topic) hmade.rooted e.topic s.code
  have hknown : b.Posted [] (b.makeKnown e.topic) := posted_tree b _
  refine ⟨answer, htopic, hvalue, ?_⟩
  rw [process_of_refusal hrooted hrefused]
  unfold toldOfRefusal
  simp only
  by_cases hroot : e.topic.path = ""
  · rw [if_pos hroot, if_neg fun hboth => hboth.1 hroot]
    exact Posted.refl b
  rw [if_neg hroot]
  by_cases hplain : e.topic.suffix = none
  · rw [contents_makeKnown hrooted, Contents.recipients_reach] at heffect
    rw [if_pos hplain, if_pos ⟨hroot, hplain⟩]
    exact hknown.after heffect.posted
  · rw [if_neg hplain, if_neg fun hboth => hplain hboth.2]
    exact hknown

/-- Only listeners are told of a refusal. -/
theorem isClient_of_mem_toldOfRefusal (h : b.tree.Discreet) {who : SubscriberId}
    (hwho : who ∈ b.toldOfRefusal e) : who.isClient = true := by
  unfold toldOfRefusal at hwho
  split at hwho
  · -- those who are told are found in the tree with the levels of the topic
    have hmade := h.1.made e.topic.segments
    have hrecipients := hmade.rooted.recipients_eq hmade.descend_eq .returnCode none
    rw [hmade.contents_eq, Contents.recipients_reach] at hrecipients
    rw [← hrecipients] at hwho
    exact (h.made hmade).isClient_of_mem_recipients hmade.descend_eq hwho
  · cases hwho

end Bus

namespace Dispatcher

variable {config : BusConfig} {b : Bus}

theorem discreet_plan {d : Dispatcher} (hclients : ∀ e ∈ d.phase.commandsLeft, e.fromClient) :
    ∀ deed ∈ d.plan.deeds, deed.Discreet := by
  obtain ⟨b, phase⟩ := d
  cases phase with
  | backends es =>
    cases es with
    | nil => exact List.forall_mem_nil _
    | cons e es => exact b.discreet_backendPlan e
  | commands es =>
    cases es with
    | nil => exact List.forall_mem_nil _
    | cons e es =>
      have he : e.fromClient := hclients e List.mem_cons_self
      simp only [plan]
      split
      · exact List.forall_mem_nil _
      · exact fun deed hdeed =>
          Deed.discreet_of_sparesDevices (Bus.sparesDevices_commandPlan b he deed hdeed)
  | closing => exact List.forall_mem_singleton.mpr trivial
  | _ => exact List.forall_mem_nil _

/-- Also between the deeds of a step, nobody but listeners takes return codes. -/
theorem Reached.discreet (h : Reached config b) : b.tree.Discreet := by
  induction h with
  | between as => exact run_discreet config as
  | within as n =>
    have hplan : (run config as).plan.bus.tree.Discreet := by
      rw [(untold_plan (run config as)).tree_eq]
      exact run_discreet config as
    have hclients : ∀ e ∈ (run config as).phase.commandsLeft, e.fromClient := fun e he =>
      (run_registered config as).clients e (List.mem_append_left _ he)
    exact hplan.performAll fun deed hdeed => discreet_plan hclients deed (List.mem_of_mem_take hdeed)
  | @found b b' t node h hnode ih =>
    -- between finding the node of a topic and what is done there
    rw [Bus.nodeOf_eq] at hnode
    cases hnode
    exact ih.made (ih.1.made t.segments)

/-- In every state that the bus comes to, an envelope that is turned away leaves what is kept, who
listens, the devices and their inboxes as they were. All nodes keep their names and places, their
children and what is theirs; beside them there may be blank nodes on the path of the envelope. Nobody
is told anything, but if the value of a topic was refused, its return code is heard by those who
listen for return codes. -/
theorem run_rejected (h : Reached config b) {e : Envelope} {s : StatusCode}
    (hrefused : b.refusal? e = some s) :
    let b' := (b.process e).2
    (b.process e).1 = some s ∧
    b'.tree.contents = b.tree.contents.reach e.topic.segments ∧
    b.tree.Grown e.topic.segments b'.tree ∧
    b'.devices = b.devices ∧
    (∀ p, b'.inbox p = b.inbox p) ∧
    ∃ answer : Envelope, answer.topic = e.topic.withSuffix .returnCode ∧ answer.value = .i32 s.code ∧
      ∀ n < b.audience.listeners.length, b'.audience.heardBy n =
        List.replicate ((b.toldOfRefusal e).count (.client n)) answer ++ b.audience.heardBy n := by
  intro b'
  have hdiscreet := h.discreet
  have hrooted := hdiscreet.1
  have htree : b'.tree = (b.makeKnown e.topic).tree := Bus.tree_of_refusal hrooted hrefused
  obtain ⟨answer, htopic, hvalue, hposted⟩ := Bus.posted_of_refusal hrooted hrefused
  refine ⟨?_, ?_, ?_, hposted.devices_eq, ?_, answer, htopic, hvalue, fun n hn => ?_⟩
  · rw [Bus.process_of_refusal hrooted hrefused]
  · rw [htree]
    exact Bus.contents_makeKnown hrooted e.topic
  · rw [htree]
    exact hrooted.grown_of_path e.topic.segments
  · refine hposted.inbox_of_clients fun x hx => ?_
    obtain ⟨who, hwho, rfl⟩ := List.mem_map.mp hx
    exact Bus.isClient_of_mem_toldOfRefusal hdiscreet hwho
  · rw [hposted.heardBy_eq n hn, postsTo_map, List.reverse_replicate]

/-- A listener listens for return codes, and a client describes a topic and sets its value. -/
def codesHeard : List Action :=
  [.addListener ⟨"listener", .internal, fun _ => {}, 0⟩,
    .submit (.request (.subscribe "a" "listener" { returnCode := true } 0)),
    .submit (.request (.publish ⟨"a/x$", Value.json "\x7b\"dtype\": \"u8\"\x7d", {}, 0, 0⟩ 0)),
    setKept 3, .advance, .advance, .advance, .advance, .advance]

/-- A text is no value for the topic. -/
def textSent : Envelope := .make {} ⟨"a/x", by decide⟩ (Value.str "on") .retained

/-- It is refused, the listener is told so, and the value stays. -/
theorem text_rejected :
    (run {} codesHeard).bus.refusal? textSent = some .parameterInvalid ∧
      ((run {} codesHeard).bus.process textSent).1 = some .parameterInvalid ∧
      (((run {} codesHeard).bus.process textSent).2.tree.contents.value ["a", "x"]).map
        Envelope.value = some (.u8 3) ∧
      ∃ answer : Envelope, answer.value = .i32 StatusCode.parameterInvalid.code ∧
        ((run {} codesHeard).bus.process textSent).2.audience.heardBy 0 = [answer] := by
  have hrefused : (run {} codesHeard).bus.refusal? textSent = some .parameterInvalid := by
    decide +kernel
  have hvalue : ((run {} codesHeard).bus.tree.contents.value ["a", "x"]).map Envelope.value =
      some (.u8 3) := by decide +kernel
  have htold : ((run {} codesHeard).bus.toldOfRefusal textSent).count (.client 0) = 1 := by
    decide +kernel
  have hlisteners : 0 < (run {} codesHeard).bus.audience.listeners.length := by decide +kernel
  have hbefore : ((run {} codesHeard).bus.audience.heardBy 0).isEmpty = true := by decide +kernel
  obtain ⟨houtcome, hcontents, -, -, -, answer, -, hcode, hheard⟩ :=
    run_rejected (.between codesHeard) hrefused
  have hheard := hheard 0 hlisteners
  rw [htold, List.isEmpty_iff.mp hbefore, List.append_nil] at hheard
  -- what is there is known by now, so there is no need to look into the run any more
  generalize (run {} codesHeard).bus = b at hrefused houtcome hcontents hvalue hheard ⊢
  refine ⟨hrefused, houtcome, ?_, answer, hcode, hheard⟩
  rw [hcontents]
  exact hvalue

end Dispatcher
end InstrumentBus
