import Mathlib
import InstrumentBus.Proofs.Dispatch.Runs
import InstrumentBus.Proofs.Dispatch.History

/-!
# What is kept, and what queries answer

A `Shelf` is two plain maps, from paths to values and to metadata, and the topics that were named so
far. `Shelf.after` says what each deed of the dispatcher does to it, without a word about the tree:

* a value that the metadata of its topic admit stays away if it equals the value that is there; else
  it takes its place if it is to be kept and the topic is no action, and ends it if not;
* a document for the metadata of a topic takes their place;
* all else only names topics.

The shelf of the history of a run agrees with the tree (`Agrees.after` is the step), so every query
answers from the shelf: `run_shelf`.
-/

namespace InstrumentBus

/-! ## The rule -/

/-- The value that a document makes of a value, or why it refuses it. What is no text is no document
and refuses nothing. -/
def Metadata.judge (document : Option Value) (v : Value) : Except StatusCode Value :=
  match document with
  | some (.str text) | some (.json text) => (validate text v).map (·.getD v)
  | _ => .ok v

/-- Plain maps from paths, and the topics that were named. -/
structure Shelf where
  value : List String → Option Value := fun _ => none
  metadata : List String → Option Value := fun _ => none
  named : List Topic := []

namespace Shelf

/-- A value for a topic, which may be to be kept. -/
def publishValue (s : Shelf) (t : Topic) (v : Value) (retain : Bool) : Shelf :=
  match Metadata.judge (s.metadata t.segments) v with
  | .error _ => s
  | .ok r =>
    if (s.value t.segments).any (· == r) then s
    else { s with
      value := Function.update s.value t.segments (if retain && !t.isAction then some r else none) }

/-- The metadata of a topic, unless they are no document. -/
def publishMetadata (s : Shelf) (t : Topic) (v : Value) : Shelf :=
  if Metadata.isDocument v then
    { s with metadata := Function.update s.metadata t.segments (some v) }
  else s

/-- An envelope that is processed. Nothing is published to the root. -/
def publish (s : Shelf) (e : Envelope) : Shelf :=
  if e.topic.path = "" then s
  else
    match e.topic.suffix with
    | none => s.publishValue e.topic e.value e.isRetained
    | some .metadataRsp => s.publishMetadata e.topic e.value
    | _ => s

def name (s : Shelf) (t : Topic) : Shelf := { s with named := s.named ++ [t] }

/-- What each deed does. -/
def after (s : Shelf) : Deed → Shelf
  | .publish e => (s.publish e).name e.topic
  | .announce t _ => s.name t
  | .enlist t _ => s.name t
  | .dismiss _ _ | .dismissAll _ => s
  | .clear => {}

/-- The topic is the root, or it or one below it was named. -/
def knows (s : Shelf) (t : Topic) : Bool := t.path = "" || s.named.any (·.startsWith t)

/-- What a query answers. -/
def answer (s : Shelf) (t : Topic) : Except StatusCode Value :=
  if s.knows t then
    match t.suffix with
    | some .metadataReq | some .metadataRsp => .ok ((s.metadata t.segments).getD .null)
    | _ => .ok ((s.value t.segments).getD .null)
  else .error .notFound

/-- The outcome of a call that comes with a query. -/
def outcome (s : Shelf) (t : Topic) : CallOutcome :=
  match s.answer t with
  | .ok v => .ofValue v
  | .error status => .ofStatus status

end Shelf

/-! ## Topics that are left alone -/

/-- The deed publishes neither a value nor metadata for a topic, and leaves the tree standing. -/
def Deed.avoids (t : Topic) : Deed → Prop
  | .publish e => e.topic ≠ t ∧ e.topic ≠ t.withSuffix .metadataRsp
  | .clear => False
  | _ => True

namespace Shelf

variable {s : Shelf} {t : Topic} {e : Envelope} {deed : Deed} {deeds : List Deed}

/-- What is on the shelf of a topic stays there. -/
theorem after_of_avoids (ht : t.suffix = none) (h : deed.avoids t) (s : Shelf) :
    (s.after deed).value t.segments = s.value t.segments ∧
      (s.after deed).metadata t.segments = s.metadata t.segments := by
  cases deed with
  | publish e =>
    obtain ⟨hvalue, hmetadata⟩ := h
    show (s.publish e).value t.segments = _ ∧ (s.publish e).metadata t.segments = _
    unfold publish
    split
    · exact ⟨rfl, rfl⟩
    · cases hsuffix : e.topic.suffix with
      | none =>
        have hne : t.segments ≠ e.topic.segments := fun heq =>
          hvalue (Topic.eq_of_segments heq.symm (hsuffix.trans ht.symm))
        simp only [publishValue]
        split
        · exact ⟨rfl, rfl⟩
        · split
          · exact ⟨rfl, rfl⟩
          · exact ⟨Function.update_of_ne hne _ _, rfl⟩
      | some suffix =>
        cases suffix with
        | metadataRsp =>
          have hne : t.segments ≠ e.topic.segments := by
            intro heq
            refine hmetadata (Topic.eq_of_segments ?_ ?_)
            · rw [Topic.segments_withSuffix, heq]
            · rw [Topic.suffix_withSuffix, hsuffix]
          simp only [publishMetadata]
          split
          · exact ⟨rfl, Function.update_of_ne hne _ _⟩
          · exact ⟨rfl, rfl⟩
        | _ => exact ⟨rfl, rfl⟩
  | clear => exact absurd h id
  | _ => exact ⟨rfl, rfl⟩

theorem foldl_after_of_avoids (ht : t.suffix = none) (h : ∀ deed ∈ deeds, deed.avoids t) (s : Shelf) :
    (deeds.foldl after s).value t.segments = s.value t.segments ∧
      (deeds.foldl after s).metadata t.segments = s.metadata t.segments := by
  induction deeds generalizing s with
  | nil => exact ⟨rfl, rfl⟩
  | cons deed deeds ih =>
    obtain ⟨hdeed, hdeeds⟩ := List.forall_mem_cons.mp h
    obtain ⟨hvalue, hmetadata⟩ := after_of_avoids ht hdeed s
    rw [List.foldl_cons, ← hvalue, ← hmetadata]
    exact ih hdeeds (s.after deed)

/-- A value that is to be kept takes the place of another one, and nothing else changes. -/
theorem after_publish_of_plain (hroot : e.topic.path ≠ "") (hplain : e.topic.suffix = none)
    (hretain : e.isRetained = true) (haction : e.topic.isAction = false) (s : Shelf) {v : Value}
    (hjudge : Metadata.judge (s.metadata e.topic.segments) e.value = .ok v) :
    (s.after (.publish e)).value e.topic.segments =
        (if (s.value e.topic.segments).any (· == v) then s.value e.topic.segments else some v) ∧
      (s.after (.publish e)).metadata e.topic.segments = s.metadata e.topic.segments := by
  show (s.publish e).value _ = _ ∧ (s.publish e).metadata _ = _
  unfold publish publishValue
  rw [if_neg hroot, hplain, hjudge, hretain, haction]
  simp only
  split
  · exact ⟨rfl, rfl⟩
  · exact ⟨Function.update_self _ _ _, rfl⟩

end Shelf

/-! ## The tree and the shelf -/

/-- What an envelope becomes is what its value becomes. -/
theorem Envelope.map_value_validated (document : Option Envelope) (e : Envelope) :
    (e.validated document).map Envelope.value =
      Metadata.judge (document.map Envelope.value) e.value := by
  unfold validated
  cases document.map Envelope.value with
  | none => rfl
  | some v =>
    cases v with
    | str text | json text =>
      simp only [Metadata.judge]
      cases Metadata.validate text e.value with
      | error s => rfl
      | ok adjusted =>
        cases adjusted with
        | none => rfl
        | some v => exact congrArg Except.ok (value_setValue e v)
    | _ => rfl

/-- The tree keeps what is on the shelf. -/
structure Contents.Agrees (c : Contents) (s : Shelf) : Prop where
  value_eq : ∀ q, (c.value q).map Envelope.value = s.value q
  metadata_eq : ∀ q, (c.metadata q).map Envelope.value = s.metadata q
  known_iff : ∀ q, c.known q = true ↔ q = [] ∨ ∃ t ∈ s.named, q <+: t.segments

namespace Contents.Agrees

variable {c : Contents} {s : Shelf}

theorem nothing : Contents.nothing.Agrees {} :=
  ⟨fun _ => rfl, fun _ => rfl, fun q => by simp [Contents.nothing]⟩

/-- What makes the levels of a topic only names it. -/
theorem reach (h : c.Agrees s) (t : Topic) : (c.reach t.segments).Agrees (s.name t) := by
  refine ⟨h.value_eq, h.metadata_eq, fun q => ?_⟩
  have hnamed : (∃ t' ∈ (s.name t).named, q <+: t'.segments) ↔
      (∃ t' ∈ s.named, q <+: t'.segments) ∨ q <+: t.segments := by
    simp [Shelf.name, or_and_right, exists_or]
  show (c.known q || q.isPrefixOf t.segments) = true ↔ _
  rw [Bool.or_eq_true, h.known_iff, List.isPrefixOf_iff_prefix, hnamed, or_assoc]

/-- Keeping a value, or ending one. -/
theorem setValue (h : c.Agrees s) {path : List String} {e? : Option Envelope} {v? : Option Value}
    (hv : e?.map Envelope.value = v?) :
    Contents.Agrees { c with value := Function.update c.value path e? }
      { s with value := Function.update s.value path v? } := by
  refine ⟨fun q => ?_, h.metadata_eq, h.known_iff⟩
  by_cases hq : q = path
  · subst hq
    simpa using hv
  · simpa [hq] using h.value_eq q

theorem setMetadata (h : c.Agrees s) (path : List String) (e : Envelope) :
    Contents.Agrees { c with metadata := Function.update c.metadata path (some e) }
      { s with metadata := Function.update s.metadata path (some e.value) } := by
  refine ⟨h.value_eq, fun q => ?_, h.known_iff⟩
  by_cases hq : q = path
  · subst hq
    simp
  · simpa [hq] using h.metadata_eq q

/-- Whether a value is there already is a matter of values alone. -/
theorem repeats_eq (h : c.Agrees s) (q : List String) (e : Envelope) :
    e.repeats (c.value q) = (s.value q).any (· == e.value) := by
  rw [← h.value_eq q]
  cases c.value q with
  | none => rfl
  | some kept => rfl

/-- A value for a topic. -/
theorem publishValue (h : c.Agrees s) {e : Envelope} (hroot : e.topic.segments ≠ [])
    (hplain : e.topic.suffix = none) :
    (c.publish e).Agrees ((s.publishValue e.topic e.value e.isRetained).name e.topic) := by
  have hreach := h.reach e.topic
  have hdelivered := Contents.delivered?_of_plain (c := c) hroot hplain
  have hjudge := e.map_value_validated (c.metadata e.topic.segments)
  rw [h.metadata_eq] at hjudge
  unfold Shelf.publishValue
  rw [← hjudge]
  cases hvalidated : e.validated (c.metadata e.topic.segments) with
  | error status =>
    rw [hvalidated] at hdelivered
    rw [Contents.publish_of_none hdelivered]
    exact hreach
  | ok e' =>
    obtain ⟨htopic, hretained, -, -, -⟩ := Envelope.validated_ok hvalidated
    rw [hvalidated] at hdelivered
    simp only [Except.map, ← h.repeats_eq]
    by_cases hagain : e'.repeats (c.value e.topic.segments)
    · simp only [if_pos hagain] at hdelivered
      rw [if_pos hagain, Contents.publish_of_none hdelivered]
      exact hreach
    · simp only [if_neg hagain] at hdelivered
      rw [if_neg hagain, Contents.publish_of_some hdelivered]
      unfold Contents.store
      rw [htopic, hretained]
      refine hreach.setValue ?_
      split <;> rfl

/-- A document for a topic. -/
theorem publishMetadata (h : c.Agrees s) {e : Envelope} (hroot : e.topic.segments ≠ [])
    (hsuffix : e.topic.suffix = some .metadataRsp) :
    (c.publish e).Agrees ((s.publishMetadata e.topic e.value).name e.topic) := by
  have hdelivered : c.delivered? e =
      if Metadata.isDocument e.value then some (e, .metadata) else none := by
    unfold Contents.delivered?
    rw [if_neg hroot, hsuffix]
  unfold Shelf.publishMetadata
  by_cases hdocument : Metadata.isDocument e.value
  · rw [if_pos hdocument] at hdelivered
    rw [if_pos hdocument, Contents.publish_of_some hdelivered]
    exact (h.reach e.topic).setMetadata e.topic.segments e
  · rw [if_neg hdocument] at hdelivered
    rw [if_neg hdocument, Contents.publish_of_none hdelivered]
    exact h.reach e.topic

/-- Any envelope. -/
theorem publish (h : c.Agrees s) (e : Envelope) :
    (c.publish e).Agrees ((s.publish e).name e.topic) := by
  unfold Shelf.publish
  by_cases hroot : e.topic.segments = []
  · rw [if_pos (Topic.path_eq_empty_iff_segments.mpr hroot), Contents.publish_of_none (if_pos hroot)]
    exact h.reach e.topic
  · rw [if_neg fun hpath => hroot (Topic.path_eq_empty_iff_segments.mp hpath)]
    -- a message of another kind is delivered, but not kept
    have hother : ∀ k, c.delivered? e = some (e, k) → (∀ c : Contents, c.store e k = c) →
        (c.publish e).Agrees (s.name e.topic) := by
      intro k hdelivered hstore
      rw [Contents.publish_of_some hdelivered, hstore]
      exact h.reach e.topic
    cases hsuffix : e.topic.suffix with
    | none => exact h.publishValue hroot hsuffix
    | some suffix =>
      cases suffix with
      | metadataRsp => exact h.publishMetadata hroot hsuffix
      | metadataReq =>
        refine hother .metadataReq ?_ fun _ => rfl
        simp [Contents.delivered?, hroot, hsuffix]
      | queryReq =>
        refine hother .queryReq ?_ fun _ => rfl
        simp [Contents.delivered?, hroot, hsuffix]
      | queryRsp =>
        refine hother .queryRsp ?_ fun _ => rfl
        simp [Contents.delivered?, hroot, hsuffix]
      | returnCode =>
        refine hother .returnCode ?_ fun _ => rfl
        simp [Contents.delivered?, hroot, hsuffix]

/-- The tree and the shelf agree after a deed if they did before. -/
theorem after (h : c.Agrees s) (d : Deed) : (c.after d).Agrees (s.after d) := by
  cases d with
  | publish e => exact h.publish e
  | announce t code => exact h.reach t
  | enlist t sub =>
    have hreach := h.reach t
    exact ⟨hreach.value_eq, hreach.metadata_eq, hreach.known_iff⟩
  | dismiss t who => exact ⟨h.value_eq, h.metadata_eq, h.known_iff⟩
  | dismissAll who => exact ⟨h.value_eq, h.metadata_eq, h.known_iff⟩
  | clear => exact nothing

theorem foldl (h : c.Agrees s) (ds : List Deed) :
    (ds.foldl Contents.after c).Agrees (ds.foldl Shelf.after s) := by
  induction ds generalizing c s with
  | nil => exact h
  | cons d ds ih => exact ih (h.after d)

end Contents.Agrees

/-! ## Queries -/

namespace Bus

variable {b : Bus} {s : Shelf} {e : Envelope}

/-- The value that is kept at a topic, -/
def keptValue (b : Bus) (t : Topic) : Option Value :=
  ((b.tree.find? t.path).bind b.tree.value?).map Envelope.value

/-- and the metadata. -/
def keptMetadata (b : Bus) (t : Topic) : Option Value :=
  ((b.tree.find? t.path).bind b.tree.metadata?).map Envelope.value

theorem find?_eq (b : Bus) (t : Topic) :
    b.tree.find? t.path = b.tree.descend Tree.root t.segments := b.tree.find?_path t

theorem keptValue_eq (b : Bus) (t : Topic) :
    b.keptValue t = (b.tree.contents.value t.segments).map Envelope.value := by
  unfold keptValue
  rw [find?_eq]
  cases hnode : b.tree.descend Tree.root t.segments with
  | none => rw [Tree.value_of_descend_none hnode, Option.bind_none]
  | some node => rw [Tree.value_of_descend hnode, Option.bind_some]

theorem keptMetadata_eq (b : Bus) (t : Topic) :
    b.keptMetadata t = (b.tree.contents.metadata t.segments).map Envelope.value := by
  unfold keptMetadata
  rw [find?_eq]
  cases hnode : b.tree.descend Tree.root t.segments with
  | none => rw [Tree.metadata_of_descend_none hnode, Option.bind_none]
  | some node => rw [Tree.metadata_of_descend hnode, Option.bind_some]

theorem keptValue_of_agrees (h : b.tree.contents.Agrees s) (t : Topic) :
    b.keptValue t = s.value t.segments := by
  rw [keptValue_eq, h.value_eq]

theorem keptMetadata_of_agrees (h : b.tree.contents.Agrees s) (t : Topic) :
    b.keptMetadata t = s.metadata t.segments := by
  rw [keptMetadata_eq, h.metadata_eq]

theorem knows_iff (h : b.tree.contents.Agrees s) (t : Topic) :
    s.knows t = (b.tree.find? t.path).isSome := by
  rw [find?_eq, ← Tree.known_eq, Bool.eq_iff_iff, h.known_iff]
  unfold Shelf.knows
  simp [Topic.startsWith_iff, Topic.path_eq_empty_iff_segments]

/-- What is looked up is on the shelf. -/
theorem lookup_eq (h : b.tree.contents.Agrees s) (t : Topic) : b.lookup t = s.answer t := by
  have hvalue := keptValue_of_agrees h t
  have hmetadata := keptMetadata_of_agrees h t
  unfold keptValue at hvalue
  unfold keptMetadata at hmetadata
  unfold lookup Shelf.answer
  rw [knows_iff h, ← hvalue, ← hmetadata]
  cases b.tree.find? t.path with
  | none => rfl
  | some node =>
    simp only [Option.isSome_some, if_true, Option.bind_some]
    cases t.suffix with
    | none => rfl
    | some suffix => cases suffix <;> rfl

/-- A query that waits is answered when it is handled. -/
theorem outcome?_query {base : CallSlots} {es : List Envelope} {call : PendingCall} {t : Topic}
    (hsound : b.Sound base (e :: es)) (hagrees : b.tree.contents.Agrees s)
    (htopic : e.topic = .query) (hcontrol : e.control = some (.query t)) (hcall : e.call = some call) :
    (b.handleCommand e).calls.slots.outcome? call.slot = some (s.outcome t) := by
  have hlocal : e.topic.isLocal := by
    rw [htopic]
    decide
  have hanswer : (b.localCommand { e with call := none }).1 = s.outcome t := by
    have hsub : Topic.query ≠ .subscribe := by decide
    have hunsub : Topic.query ≠ .unsubscribe := by decide
    have hunsubAll : Topic.query ≠ .unsubscribeAll := by decide
    unfold localCommand Shelf.outcome
    simp only [htopic, hcontrol, if_neg hsub, if_neg hunsub, if_neg hunsubAll, if_true,
      lookup_eq hagrees t]
    cases s.answer t <;> rfl
  rw [hsound.outcome?_of_isLocal hcall hlocal, hanswer]

end Bus

namespace Dispatcher

/-- What the rule makes of the history of a run. -/
def shelf (config : BusConfig) (as : List Action) : Shelf :=
  (history config as).foldl Shelf.after {}

theorem shelf_append (config : BusConfig) (as bs : List Action) :
    shelf config (as ++ bs) =
      ((run config as).historyFrom bs).foldl Shelf.after (shelf config as) := by
  unfold shelf
  rw [history_append, List.foldl_append]

theorem run_agrees (config : BusConfig) (as : List Action) :
    (run config as).bus.tree.contents.Agrees (shelf config as) := by
  rw [(run_contents config as).2]
  exact Contents.Agrees.nothing.foldl (history config as)

/-- In every state of every run, the tree keeps at each topic the value and the metadata that are on
the shelf. A query answers from the shelf: a value or metadata, null if there are none, and not found
exactly if the topic is not the root, and neither it nor any topic below it was named by an envelope,
a return code or a subscription. -/
theorem run_shelf (config : BusConfig) (as : List Action) (t : Topic) :
    let d := run config as
    let s := shelf config as
    (d.bus.keptValue t = s.value t.segments ∧ d.bus.keptMetadata t = s.metadata t.segments) ∧
    d.bus.lookup t = s.answer t ∧
    (s.answer t = .error .notFound ↔ t.path ≠ "" ∧ ∀ named ∈ s.named, ¬ named.startsWith t) ∧
    ∀ e es call, d.phase.commandsLeft = e :: es → e.topic = .query →
      e.control = some (.query t) → e.call = some call →
      d.advance.outcome? call.slot = some (s.outcome t) := by
  intro d s
  have hagrees : d.bus.tree.contents.Agrees s := run_agrees config as
  refine ⟨⟨Bus.keptValue_of_agrees hagrees t, Bus.keptMetadata_of_agrees hagrees t⟩,
    Bus.lookup_eq hagrees t, ?_, ?_⟩
  · have hknows : s.knows t = true ↔ t.path = "" ∨ ∃ named ∈ s.named, named.startsWith t := by
      unfold Shelf.knows
      simp
    unfold Shelf.answer
    by_cases hknown : s.knows t
    · rw [if_pos hknown]
      refine iff_of_false ?_ ?_
      · split <;> exact nofun
      · rintro ⟨hroot, hnone⟩
        rcases hknows.mp hknown with hpath | ⟨named, hmem, hstarts⟩
        · exact hroot hpath
        · exact hnone named hmem hstarts
    · rw [if_neg hknown]
      refine iff_of_true rfl ⟨?_, ?_⟩
      · exact fun hpath => hknown (hknows.mpr (Or.inl hpath))
      · exact fun named hmem hstarts => hknown (hknows.mpr (Or.inr ⟨named, hmem, hstarts⟩))
  · intro e es call hnext htopic hcontrol hcall
    have hphase : d.phase = .commands (e :: es) := phase_of_commandsLeft hnext
    have hsound : d.bus.Sound {} (e :: es) := by
      have hbus := (sound_run config as).bus
      rw [show (run config as).phase.commandsLeft = e :: es from hnext] at hbus
      exact hbus
    have hfinalize : e.topic ≠ .finalize := by
      rw [htopic]
      decide
    unfold outcome?
    rw [advance_of_commands hphase hfinalize]
    exact Bus.outcome?_query hsound hagrees htopic hcontrol hcall

end Dispatcher
end InstrumentBus
