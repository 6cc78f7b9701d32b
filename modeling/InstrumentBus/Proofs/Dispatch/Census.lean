import Mathlib
import InstrumentBus.Proofs.Dispatch.Inventory
import InstrumentBus.Proofs.Dispatch.Mirror
import InstrumentBus.Proofs.Dispatch.Repeats

/-!
# A list of the devices from what is heard

Whoever listens to the driver can keep its own list of the devices. It hears of them in two ways: when
it subscribes it is told of the devices that are there, and from then on of each that comes or goes.

`recount` is what an envelope does to such a list, and `Deed.recount` what a deed does. The list that
the deeds make is the registry (`run_counts`), and what a listener hears does to its list what the
deeds do (`Counting`), so the two lists are one: `run_census`.
-/

namespace InstrumentBus

/-! ## Counting -/

/-- Where devices are announced, when they come and when they go. -/
def Topic.announcing : List Topic := [.deviceAdd, .deviceRemove]

/-- These are plain topics of actions. -/
theorem Topic.announcing_spec :
    ∀ t ∈ announcing, t.segments ≠ [] ∧ t.suffix = none ∧ t.isAction = true := by
  decide

/-- What becomes of a list of prefixes by an envelope: a device that comes is added at the end, and one
that goes is taken out. -/
def recount (known : List String) (e : Envelope) : List String :=
  match e.value with
  | .str name =>
    if e.topic = .deviceAdd then known ++ [name]
    else if e.topic = .deviceRemove then known.erase name
    else known
  | _ => known

section Recount

variable {known : List String} {e : Envelope} {es : List Envelope} {name : String}

theorem recount_deviceAdd (he : e.topic = .deviceAdd) (hvalue : e.value = .str name) :
    recount known e = known ++ [name] := by
  unfold recount
  rw [hvalue]
  exact if_pos he

theorem recount_deviceRemove (he : e.topic = .deviceRemove) (hvalue : e.value = .str name) :
    recount known e = known.erase name := by
  have hother : e.topic ≠ .deviceAdd := by
    rw [he]
    decide
  unfold recount
  rw [hvalue]
  simp only
  rw [if_neg hother, if_pos he]

theorem recount_of_notMem (he : e.topic ∉ Topic.announcing) (known : List String) :
    recount known e = known := by
  obtain ⟨hadd, hremove⟩ := not_or.mp (List.mem_pair.not.mp he)
  unfold recount
  split
  · rw [if_neg hadd, if_neg hremove]
  · rfl

theorem foldl_recount_of_notMem (h : ∀ e ∈ es, e.topic ∉ Topic.announcing) (known : List String) :
    es.foldl recount known = known := by
  induction es with
  | nil => rfl
  | cons e es ih =>
    obtain ⟨he, hes⟩ := List.forall_mem_cons.mp h
    rw [List.foldl_cons, recount_of_notMem he]
    exact ih hes

end Recount

namespace Deed

/-- What becomes of a list of prefixes by a deed. The end of the tree is that of all devices. -/
def recount (known : List String) : Deed → List String
  | .publish e => InstrumentBus.recount known e
  | .clear => []
  | _ => known

/-- The deed publishes no metadata for announcements. -/
def describesNone : Deed → Prop
  | .publish e => ∀ t ∈ Topic.announcing, e.topic ≠ t.withSuffix .metadataRsp
  | _ => True

/-- The deed starts a subscription of a listener. -/
def enlists (n : Nat) : Deed → Prop
  | .enlist _ s => s.subscriber = .client n
  | _ => False

instance (deed : Deed) (n : Nat) : Decidable (deed.enlists n) :=
  match deed with
  | .enlist _ s => inferInstanceAs (Decidable (s.subscriber = .client n))
  | .publish _ | .announce _ _ | .dismiss _ _ | .dismissAll _ | .clear =>
    inferInstanceAs (Decidable False)

end Deed

/-- Deeds make one list of prefixes of another, and nothing that restricts announcements. -/
structure Counts (deeds : List Deed) (before after : List String) : Prop where
  recount_eq : deeds.foldl Deed.recount before = after
  describesNone : ∀ deed ∈ deeds, deed.describesNone

namespace Counts

variable {deeds deeds' : List Deed} {before after after' : List String}

theorem nil (known : List String) : Counts [] known known := ⟨rfl, List.forall_mem_nil _⟩

theorem append (h : Counts deeds before after) (h' : Counts deeds' after after') :
    Counts (deeds ++ deeds') before after' := by
  refine ⟨?_, List.forall_mem_append.mpr ⟨h.describesNone, h'.describesNone⟩⟩
  rw [List.foldl_append, h.recount_eq, h'.recount_eq]

/-- Where nothing is announced, the list stays as it is. -/
theorem of_avoids (h : ∀ deed ∈ deeds, ∀ t ∈ Topic.announcing, deed.avoids t) (known : List String) :
    Counts deeds known known := by
  induction deeds with
  | nil => exact nil known
  | cons deed deeds ih =>
    obtain ⟨hdeed, hdeeds⟩ := List.forall_mem_cons.mp h
    obtain ⟨hrecount, hnone⟩ := ih hdeeds
    have hfirst : deed.recount known = known ∧ deed.describesNone := by
      cases deed with
      | publish e =>
        exact ⟨recount_of_notMem (fun he => (hdeed _ he).1 rfl) known, fun t ht => (hdeed t ht).2⟩
      | clear => exact (hdeed _ List.mem_cons_self).elim
      | _ => exact ⟨rfl, trivial⟩
    refine ⟨?_, List.forall_mem_cons.mpr ⟨hfirst.2, hnone⟩⟩
    rw [List.foldl_cons, hfirst.1]
    exact hrecount

end Counts

/-! ## The registry -/

namespace Devices

variable {d d' : Devices} {device : Device} {topic : Topic} {p : InboxId} {name : String}

/-- The prefixes of the devices, in the order in which they were registered. -/
def prefixes (d : Devices) : List String := d.list.map (·.topic.text)

theorem prefixes_add? (h : d.add? topic p = some (device, d')) :
    d'.prefixes = d.prefixes ++ [topic.text] := by
  obtain ⟨-, -, hlist⟩ := add?_eq_some h
  unfold prefixes
  rw [hlist, List.map_append]
  rfl

theorem prefixes_remove? (h : d.remove? name = some (device, d')) :
    d'.prefixes = d.prefixes.erase name := by
  obtain ⟨found, -, heq⟩ := Option.map_eq_some_iff.mp h
  cases heq
  unfold prefixes
  rw [List.erase_eq_eraseP', List.eraseP_map]
  rfl

end Devices

/-- An envelope that asks to register a device is for the prefix of the device. -/
def Envelope.Announces (e : Envelope) : Prop :=
  ∀ device, e.candidate = some device → e.value = .str device.topic.text

theorem Envelope.announces_of_candidate {e : Envelope} (h : e.candidate = none) : e.Announces := by
  intro device hdevice
  rw [h] at hdevice
  cases hdevice

namespace Bus

variable {b : Bus} {e : Envelope} {s : Submission}

theorem textEnvelope_value (b : Bus) (t : Topic) (text : String) :
    (b.textEnvelope t text).value = .str text := (Envelope.make_spec ..).1

/-- Of those outside only whoever registers a device asks for one, and by its prefix. -/
theorem announces_messageOf? (he : b.messageOf? s = some e) : e.Announces := by
  have hpassed : ∀ {e' : Envelope}, b.passed? e' = some e → e' = e := by
    intro e' he'
    unfold passed? at he'
    split at he'
    · exact Option.some.inj he'
    · cases he'
  cases s with
  | send e' =>
    rw [← hpassed he]
    exact Envelope.announces_of_candidate rfl
  | registerDevice name =>
    obtain ⟨topic, -, he⟩ := Option.bind_eq_some_iff.mp he
    rw [← hpassed he]
    intro device hdevice
    cases hdevice
    exact b.textEnvelope_value _ _
  | unregisterDevice name =>
    obtain ⟨topic, -, he⟩ := Option.bind_eq_some_iff.mp he
    rw [← hpassed he]
    refine Envelope.announces_of_candidate ?_
    unfold Envelope.candidate textEnvelope envelope
    rw [Envelope.make_control]
  | _ => cases he

theorem listEnvelope_notMem (devices : Devices) (sizes : BufferSizes) :
    (devices.listEnvelope sizes).topic ∉ Topic.announcing ∧
      (Deed.publish (devices.listEnvelope sizes)).describesNone := by
  have htopic : (devices.listEnvelope sizes).topic = .deviceList := Envelope.make_topic ..
  have hother : Topic.deviceList ∉ Topic.announcing ∧
      ∀ t ∈ Topic.announcing, Topic.deviceList ≠ t.withSuffix .metadataRsp := by
    decide
  rw [← htopic] at hother
  exact hother

/-- A change to the registry is announced, and then the new list is published. -/
theorem counts_change {known : List String} {first : Deed} {devices : Devices}
    (hfirst : ∀ t, first.avoids t) (he : e.topic ∈ Topic.announcing)
    (hrecount : recount known e = devices.prefixes) (sizes : BufferSizes) :
    Counts [first, .publish e, .publish (devices.listEnvelope sizes)] known devices.prefixes := by
  obtain ⟨hlist, hdescribes⟩ := listEnvelope_notMem devices sizes
  have hothers : Counts [.publish e, .publish (devices.listEnvelope sizes)] known
      devices.prefixes := by
    refine ⟨?_, List.forall_mem_cons.mpr ⟨?_, List.forall_mem_singleton.mpr hdescribes⟩⟩
    · simp only [List.foldl_cons, List.foldl_nil, Deed.recount]
      rw [hrecount, recount_of_notMem hlist]
    · intro t ht htopic
      rw [htopic] at he
      fin_cases ht <;> exact absurd he (by decide)
  exact (Counts.of_avoids (List.forall_mem_singleton.mpr fun t _ => hfirst t) _).append hothers

/-- A device that is registered is announced, and so is one that is taken out; who asks in vain causes
nothing. -/
theorem counts_backendPlan (b : Bus) (hannounces : e.Announces) :
    Counts (b.backendPlan e).deeds b.devices.prefixes (b.backendPlan e).bus.devices.prefixes := by
  have hnothing := Counts.nil b.devices.prefixes
  unfold backendPlan
  split
  · split
    · rename_i htopic
      split
      · rename_i topic p hcontrol
        unfold addPlan
        cases hadd : b.devices.add? topic p with
        | none => exact hnothing
        | some added =>
          obtain ⟨device, devices⟩ := added
          have hvalue := hannounces _ (Envelope.candidate_of_control hcontrol)
          refine counts_change (fun t => ?_) ?_ ?_ _
          · exact trivial
          · show e.topic ∈ _
            rw [htopic]
            decide
          · rw [Devices.prefixes_add? hadd]
            exact recount_deviceAdd htopic hvalue
      · exact hnothing
    · split
      · rename_i htopic
        split
        · rename_i name hvalue
          unfold removePlan
          cases hremove : b.devices.remove? name with
          | none => exact hnothing
          | some removed =>
            obtain ⟨device, devices⟩ := removed
            refine counts_change (fun t => ?_) ?_ ?_ _
            · exact trivial
            · rw [htopic]
              decide
            · rw [Devices.prefixes_remove? hremove]
              exact recount_deviceRemove htopic hvalue
        · exact hnothing
      · exact hnothing
  · rename_i hdriver
    refine .of_avoids (List.forall_mem_singleton.mpr fun t ht => ?_) _
    have hother : ∀ t' : Topic, t'.isDriver → e.topic ≠ t' := by
      rintro t' ht' rfl
      exact hdriver ht'
    fin_cases ht <;> exact ⟨hother _ (by decide), hother _ (by decide)⟩

/-- No command but a publication of announcements touches them. -/
theorem counts_commandPlan (b : Bus)
    (he : ∀ t ∈ Topic.announcing, e.topic ≠ t ∧ e.topic ≠ t.withSuffix .metadataRsp)
    (known : List String) : Counts (b.commandPlan e).deeds known known := by
  unfold commandPlan
  split
  · refine .of_avoids (List.forall_mem_append.mpr ⟨fun deed hdeed t _ => ?_, ?_⟩) _
    · exact avoids_localDeeds e t deed hdeed
    · exact List.forall_mem_singleton.mpr fun t _ => trivial
  · refine .of_avoids (List.forall_mem_singleton.mpr ?_) _
    exact he

end Bus

namespace Dispatcher

variable {d : Dispatcher} {a : Action}

theorem counts_advance (hrooted : d.bus.tree.Rooted)
    (hmessages : ∀ e ∈ d.messagesHandled .advance, e.Announces)
    (hcommands : ∀ e ∈ d.commandsHandled .advance,
      ∀ t ∈ Topic.announcing, e.topic ≠ t ∧ e.topic ≠ t.withSuffix .metadataRsp) :
    Counts d.plan.deeds d.bus.devices.prefixes d.advance.bus.devices.prefixes := by
  by_cases hclosing : d.phase = .closing
  · -- with the tree the registry is taken down
    obtain ⟨b, phase⟩ := d
    obtain rfl : phase = .closing := hclosing
    exact ⟨rfl, List.forall_mem_singleton.mpr trivial⟩
  · rw [devices_advance hrooted hclosing]
    obtain ⟨b, phase⟩ := d
    have hnothing := Counts.nil b.devices.prefixes
    cases phase with
    | backends es =>
      cases es with
      | nil => exact hnothing
      | cons e es => exact b.counts_backendPlan (hmessages e (List.mem_singleton_self e))
    | commands es =>
      cases es with
      | nil => exact hnothing
      | cons e es =>
        by_cases he : e.topic = .finalize
        · simp only [plan, if_pos he]
          exact hnothing
        · obtain ⟨calls, hbus⟩ := b.bus_commandPlan e
          have hmem : e ∈ (⟨b, .commands (e :: es)⟩ : Dispatcher).commandsHandled .advance := by
            rw [commandsHandled_of_commands rfl he]
            exact List.mem_singleton_self e
          simp only [plan, if_neg he]
          rw [hbus]
          exact b.counts_commandPlan (hcommands e hmem) _
    | closing => exact absurd rfl hclosing
    | _ => exact hnothing

theorem counts_act (hrooted : d.bus.tree.Rooted)
    (hmessages : ∀ e ∈ d.messagesHandled a, e.Announces)
    (hcommands : ∀ e ∈ d.commandsHandled a,
      ∀ t ∈ Topic.announcing, e.topic ≠ t ∧ e.topic ≠ t.withSuffix .metadataRsp) :
    Counts (d.deedsOf a) d.bus.devices.prefixes (d.act a).bus.devices.prefixes := by
  by_cases ha : a = .advance
  · subst ha
    exact counts_advance hrooted hmessages hcommands
  · rw [deedsOf_of_ne ha, devices_act ha]
    exact .nil _

/-- Every envelope of a backend that is handled came in from outside. -/
theorem announces_run (config : BusConfig) (as : List Action) :
    ∀ e ∈ (run config as).messagesHandled a, e.Announces := by
  intro e he
  have hall : ∀ e ∈ allMessages config as, e.Announces := by
    refine List.forall_mem_append.mpr ⟨?_, forall_mem_logFrom ?_ _ as⟩
    · obtain ⟨posts, hposted⟩ := Bus.exists_posted_performAll (b := { config }) Tree.rooted_empty
        (opening config)
      rw [start_eq, hposted.backend_eq]
      exact List.forall_mem_nil _
    · intro d a e he
      cases a with
      | submit s | submitLate s => exact Bus.announces_messageOf? (Option.mem_toList.mp he)
      | _ => exact absurd he List.not_mem_nil
  cases a with
  | advance =>
    obtain ⟨es, hphase⟩ := phase_of_mem_messagesHandled he
    have hsent := (accounted_run config as).sent_eq (by
      rw [hphase]
      nofun)
    refine hall e ?_
    rw [hsent, messagesAhead, hphase]
    simp [Phase.backendsLeft]
  | _ => exact absurd he List.not_mem_nil

/-- The list that the deeds make is that of the registry. -/
theorem run_counts (config : BusConfig) (as : List Action)
    (hhandled : ∀ e ∈ handledCommands config as,
      ∀ t ∈ Topic.announcing, e.topic ≠ t ∧ e.topic ≠ t.withSuffix .metadataRsp) :
    Counts (history config as) [] (run config as).bus.devices.prefixes := by
  induction as using List.reverseRecOn with
  | nil =>
    have hopening : history config [] = opening config := List.append_nil _
    have hdevices : (run config []).bus.devices = {} := devices_start config
    rw [hopening, hdevices]
    refine .of_avoids (List.forall_mem_cons.mpr ⟨?_, List.forall_mem_singleton.mpr ?_⟩) _
    · show ∀ t ∈ Topic.announcing, (Envelope.make _ _ _ _).topic ≠ t ∧ (Envelope.make _ _ _ _).topic ≠ _
      rw [Envelope.make_topic]
      decide
    · show ∀ t ∈ Topic.announcing, (Envelope.make _ _ _ _).topic ≠ t ∧ (Envelope.make _ _ _ _).topic ≠ _
      rw [Envelope.make_topic]
      decide
  | append_singleton as a ih =>
    unfold handledCommands at hhandled
    rw [logFrom_concat] at hhandled
    obtain ⟨hbefore, hlast⟩ := List.forall_mem_append.mp hhandled
    have hdeeds : (run config as).historyFrom [a] = (run config as).deedsOf a := List.append_nil _
    rw [history_append, hdeeds, run_append]
    exact (ih hbefore).append (counts_act (run_contents config as).1 (announces_run config as) hlast)

end Dispatcher

/-! ## The listener -/

namespace Contents

variable {c : Contents} {e : Envelope} {deed : Deed}

/-- There are no metadata that could change announcements. -/
def Undescribed (c : Contents) : Prop := ∀ t ∈ Topic.announcing, c.metadata t.segments = none

theorem Undescribed.after (h : c.Undescribed) (hdeed : deed.describesNone) :
    (c.after deed).Undescribed := by
  intro t ht
  have hnone := h t ht
  cases deed with
  | publish e =>
    show (c.publish e).metadata t.segments = none
    cases hdelivered : c.delivered? e with
    | none =>
      rw [publish_of_none hdelivered]
      exact hnone
    | some d =>
      obtain ⟨e', k⟩ := d
      obtain ⟨-, htopic, -, -, -, -, -, hmetadata⟩ := delivered?_eq_some hdelivered
      rw [publish_of_some hdelivered]
      cases k with
      | metadata =>
        have hother : t.segments ≠ e'.topic.segments := by
          intro hsegments
          refine hdeed t ht (Topic.eq_of_segments ?_ ?_)
          · rw [Topic.segments_withSuffix, hsegments, htopic]
          · rw [Topic.suffix_withSuffix]
            exact hmetadata.mp rfl
        exact (Function.update_of_ne hother _ c.metadata).trans hnone
      | _ => exact hnone
  | clear => rfl
  | _ => exact hnone

theorem Undescribed.foldl_after (h : c.Undescribed) {deeds : List Deed}
    (hdeeds : ∀ deed ∈ deeds, deed.describesNone) : (deeds.foldl Contents.after c).Undescribed := by
  induction deeds generalizing c with
  | nil => exact h
  | cons deed deeds ih =>
    obtain ⟨hdeed, hdeeds⟩ := List.forall_mem_cons.mp hdeeds
    exact ih (h.after hdeed) hdeeds

/-- Announcements are told as they are. -/
theorem Labelled.delivered?_of_announcing (h : c.Labelled) (hnone : c.Undescribed)
    (he : e.topic ∈ Topic.announcing) : c.delivered? e = some (e, .publish) := by
  obtain ⟨hroot, hplain, haction⟩ := Topic.announcing_spec _ he
  have hvalidated : e.validated (c.metadata e.topic.segments) = .ok e := by
    rw [hnone _ he]
    rfl
  -- no action is kept, so it does not repeat anything
  have hnew : e.repeats (c.value e.topic.segments) = false := by
    cases hkept : c.value e.topic.segments with
    | none => rfl
    | some x =>
      obtain ⟨hsegments, hsuffix, hno⟩ := h.value _ x hkept
      rw [Topic.eq_of_segments hsegments (hsuffix.trans hplain.symm), haction] at hno
      cases hno
  rw [delivered?_of_plain hroot hplain, hvalidated]
  simp only [hnew]
  rfl

theorem AreCodes.notMem_announcing {posts : List Post} {who : SubscriberId} (h : c.AreCodes posts) :
    ∀ e ∈ postsTo who posts, e.topic ∉ Topic.announcing := by
  intro e he hannouncing
  have hsuffix : e.topic.suffix = some .returnCode := (h _ (mem_postsTo.mp he)).1
  rw [(Topic.announcing_spec _ hannouncing).2.1] at hsuffix
  cases hsuffix

end Contents

/-- A topic is at the top of the announcements. -/
theorem Topic.startsWith_of_mem_announcing {p : Topic} (hp : p.path = "@") :
    ∀ t ∈ announcing, t.startsWith p = true := by
  have hpath : p.path = Topic.path ⟨"@", by decide⟩ := hp.trans (by decide)
  intro t ht
  rw [startsWith_iff, path_eq_iff.mp hpath]
  revert t
  decide

namespace Roster

variable {L : Roster} {n : Nat} {p : Topic} {flags : SubscribeFlags} {deed : Deed}

/-- A listener that has one subscription and is to keep it has it still after a deed that starts no
other. -/
theorem held_after_of_spares (h : L.held (.client n) = [⟨p, ⟨.client n, flags⟩⟩])
    (hspares : deed.spares n p) (hother : ¬ deed.enlists n) :
    (L.after deed).held (.client n) = [⟨p, ⟨.client n, flags⟩⟩] := by
  cases deed with
  | publish e | announce t code => exact h
  | enlist t s =>
    have hsteady : (Deed.enlist t s).steady t (.client n) := hother
    exact (held_after hsteady L).trans h
  | dismiss t who =>
    -- it may be the listener itself, at another topic
    have hstays : ¬ (p.path = t.path ∧ SubscriberId.client n = who) :=
      fun hboth => hspares ⟨hboth.1.symm, hboth.2.symm⟩
    show held (L.filter _) (.client n) = _
    unfold held at h ⊢
    rw [List.filter_comm, h]
    exact List.filter_cons_of_pos (decide_eq_true hstays)
  | dismissAll who =>
    have hsteady : (Deed.dismissAll who).steady p (.client n) := hspares
    exact (held_after hsteady L).trans h
  | clear => exact hspares.elim

theorem timesTold_of_announcing (h : L.held (.client n) = [⟨p, ⟨.client n, flags⟩⟩])
    (hp : p.path = "@") (hpublish : flags.publish = true) {t : Topic} (ht : t ∈ Topic.announcing) :
    L.timesTold (.client n) t = 1 := by
  have htakes : Entry.takes ⟨p, ⟨.client n, flags⟩⟩ t .publish none = true := by
    unfold Entry.takes Subscription.accepts
    rw [Topic.startsWith_of_mem_announcing hp t ht, hpublish]
    rfl
  unfold timesTold
  rw [h, List.countP_singleton, htakes]
  rfl

end Roster

namespace Contents

variable {c : Contents} {L : Roster} {n : Nat} {p : Topic} {flags : SubscribeFlags} {deed : Deed}
  {posts : List Post}

/-- What a listener with one subscription, above the announcements, is told by a deed does to its list
what the deed does. -/
theorem foldl_recount_of_tells (hlabelled : c.Labelled) (henrolled : c.Enrolled L)
    (hheld : L.held (.client n) = [⟨p, ⟨.client n, flags⟩⟩]) (hnone : c.Undescribed)
    (hp : p.path = "@") (hpublish : flags.publish = true) (hspares : deed.spares n p)
    (hother : ¬ deed.enlists n) (htells : c.Tells posts deed) (known : List String) :
    (postsTo (.client n) posts).foldl recount known = deed.recount known := by
  cases deed with
  | publish e =>
    obtain ⟨codes, hcodes, rfl⟩ := htells
    rw [postsTo_append, List.foldl_append, foldl_recount_of_notMem hcodes.notMem_announcing]
    by_cases he : e.topic ∈ Topic.announcing
    · have horigin : e.origin ≠ some (.client n) := hspares
      rw [posts_of_some (hlabelled.delivered?_of_announcing hnone he), postsTo_map,
        henrolled.recipients_eq, Roster.count_invited_eq_timesTold horigin,
        Roster.timesTold_of_announcing hheld hp hpublish he]
      rfl
    · rw [show Deed.recount known (.publish e) = known from recount_of_notMem he known]
      refine foldl_recount_of_notMem (fun x hx => ?_) known
      cases hdelivered : c.delivered? e with
      | none =>
        rw [posts_of_none hdelivered] at hx
        cases hx
      | some d =>
        rw [posts_of_some hdelivered, postsTo_map] at hx
        rw [List.eq_of_mem_replicate hx, (delivered?_eq_some hdelivered).2.1]
        exact he
  | announce t code => exact foldl_recount_of_notMem (AreCodes.notMem_announcing htells) known
  | enlist t s =>
    obtain ⟨told, rfl, -⟩ := htells
    have hnothing : postsTo (.client n) (told.map (s.subscriber, ·)) = [] := by
      refine postsTo_eq_nil fun x hx hwho => hother ?_
      obtain ⟨e, -, rfl⟩ := List.mem_map.mp hx
      exact hwho
    rw [hnothing]
    rfl
  | dismiss t who | dismissAll who =>
    obtain rfl : posts = [] := htells
    rfl
  | clear => exact hspares.elim

end Contents

namespace Bus

variable {b b' : Bus} {n : Nat} {p : Topic} {flags : SubscribeFlags} {first : List Envelope}
  {known : List String} {deed : Deed} {L : Roster}

/-- A listener has one subscription, and what it was given since it was given `first` makes the list
`known`. -/
structure Counting (n : Nat) (p : Topic) (flags : SubscribeFlags) (first : List Envelope)
    (known : List String) (b : Bus) : Prop where
  there : n < b.audience.listeners.length
  subscribed : ∃ L, b.tree.contents.Enrolled L ∧ L.held (.client n) = [⟨p, ⟨.client n, flags⟩⟩]
  undescribed : b.tree.contents.Undescribed
  told : ∃ since, b.given (.client n) = first ++ since ∧ since.foldl recount [] = known

theorem Counting.untold (h : b.Counting n p flags first known) (huntold : b.Untold b') :
    b'.Counting n p flags first known := by
  obtain ⟨htree, hrecord, hle⟩ := huntold
  have hgiven : b'.given (.client n) = b.given (.client n) := by
    unfold given Audience.heardBy
    rw [hrecord]
  obtain ⟨hthere, hsubscribed, hundescribed, htold⟩ := h
  rw [← htree] at hsubscribed hundescribed
  rw [← hgiven] at htold
  exact ⟨Nat.lt_of_lt_of_le hthere hle, hsubscribed, hundescribed, htold⟩

theorem Counting.perform (h : b.Counting n p flags first known) (hrooted : b.tree.Rooted)
    (hlabelled : b.tree.contents.Labelled) (hp : p.path = "@") (hpublish : flags.publish = true)
    (hspares : deed.spares n p) (hother : ¬ deed.enlists n) (hdescribes : deed.describesNone) :
    (b.perform deed).Counting n p flags first (deed.recount known) := by
  obtain ⟨hthere, ⟨L, henrolled, hheld⟩, hundescribed, since, hgiven, hknown⟩ := h
  obtain ⟨posts, htells, heffect⟩ := effect_perform hrooted deed
  refine ⟨?_, ⟨L.after deed, ?_, ?_⟩, ?_, since ++ postsTo (.client n) posts, ?_, ?_⟩
  · rw [heffect.posted.listeners_eq]
    exact hthere
  · rw [heffect.contents_eq]
    exact henrolled.after deed
  · exact Roster.held_after_of_spares hheld hspares hother
  · rw [heffect.contents_eq]
    exact hundescribed.after hdescribes
  · rw [heffect.posted.given_client hthere, hgiven, List.append_assoc]
  · rw [List.foldl_append, hknown]
    exact Contents.foldl_recount_of_tells hlabelled henrolled hheld hundescribed hp hpublish hspares
      hother htells known

/-- The announcements of the devices that are there make the list of the registry. -/
theorem foldl_recount_deviceAnnouncements (b : Bus) :
    b.deviceAnnouncements.foldl recount [] = b.devices.prefixes := by
  have hall : ∀ (devices : List Device) (known : List String),
      (devices.map fun d => b.textEnvelope .deviceAdd d.topic.text).foldl recount known =
        known ++ devices.map (·.topic.text) := by
    intro devices
    induction devices with
    | nil => exact fun known => (List.append_nil known).symm
    | cons device devices ih =>
      intro known
      have htopic : (b.textEnvelope .deviceAdd device.topic.text).topic = .deviceAdd :=
        envelope_topic ..
      rw [List.map_cons, List.foldl_cons, ih, recount_deviceAdd htopic (b.textEnvelope_value _ _),
        List.append_assoc]
      rfl
  exact hall b.devices.list []

/-- A listener that subscribes is told of the devices that are there, and nothing that is kept is an
announcement. -/
theorem counting_enlist (hrooted : b.tree.Rooted) (hlabelled : b.tree.contents.Labelled)
    (henrolled : b.tree.contents.Enrolled L) (hheld : L.held (.client n) = [])
    (hundescribed : b.tree.contents.Undescribed) (hn : n < b.audience.listeners.length)
    (hp : p.path = "@") (hretain : flags.retain = true) :
    (b.perform (.enlist p ⟨.client n, flags⟩)).Counting n p flags (b.given (.client n))
      b.devices.prefixes := by
  obtain ⟨kept, heffect, hkept, -⟩ := effect_startSubscription hrooted p ⟨.client n, flags⟩
  have hhears : hearsDevices p = true := by
    unfold hearsDevices
    rw [hp]
    rfl
  rw [hretain, hhears] at heffect
  refine ⟨?_, ⟨L.after (.enlist p ⟨.client n, flags⟩), ?_, ?_⟩, ?_, b.deviceAnnouncements ++ kept,
    ?_, ?_⟩
  · rw [perform, heffect.posted.listeners_eq]
    exact hn
  · rw [perform, heffect.contents_eq]
    exact henrolled.after (.enlist p ⟨.client n, flags⟩)
  · show Roster.held (L ++ [_]) _ = _
    unfold Roster.held at hheld ⊢
    rw [List.filter_append, hheld]
    simp [Entry.who]
  · rw [perform, heffect.contents_eq]
    exact hundescribed
  · rw [perform, heffect.posted.given_client hn, postsTo_map_self]
    rfl
  · rw [List.foldl_append, foldl_recount_deviceAnnouncements]
    refine foldl_recount_of_notMem (fun e he hannouncing => ?_) _
    obtain ⟨-, hplain, haction⟩ := Topic.announcing_spec _ hannouncing
    obtain ⟨q, hq⟩ := hkept e he
    exact hlabelled.topic_ne_of_isAction (hlabelled.keeps hq) hplain haction rfl

/-- Whoever has no subscription at any node is not on the roster. -/
theorem held_of_alone (hrooted : b.tree.Rooted) (henrolled : b.tree.contents.Enrolled L)
    (halone : ∀ node ∈ b.tree.nodes, ∀ s ∈ node.subscriptions, s.subscriber ≠ .client n) :
    L.held (.client n) = [] := by
  refine List.filter_eq_nil_iff.mpr fun entry hentry hwho => ?_
  obtain ⟨s, hs, hsubscriber⟩ := (henrolled.exists_mem_listeners entry.topic (.client n)).mpr
    ⟨entry, hentry, rfl, of_decide_eq_true hwho⟩
  cases hnode : b.tree.descend Tree.root entry.topic.segments with
  | none =>
    rw [Tree.listeners_of_descend_none hnode] at hs
    cases hs
  | some id =>
    rw [Tree.listeners_of_descend hnode] at hs
    have hlt := (hrooted.descend_eq_some_iff.mp hnode).1
    have hmem : b.tree.node id ∈ b.tree.nodes := by
      unfold Tree.node
      rw [List.getElem?_eq_getElem hlt]
      exact List.getElem_mem hlt
    exact halone _ hmem s hs hsubscriber

end Bus

namespace Dispatcher

variable {d : Dispatcher} {n : Nat} {p : Topic} {flags : SubscribeFlags} {first : List Envelope}
  {known : List String} {L : Roster}

/-- When a command to subscribe was handled, its listener has been told of the devices. -/
theorem counting_advance (hrooted : d.bus.tree.Rooted) (hlabelled : d.bus.tree.contents.Labelled)
    (henrolled : d.bus.tree.contents.Enrolled L) (hheld : L.held (.client n) = [])
    (hundescribed : d.bus.tree.contents.Undescribed) {e : Envelope} {es : List Envelope}
    (hnext : d.phase.commandsLeft = e :: es) (he : e.topic = .subscribe)
    (hcontrol : e.control = some (.subscribe p ⟨.client n, flags⟩))
    (hn : n < d.bus.audience.listeners.length) (hp : p.path = "@") (hretain : flags.retain = true)
    (hpublish : flags.publish = true) :
    d.advance.bus.Counting n p flags (d.bus.given (.client n)) d.bus.devices.prefixes := by
  obtain ⟨t, code, hplan⟩ := exists_plan_subscribe hnext he hcontrol
  have hdone : d.plan.done.Counting n p flags (d.bus.given (.client n)) d.bus.devices.prefixes := by
    obtain ⟨posts, -, heffect⟩ := Bus.effect_perform hrooted (.enlist p ⟨.client n, flags⟩)
    have htold := Bus.counting_enlist hrooted hlabelled henrolled hheld hundescribed hn hp hretain
    have hlabelled' := hlabelled.after (.enlist p ⟨.client n, flags⟩)
    rw [← heffect.contents_eq] at hlabelled'
    rw [hplan, Plan.done, Bus.performAll_cons, Bus.performAll_cons, Bus.performAll_nil]
    have hspares : (Deed.announce t code).spares n p := trivial
    exact htold.perform heffect.rooted hlabelled' hp hpublish hspares id trivial
  exact hdone.untold (untold_advance hrooted)

/-- Its list follows the deeds as long as it keeps its subscription and starts no other. -/
theorem counting_runFrom (hrooted : d.bus.tree.Rooted) (hlabelled : d.bus.tree.contents.Labelled)
    (hp : p.path = "@") (hpublish : flags.publish = true) (h : d.bus.Counting n p flags first known)
    (as : List Action)
    (hspared : ∀ deed ∈ d.historyFrom as, deed.spares n p ∧ ¬ deed.enlists n)
    (hdescribes : ∀ deed ∈ d.historyFrom as, deed.describesNone) :
    (d.runFrom as).bus.Counting n p flags first ((d.historyFrom as).foldl Deed.recount known) := by
  refine labelled_induction
    (motive := fun deeds b => b.Counting n p flags first (deeds.foldl Deed.recount known))
    (fun _ _ _ huntold hb => hb.untold huntold) (fun deeds b deed hrooted hlabelled hdeed hb => ?_)
    hrooted hlabelled h as fun deed hdeed => And.intro (hspared deed hdeed) (hdescribes deed hdeed)
  obtain ⟨⟨hspares, hother⟩, hdescribes⟩ := hdeed
  rw [List.foldl_append]
  exact hb.perform hrooted hlabelled hp hpublish hspares hother hdescribes

/-- As long as no client publishes any for them, there are no metadata for announcements. -/
theorem run_undescribed (config : BusConfig) (as : List Action)
    (hhandled : ∀ e ∈ handledCommands config as,
      ∀ t ∈ Topic.announcing, e.topic ≠ t ∧ e.topic ≠ t.withSuffix .metadataRsp) :
    (run config as).bus.tree.contents.Undescribed := by
  rw [(run_contents config as).2]
  exact Contents.Undescribed.foldl_after (fun _ _ => rfl) (run_counts config as hhandled).describesNone

/-- The history of a run with a step that handles a command to subscribe. -/
theorem exists_history_subscribe (config : BusConfig) (as bs : List Action) {s : Subscription}
    {e : Envelope} {es : List Envelope} (hnext : (run config as).phase.commandsLeft = e :: es)
    (he : e.topic = .subscribe) (hcontrol : e.control = some (.subscribe p s)) :
    ∃ t code, history config (as ++ .advance :: bs) = history config as ++
      .enlist p s :: .announce t code :: (run config as).advance.historyFrom bs := by
  obtain ⟨t, code, hplan⟩ := exists_plan_subscribe hnext he hcontrol
  have hdeeds : (run config as).deedsOf .advance = [.enlist p s, .announce t code] :=
    congrArg Plan.deeds hplan
  refine ⟨t, code, ?_⟩
  rw [history_append, historyFrom, hdeeds]
  rfl

/-- Let no client publish a value or metadata to the announcements of devices. A listener that has no
subscription subscribes to `@` and asks for values, also for those that are kept. From then on, until
its subscription is ended or the bus is, as long as it starts no other and sends nothing, the list that
it makes of all that it has heard since is that of the prefixes of the registered devices, in the order
in which they were registered and without repetition. -/
theorem run_census (config : BusConfig) (as bs : List Action) {e : Envelope} {es : List Envelope}
    (hnext : (run config as).phase.commandsLeft = e :: es) (he : e.topic = .subscribe)
    (hcontrol : e.control = some (.subscribe p ⟨.client n, flags⟩)) (hp : p.path = "@")
    (hretain : flags.retain = true) (hpublish : flags.publish = true)
    (hn : n < (run config as).bus.audience.listeners.length)
    (halone : ∀ node ∈ (run config as).bus.tree.nodes, ∀ s ∈ node.subscriptions,
      s.subscriber ≠ .client n)
    (hspared : ∀ deed ∈ (run config as).advance.historyFrom bs, deed.spares n p ∧ ¬ deed.enlists n)
    (hcommands : ∀ e ∈ handledCommands config (as ++ .advance :: bs),
      ∀ t ∈ Topic.announcing, e.topic ≠ t ∧ e.topic ≠ t.withSuffix .metadataRsp) :
    let b := (run config (as ++ .advance :: bs)).bus
    ∃ since, b.given (.client n) = (run config as).bus.given (.client n) ++ since ∧
      since.foldl recount [] = b.devices.list.map (·.topic.text) ∧
      (b.devices.list.map (·.topic.text)).Nodup := by
  intro b
  have hbefore : ∀ e ∈ handledCommands config as,
      ∀ t ∈ Topic.announcing, e.topic ≠ t ∧ e.topic ≠ t.withSuffix .metadataRsp := by
    unfold handledCommands at hcommands ⊢
    rw [logFrom_append] at hcommands
    exact (List.forall_mem_append.mp hcommands).1
  -- the deeds since the subscription make the registry at the end of that before it
  obtain ⟨t, code, hhistory⟩ := exists_history_subscribe config as bs hnext he hcontrol
  have hall := run_counts config (as ++ .advance :: bs) hcommands
  rw [hhistory] at hall
  have hdescribes : ∀ deed ∈ (run config as).advance.historyFrom bs, deed.describesNone :=
    fun deed hdeed => hall.describesNone deed (List.mem_append_right _
      (List.mem_cons_of_mem _ (List.mem_cons_of_mem _ hdeed)))
  have hcount : ((run config as).advance.historyFrom bs).foldl Deed.recount
      (run config as).bus.devices.prefixes = b.devices.prefixes := by
    have hcount := hall.recount_eq
    rw [List.foldl_append, (run_counts config as hbefore).recount_eq] at hcount
    exact hcount
  -- and the listener counts as the deeds do
  have hrooted := (run_contents config as).1
  have henrolled := run_enrolled config as
  have hsubscribed := counting_advance hrooted (run_labelled config as) henrolled
    (Bus.held_of_alone hrooted henrolled halone) (run_undescribed config as hbefore) hnext he hcontrol
    hn hp hretain hpublish
  have hnow : run config (as ++ [.advance]) = (run config as).advance := run_append config as [.advance]
  have hrooted' := (run_contents config (as ++ [.advance])).1
  have hlabelled' := run_labelled config (as ++ [.advance])
  rw [hnow] at hrooted' hlabelled'
  have hcounting := counting_runFrom hrooted' hlabelled' hp hpublish hsubscribed bs hspared hdescribes
  have hrun : run config (as ++ .advance :: bs) = (run config as).advance.runFrom bs :=
    run_append config as (.advance :: bs)
  rw [← hrun, hcount] at hcounting
  obtain ⟨since, hgiven, hknown⟩ := hcounting.told
  exact ⟨since, hgiven, hknown, (run_registered config _).bus.nodup_texts⟩

/-! ### One device is there, another comes, and the first one goes -/

/-- A device is registered when a listener subscribes; its command is the next one. -/
def oneThere : List Action :=
  [.addListener ⟨"listener", .internal, fun _ => {}, 0⟩, .submit (.registerDevice "u/a/1"),
    .submit (.request (.subscribe "@" "listener" { retain := true, publish := true } 0)),
    .advance, .advance, .advance]

/-- Another one is registered, and the registration of the first one is ended. -/
def anotherComes : List Action :=
  [.submit (.registerDevice "u/b/2"), .submit (.unregisterDevice "u/a/1")] ++ List.replicate 5 .advance

/-- The command of the listener. -/
def censusCommand : Envelope := (run {} oneThere).phase.commandsLeft.head (by decide +kernel)

theorem censusCommand_spec :
    censusCommand.topic = .subscribe ∧ censusCommand.control =
      some (.subscribe ⟨"@", by decide⟩ ⟨.client 0, { retain := true, publish := true }⟩) := by
  decide +kernel

/-- The listener counts the first one when it subscribes, and ends up with the other one. -/
theorem census_of_another :
    (run {} oneThere).bus.devices.prefixes = ["u/a/1"] ∧
      ((run {} (oneThere ++ .advance :: anotherComes)).bus.given (.client 0)).foldl recount [] =
        ["u/b/2"] := by
  obtain ⟨since, hgiven, hknown, -⟩ := run_census {} oneThere anotherComes
    (List.cons_head_tail _).symm censusCommand_spec.1 censusCommand_spec.2 (by decide +kernel) rfl rfl
    (by decide +kernel) (by decide +kernel) (by decide +kernel) (by decide +kernel)
  have hnothing : (run {} oneThere).bus.given (.client 0) = [] :=
    List.eq_nil_of_length_eq_zero (by decide +kernel)
  have hdevices : (run {} (oneThere ++ .advance :: anotherComes)).bus.devices.prefixes = ["u/b/2"] := by
    decide +kernel
  rw [hnothing, List.nil_append] at hgiven
  rw [hgiven]
  exact ⟨by decide +kernel, hknown.trans hdevices⟩

end Dispatcher
end InstrumentBus
