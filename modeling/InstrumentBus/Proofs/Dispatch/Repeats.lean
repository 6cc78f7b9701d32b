import Mathlib
import InstrumentBus.Proofs.Dispatch.Forwarding
import InstrumentBus.Proofs.Dispatch.Queues
import InstrumentBus.Proofs.Value.Equality

/-!
# Values that come again

A value for a topic is compared with the one that is kept there, after the metadata of the topic have
made of it what they want. If the two are equal it is not passed on. So of the values that a topic
takes, each of a run of equal ones but the first is left out (`Value.collapse`), whatever else goes
on: `Shelf.passed_eq_collapse` says this of the deeds, and `run_repeats` of what comes to a
subscriber.

A subscriber is told once for each of its subscriptions that are for the topic. It may have several.
-/

namespace InstrumentBus

/-! ## Runs of equal values -/

namespace Value

/-- Of every run of equal values the first is left. The first run may have begun before, with the
value that came last. -/
def collapse : Option Value → List Value → List Value
  | _, [] => []
  | last, v :: vs =>
    if last.any (· == v) then collapse (some v) vs else v :: collapse (some v) vs

theorem collapse_cons (last : Option Value) (v : Value) (vs : List Value) :
    collapse last (v :: vs) =
      if last.any (· == v) then collapse (some v) vs else v :: collapse (some v) vs := rfl

/-- It does not matter which of several equal values came last. -/
theorem collapse_congr {last last' : Option Value}
    (h : ∀ v, last.any (· == v) = last'.any (· == v)) (vs : List Value) :
    collapse last vs = collapse last' vs := by
  cases vs with
  | nil => rfl
  | cons v vs => rw [collapse_cons, collapse_cons, h]

/-- The first of a run of equal values stands for each of them. -/
theorem collapse_of_beq {last : Option Value} {v : Value} (h : last.any (· == v) = true)
    (vs : List Value) : collapse last vs = collapse (some v) vs := by
  refine collapse_congr (fun u => ?_) vs
  cases last with
  | none => cases h
  | some w => exact beq_congr h u

end Value

/-! ## What a topic passes on -/

/-- The value that a deed brings a topic: the metadata make it of the one that is published, if they
admit it. The root takes none. -/
def Deed.accepted? (t : Topic) (metadata : Option Value) : Deed → Option Value
  | .publish e =>
    if e.topic = t ∧ t.path ≠ "" then (Metadata.judge metadata e.value).toOption else none
  | _ => none

theorem Deed.accepted?_eq_some {t : Topic} {metadata : Option Value} {deed : Deed} {v : Value} :
    deed.accepted? t metadata = some v ↔
      ∃ e, deed = .publish e ∧ e.topic = t ∧ t.path ≠ "" ∧
        Metadata.judge metadata e.value = .ok v := by
  constructor
  · intro haccepted
    cases deed with
    | publish e =>
      simp only [accepted?] at haccepted
      split at haccepted
      · rename_i htopic
        refine ⟨e, rfl, htopic.1, htopic.2, ?_⟩
        cases hjudge : Metadata.judge metadata e.value with
        | error status =>
          rw [hjudge] at haccepted
          cases haccepted
        | ok w =>
          rw [hjudge] at haccepted
          exact congrArg Except.ok (Option.some.inj haccepted)
      · cases haccepted
    | _ => cases haccepted
  · rintro ⟨e, rfl, htopic, hroot, hjudge⟩
    simp only [accepted?]
    rw [if_pos ⟨htopic, hroot⟩, hjudge]
    rfl

/-- The deed leaves the metadata of a topic and the subscriptions of a subscriber as they are. What it
publishes for the topic is to be kept, and does not come from the subscriber. -/
def Deed.steady (t : Topic) (who : SubscriberId) : Deed → Prop
  | .publish e =>
    (e.topic = t → e.isRetained = true ∧ e.origin ≠ some who) ∧ e.topic ≠ t.withSuffix .metadataRsp
  | .enlist _ s => s.subscriber ≠ who
  | .dismiss _ who' | .dismissAll who' => who' ≠ who
  | .clear => False
  | .announce _ _ => True

instance (deed : Deed) (t : Topic) (who : SubscriberId) : Decidable (deed.steady t who) :=
  match deed with
  | .publish e => inferInstanceAs (Decidable (
      (e.topic = t → e.isRetained = true ∧ e.origin ≠ some who) ∧
        e.topic ≠ t.withSuffix .metadataRsp))
  | .enlist _ s => inferInstanceAs (Decidable (s.subscriber ≠ who))
  | .dismiss _ who' | .dismissAll who' => inferInstanceAs (Decidable (who' ≠ who))
  | .clear => inferInstanceAs (Decidable False)
  | .announce _ _ => inferInstanceAs (Decidable True)

namespace Shelf

variable {s : Shelf} {t : Topic} {who : SubscriberId} {deed : Deed} {deeds : List Deed}

/-- The value for a topic that a deed passes on: one that is accepted and not there already. -/
def news (s : Shelf) (t : Topic) (deed : Deed) : List Value :=
  match deed.accepted? t (s.metadata t.segments) with
  | some v => if (s.value t.segments).any (· == v) then [] else [v]
  | none => []

/-- The values for a topic that deeds pass on, one after the other. -/
def passed (t : Topic) : Shelf → List Deed → List Value
  | _, [] => []
  | s, deed :: deeds => s.news t deed ++ passed t (s.after deed) deeds

theorem passed_append (t : Topic) (s : Shelf) (deeds deeds' : List Deed) :
    passed t s (deeds ++ deeds') = passed t s deeds ++ passed t (deeds.foldl after s) deeds' := by
  induction deeds generalizing s with
  | nil => rfl
  | cons deed deeds ih =>
    rw [List.cons_append, passed, passed, ih, List.append_assoc, List.foldl_cons]

/-- A deed that brings the topic nothing leaves it alone. -/
theorem after_of_accepted_none (hplain : t.suffix = none) (hsteady : deed.steady t who)
    (s : Shelf) (hnone : deed.accepted? t (s.metadata t.segments) = none) :
    (s.after deed).value t.segments = s.value t.segments ∧
      (s.after deed).metadata t.segments = s.metadata t.segments := by
  cases deed with
  | publish e =>
    by_cases ht : e.topic = t
    · -- the value is refused, or is for the root
      subst ht
      show (s.publish e).value _ = _ ∧ (s.publish e).metadata _ = _
      unfold publish
      by_cases hroot : e.topic.path = ""
      · rw [if_pos hroot]
        exact ⟨rfl, rfl⟩
      · rw [if_neg hroot, hplain]
        simp only [publishValue]
        cases hjudge : Metadata.judge (s.metadata e.topic.segments) e.value with
        | error status => exact ⟨rfl, rfl⟩
        | ok v =>
          have haccepted := Deed.accepted?_eq_some.mpr ⟨e, rfl, rfl, hroot, hjudge⟩
          rw [hnone] at haccepted
          cases haccepted
    · have havoids : (Deed.publish e).avoids t := ⟨ht, hsteady.2⟩
      exact after_of_avoids hplain havoids s
  | clear => exact absurd hsteady id
  | announce t' code => exact ⟨rfl, rfl⟩
  | enlist t' sub => exact ⟨rfl, rfl⟩
  | dismiss t' who' | dismissAll who' => exact ⟨rfl, rfl⟩

/-- A value that is brought to the topic is there from then on, or one that equals it. -/
theorem after_of_accepted (hplain : t.suffix = none) (haction : t.isAction = false)
    (hsteady : deed.steady t who) (s : Shelf) {v : Value}
    (haccepted : deed.accepted? t (s.metadata t.segments) = some v) :
    (s.after deed).value t.segments =
        (if (s.value t.segments).any (· == v) then s.value t.segments else some v) ∧
      (s.after deed).metadata t.segments = s.metadata t.segments := by
  obtain ⟨e, rfl, rfl, hroot, hjudge⟩ := Deed.accepted?_eq_some.mp haccepted
  exact after_publish_of_plain hroot hplain (hsteady.1 rfl).1 haction s hjudge

/-- Comparing with what is kept is comparing with what came last. -/
theorem passed_eq_collapse (hplain : t.suffix = none) (haction : t.isAction = false)
    (hsteady : ∀ deed ∈ deeds, deed.steady t who) (s : Shelf) :
    passed t s deeds =
      Value.collapse (s.value t.segments)
        (deeds.filterMap (Deed.accepted? t (s.metadata t.segments))) := by
  induction deeds generalizing s with
  | nil => rfl
  | cons deed deeds ih =>
    obtain ⟨hdeed, hdeeds⟩ := List.forall_mem_cons.mp hsteady
    rw [passed, news, ih hdeeds, List.filterMap_cons]
    cases haccepted : deed.accepted? t (s.metadata t.segments) with
    | none =>
      obtain ⟨hvalue, hmetadata⟩ := after_of_accepted_none hplain hdeed s haccepted
      rw [hvalue, hmetadata]
      rfl
    | some v =>
      obtain ⟨hvalue, hmetadata⟩ := after_of_accepted hplain haction hdeed s haccepted
      rw [hvalue, hmetadata]
      simp only [Value.collapse_cons]
      by_cases hkept : (s.value t.segments).any (· == v)
      · -- the value that stays is the first of its run, and stands for the last
        rw [if_pos hkept, if_pos hkept, if_pos hkept, Value.collapse_of_beq hkept]
        rfl
      · rw [if_neg hkept, if_neg hkept, if_neg hkept]
        rfl

end Shelf

/-! ## What a subscriber is told -/

/-- The values that envelopes have for a topic, in their order. -/
def valuesOf (t : Topic) (es : List Envelope) : List Value :=
  (es.filter (·.topic = t)).map Envelope.value

section ValuesOf

variable {t : Topic} {es : List Envelope}

theorem valuesOf_append (t : Topic) (es es' : List Envelope) :
    valuesOf t (es ++ es') = valuesOf t es ++ valuesOf t es' := by
  unfold valuesOf
  rw [List.filter_append, List.map_append]

theorem valuesOf_eq_nil (h : ∀ e ∈ es, e.topic ≠ t) : valuesOf t es = [] := by
  have hnone : es.filter (·.topic = t) = [] :=
    List.filter_eq_nil_iff.mpr fun e he => by simpa using h e he
  unfold valuesOf
  rw [hnone, List.map_nil]

theorem valuesOf_replicate (n : Nat) (e : Envelope) :
    valuesOf e.topic (List.replicate n e) = List.replicate n e.value := by
  have hall : (List.replicate n e).filter (·.topic = e.topic) = List.replicate n e :=
    List.filter_eq_self.mpr fun e' he' => by simp [List.eq_of_mem_replicate he']
  unfold valuesOf
  rw [hall, List.map_replicate]

/-- Copies say the same. -/
theorem valuesOf_clone (t : Topic) (es : List Envelope) :
    valuesOf t (es.map Envelope.clone) = valuesOf t es := by
  unfold valuesOf
  induction es with
  | nil => rfl
  | cons e es ih =>
    obtain ⟨htopic, hvalue, -⟩ := e.clone_spec
    by_cases ht : e.topic = t
    · simp [htopic, hvalue, ht, ih]
    · simp [htopic, ht, ih]

end ValuesOf

namespace Roster

variable {L : Roster} {t : Topic} {who : SubscriberId} {deed : Deed} {deeds : List Deed}

/-- The entries of a subscriber. -/
def held (L : Roster) (who : SubscriberId) : Roster := L.filter (·.who = who)

/-- How many of a subscriber's entries are for the values of a topic. -/
def timesTold (L : Roster) (who : SubscriberId) (t : Topic) : Nat :=
  (L.held who).countP (·.takes t .publish none)

/-- Unless it has sent an envelope itself, a subscriber is told once for each of its entries. -/
theorem count_invited_eq_timesTold {origin : Option SubscriberId} (horigin : origin ≠ some who) :
    ((L.invited t .publish origin).map Entry.who).count who = L.timesTold who t := by
  rw [List.count, List.countP_map, (L.invited_perm t .publish origin).countP_eq, List.countP_filter]
  unfold timesTold held
  rw [List.countP_filter]
  refine List.countP_congr fun n _ => ?_
  by_cases hn : n.who = who
  · have hother : (some who != origin) = true := bne_iff_ne.mpr horigin.symm
    simp [Entry.takes, hn, hother]
  · simp [hn]

/-- The entries of a subscriber stay as they are, whatever becomes of others. -/
theorem held_after (hsteady : deed.steady t who) (L : Roster) :
    (L.after deed).held who = L.held who := by
  have hothers : ∀ P : Entry → Bool, (∀ n : Entry, n.who = who → P n = true) →
      held (L.filter P) who = L.held who := by
    intro P hP
    unfold held
    rw [List.filter_filter]
    refine List.filter_congr fun n _ => ?_
    by_cases hn : n.who = who
    · simp [hn, hP n hn]
    · simp [hn]
  cases deed with
  | publish e | announce t' code => rfl
  | enlist t' s =>
    have hnone : held [⟨t', s⟩] who = [] :=
      List.filter_eq_nil_iff.mpr fun n hn => by
        rw [List.mem_singleton.mp hn]
        exact fun heq => hsteady (of_decide_eq_true heq)
    show held (L ++ [⟨t', s⟩]) who = _
    unfold held at hnone ⊢
    rw [List.filter_append, hnone, List.append_nil]
  | dismiss t' who' =>
    exact hothers _ fun n hn => decide_eq_true fun hboth => hsteady (hboth.2.symm.trans hn)
  | dismissAll who' =>
    exact hothers _ fun n hn => decide_eq_true fun heq => hsteady (heq.symm.trans hn)
  | clear => exact absurd hsteady id

theorem held_foldl_after (hsteady : ∀ deed ∈ deeds, deed.steady t who) (L : Roster) :
    (deeds.foldl after L).held who = L.held who := by
  induction deeds generalizing L with
  | nil => rfl
  | cons deed deeds ih =>
    obtain ⟨hdeed, hdeeds⟩ := List.forall_mem_cons.mp hsteady
    rw [List.foldl_cons, ih hdeeds, held_after hdeed]

end Roster

namespace Contents

variable {c : Contents} {s : Shelf} {L : Roster} {t : Topic} {who : SubscriberId} {e : Envelope}
  {deed : Deed} {posts : List Post}

/-- Whoever receives anything is on the roster. -/
theorem Enrolled.held_ne_nil (hc : c.Enrolled L) {path : List String} {k : DeliveryClass}
    {origin : Option SubscriberId} (hwho : who ∈ c.recipients path k origin) : L.held who ≠ [] := by
  unfold recipients at hwho
  obtain ⟨sub, hsub, htakes⟩ := List.mem_filterMap.mp hwho
  obtain ⟨q, -, hsub⟩ := List.mem_flatMap.mp hsub
  rw [hc q] at hsub
  obtain ⟨n, hn, rfl⟩ := List.mem_map.mp hsub
  split at htakes
  · have hheld : n ∈ L.held who :=
      List.mem_filter.mpr ⟨List.mem_of_mem_filter hn, decide_eq_true (Option.some.inj htakes)⟩
    exact List.ne_nil_of_mem hheld
  · cases htakes

/-- Return codes are no values of a topic. -/
theorem AreCodes.valuesOf_eq_nil (hcodes : c.AreCodes posts) (hplain : t.suffix = none) :
    valuesOf t (postsTo who posts) = [] := by
  refine InstrumentBus.valuesOf_eq_nil fun e he htopic => ?_
  have hsuffix : e.topic.suffix = some .returnCode := (hcodes _ (mem_postsTo.mp he)).1
  rw [htopic, hplain] at hsuffix
  cases hsuffix

/-- Of an envelope that is processed a subscriber is told the value that is passed on, once for each
of its subscriptions. -/
theorem valuesOf_posts (hs : c.Agrees s) (hc : c.Enrolled L) (hplain : t.suffix = none)
    (hsteady : (Deed.publish e).steady t who) :
    valuesOf t (postsTo who (c.posts e)) =
      (s.news t (.publish e)).flatMap (List.replicate (L.timesTold who t)) := by
  by_cases ht : e.topic = t
  · obtain ⟨-, horigin⟩ := hsteady.1 ht
    subst ht
    unfold Shelf.news
    by_cases hroot : e.topic.path = ""
    · have hsegments := Topic.path_eq_empty_iff_segments.mp hroot
      have hnone : (Deed.publish e).accepted? e.topic (s.metadata e.topic.segments) = none :=
        if_neg fun h => h.2 hroot
      rw [posts_of_none (if_pos hsegments), hnone]
      rfl
    · have hsegments : e.topic.segments ≠ [] :=
        fun hnil => hroot (Topic.path_eq_empty_iff_segments.mpr hnil)
      have haccepted : (Deed.publish e).accepted? e.topic (s.metadata e.topic.segments) =
          (Metadata.judge (s.metadata e.topic.segments) e.value).toOption := if_pos ⟨rfl, hroot⟩
      have hdelivered := delivered?_of_plain (c := c) hsegments hplain
      have hjudge := e.map_value_validated (c.metadata e.topic.segments)
      rw [hs.metadata_eq] at hjudge
      rw [haccepted, ← hjudge]
      cases hvalidated : e.validated (c.metadata e.topic.segments) with
      | error status =>
        rw [hvalidated] at hdelivered
        rw [posts_of_none hdelivered]
        rfl
      | ok e' =>
        obtain ⟨htopic, -, horigin', -, -⟩ := Envelope.validated_ok hvalidated
        rw [hvalidated] at hdelivered
        simp only [hs.repeats_eq] at hdelivered
        simp only [Except.map, Except.toOption]
        by_cases hagain : (s.value e.topic.segments).any (· == e'.value)
        · rw [if_pos hagain] at hdelivered
          rw [if_pos hagain, posts_of_none hdelivered]
          rfl
        · rw [if_neg hagain] at hdelivered
          rw [if_neg hagain, posts_of_some hdelivered, postsTo_map, hc.recipients_eq,
            Roster.count_invited_eq_timesTold (horigin' ▸ horigin), ← htopic, valuesOf_replicate,
            List.flatMap_singleton]
  · -- what is told is for another topic
    have hnone : (Deed.publish e).accepted? t (s.metadata t.segments) = none :=
      if_neg fun h => ht h.1
    unfold Shelf.news
    rw [hnone]
    refine InstrumentBus.valuesOf_eq_nil fun x hx htopic => ?_
    cases hdelivered : c.delivered? e with
    | none =>
      rw [posts_of_none hdelivered] at hx
      cases hx
    | some d =>
      obtain ⟨e', k⟩ := d
      obtain ⟨-, htopic', -⟩ := delivered?_eq_some hdelivered
      rw [posts_of_some hdelivered, postsTo_map] at hx
      rw [List.eq_of_mem_replicate hx, htopic'] at htopic
      exact ht htopic

/-- So it is for every deed, and whoever is not on the roster is not told of anything. -/
theorem valuesOf_of_tells (hs : c.Agrees s) (hc : c.Enrolled L) (hplain : t.suffix = none)
    (hsteady : deed.steady t who) (htells : c.Tells posts deed) :
    valuesOf t (postsTo who posts) =
        (s.news t deed).flatMap (List.replicate (L.timesTold who t)) ∧
      (L.held who = [] → postsTo who posts = []) := by
  -- whoever is told of anything but its own subscription receives it, so it is on the roster
  have hnobody : ∀ {posts : List Post},
      (∀ x ∈ posts, ∃ path k origin, x.1 ∈ c.recipients path k origin) →
      L.held who = [] → postsTo who posts = [] := by
    intro posts hposts hnone
    refine postsTo_eq_nil fun x hx hwho => ?_
    obtain ⟨path, k, origin, hmem⟩ := hposts x hx
    rw [hwho] at hmem
    exact hc.held_ne_nil hmem hnone
  have hcodes : ∀ {codes : List Post}, c.AreCodes codes →
      ∀ x ∈ codes, ∃ path k origin, x.1 ∈ c.recipients path k origin :=
    fun hcodes x hx => ⟨_, _, _, (hcodes x hx).2.choose_spec⟩
  cases deed with
  | publish e =>
    obtain ⟨codes, hanswers, rfl⟩ := htells
    refine ⟨?_, hnobody (List.forall_mem_append.mpr ⟨fun x hx => ?_, hcodes hanswers⟩)⟩
    · rw [postsTo_append, valuesOf_append, valuesOf_posts hs hc hplain hsteady,
        hanswers.valuesOf_eq_nil hplain, List.append_nil]
    · cases hdelivered : c.delivered? e with
      | none =>
        rw [posts_of_none hdelivered] at hx
        cases hx
      | some d =>
        rw [posts_of_some hdelivered] at hx
        obtain ⟨who', hmem, rfl⟩ := List.mem_map.mp hx
        exact ⟨_, _, _, hmem⟩
  | announce t' code => exact ⟨AreCodes.valuesOf_eq_nil htells hplain, hnobody (hcodes htells)⟩
  | enlist t' sub =>
    obtain ⟨told, rfl, -⟩ := htells
    have hnone : postsTo who (told.map (sub.subscriber, ·)) = [] := by
      refine postsTo_eq_nil fun x hx hwho => ?_
      obtain ⟨e, -, rfl⟩ := List.mem_map.mp hx
      exact hsteady hwho
    rw [hnone]
    exact ⟨rfl, fun _ => rfl⟩
  | dismiss t' who' | dismissAll who' =>
    obtain rfl : posts = [] := htells
    exact ⟨rfl, fun _ => rfl⟩
  | clear => exact absurd hsteady id

end Contents

/-- Deeds tell a subscriber the values that they pass on. -/
theorem Bus.exists_posted_passed {b : Bus} {s : Shelf} {L : Roster} {t : Topic} {who : SubscriberId}
    {deeds : List Deed} (hrooted : b.tree.Rooted) (hs : b.tree.contents.Agrees s)
    (hc : b.tree.contents.Enrolled L) (hplain : t.suffix = none)
    (hsteady : ∀ deed ∈ deeds, deed.steady t who) :
    ∃ posts, b.Posted posts (b.performAll deeds) ∧
      valuesOf t (postsTo who posts) =
        (Shelf.passed t s deeds).flatMap (List.replicate (L.timesTold who t)) ∧
      (L.held who = [] → postsTo who posts = []) := by
  induction deeds generalizing b s L with
  | nil => exact ⟨[], Posted.refl b, rfl, fun _ => rfl⟩
  | cons deed deeds ih =>
    obtain ⟨hdeed, hdeeds⟩ := List.forall_mem_cons.mp hsteady
    obtain ⟨posts, htells, heffect⟩ := effect_perform hrooted deed
    obtain ⟨hvalues, hnobody⟩ := Contents.valuesOf_of_tells hs hc hplain hdeed htells
    have hheld := Roster.held_after hdeed L
    obtain ⟨posts', hposted, hvalues', hnobody'⟩ := ih heffect.rooted
      (heffect.contents_eq ▸ hs.after deed) (heffect.contents_eq ▸ hc.after deed) hdeeds
    unfold Roster.timesTold at hvalues' ⊢
    rw [hheld] at hvalues' hnobody'
    refine ⟨posts ++ posts', heffect.posted.trans hposted, ?_, fun hnone => ?_⟩
    · rw [postsTo_append, valuesOf_append, hvalues, hvalues', Shelf.passed, List.flatMap_append]
      rfl
    · rw [postsTo_append, hnobody hnone, hnobody' hnone, List.append_nil]

/-! ## What comes to a subscriber -/

namespace Bus

variable {b b' : Bus} {t : Topic} {who : SubscriberId} {posts : List Post} {taken : List Envelope}
  {L : Roster} {e : Envelope}

/-- What a subscriber was given, the oldest first: a listener has heard it, and for a device it lies
in its inbox. -/
def given (b : Bus) : SubscriberId → List Envelope
  | .client n => (b.audience.heardBy n).reverse
  | .forwarder p => (b.inbox p).items

/-- The subscriber is there to be given something. -/
def reaches (b : Bus) : SubscriberId → Prop
  | .client n => n < b.audience.listeners.length
  | .forwarder p => p < b.inboxes.length ∧ (b.inbox p).closed = false

theorem given_eq (hrecord : b'.audience.record = b.audience.record)
    (hitems : ∀ p, (b'.inbox p).items = (b.inbox p).items) (who : SubscriberId) :
    b'.given who = b.given who := by
  cases who with
  | client n =>
    show (b'.audience.heardBy n).reverse = _
    unfold Audience.heardBy
    rw [hrecord]
    rfl
  | forwarder p => exact hitems p

/-- What is posted to a listener comes to it as it is, -/
theorem Posted.given_client {n : Nat} (h : b.Posted posts b') (hn : n < b.audience.listeners.length) :
    b'.given (.client n) = b.given (.client n) ++ postsTo (.client n) posts := by
  show (b'.audience.heardBy n).reverse = _
  rw [h.heardBy_eq n hn, List.reverse_append, List.reverse_reverse]
  rfl

/-- and to any subscriber the same values come. -/
theorem Posted.given (h : b.Posted posts b') (hreaches : b.reaches who) (t : Topic) :
    ∃ new, b'.given who = b.given who ++ new ∧ valuesOf t new = valuesOf t (postsTo who posts) := by
  cases who with
  | client n => exact ⟨postsTo (.client n) posts, h.given_client hreaches, rfl⟩
  | forwarder p =>
    obtain ⟨hp, hopen⟩ := hreaches
    refine ⟨(postsTo (.forwarder p) posts).map Envelope.clone, ?_, valuesOf_clone t _⟩
    show (b'.inbox p).items = _
    rw [h.inbox_eq p hp, if_neg (by rw [hopen]; exact Bool.false_ne_true)]
    rfl

/-- To whom nothing is posted, nothing comes. -/
theorem Posted.given_of_nil (h : b.Posted posts b')
    (hreaches : ∀ n, who = .client n → b.reaches who) (hnone : postsTo who posts = []) :
    b'.given who = b.given who := by
  cases who with
  | client n => rw [h.given_client (hreaches n rfl), hnone, List.append_nil]
  | forwarder p => exact h.items_of_nil hnone

/-- A forwarder on the roster can be reached. -/
theorem Registered.reaches (h : b.Registered taken)
    (hL : L.forwarders = b.devices.list.map Device.entry)
    (hclient : ∀ n, who = .client n → b.reaches who) (hheld : L.held who ≠ []) :
    b.reaches who := by
  cases who with
  | client n => exact hclient n rfl
  | forwarder p =>
    obtain ⟨n, hn⟩ := List.exists_mem_of_ne_nil _ hheld
    obtain ⟨hmem, hwho⟩ := List.mem_filter.mp hn
    have hwho : n.who = .forwarder p := of_decide_eq_true hwho
    have hforwarder : n ∈ L.forwarders := List.mem_filter.mpr ⟨hmem, by rw [hwho]; rfl⟩
    rw [hL] at hforwarder
    obtain ⟨device, hdevice, rfl⟩ := List.mem_map.mp hforwarder
    obtain rfl : device.inbox = p := SubscriberId.forwarder.inj hwho
    exact h.inboxes device (List.mem_append_left _ hdevice)

/-- Deeds bring a subscriber the values that they pass on. -/
theorem given_performAll {s : Shelf} {deeds : List Deed} (hrooted : b.tree.Rooted)
    (hs : b.tree.contents.Agrees s) (hc : b.tree.contents.Enrolled L) (hplain : t.suffix = none)
    (hsteady : ∀ deed ∈ deeds, deed.steady t who)
    (hclient : ∀ n, who = .client n → b.reaches who) (hheld : L.held who ≠ [] → b.reaches who) :
    ∃ new, (b.performAll deeds).given who = b.given who ++ new ∧
      valuesOf t new = (Shelf.passed t s deeds).flatMap (List.replicate (L.timesTold who t)) := by
  obtain ⟨posts, hposted, hvalues, hnobody⟩ := exists_posted_passed hrooted hs hc hplain hsteady
  rw [← hvalues]
  -- the inbox of a forwarder may be closed only if it has no entry, and then nothing is sent to it
  by_cases hnone : L.held who = []
  · refine ⟨[], ?_, ?_⟩
    · rw [hposted.given_of_nil hclient (hnobody hnone), List.append_nil]
    · rw [hnobody hnone]
  · exact hposted.given (hheld hnone) t

end Bus

namespace Dispatcher

variable {d : Dispatcher} {s : Shelf} {L : Roster} {t : Topic} {who : SubscriberId} {a : Action}

/-- What comes to a subscriber by what happens next. Devices also take commands out of their
inboxes. -/
def givenTo (who : SubscriberId) (d : Dispatcher) : Action → List Envelope
  | .collect _ => []
  | a => ((d.act a).bus.given who).drop (d.bus.given who).length

/-- The deeds of a step bring a subscriber the values that they pass on. -/
theorem given_advance (h : d.Registered L) (hrooted : d.bus.tree.Rooted)
    (hs : d.bus.tree.contents.Agrees s) (hc : d.bus.tree.contents.Enrolled L)
    (hplain : t.suffix = none) (hsteady : ∀ deed ∈ d.plan.deeds, deed.steady t who)
    (hclient : ∀ n, who = .client n → d.bus.reaches who) :
    ∃ new, d.advance.bus.given who = d.bus.given who ++ new ∧
      valuesOf t new =
        (Shelf.passed t s d.plan.deeds).flatMap (List.replicate (L.timesTold who t)) := by
  obtain ⟨b, phase⟩ := d
  have hquiet : ∀ b' : Bus, b'.audience = b.audience → b'.inboxes = b.inboxes →
      ∃ new, b'.given who = b.given who ++ new ∧
        valuesOf t new = (Shelf.passed t s []).flatMap (List.replicate (L.timesTold who t)) := by
    intro b' haudience hinboxes
    have hitems : ∀ p, (b'.inbox p).items = (b.inbox p).items := by
      unfold Bus.inbox
      rw [hinboxes]
      exact fun _ => rfl
    refine ⟨[], ?_, rfl⟩
    rw [List.append_nil]
    exact Bus.given_eq (congrArg Audience.record haudience) hitems who
  cases phase with
  | backends es =>
    cases es with
    | nil => exact hquiet _ rfl rfl
    | cons e es =>
      obtain ⟨htree, hrecord, hle⟩ := Bus.untold_backendPlan b e
      obtain ⟨hplan, hL, -⟩ := Bus.Registered.backendPlan h.bus h.forwarders
      have hadvance : (⟨b, .backends (e :: es)⟩ : Dispatcher).advance.bus =
          (b.backendPlan e).bus.performAll (b.backendPlan e).deeds := Bus.handleBackend_eq hrooted e
      have hgiven := Bus.given_eq hrecord (Bus.items_backendPlan b e) who
      rw [hadvance, ← hgiven]
      have hclient' : ∀ n, who = .client n → (b.backendPlan e).bus.reaches who := by
        rintro n rfl
        exact Nat.lt_of_lt_of_le (hclient n rfl) hle
      refine Bus.given_performAll (by rw [htree]; exact hrooted) (by rw [htree]; exact hs)
        (by rw [htree]; exact hc) hplain hsteady hclient' fun hheld => ?_
      -- the deeds leave its entries alone, so its device is still registered when they are done
      refine hplan.reaches hL hclient' ?_
      rw [show ((b.backendPlan e).deeds.foldl Roster.after L).held who = L.held who from
        Roster.held_foldl_after hsteady L]
      exact hheld
  | commands es =>
    cases es with
    | nil => exact hquiet _ rfl rfl
    | cons e es =>
      by_cases he : e.topic = .finalize
      · have hnone : (⟨b, .commands (e :: es)⟩ : Dispatcher).plan.deeds = [] := by
          simp only [plan, if_pos he]
        rw [advance_of_finalize rfl he, hnone]
        exact hquiet _ rfl rfl
      · obtain ⟨calls, hcalls⟩ := b.handleCommand_eq e
        have hplan : (⟨b, .commands (e :: es)⟩ : Dispatcher).plan = b.commandPlan e := if_neg he
        obtain ⟨calls', hbus⟩ := b.bus_commandPlan e
        rw [hplan] at hsteady ⊢
        rw [advance_of_commands rfl he, hcalls]
        show ∃ new, ((b.commandPlan e).bus.performAll (b.commandPlan e).deeds).given who = _ ∧ _
        rw [hbus]
        exact Bus.given_performAll (b := { b with calls := calls' }) hrooted hs hc hplain hsteady
          hclient fun hheld => h.bus.reaches h.forwarders hclient hheld
  | closing =>
    have hclear : Deed.clear.steady t who := hsteady _ List.mem_cons_self
    exact absurd hclear id
  | _ => exact hquiet _ rfl rfl

/-- Nothing else brings it anything. -/
theorem valuesOf_givenTo (h : d.Registered L) (hrooted : d.bus.tree.Rooted)
    (hs : d.bus.tree.contents.Agrees s) (hc : d.bus.tree.contents.Enrolled L)
    (hplain : t.suffix = none) (hsteady : ∀ deed ∈ d.deedsOf a, deed.steady t who)
    (hclient : ∀ n, who = .client n → d.bus.reaches who) :
    valuesOf t (d.givenTo who a) =
      (Shelf.passed t s (d.deedsOf a)).flatMap (List.replicate (L.timesTold who t)) := by
  have hsame : ∀ b' : Bus, b'.audience.record = d.bus.audience.record →
      (∀ p, (b'.inbox p).items = (d.bus.inbox p).items) →
      valuesOf t ((b'.given who).drop (d.bus.given who).length) = [] := by
    intro b' hrecord hitems
    rw [Bus.given_eq hrecord hitems, List.drop_length]
    rfl
  cases a with
  | advance =>
    obtain ⟨new, hgiven, hvalues⟩ := given_advance h hrooted hs hc hplain hsteady hclient
    show valuesOf t ((d.advance.bus.given who).drop (d.bus.given who).length) = _
    rw [hgiven, List.drop_left]
    exact hvalues
  | submit sub =>
    exact hsame _ (Bus.untold_accept d.bus sub).record_eq
      fun p => congrArg Queue.items ((Bus.admits_accept d.bus sub).inbox_eq p)
  | submitLate sub =>
    exact hsame _ (Bus.untold_acceptLate d.bus sub).record_eq
      fun p => congrArg Queue.items ((Bus.admits_acceptLate d.bus sub).inbox_eq p)
  | collect p => rfl
  | addListener l => exact hsame _ rfl fun _ => rfl
  | setClock time => exact hsame _ rfl fun _ => rfl

/-- Listeners stay. -/
theorem listeners_le_run (config : BusConfig) (as bs : List Action) :
    (run config as).bus.audience.listeners.length ≤
      (run config (as ++ bs)).bus.audience.listeners.length := by
  have hrun := historyFrom_induction (d := run config as) (motive := fun _ b => b.tree.Rooted ∧
      (run config as).bus.audience.listeners.length ≤ b.audience.listeners.length)
    (fun _ _ hb => hb.1)
    (fun _ _ _ huntold hb => ⟨huntold.tree_eq ▸ hb.1, Nat.le_trans hb.2 huntold.listeners_le⟩)
    (fun _ b deed hb => by
      obtain ⟨posts, -, heffect⟩ := Bus.effect_perform hb.1 deed
      exact ⟨heffect.rooted, heffect.posted.listeners_eq ▸ hb.2⟩)
    (h := []) ⟨(run_contents config as).1, Nat.le_refl _⟩ bs
  rw [run_append]
  exact hrun.2

/-- What comes to a subscriber from some moment on is what deeds pass on from then on. -/
theorem valuesOf_logFrom (config : BusConfig) (as bs : List Action) (hplain : t.suffix = none)
    (hsteady : ∀ deed ∈ (run config as).historyFrom bs, deed.steady t who)
    (hclient : ∀ n, who = .client n → (run config as).bus.reaches who) :
    valuesOf t (logFrom (givenTo who) (run config as) bs) =
      (Shelf.passed t (shelf config as) ((run config as).historyFrom bs)).flatMap
        (List.replicate ((Roster.of (history config as)).timesTold who t)) := by
  induction bs using List.reverseRecOn with
  | nil => rfl
  | append_singleton bs a ih =>
    -- from the end, as the last step is told against what the shelf holds by then
    have hdeeds : (run config as).historyFrom (bs ++ [a]) =
        (run config as).historyFrom bs ++ (run config (as ++ bs)).deedsOf a := by
      rw [historyFrom_append, run_append]
      exact congrArg _ (List.append_nil _)
    rw [hdeeds] at hsteady ⊢
    obtain ⟨hbefore, hlast⟩ := List.forall_mem_append.mp hsteady
    have hclient' : ∀ n, who = .client n → (run config (as ++ bs)).bus.reaches who := by
      rintro n rfl
      exact Nat.lt_of_lt_of_le (hclient n rfl) (listeners_le_run config as bs)
    have hstep := valuesOf_givenTo (run_registered config (as ++ bs))
      (run_contents config (as ++ bs)).1 (run_agrees config (as ++ bs))
      (run_enrolled config (as ++ bs)) hplain hlast hclient'
    -- meanwhile the entries of the subscriber have stayed as they were
    have htimes : (Roster.of (history config (as ++ bs))).timesTold who t =
        (Roster.of (history config as)).timesTold who t := by
      unfold Roster.timesTold
      rw [history_append, Roster.of_append, Roster.held_foldl_after hbefore]
    rw [htimes, shelf_append] at hstep
    rw [logFrom_concat, ← run_append, valuesOf_append, ih hbefore, hstep, Shelf.passed_append,
      List.flatMap_append]

end Dispatcher

/-! ## What comes again -/

namespace Bus

variable {b : Bus} {e : Envelope} {v : Value}

/-- A value that is there already is a success, which is announced. -/
theorem exists_process_of_kept (h : b.tree.Rooted) (hroot : e.topic.path ≠ "")
    (hplain : e.topic.suffix = none)
    (hjudge : Metadata.judge (b.keptMetadata e.topic) e.value = .ok v)
    (hkept : (b.keptValue e.topic).any (· == v) = true) :
    ∃ node tree, b.tree.Made e.topic.segments node tree ∧
      b.process e = (none, ({ b with tree } : Bus).emitReturnCode e.topic 0) := by
  obtain ⟨node, tree, hnode, hmade⟩ := exists_nodeOf h e.topic
  refine ⟨node, tree, hmade, ?_⟩
  rw [keptMetadata_eq, ← Envelope.map_value_validated] at hjudge
  have hvalidate := validate_eq (b := { b with tree }) hmade.descend_eq e
  have hduplicate := isDuplicate_eq (b := { b with tree }) hmade.descend_eq
  simp only [hmade.contents_eq, Contents.reach] at hvalidate hduplicate
  unfold process publishValue
  rw [if_neg hroot, hnode, hplain]
  simp only [hvalidate]
  cases hvalidated : e.validated (b.tree.contents.metadata e.topic.segments) with
  | error status =>
    rw [hvalidated] at hjudge
    cases hjudge
  | ok e' =>
    rw [hvalidated] at hjudge
    have hvalue : e'.value = v := Except.ok.inj hjudge
    have hagain : e'.repeats (b.tree.contents.value e.topic.segments) = true := by
      rw [keptValue_eq, ← hvalue] at hkept
      cases hthere : b.tree.contents.value e.topic.segments with
      | none =>
        rw [hthere] at hkept
        cases hkept
      | some kept =>
        rw [hthere] at hkept
        exact hkept
    simp only [hduplicate, if_pos hagain, (Envelope.validated_ok hvalidated).1]

/-- Nothing else happens: the values and metadata stay, and only return codes are told. -/
theorem effect_of_kept (h : b.tree.Rooted) (hroot : e.topic.path ≠ "")
    (hplain : e.topic.suffix = none)
    (hjudge : Metadata.judge (b.keptMetadata e.topic) e.value = .ok v)
    (hkept : (b.keptValue e.topic).any (· == v) = true) :
    (b.process e).1 = none ∧ (b.process e).2.calls = b.calls.announce e.topic (some 0) ∧
      ∃ answer : Envelope, answer.topic = e.topic.withSuffix .returnCode ∧ answer.value = .i32 0 ∧
        b.Effect (b.tree.contents.reach e.topic.segments)
          ((b.tree.contents.recipients e.topic.segments .returnCode none).map (·, answer))
          (b.process e).2 := by
  obtain ⟨node, tree, hmade, hprocess⟩ := exists_process_of_kept h hroot hplain hjudge hkept
  have hcontents : ({ b with tree } : Bus).tree.contents = b.tree.contents.reach e.topic.segments :=
    hmade.contents_eq
  have hcalls := emitReturnCode_calls { b with tree } e.topic 0
  obtain ⟨answer, htopic, hvalue, heffect⟩ :=
    effect_announced (b := { b with tree }) hmade.rooted e.topic 0
  have hposted := (posted_tree b tree).after heffect.posted
  rw [hcontents, Contents.recipients_reach] at hposted
  rw [hprocess]
  dsimp only
  refine ⟨rfl, hcalls, answer, htopic, hvalue, heffect.rooted, ?_, hposted⟩
  rw [heffect.contents_eq, hcontents, Contents.reach_reach]

end Bus

namespace Dispatcher

variable {t : Topic} {who : SubscriberId}

/-- The values that deeds bring a topic, once its metadata have made of them what they want. -/
def acceptedBy (t : Topic) (metadata : Option Value) (deeds : List Deed) : List Value :=
  deeds.filterMap (Deed.accepted? t metadata)

/-- From some moment of a run on, the metadata of a topic that is no action stay as they are, all
values for it are to be kept, and a subscriber that has sent none of them neither starts nor ends a
subscription; all else may happen. Then it is given the values that the topic accepts, of each run of
equal ones only the first, where the first run may have begun with the value that was kept before; and
each once for every subscription that it has for values at the topic or above it.

At any moment, a value that the metadata admit and that is kept already is a success. Its return code
is announced, which may end a call that waits for it and which those are told who listen for return
codes; nobody else is told of anything, and all values and metadata stay. -/
theorem run_repeats (config : BusConfig) (as bs : List Action) (hplain : t.suffix = none)
    (haction : t.isAction = false)
    (hsteady : ∀ deed ∈ (run config as).historyFrom bs, deed.steady t who)
    (hclient : ∀ n, who = .client n → n < (run config as).bus.audience.listeners.length) :
    let d := run config as
    valuesOf t (logFrom (givenTo who) d bs) =
      (Value.collapse (d.bus.keptValue t)
        (acceptedBy t (d.bus.keptMetadata t) (d.historyFrom bs))).flatMap
          (List.replicate ((Roster.of (history config as)).timesTold who t)) ∧
    ∀ cs n e v,
      let d' := d.runFrom cs
      let b := d'.plan.bus.performAll (d'.plan.deeds.take n)
      e.topic = t → t.path ≠ "" → Metadata.judge (b.keptMetadata t) e.value = .ok v →
      (b.keptValue t).any (· == v) = true →
      (b.process e).1 = none ∧ (b.process e).2.calls = b.calls.announce t (some 0) ∧
      (∃ answer : Envelope, answer.topic = t.withSuffix .returnCode ∧ answer.value = .i32 0 ∧
        b.Posted ((b.tree.contents.recipients t.segments .returnCode none).map (·, answer))
          (b.process e).2) ∧
      ∀ t', (b.process e).2.keptValue t' = b.keptValue t' ∧
        (b.process e).2.keptMetadata t' = b.keptMetadata t' := by
  intro d
  refine ⟨?_, fun cs n e v => ?_⟩
  · have hagrees := run_agrees config as
    have hreaches : ∀ n, who = .client n → d.bus.reaches who := by
      rintro n rfl
      exact hclient n rfl
    rw [valuesOf_logFrom config as bs hplain hsteady hreaches,
      Shelf.passed_eq_collapse hplain haction hsteady, acceptedBy,
      Bus.keptValue_of_agrees hagrees, Bus.keptMetadata_of_agrees hagrees]
  · intro d' b htopic hroot hjudge hkept
    subst htopic
    have hrooted : b.tree.Rooted := by
      have hwithin := (run_contents_within config (as ++ cs) n).1
      rw [run_append] at hwithin
      exact hwithin
    obtain ⟨hok, hcalls, answer, hanswer, hcode, heffect⟩ :=
      Bus.effect_of_kept hrooted hroot hplain hjudge hkept
    refine ⟨hok, hcalls, ⟨answer, hanswer, hcode, heffect.posted⟩, fun t' => ?_⟩
    rw [Bus.keptValue_eq, Bus.keptValue_eq, Bus.keptMetadata_eq, Bus.keptMetadata_eq,
      heffect.contents_eq]
    exact ⟨rfl, rfl⟩

/-! ### Once for each subscription -/

/-- A client sets a value, to be kept. -/
def puts (topic : String) (v : Stored) : Action :=
  .submit (.request (.publish ⟨topic, v, .retained, 0, 0⟩ 0))

/-- Clients set values of one topic, which are handled. -/
def putsAll (topic : String) (vs : List Stored) : List Action :=
  vs.map (puts topic) ++ List.replicate (vs.length + 4) .advance

/-- A listener subscribes to the values of some topics. -/
def listensTo (topics : List String) : List Action :=
  .addListener ⟨"listener", .internal, fun _ => {}, 0⟩ ::
    topics.map (fun topic =>
      .submit (.request (.subscribe topic "listener" { publish := true } 0))) ++
    List.replicate (topics.length + 4) .advance

/-- The topic has two values that have names. -/
def switchDocument : Value :=
  .json "\x7b\"dtype\": \"u8\", \"options\": [[1, \"on\"], [0, \"off\"]]\x7d"

/-- Two values, set in several ways, and one that is refused. -/
def switched : List Stored :=
  [Value.str "on", Value.u16 1, Value.str "7", Value.str "0", Value.u8 0, Value.u16 1]

/-- A value that is set in another way is not heard again. -/
theorem switch_heard_once :
    valuesOf ⟨"a/x", by decide⟩ (logFrom (givenTo (.client 0))
      (run {} (putsAll "a/x$" [switchDocument] ++ listensTo ["a"])) (putsAll "a/x" switched)) =
      [.u8 1, .u8 0, .u8 1] :=
  (run_repeats {} (putsAll "a/x$" [switchDocument] ++ listensTo ["a"]) (putsAll "a/x" switched)
    (by decide +kernel) (by decide +kernel) (by decide +kernel)
    (by rintro n ⟨⟩; decide +kernel)).1.trans (by decide +kernel)

/-- A listener that has two subscriptions for a topic is told of each value twice. So what comes to a
subscriber is not always one value for each run of equal ones. -/
theorem not_always_heard_once :
    ¬ ∀ (config : BusConfig) (as bs : List Action) (t : Topic) (who : SubscriberId),
      t.suffix = none → t.isAction = false →
      (∀ deed ∈ (run config as).historyFrom bs, deed.steady t who) →
      (∀ n, who = .client n → n < (run config as).bus.audience.listeners.length) →
      0 < (Roster.of (history config as)).timesTold who t →
      valuesOf t (logFrom (givenTo who) (run config as) bs) =
        Value.collapse ((run config as).bus.keptValue t)
          (acceptedBy t ((run config as).bus.keptMetadata t) ((run config as).historyFrom bs)) := by
  intro halways
  have honce := halways {} (listensTo ["a", "a/x"]) (putsAll "a/x" [Value.u8 1])
    ⟨"a/x", by decide⟩ (.client 0) (by decide +kernel) (by decide +kernel) (by decide +kernel)
    (by rintro n ⟨⟩; decide +kernel) (by decide +kernel)
  revert honce
  decide +kernel

end Dispatcher
end InstrumentBus
