import Mathlib
import InstrumentBus.Proofs.Dispatch.Shelf

/-!
# What a subscriber knows of what is kept

A subscription that asks for what is kept is told of it when it starts, and of every change from then
on. So whoever holds one has heard, as the last thing about each topic below it, the value that is
kept there: `run_mirror`.

An envelope is kept where its topic says (`Contents.Labelled`), so what is told of one topic is never
taken for what is kept at another.
-/

namespace InstrumentBus

/-! ## The last that was heard of a topic -/

/-- The value that came last for a topic, of envelopes of which the latest comes first. -/
def lastValue (heard : List Envelope) (t : Topic) : Option Value :=
  (heard.find? (·.topic = t)).map Envelope.value

/-- The value that a listener has last heard of a topic. -/
def Audience.lastHeard (a : Audience) (n : Nat) (t : Topic) : Option Value :=
  lastValue (a.heardBy n) t

/-- If nothing else has come for a topic since, and the value was there before or has come, then it
is the last one. -/
theorem lastValue_append {new heard : List Envelope} {t : Topic} {v : Value}
    (hnew : ∀ e ∈ new, e.topic = t → e.value = v)
    (hthere : (∃ e ∈ new, e.topic = t) ∨ lastValue heard t = some v) :
    lastValue (new ++ heard) t = some v := by
  unfold lastValue at hthere ⊢
  rw [List.find?_append]
  cases hfind : new.find? (·.topic = t) with
  | none =>
    have hnone := List.find?_eq_none.mp hfind
    refine hthere.resolve_left ?_
    rintro ⟨e, he, htopic⟩
    exact hnone e he (decide_eq_true htopic)
  | some e =>
    have htopic := List.find?_some hfind
    rw [decide_eq_true_eq] at htopic
    exact congrArg some (hnew e (List.mem_of_find?_eq_some hfind) htopic)

/-! ## Where envelopes are kept -/

namespace Contents

variable {c : Contents} {e e' x : Envelope}

/-- What is kept at a path belongs there by its topic, and no action is kept. -/
structure Labelled (c : Contents) : Prop where
  value : ∀ q e, c.value q = some e →
    e.topic.segments = q ∧ e.topic.suffix = none ∧ e.topic.isAction = false
  metadata : ∀ q e, c.metadata q = some e →
    e.topic.segments = q ∧ e.topic.suffix = some .metadataRsp

/-- The envelope is kept, as a value or as metadata. -/
def Keeps (c : Contents) (e : Envelope) : Prop :=
  c.value e.topic.segments = some e ∨ c.metadata e.topic.segments = some e

theorem Labelled.nothing : Contents.nothing.Labelled :=
  ⟨fun _ e he => absurd he.symm (Option.some_ne_none e),
    fun _ e he => absurd he.symm (Option.some_ne_none e)⟩

theorem Labelled.keeps (h : c.Labelled) {q : List String}
    (he : c.value q = some e ∨ c.metadata q = some e) : c.Keeps e := by
  rcases he with hvalue | hmetadata
  · refine Or.inl ?_
    rw [(h.value q e hvalue).1]
    exact hvalue
  · refine Or.inr ?_
    rw [(h.metadata q e hmetadata).1]
    exact hmetadata

/-- Two envelopes with one topic are not kept at once. -/
theorem Labelled.keeps_unique (h : c.Labelled) (he : c.Keeps e) (hx : c.Keeps x)
    (htopic : e.topic = x.topic) : e = x := by
  unfold Keeps at he hx
  rw [htopic] at he
  rcases he with he | he <;> rcases hx with hx | hx
  · rw [hx] at he
    exact (Option.some.inj he).symm
  · have hplain := (h.value _ e he).2.1
    rw [htopic, (h.metadata _ x hx).2] at hplain
    cases hplain
  · have hsuffix := (h.metadata _ e he).2
    rw [htopic, (h.value _ x hx).2.1] at hsuffix
    cases hsuffix
  · rw [hx] at he
    exact (Option.some.inj he).symm

/-- Actions are not kept, -/
theorem Labelled.topic_ne_of_isAction (h : c.Labelled) (hx : c.Keeps x) {t : Topic}
    (hplain : t.suffix = none) (haction : t.isAction = true) : x.topic ≠ t := by
  rintro rfl
  rcases hx with hx | hx
  · rw [(h.value _ x hx).2.2] at haction
    cases haction
  · rw [(h.metadata _ x hx).2] at hplain
    cases hplain

/-- so announcements of devices are not. -/
theorem Labelled.topic_ne_deviceAdd (h : c.Labelled) (hx : c.Keeps x) : x.topic ≠ .deviceAdd :=
  h.topic_ne_of_isAction hx (by decide) (by decide)

/-- Neither are return codes. -/
theorem Labelled.suffix_ne_returnCode (h : c.Labelled) (hx : c.Keeps x) :
    x.topic.suffix ≠ some .returnCode := by
  intro hcode
  rcases hx with hx | hx
  · rw [(h.value _ x hx).2.1] at hcode
    cases hcode
  · rw [(h.metadata _ x hx).2] at hcode
    cases hcode

theorem Labelled.store (h : c.Labelled) {k : DeliveryClass}
    (hvalue : k = .publish → e.topic.suffix = none)
    (hmetadata : k = .metadata → e.topic.suffix = some .metadataRsp) : (c.store e k).Labelled := by
  cases k with
  | publish =>
    refine ⟨fun q x hx => ?_, h.metadata⟩
    by_cases hq : q = e.topic.segments
    · subst hq
      replace hx : (if e.isRetained && !e.topic.isAction then some e else none) = some x :=
        (Function.update_self e.topic.segments _ c.value).symm.trans hx
      split at hx
      · rename_i hkept
        cases hx
        rw [Bool.and_eq_true, Bool.not_eq_true'] at hkept
        exact ⟨rfl, hvalue rfl, hkept.2⟩
      · cases hx
    · exact h.value q x ((Function.update_of_ne hq _ c.value).symm.trans hx)
  | metadata =>
    refine ⟨h.value, fun q x hx => ?_⟩
    by_cases hq : q = e.topic.segments
    · subst hq
      replace hx : some e = some x :=
        (Function.update_self e.topic.segments _ c.metadata).symm.trans hx
      cases hx
      exact ⟨rfl, hmetadata rfl⟩
    · exact h.metadata q x ((Function.update_of_ne hq _ c.metadata).symm.trans hx)
  | _ => exact h

theorem Labelled.reach (h : c.Labelled) (path : List String) : (c.reach path).Labelled :=
  ⟨h.value, h.metadata⟩

theorem Labelled.after (h : c.Labelled) (deed : Deed) : (c.after deed).Labelled := by
  cases deed with
  | publish e =>
    show (c.publish e).Labelled
    cases hdelivered : c.delivered? e with
    | none =>
      rw [publish_of_none hdelivered]
      exact h.reach _
    | some d =>
      obtain ⟨e', k⟩ := d
      obtain ⟨-, htopic, -, -, -, -, hpublish, hmetadata⟩ := delivered?_eq_some hdelivered
      rw [publish_of_some hdelivered]
      refine (h.reach _).store ?_ ?_
      · rw [htopic]
        exact hpublish.mp
      · rw [htopic]
        exact hmetadata.mp
  | clear => exact Labelled.nothing
  | _ => exact ⟨h.value, h.metadata⟩

/-- What is kept after an envelope was stored is this envelope, or was there before. -/
theorem Labelled.keeps_store (h : c.Labelled) {k : DeliveryClass}
    (hvalue : k = .publish → e.topic.suffix = none)
    (hmetadata : k = .metadata → e.topic.suffix = some .metadataRsp) (hx : (c.store e k).Keeps x) :
    x = e ∨ c.Keeps x ∧ (e.topic = x.topic → k ≠ .publish ∧ k ≠ .metadata) := by
  cases k with
  | publish =>
    rcases hx with hx | hx
    · by_cases hq : x.topic.segments = e.topic.segments
      · replace hx : (if e.isRetained && !e.topic.isAction then some e else none) = some x := by
          rw [hq] at hx
          exact (Function.update_self e.topic.segments _ c.value).symm.trans hx
        split at hx
        · exact Or.inl (Option.some.inj hx).symm
        · cases hx
      · refine Or.inr ⟨Or.inl ((Function.update_of_ne hq _ c.value).symm.trans hx), fun htopic => ?_⟩
        rw [htopic] at hq
        exact absurd rfl hq
    · refine Or.inr ⟨Or.inr hx, fun htopic => ?_⟩
      have hplain := hvalue rfl
      rw [htopic, (h.metadata _ x hx).2] at hplain
      cases hplain
  | metadata =>
    rcases hx with hx | hx
    · refine Or.inr ⟨Or.inl hx, fun htopic => ?_⟩
      have hsuffix := hmetadata rfl
      rw [htopic, (h.value _ x hx).2.1] at hsuffix
      cases hsuffix
    · by_cases hq : x.topic.segments = e.topic.segments
      · rw [hq] at hx
        replace hx := (Function.update_self e.topic.segments _ c.metadata).symm.trans hx
        exact Or.inl (Option.some.inj hx).symm
      · refine Or.inr ⟨Or.inr ((Function.update_of_ne hq _ c.metadata).symm.trans hx),
          fun htopic => ?_⟩
        rw [htopic] at hq
        exact absurd rfl hq
  | _ => exact Or.inr ⟨hx, fun _ => ⟨nofun, nofun⟩⟩

/-- What is kept after an envelope was processed is the envelope as it was delivered, or was there
before and has another topic. -/
theorem Labelled.keeps_publish (h : c.Labelled) (hx : (c.publish e).Keeps x) :
    (∃ k, c.delivered? e = some (x, k)) ∨
    (c.Keeps x ∧ ∀ e' k, c.delivered? e = some (e', k) → e'.topic ≠ x.topic) := by
  cases hdelivered : c.delivered? e with
  | none =>
    rw [publish_of_none hdelivered] at hx
    exact Or.inr ⟨hx, fun e' k heq => absurd heq.symm (Option.some_ne_none _)⟩
  | some d =>
    obtain ⟨e', k⟩ := d
    obtain ⟨-, htopic, -, -, -, -, hpublish, hmetadata⟩ := delivered?_eq_some hdelivered
    rw [← htopic] at hpublish hmetadata
    rw [publish_of_some hdelivered] at hx
    rcases (h.reach _).keeps_store hpublish.mp hmetadata.mp hx with rfl | ⟨hkept, hother⟩
    · exact Or.inl ⟨k, rfl⟩
    · refine Or.inr ⟨hkept, fun e'' k' heq hsame => ?_⟩
      cases heq
      obtain ⟨hvalue, hdocument⟩ := hother hsame
      rcases hkept with hkept | hkept
      · have hplain := (h.value _ x hkept).2.1
        rw [← hsame] at hplain
        exact hvalue (hpublish.mpr hplain)
      · have hsuffix := (h.metadata _ x hkept).2
        rw [← hsame] at hsuffix
        exact hdocument (hmetadata.mpr hsuffix)

/-- A subscription at or above a path receives what it accepts and its subscriber has not sent. -/
theorem mem_recipients {above q : List String} {s : Subscription} {k : DeliveryClass}
    {origin : Option SubscriberId} (hs : s ∈ c.listeners above) (habove : above <+: q)
    (haccepts : s.accepts k = true) (horigin : origin ≠ some s.subscriber) :
    s.subscriber ∈ c.recipients q k origin := by
  unfold recipients
  rw [List.mem_filterMap]
  refine ⟨s, List.mem_flatMap.mpr ⟨above, ?_, hs⟩, ?_⟩
  · rw [List.mem_reverse, List.mem_inits]
    exact habove
  · have hother : (some s.subscriber != origin) = true := bne_iff_ne.mpr horigin.symm
    rw [haccepts, hother]
    rfl

end Contents

/-! ## What deeds leave a subscriber with -/

/-- The deed neither ends the subscription of a listener at a topic nor takes the tree down, and it
does not speak for the listener. -/
def Deed.spares (n : Nat) (p : Topic) : Deed → Prop
  | .publish e => e.origin ≠ some (.client n)
  | .dismiss t who => ¬ (t.path = p.path ∧ who = .client n)
  | .dismissAll who => who ≠ .client n
  | .clear => False
  | .announce _ _ | .enlist _ _ => True

instance (deed : Deed) (n : Nat) (p : Topic) : Decidable (deed.spares n p) :=
  match deed with
  | .publish e => inferInstanceAs (Decidable (e.origin ≠ some (.client n)))
  | .dismiss t who => inferInstanceAs (Decidable (¬ (t.path = p.path ∧ who = .client n)))
  | .dismissAll who => inferInstanceAs (Decidable (who ≠ .client n))
  | .clear => inferInstanceAs (Decidable False)
  | .announce _ _ | .enlist _ _ => inferInstanceAs (Decidable True)

namespace Contents

variable {c : Contents} {e x : Envelope} {n : Nat} {p : Topic} {flags : SubscribeFlags}
  {heard : List Envelope} {posts : List Post} {deed : Deed}

/-- Of all that is kept at and below a topic and that the flags ask for, the last thing heard is what
is kept. -/
def Shown (c : Contents) (p : Topic) (flags : SubscribeFlags) (heard : List Envelope) : Prop :=
  ∀ x, c.Keeps x → p.segments <+: x.topic.segments →
    (x.topic.suffix = none ∨ flags.metadataRsp = true) → lastValue heard x.topic = some x.value

/-- A subscription stays while it is spared. -/
theorem mem_listeners_after (hs : ⟨.client n, flags⟩ ∈ c.listeners p.segments)
    (hspares : deed.spares n p) : ⟨.client n, flags⟩ ∈ (c.after deed).listeners p.segments := by
  cases deed with
  | publish e =>
    show _ ∈ (c.publish e).listeners p.segments
    cases hdelivered : c.delivered? e with
    | none =>
      rw [publish_of_none hdelivered]
      exact hs
    | some d =>
      rw [publish_of_some hdelivered, listeners_store]
      exact hs
  | announce t code => exact hs
  | enlist t s =>
    show _ ∈ Function.update c.listeners t.segments (c.listeners t.segments ++ [s]) p.segments
    by_cases hp : p.segments = t.segments
    · rw [hp, Function.update_self]
      rw [hp] at hs
      exact List.mem_append_left _ hs
    · rw [Function.update_of_ne hp]
      exact hs
  | dismiss t who =>
    show _ ∈ Function.update c.listeners t.segments _ p.segments
    by_cases hp : p.segments = t.segments
    · have hother : who ≠ .client n :=
        fun hwho => hspares ⟨Topic.path_eq_iff.mpr hp.symm, hwho⟩
      rw [hp, Function.update_self]
      rw [hp] at hs
      exact List.mem_filter.mpr ⟨hs, decide_eq_true hother.symm⟩
    · rw [Function.update_of_ne hp]
      exact hs
  | dismissAll who =>
    have hother : who ≠ .client n := hspares
    exact List.mem_filter.mpr ⟨hs, decide_eq_true hother.symm⟩
  | clear => exact hspares.elim

/-- Nothing else that a new subscription is told has the topic of something that is kept. -/
theorem Labelled.told_eq (h : c.Labelled) {told : List Envelope}
    (htold : ∀ e ∈ told, e.topic = .deviceAdd ∨ ∃ q, c.value q = some e ∨ c.metadata q = some e)
    (hx : c.Keeps x) (he : e ∈ told) (htopic : e.topic = x.topic) : e = x := by
  rcases htold e he with hadd | ⟨q, hq⟩
  · exact absurd (htopic ▸ hadd) (h.topic_ne_deviceAdd hx)
  · exact h.keeps_unique (h.keeps hq) hx htopic

/-- A subscription that starts is shown what is kept, -/
theorem Labelled.shown_enlist (h : c.Labelled) (hretain : flags.retain = true)
    (hpublish : flags.publish = true) (htells : c.Tells posts (.enlist p ⟨.client n, flags⟩)) :
    (c.after (.enlist p ⟨.client n, flags⟩)).Shown p flags
      ((postsTo (.client n) posts).reverse ++ heard) := by
  obtain ⟨told, rfl, htold, hall⟩ := htells
  intro x hx hbelow hwanted
  have hkept : c.Keeps x := hx
  rw [postsTo_map_self]
  refine lastValue_append ?_ (Or.inl ⟨x, List.mem_reverse.mpr ?_, rfl⟩)
  · intro e he htopic
    exact congrArg _ (h.told_eq htold hkept (List.mem_reverse.mp he) htopic)
  · obtain ⟨hvalues, hdocuments⟩ := hall hretain _ x hbelow
    rcases hkept with hvalue | hdocument
    · exact hvalues hpublish hvalue
    · refine hdocuments (hwanted.resolve_left fun hplain => ?_) hdocument
      rw [(h.metadata _ x hdocument).2] at hplain
      cases hplain

/-- What has been shown is still the last thing heard if nothing else speaks of it, -/
theorem Shown.beside (h : c.Shown p flags heard) (hx : c.Keeps x)
    (hbelow : p.segments <+: x.topic.segments)
    (hwanted : x.topic.suffix = none ∨ flags.metadataRsp = true)
    (hposts : ∀ e ∈ postsTo (.client n) posts, e.topic = x.topic → e.value = x.value) :
    lastValue ((postsTo (.client n) posts).reverse ++ heard) x.topic = some x.value :=
  lastValue_append (fun e he => hposts e (List.mem_reverse.mp he)) (Or.inr (h x hx hbelow hwanted))

/-- and return codes speak of nothing that is kept. -/
theorem AreCodes.topic_ne (hcodes : c.AreCodes posts) (hx : x.topic.suffix ≠ some .returnCode)
    (he : e ∈ postsTo (.client n) posts) : e.topic ≠ x.topic := by
  intro htopic
  have hsuffix : e.topic.suffix = some .returnCode := (hcodes _ (mem_postsTo.mp he)).1
  rw [htopic] at hsuffix
  exact hx hsuffix

/-- The listener is one of those who are told of what was just stored. -/
theorem Labelled.mem_recipients_of_stored (h : c.Labelled) {k : DeliveryClass}
    (hpublish : flags.publish = true) (hs : ⟨.client n, flags⟩ ∈ c.listeners p.segments)
    (hspares : e.origin ≠ some (.client n)) (hdelivered : c.delivered? e = some (x, k))
    (hx : (c.publish e).Keeps x) (hbelow : p.segments <+: x.topic.segments)
    (hwanted : x.topic.suffix = none ∨ flags.metadataRsp = true) :
    .client n ∈ c.recipients e.topic.segments k x.origin := by
  obtain ⟨-, htopic, -, horigin, -, -, hplain, hdocument⟩ := delivered?_eq_some hdelivered
  rw [← htopic] at hplain hdocument
  have haccepts : (⟨.client n, flags⟩ : Subscription).accepts k = true := by
    rcases hx with hvalue | hmetadata
    · rw [hplain.mpr ((h.after (.publish e)).value _ x hvalue).2.1]
      exact hpublish
    · have hsuffix := ((h.after (.publish e)).metadata _ x hmetadata).2
      rw [hdocument.mpr hsuffix]
      refine hwanted.resolve_left fun hnone => ?_
      rw [hsuffix] at hnone
      cases hnone
  refine mem_recipients hs ?_ haccepts ?_
  · rw [← htopic]
    exact hbelow
  · rw [horigin]
    exact hspares

theorem Shown.publish (h : c.Shown p flags heard) (hlabelled : c.Labelled)
    (hpublish : flags.publish = true) (hs : ⟨.client n, flags⟩ ∈ c.listeners p.segments)
    (hspares : e.origin ≠ some (.client n)) (hcodes : c.AreCodes posts) :
    (c.publish e).Shown p flags ((postsTo (.client n) (c.posts e ++ posts)).reverse ++ heard) := by
  intro x hx hbelow hwanted
  have hnocode := (hlabelled.after (.publish e)).suffix_ne_returnCode hx
  rcases hlabelled.keeps_publish hx with ⟨k, hdelivered⟩ | ⟨hkept, hother⟩
  · have htold := hlabelled.mem_recipients_of_stored hpublish hs hspares hdelivered hx hbelow hwanted
    rw [posts_of_some hdelivered, postsTo_append, postsTo_map]
    refine lastValue_append ?_ (Or.inl ⟨x, ?_, rfl⟩)
    · intro e' he' htopic
      rcases List.mem_append.mp (List.mem_reverse.mp he') with hsame | hcode
      · rw [List.eq_of_mem_replicate hsame]
      · exact absurd htopic (hcodes.topic_ne hnocode hcode)
    · refine List.mem_reverse.mpr (List.mem_append_left _ (List.mem_replicate.mpr ⟨?_, rfl⟩))
      exact Nat.ne_of_gt (List.count_pos_iff.mpr htold)
  · refine h.beside hkept hbelow hwanted fun e' he' htopic => ?_
    rw [postsTo_append] at he'
    rcases List.mem_append.mp he' with hpost | hcode
    · cases hdelivered : c.delivered? e with
      | none =>
        rw [posts_of_none hdelivered] at hpost
        cases hpost
      | some d =>
        rw [posts_of_some hdelivered, postsTo_map] at hpost
        rw [List.eq_of_mem_replicate hpost] at htopic
        exact absurd htopic (hother d.1 d.2 hdelivered)
    · exact absurd htopic (hcodes.topic_ne hnocode hcode)

/-- So a subscription is shown every change while it is spared. -/
theorem Shown.after (h : c.Shown p flags heard) (hlabelled : c.Labelled)
    (hpublish : flags.publish = true) (hs : ⟨.client n, flags⟩ ∈ c.listeners p.segments)
    (hspares : deed.spares n p) (htells : c.Tells posts deed) :
    (c.after deed).Shown p flags ((postsTo (.client n) posts).reverse ++ heard) := by
  cases deed with
  | publish e =>
    obtain ⟨codes, hcodes, rfl⟩ := htells
    exact h.publish hlabelled hpublish hs hspares hcodes
  | announce t code =>
    intro x hx hbelow hwanted
    have hnocode := hlabelled.suffix_ne_returnCode hx
    exact h.beside hx hbelow hwanted fun e he htopic =>
      absurd htopic (AreCodes.topic_ne htells hnocode he)
  | enlist t s =>
    obtain ⟨told, rfl, htold, -⟩ := htells
    intro x hx hbelow hwanted
    refine h.beside hx hbelow hwanted fun e he htopic => ?_
    obtain ⟨e', he', heq⟩ := List.mem_map.mp (mem_postsTo.mp he)
    obtain rfl : e' = e := congrArg Prod.snd heq
    exact congrArg _ (hlabelled.told_eq htold hx he' htopic)
  | dismiss t who | dismissAll who =>
    obtain rfl : posts = [] := htells
    exact h
  | clear => exact hspares.elim

end Contents

/-! ## Runs -/

namespace Bus

variable {b b' : Bus} {n : Nat} {p : Topic} {flags : SubscribeFlags} {deed : Deed}

/-- A listener holds a subscription, and was shown what is kept. -/
structure Mirrored (n : Nat) (p : Topic) (flags : SubscribeFlags) (b : Bus) : Prop where
  there : n < b.audience.listeners.length
  listens : ⟨.client n, flags⟩ ∈ b.tree.contents.listeners p.segments
  shown : b.tree.contents.Shown p flags (b.audience.heardBy n)

theorem Mirrored.untold (h : b.Mirrored n p flags) (huntold : b.Untold b') : b'.Mirrored n p flags := by
  obtain ⟨htree, hrecord, hle⟩ := huntold
  have hheard : b'.audience.heardBy n = b.audience.heardBy n := by
    unfold Audience.heardBy
    rw [hrecord]
  refine ⟨Nat.lt_of_lt_of_le h.there hle, ?_, ?_⟩
  · rw [htree]
    exact h.listens
  · rw [htree, hheard]
    exact h.shown

theorem mirrored_enlist (hrooted : b.tree.Rooted) (hlabelled : b.tree.contents.Labelled)
    (hn : n < b.audience.listeners.length) (hretain : flags.retain = true)
    (hpublish : flags.publish = true) :
    (b.perform (.enlist p ⟨.client n, flags⟩)).Mirrored n p flags := by
  obtain ⟨posts, htells, heffect⟩ := effect_perform hrooted (.enlist p ⟨.client n, flags⟩)
  refine ⟨?_, ?_, ?_⟩
  · rw [heffect.posted.listeners_eq]
    exact hn
  · rw [heffect.contents_eq]
    show _ ∈ Function.update b.tree.contents.listeners p.segments _ p.segments
    rw [Function.update_self]
    exact List.mem_append_right _ (List.mem_singleton_self _)
  · rw [heffect.contents_eq, heffect.posted.heardBy_eq n hn]
    exact hlabelled.shown_enlist hretain hpublish htells

theorem Mirrored.perform (h : b.Mirrored n p flags) (hrooted : b.tree.Rooted)
    (hlabelled : b.tree.contents.Labelled) (hpublish : flags.publish = true)
    (hspares : deed.spares n p) : (b.perform deed).Mirrored n p flags := by
  obtain ⟨posts, htells, heffect⟩ := effect_perform hrooted deed
  refine ⟨?_, ?_, ?_⟩
  · rw [heffect.posted.listeners_eq]
    exact h.there
  · rw [heffect.contents_eq]
    exact Contents.mem_listeners_after h.listens hspares
  · rw [heffect.contents_eq, heffect.posted.heardBy_eq n h.there]
    exact h.shown.after hlabelled hpublish h.listens hspares htells

/-- What is kept at and below the topic is what the listener has heard last. -/
theorem Mirrored.lastHeard_eq (h : b.Mirrored n p flags) (hlabelled : b.tree.contents.Labelled)
    {t : Topic} (ht : t.startsWith p) (hplain : t.suffix = none) {v : Value} :
    (b.keptValue t = some v → b.audience.lastHeard n t = some v) ∧
    (flags.metadataRsp = true → b.keptMetadata t = some v →
      b.audience.lastHeard n (t.withSuffix .metadataRsp) = some v) := by
  have hbelow := Topic.startsWith_iff.mp ht
  constructor
  · intro hkept
    rw [keptValue_eq] at hkept
    obtain ⟨e, he, rfl⟩ := Option.map_eq_some_iff.mp hkept
    obtain ⟨hsegments, hsuffix, -⟩ := hlabelled.value _ e he
    have htopic : e.topic = t := Topic.eq_of_segments hsegments (hsuffix.trans hplain.symm)
    rw [← htopic] at hbelow ⊢
    exact h.shown e (hlabelled.keeps (Or.inl he)) hbelow (Or.inl hsuffix)
  · intro hflag hkept
    rw [keptMetadata_eq] at hkept
    obtain ⟨e, he, rfl⟩ := Option.map_eq_some_iff.mp hkept
    obtain ⟨hsegments, hsuffix⟩ := hlabelled.metadata _ e he
    have htopic : e.topic = t.withSuffix .metadataRsp := by
      refine Topic.eq_of_segments ?_ ?_
      · rw [hsegments, Topic.segments_withSuffix]
      · rw [hsuffix, Topic.suffix_withSuffix]
    rw [← hsegments] at hbelow
    rw [← htopic]
    exact h.shown e (hlabelled.keeps (Or.inr he)) hbelow (Or.inr hflag)

end Bus

namespace Dispatcher

variable {d : Dispatcher} {n : Nat} {p : Topic} {flags : SubscribeFlags}

theorem labelled_foldl {c : Contents} (h : c.Labelled) (deeds : List Deed) :
    (deeds.foldl Contents.after c).Labelled := by
  induction deeds generalizing c with
  | nil => exact h
  | cons deed deeds ih => exact ih (h.after deed)

theorem run_labelled (config : BusConfig) (as : List Action) :
    (run config as).bus.tree.contents.Labelled := by
  rw [(run_contents config as).2]
  exact labelled_foldl .nothing (history config as)

/-- A command to subscribe starts the subscription and is answered. -/
theorem exists_plan_subscribe {s : Subscription} {e : Envelope} {es : List Envelope}
    (hnext : d.phase.commandsLeft = e :: es) (he : e.topic = .subscribe)
    (hcontrol : e.control = some (.subscribe p s)) :
    ∃ t code, d.plan = ⟨d.bus, [.enlist p s, .announce t code]⟩ := by
  have hlocal : Topic.subscribe.isLocal := by decide
  have hfinalize : Topic.subscribe ≠ .finalize := by decide
  obtain ⟨b, phase⟩ := d
  obtain rfl : phase = .commands (e :: es) := phase_of_commandsLeft hnext
  refine ⟨.subscribe, (b.localCommand { e with call := none }).1.code, ?_⟩
  simp only [plan, Bus.commandPlan, Envelope.localDeeds, he, hcontrol, hlocal, hfinalize, if_true,
    if_false]
  rfl

/-- When a command to subscribe was handled, its listener has been shown what is kept. -/
theorem mirrored_advance (hrooted : d.bus.tree.Rooted) (hlabelled : d.bus.tree.contents.Labelled)
    {e : Envelope} {es : List Envelope} (hnext : d.phase.commandsLeft = e :: es)
    (he : e.topic = .subscribe) (hcontrol : e.control = some (.subscribe p ⟨.client n, flags⟩))
    (hn : n < d.bus.audience.listeners.length) (hretain : flags.retain = true)
    (hpublish : flags.publish = true) : d.advance.bus.Mirrored n p flags := by
  obtain ⟨t, code, hplan⟩ := exists_plan_subscribe hnext he hcontrol
  have hdone : d.plan.done.Mirrored n p flags := by
    obtain ⟨posts, -, heffect⟩ := Bus.effect_perform hrooted (.enlist p ⟨.client n, flags⟩)
    have htold := Bus.mirrored_enlist (p := p) hrooted hlabelled hn hretain hpublish
    have hlabelled' := hlabelled.after (.enlist p ⟨.client n, flags⟩)
    rw [← heffect.contents_eq] at hlabelled'
    rw [hplan, Plan.done, Bus.performAll_cons, Bus.performAll_cons, Bus.performAll_nil]
    exact htold.perform heffect.rooted hlabelled' hpublish trivial
  exact hdone.untold (untold_advance hrooted)

/-- What deeds of some kind preserve where all that is kept is in its place holds in all of a run that
is made of such deeds. -/
theorem labelled_induction {motive : List Deed → Bus → Prop} {allowed : Deed → Prop}
    (huntold : ∀ deeds b b', b.Untold b' → motive deeds b → motive deeds b')
    (hperform : ∀ deeds b deed, b.tree.Rooted → b.tree.contents.Labelled → allowed deed →
      motive deeds b → motive (deeds ++ [deed]) (b.perform deed))
    (hrooted : d.bus.tree.Rooted) (hlabelled : d.bus.tree.contents.Labelled)
    (hstart : motive [] d.bus) (as : List Action)
    (hallowed : ∀ deed ∈ d.historyFrom as, allowed deed) :
    motive (d.historyFrom as) (d.runFrom as).bus := by
  have hrun := historyFrom_induction (motive := fun deeds b => b.tree.Rooted ∧
    b.tree.contents.Labelled ∧ ((∀ deed ∈ deeds, allowed deed) → motive deeds b))
    (fun _ _ hb => hb.1)
    (by
      intro deeds b b' hb' hb
      rw [hb'.tree_eq]
      exact ⟨hb.1, hb.2.1, fun hdeeds => huntold _ _ _ hb' (hb.2.2 hdeeds)⟩)
    (by
      intro deeds b deed hb
      obtain ⟨posts, -, heffect⟩ := Bus.effect_perform hb.1 deed
      refine ⟨heffect.rooted, ?_, fun hdeeds => ?_⟩
      · rw [heffect.contents_eq]
        exact hb.2.1.after deed
      · obtain ⟨hbefore, hlast⟩ := List.forall_mem_append.mp hdeeds
        exact hperform _ _ _ hb.1 hb.2.1 (List.forall_mem_singleton.mp hlast) (hb.2.2 hbefore))
    (h := []) ⟨hrooted, hlabelled, fun _ => hstart⟩ as
  exact hrun.2.2 hallowed

/-- It stays so while its subscription is spared. -/
theorem mirrored_runFrom (hrooted : d.bus.tree.Rooted) (hlabelled : d.bus.tree.contents.Labelled)
    (hpublish : flags.publish = true) (h : d.bus.Mirrored n p flags) (as : List Action)
    (hspared : ∀ deed ∈ d.historyFrom as, deed.spares n p) :
    (d.runFrom as).bus.Mirrored n p flags :=
  labelled_induction (motive := fun _ b => b.Mirrored n p flags)
    (fun _ _ _ huntold hb => hb.untold huntold)
    (fun _ _ _ hrooted hlabelled hspares hb => hb.perform hrooted hlabelled hpublish hspares)
    hrooted hlabelled h as hspared

/-- A listener subscribes to a topic and asks for values, also for those that are kept. From then on,
until its subscription is ended or the bus is, the value that is kept at any topic there is the last
that the listener has heard of it; and if it asks for metadata, so are the metadata. -/
theorem run_mirror (config : BusConfig) (as bs : List Action) {e : Envelope} {es : List Envelope}
    (hnext : (run config as).phase.commandsLeft = e :: es) (he : e.topic = .subscribe)
    (hcontrol : e.control = some (.subscribe p ⟨.client n, flags⟩))
    (hn : n < (run config as).bus.audience.listeners.length)
    (hretain : flags.retain = true) (hpublish : flags.publish = true)
    (hspared : ∀ deed ∈ (run config as).advance.historyFrom bs, deed.spares n p)
    {t : Topic} (ht : t.startsWith p) (hplain : t.suffix = none) (v : Value) :
    let b := ((run config as).advance.runFrom bs).bus
    (b.keptValue t = some v → b.audience.lastHeard n t = some v) ∧
    (flags.metadataRsp = true → b.keptMetadata t = some v →
      b.audience.lastHeard n (t.withSuffix .metadataRsp) = some v) := by
  intro b
  have hsubscribed := mirrored_advance (run_contents config as).1 (run_labelled config as) hnext he
    hcontrol hn hretain hpublish
  -- the step of the dispatcher is one more action of the run
  have hrooted := (run_contents config (as ++ [.advance])).1
  have hlabelled := run_labelled config (as ++ [.advance])
  have hlater := run_labelled config (as ++ [.advance] ++ bs)
  rw [run_append] at hrooted hlabelled
  rw [run_append, run_append] at hlater
  have hmirrored := mirrored_runFrom hrooted hlabelled hpublish hsubscribed bs hspared
  exact hmirrored.lastHeard_eq hlater ht hplain

/-! ### A listener that comes late -/

deriving instance DecidableEq for Control

/-- A client sets a value, to be kept. -/
def setKept (v : UInt8) : Action :=
  .submit (.request (.publish ⟨"a/x", Value.u8 v, .retained, 0, 0⟩ 0))

/-- A value is kept when a listener subscribes; its command is the next one. -/
def comesLate : List Action :=
  [.addListener ⟨"listener", .internal, fun _ => {}, 0⟩, setKept 1,
    .submit (.request (.subscribe "a" "listener" { retain := true, publish := true } 0)),
    .advance, .advance, .advance]

/-- Then the value is set anew. -/
def setAnew : List Action :=
  [setKept 2, .advance, .advance, .advance, .advance, .advance]

/-- The command of the listener. -/
def lateCommand : Envelope := (run {} comesLate).phase.commandsLeft.head (by decide +kernel)

theorem lateCommand_spec :
    lateCommand.topic = .subscribe ∧ lateCommand.control =
      some (.subscribe ⟨"a", by decide⟩ ⟨.client 0, { retain := true, publish := true }⟩) := by
  decide +kernel

/-- The listener has heard the new value. -/
theorem late_listener_hears :
    ((run {} comesLate).advance.runFrom setAnew).bus.audience.lastHeard 0 ⟨"a/x", by decide⟩ =
      some (.u8 2) :=
  (run_mirror {} comesLate setAnew (List.cons_head_tail _).symm lateCommand_spec.1 lateCommand_spec.2
    (by decide +kernel) rfl rfl (by decide +kernel) (by decide +kernel) (by decide +kernel) _).1
    (by decide +kernel)

end Dispatcher
end InstrumentBus
