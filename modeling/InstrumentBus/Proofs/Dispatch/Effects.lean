import Mathlib
import InstrumentBus.Proofs.Topic.Levels
import InstrumentBus.Proofs.Tree.Walk
import InstrumentBus.Proofs.Dispatch.Posts

/-!
# What processing does

Processing an envelope, announcing a return code and starting or ending a subscription each change
what the tree keeps and tell someone of it. Here this is said without nodes, of the maps that a tree
stands for: `Contents.delivered?` is what becomes of an envelope, `Contents.publish` what is kept
afterwards, and `Contents.posts` who is told. `Bus.Effect` puts the two sides together;
`effect_process`, `effect_emitReturnCode`, `effect_startSubscription` and `effect_endSubscription`
are the effects of what the dispatcher does.
-/

namespace InstrumentBus

/-! ## What becomes of an envelope -/

/-- The value is the text of a metadata document. -/
def Metadata.isDocument : Value → Bool
  | .str text | .json text => (syntaxCheck text).isOk
  | _ => false

/-- What is left of an envelope after its value was checked by a document, if there is one. -/
def Envelope.validated (document : Option Envelope) (e : Envelope) : Except StatusCode Envelope :=
  match document.map Envelope.value with
  | some (.str text) | some (.json text) =>
    match Metadata.validate text e.value with
    | .error s => .error s
    | .ok none => .ok e
    | .ok (some v) => .ok (e.setValue v)
  | _ => .ok e

/-- The envelope says again what is kept already. -/
def Envelope.repeats (kept : Option Envelope) (e : Envelope) : Bool :=
  match kept with
  | some kept => kept.value == e.value
  | none => false

theorem Envelope.validated_ok {document : Option Envelope} {e e' : Envelope}
    (h : e.validated document = .ok e') :
    e'.topic = e.topic ∧ e'.isRetained = e.isRetained ∧ e'.origin = e.origin ∧
      e'.op = e.op ∧ e'.app = e.app := by
  unfold validated at h
  split at h
  · split at h
    · cases h
    · cases h
      exact ⟨rfl, rfl, rfl, rfl, rfl⟩
    · cases h
      obtain ⟨-, hretained, hop, happ, horigin⟩ := setValue_spec e _
      exact ⟨topic_setValue e _, hretained, horigin, hop, happ⟩
  · split at h
    · cases h
    · cases h
      exact ⟨rfl, rfl, rfl, rfl, rfl⟩
    · cases h
      obtain ⟨-, hretained, hop, happ, horigin⟩ := setValue_spec e _
      exact ⟨topic_setValue e _, hretained, horigin, hop, happ⟩
  · cases h
    exact ⟨rfl, rfl, rfl, rfl, rfl⟩

namespace Contents

/-- What is delivered when an envelope is processed, and in which class: nothing at the root,
nothing that is refused, and no value that is there already. -/
def delivered? (c : Contents) (e : Envelope) : Option (Envelope × DeliveryClass) :=
  if e.topic.segments = [] then none
  else
    match e.topic.suffix with
    | some .metadataReq => some (e, .metadataReq)
    | some .metadataRsp => if Metadata.isDocument e.value then some (e, .metadata) else none
    | some .queryReq => some (e, .queryReq)
    | some .queryRsp => some (e, .queryRsp)
    | some .returnCode => some (e, .returnCode)
    | none =>
      match e.validated (c.metadata e.topic.segments) with
      | .error _ => none
      | .ok e' => if e'.repeats (c.value e.topic.segments) then none else some (e', .publish)

/-- What is kept of an envelope that is delivered. A value that is not kept ends the one before. -/
def store (c : Contents) (e : Envelope) : DeliveryClass → Contents
  | .publish => { c with
      value := Function.update c.value e.topic.segments
        (if e.isRetained && !e.topic.isAction then some e else none) }
  | .metadata => { c with metadata := Function.update c.metadata e.topic.segments (some e) }
  | _ => c

/-- What is there after an envelope was processed. -/
def publish (c : Contents) (e : Envelope) : Contents :=
  match c.delivered? e with
  | some (e', k) => (c.reach e.topic.segments).store e' k
  | none => c.reach e.topic.segments

/-- Who is told of an envelope that is processed. -/
def posts (c : Contents) (e : Envelope) : List Post :=
  match c.delivered? e with
  | some (e', k) => (c.recipients e.topic.segments k e'.origin).map (·, e')
  | none => []

/-- The subscriptions at a path after one was added, -/
def enlist (c : Contents) (path : List String) (s : Subscription) : Contents :=
  { c with listeners := Function.update c.listeners path (c.listeners path ++ [s]) }

/-- or those of a subscriber were ended. -/
def dismiss (c : Contents) (path : List String) (who : SubscriberId) : Contents :=
  { c with
    listeners := Function.update c.listeners path
      ((c.listeners path).filter (·.subscriber ≠ who)) }

/-- Return codes for those who listen for them. -/
def AreCodes (c : Contents) (posts : List Post) : Prop :=
  ∀ x ∈ posts, x.2.topic.suffix = some .returnCode ∧
    ∃ path, x.1 ∈ c.recipients path .returnCode none

/-- What is delivered has the topic of what was processed, up to its value. -/
theorem delivered?_eq_some {c : Contents} {e e' : Envelope} {k : DeliveryClass}
    (h : c.delivered? e = some (e', k)) :
    e.topic.segments ≠ [] ∧ e'.topic = e.topic ∧ e'.isRetained = e.isRetained ∧
      e'.origin = e.origin ∧ e'.op = e.op ∧ e'.app = e.app ∧
      (k = .publish ↔ e.topic.suffix = none) ∧
      (k = .metadata ↔ e.topic.suffix = some .metadataRsp) := by
  unfold delivered? at h
  split at h
  · cases h
  · rename_i hroot
    refine ⟨hroot, ?_⟩
    split at h
    · cases h
      simp_all
    · split at h
      · cases h
        simp_all
      · cases h
    · cases h
      simp_all
    · cases h
      simp_all
    · cases h
      simp_all
    · split at h
      · cases h
      · rename_i hvalidated
        obtain ⟨htopic, hretained, horigin, hop, happ⟩ := Envelope.validated_ok hvalidated
        split at h
        · cases h
        · cases h
          simp_all

theorem delivered?_of_plain {c : Contents} {e : Envelope} (hroot : e.topic.segments ≠ [])
    (hplain : e.topic.suffix = none) :
    c.delivered? e = match e.validated (c.metadata e.topic.segments) with
      | .error _ => none
      | .ok e' => if e'.repeats (c.value e.topic.segments) then none else some (e', .publish) := by
  unfold delivered?
  rw [if_neg hroot, hplain]

section

variable {c : Contents} {e e' : Envelope} {k : DeliveryClass}

theorem publish_of_none (h : c.delivered? e = none) : c.publish e = c.reach e.topic.segments := by
  unfold publish
  rw [h]

theorem publish_of_some (h : c.delivered? e = some (e', k)) :
    c.publish e = (c.reach e.topic.segments).store e' k := by
  unfold publish
  rw [h]

theorem posts_of_none (h : c.delivered? e = none) : c.posts e = [] := by
  unfold posts
  rw [h]

theorem posts_of_some (h : c.delivered? e = some (e', k)) :
    c.posts e = (c.recipients e.topic.segments k e'.origin).map (·, e') := by
  unfold posts
  rw [h]

end

theorem listeners_store (c : Contents) (e : Envelope) (k : DeliveryClass) :
    (c.store e k).listeners = c.listeners := by
  cases k <;> rfl

theorem recipients_congr {c c' : Contents} (h : c'.listeners = c.listeners) :
    c'.recipients = c.recipients := by
  unfold recipients
  rw [h]

@[simp] theorem recipients_reach (c : Contents) (path : List String) :
    (c.reach path).recipients = c.recipients := recipients_congr rfl

theorem areCodes_congr {c c' : Contents} (h : c'.listeners = c.listeners) {posts : List Post} :
    c'.AreCodes posts ↔ c.AreCodes posts := by
  unfold AreCodes
  rw [recipients_congr h]

theorem reach_store (c : Contents) (e : Envelope) (k : DeliveryClass) (path : List String) :
    (c.store e k).reach path = (c.reach path).store e k := by
  cases k <;> rfl

theorem reach_reach (c : Contents) (path : List String) :
    (c.reach path).reach path = c.reach path := by
  refine Contents.ext (funext fun q => ?_) rfl rfl rfl
  simp only [reach, Bool.or_assoc, Bool.or_self]

theorem publish_reach (c : Contents) (e : Envelope) :
    (c.reach e.topic.segments).publish e = c.publish e := by
  have hdelivered : (c.reach e.topic.segments).delivered? e = c.delivered? e := rfl
  unfold publish
  rw [hdelivered, reach_reach]

end Contents

theorem Tree.Rooted.reach_nil {t : Tree} (h : t.Rooted) : t.contents.reach [] = t.contents := by
  refine Contents.ext (funext fun q => ?_) rfl rfl rfl
  show (t.contents.known q || q.isPrefixOf []) = t.contents.known q
  cases q with
  | nil => rw [h.known_of_prefix h.root_lt List.nil_prefix, Bool.true_or]
  | cons name path => simp

namespace Bus

variable {b b' : Bus} {c : Contents} {posts : List Post} {e : Envelope}

/-! ## Effects -/

/-- One bus comes from another: what the tree keeps is `c`, and everyone got what is posted. -/
structure Effect (c : Contents) (posts : List Post) (b b' : Bus) : Prop where
  rooted : b'.tree.Rooted
  contents_eq : b'.tree.contents = c
  posted : b.Posted posts b'

theorem Effect.refl (h : b.tree.Rooted) : b.Effect b.tree.contents [] b := ⟨h, rfl, Posted.refl b⟩

/-- A change of the tree alone. -/
theorem effect_tree {tree : Tree} (h : tree.Rooted) (hcontents : tree.contents = c) :
    b.Effect c [] { b with tree } := ⟨h, hcontents, posted_tree b tree⟩

/-- Every topic has a node, made if it is missing. -/
theorem exists_nodeOf (h : b.tree.Rooted) (t : Topic) :
    ∃ node tree, b.nodeOf t = .ok (node, { b with tree }) ∧ b.tree.Made t.segments node tree := by
  have hmade := h.made t.segments
  refine ⟨_, _, ?_, hmade⟩
  unfold nodeOf Tree.findOrCreate
  rw [t.parse_path, ← t.segments_withoutSuffix]
  rfl

/-- Delivery tells the recipients and leaves the tree alone. -/
theorem effect_deliver (h : b.tree.Rooted) {path : List String} {node : NodeId}
    (hnode : b.tree.descend Tree.root path = some node) (e : Envelope) (k : DeliveryClass) :
    b.Effect b.tree.contents ((b.tree.contents.recipients path k e.origin).map (·, e))
      (b.deliver node e k).2 := by
  unfold deliver Tree.deliver
  rw [h.recipients_eq hnode]
  obtain ⟨hposted, htree⟩ := posted_deliverTo e (b.tree.contents.recipients path k e.origin) b
  refine ⟨?_, ?_, hposted⟩
  · rw [htree]
    exact h
  · rw [htree]

/-- Delivery in a tree that was changed just before, but not in who listens. -/
theorem effect_deliver_of_listeners {tree : Tree} (h : tree.Rooted) {path : List String}
    {node : NodeId} (hnode : tree.descend Tree.root path = some node) (hcontents : tree.contents = c)
    (hlisteners : c.listeners = b.tree.contents.listeners) (calls : CallTable) (e : Envelope)
    (k : DeliveryClass) :
    b.Effect c ((b.tree.contents.recipients path k e.origin).map (·, e))
      (({ b with tree, calls } : Bus).deliver node e k).2 := by
  have hdeliver := effect_deliver (b := { b with tree, calls }) h hnode e k
  rw [show ({ b with tree, calls } : Bus).tree.contents = c from hcontents,
    Contents.recipients_congr hlisteners] at hdeliver
  have hbefore : b.Posted [] { b with tree, calls } := posted_nil rfl rfl rfl rfl rfl rfl
  exact ⟨hdeliver.rooted, hdeliver.contents_eq, hbefore.after hdeliver.posted⟩

/-! ## Return codes -/

/-- A return code is told to those who listen for return codes at its topic, as a value for the return
codes of the topic. -/
theorem effect_announced (h : b.tree.Rooted) (t : Topic) (code : Int32) :
    ∃ answer : Envelope, answer.topic = t.withSuffix .returnCode ∧ answer.value = .i32 code ∧
      b.Effect (b.tree.contents.reach t.segments)
        ((b.tree.contents.recipients t.segments .returnCode none).map (·, answer))
        (b.emitReturnCode t code) := by
  unfold emitReturnCode
  simp only
  generalize (b.calls.complete _ _).2 = calls
  obtain ⟨node, tree, hnode, hmade⟩ := exists_nodeOf (b := { b with calls }) h t
  rw [hnode]
  simp only
  set answer := envelope _ (t.withSuffix .returnCode) (Value.i32 code) {}
  have horigin : answer.origin = none := Envelope.make_origin ..
  have heffect := effect_deliver_of_listeners (b := b) hmade.rooted hmade.descend_eq hmade.contents_eq
    rfl calls answer .returnCode
  rw [horigin] at heffect
  exact ⟨answer, envelope_topic .., (Envelope.make_spec ..).1, heffect⟩

/-- Announcing a return code makes the topic known and tells those who listen for return codes. -/
theorem effect_emitReturnCode (h : b.tree.Rooted) (t : Topic) (code : Int32) :
    ∃ codes, b.tree.contents.AreCodes codes ∧
      b.Effect (b.tree.contents.reach t.segments) codes (b.emitReturnCode t code) := by
  obtain ⟨answer, htopic, -, heffect⟩ := effect_announced h t code
  refine ⟨_, fun x hx => ?_, heffect⟩
  obtain ⟨who, hwho, rfl⟩ := List.mem_map.mp hx
  refine ⟨?_, t.segments, hwho⟩
  show answer.topic.suffix = _
  rw [htopic, Topic.suffix_withSuffix]

/-! ## Values -/

/-- A node keeps what asks for it, unless the last level of its path is that of an action. -/
theorem keeps_eq {t : Tree} {node : NodeId} {topic : Topic} (h : t.Rooted)
    (hnode : t.descend Tree.root topic.segments = some node) (hroot : topic.segments ≠ [])
    (e : Envelope) : t.keeps node e = (e.isRetained && !topic.isAction) := by
  obtain ⟨hlt, hlevels⟩ := h.descend_eq_some_iff.mp hnode
  have hname := h.name_eq_getLast hlt (by rw [hlevels]; exact hroot)
  rw [hlevels, Topic.getLast?_segments fun hnil => hroot (Topic.segments_of_root hnil)] at hname
  unfold Tree.keeps Topic.isAction
  rw [← Option.some.inj hname]
  rfl

/-- A value is checked by the metadata at its topic, -/
theorem validate_eq {node : NodeId} {path : List String}
    (hnode : b.tree.descend Tree.root path = some node) (e : Envelope) :
    b.validate node e = e.validated (b.tree.contents.metadata path) := by
  rw [Tree.metadata_of_descend hnode]
  rfl

/-- and compared with the value there. -/
theorem isDuplicate_eq {node : NodeId} {path : List String}
    (hnode : b.tree.descend Tree.root path = some node) (e : Envelope) :
    b.isDuplicate node e = e.repeats (b.tree.contents.value path) := by
  rw [Tree.value_of_descend hnode]
  rfl

/-- Publishing a value at its node. The topic is there by then. -/
theorem effect_publishValue (h : b.tree.Rooted) {node : NodeId}
    (hnode : b.tree.descend Tree.root e.topic.segments = some node)
    (hroot : e.topic.segments ≠ []) (hplain : e.topic.suffix = none)
    (hreach : b.tree.contents.reach e.topic.segments = b.tree.contents) :
    ∃ codes, b.tree.contents.AreCodes codes ∧
      b.Effect (b.tree.contents.publish e) (b.tree.contents.posts e ++ codes)
        (b.publishValue node e).2 := by
  have hdelivered := Contents.delivered?_of_plain (c := b.tree.contents) hroot hplain
  unfold publishValue
  rw [validate_eq hnode]
  cases hvalidated : e.validated (b.tree.contents.metadata e.topic.segments) with
  | error s =>
    rw [hvalidated] at hdelivered
    rw [Contents.publish_of_none hdelivered, Contents.posts_of_none hdelivered]
    simp only [List.nil_append]
    exact effect_emitReturnCode h e.topic s.code
  | ok e' =>
    obtain ⟨htopic, -, -, -, -⟩ := Envelope.validated_ok hvalidated
    rw [hvalidated] at hdelivered
    simp only [isDuplicate_eq hnode]
    by_cases hagain : e'.repeats (b.tree.contents.value e.topic.segments)
    · simp only [if_pos hagain] at hdelivered
      rw [if_pos hagain, Contents.publish_of_none hdelivered, Contents.posts_of_none hdelivered,
        ← htopic]
      simp only [List.nil_append]
      exact effect_emitReturnCode h e'.topic 0
    · simp only [if_neg hagain] at hdelivered
      rw [if_neg hagain, Contents.publish_of_some hdelivered, Contents.posts_of_some hdelivered,
        hreach]
      obtain ⟨hrooted, hcontents⟩ := h.setRetained hnode e'
      have hstored : (b.tree.setRetained node e').contents = b.tree.contents.store e' .publish := by
        rw [hcontents, keeps_eq h hnode hroot, ← htopic]
        rfl
      have hdeliver := effect_deliver_of_listeners hrooted
        (Tree.descend_modify hnode fun _ => ⟨rfl, rfl, rfl⟩) hstored
        (Contents.listeners_store _ _ _) b.calls e' .publish
      generalize ({ b with tree := b.tree.setRetained node e' } : Bus).deliver node e' .publish =
        delivered at hdeliver ⊢
      obtain ⟨outcome, b'⟩ := delivered
      simp only at hdeliver ⊢
      cases outcome with
      | none =>
        refine ⟨[], List.forall_mem_nil _, ?_⟩
        rw [List.append_nil]
        exact hdeliver
      | some s =>
        simp only
        obtain ⟨codes, hcodes, hemit⟩ := effect_emitReturnCode hdeliver.rooted e'.topic s.code
        rw [hdeliver.contents_eq] at hcodes hemit
        rw [Contents.reach_store, htopic, hreach] at hemit
        refine ⟨codes, (Contents.areCodes_congr (Contents.listeners_store _ _ _)).mp hcodes, ?_⟩
        rw [htopic]
        exact ⟨hemit.rooted, hemit.contents_eq, hdeliver.posted.trans hemit.posted⟩

/-! ## Documents -/

theorem publishMetadata_eq (b : Bus) (node : NodeId) (e : Envelope) :
    (b.publishMetadata node e).2 =
      if Metadata.isDocument e.value then
        (({ b with tree := b.tree.setMetadata node e } : Bus).deliver node e .metadata).2
      else b := by
  unfold publishMetadata
  generalize e.value = v
  cases v with
  | str text | json text =>
    simp only
    split
    · rename_i s hcheck
      rw [if_neg]
      simp [Metadata.isDocument, hcheck, Except.isOk, Except.toBool]
    · rename_i hcheck
      rw [if_pos]
      simp [Metadata.isDocument, hcheck, Except.isOk, Except.toBool]
  | _ => rfl

/-- Publishing a document at its node. -/
theorem effect_publishMetadata (h : b.tree.Rooted) {node : NodeId}
    (hnode : b.tree.descend Tree.root e.topic.segments = some node)
    (hroot : e.topic.segments ≠ []) (hsuffix : e.topic.suffix = some .metadataRsp)
    (hreach : b.tree.contents.reach e.topic.segments = b.tree.contents) :
    b.Effect (b.tree.contents.publish e) (b.tree.contents.posts e) (b.publishMetadata node e).2 := by
  have hdelivered : b.tree.contents.delivered? e =
      if Metadata.isDocument e.value then some (e, .metadata) else none := by
    unfold Contents.delivered?
    rw [if_neg hroot, hsuffix]
  rw [publishMetadata_eq]
  by_cases hdocument : Metadata.isDocument e.value
  · rw [if_pos hdocument] at hdelivered ⊢
    rw [Contents.publish_of_some hdelivered, Contents.posts_of_some hdelivered, hreach]
    obtain ⟨hrooted, hcontents⟩ := h.setMetadata hnode e
    have hstored : (b.tree.setMetadata node e).contents = b.tree.contents.store e .metadata :=
      hcontents
    exact effect_deliver_of_listeners hrooted
      (Tree.descend_modify hnode fun _ => ⟨rfl, rfl, rfl⟩) hstored
      (Contents.listeners_store _ _ _) b.calls e .metadata
  · rw [if_neg hdocument] at hdelivered ⊢
    rw [Contents.publish_of_none hdelivered, Contents.posts_of_none hdelivered, hreach]
    exact Effect.refl h

/-! ## Processing -/

/-- Processing an envelope. -/
theorem effect_process (h : b.tree.Rooted) (e : Envelope) :
    ∃ codes, b.tree.contents.AreCodes codes ∧
      b.Effect (b.tree.contents.publish e) (b.tree.contents.posts e ++ codes) (b.process e).2 := by
  have hsilent : ∀ {b' : Bus}, b.Effect (b.tree.contents.publish e) (b.tree.contents.posts e) b' →
      ∃ codes, b.tree.contents.AreCodes codes ∧
        b.Effect (b.tree.contents.publish e) (b.tree.contents.posts e ++ codes) b' := by
    intro b' heffect
    refine ⟨[], List.forall_mem_nil _, ?_⟩
    rw [List.append_nil]
    exact heffect
  unfold process
  by_cases hroot : e.topic.segments = []
  · have hnone : b.tree.contents.delivered? e = none := if_pos hroot
    rw [if_pos (Topic.path_eq_empty_iff_segments.mpr hroot)]
    apply hsilent
    rw [Contents.publish_of_none hnone, Contents.posts_of_none hnone, hroot, h.reach_nil]
    exact Effect.refl h
  · rw [if_neg fun hpath => hroot (Topic.path_eq_empty_iff_segments.mp hpath)]
    obtain ⟨node, tree, hnode, hmade⟩ := exists_nodeOf h e.topic
    rw [hnode]
    simp only
    have hreached : tree.contents.reach e.topic.segments = tree.contents := by
      rw [hmade.contents_eq, Contents.reach_reach]
    have hpublish : tree.contents.publish e = b.tree.contents.publish e := by
      rw [hmade.contents_eq, Contents.publish_reach]
    have hposts : tree.contents.posts e = b.tree.contents.posts e := by
      rw [hmade.contents_eq]
      rfl
    -- what is delivered as it is, whatever happens to the calls before
    have hplain : ∀ (calls : CallTable) (k : DeliveryClass),
        b.tree.contents.delivered? e = some (e, k) → (∀ c : Contents, c.store e k = c) →
        b.Effect (b.tree.contents.publish e) (b.tree.contents.posts e)
          (({ b with tree, calls } : Bus).deliver node e k).2 := by
      intro calls k hdelivered hstore
      rw [Contents.publish_of_some hdelivered, Contents.posts_of_some hdelivered, hstore]
      exact effect_deliver_of_listeners hmade.rooted hmade.descend_eq hmade.contents_eq rfl calls e k
    cases hsuffix : e.topic.suffix with
    | none =>
      obtain ⟨codes, hcodes, heffect⟩ := effect_publishValue (b := { b with tree }) hmade.rooted
        hmade.descend_eq hroot hsuffix hreached
      refine ⟨codes, (Contents.areCodes_congr (by rw [hmade.contents_eq]; rfl)).mp hcodes, ?_⟩
      rw [← hpublish, ← hposts]
      exact ⟨heffect.rooted, heffect.contents_eq, (posted_tree b tree).after heffect.posted⟩
    | some s =>
      apply hsilent
      cases s with
      | metadataRsp =>
        have heffect := effect_publishMetadata (b := { b with tree }) hmade.rooted hmade.descend_eq
          hroot hsuffix hreached
        rw [← hpublish, ← hposts]
        exact ⟨heffect.rooted, heffect.contents_eq, (posted_tree b tree).after heffect.posted⟩
      | metadataReq =>
        refine hplain b.calls .metadataReq ?_ fun _ => rfl
        simp [Contents.delivered?, hroot, hsuffix]
      | queryReq =>
        refine hplain b.calls .queryReq ?_ fun _ => rfl
        simp [Contents.delivered?, hroot, hsuffix]
      | queryRsp =>
        refine hplain b.calls .queryRsp ?_ fun _ => rfl
        simp [Contents.delivered?, hroot, hsuffix]
      | returnCode =>
        have hdelivered : b.tree.contents.delivered? e = some (e, .returnCode) := by
          simp [Contents.delivered?, hroot, hsuffix]
        unfold publishReturnCode
        simp only
        cases e.value.returnCode? with
        | none => exact hplain b.calls .returnCode hdelivered fun _ => rfl
        | some code => exact hplain _ .returnCode hdelivered fun _ => rfl

/-! ## Subscriptions -/

/-- Starting a subscription. One that asks for what is kept is told of the devices first, if it is at
a topic above their announcements, and then of what is kept. -/
theorem effect_startSubscription (h : b.tree.Rooted) (t : Topic) (s : Subscription) :
    ∃ kept : List Envelope,
      b.Effect ((b.tree.contents.reach t.segments).enlist t.segments s)
        (((if s.flags.retain && hearsDevices t then b.deviceAnnouncements else []) ++ kept).map
          (s.subscriber, ·)) (b.startSubscription t s).2 ∧
      (∀ e ∈ kept, ∃ q, b.tree.contents.value q = some e ∨ b.tree.contents.metadata q = some e) ∧
      (s.flags.retain = true → ∀ q e, t.segments <+: q →
        (s.flags.publish = true → b.tree.contents.value q = some e → e ∈ kept) ∧
        (s.flags.metadataRsp = true → b.tree.contents.metadata q = some e → e ∈ kept)) := by
  obtain ⟨node, tree, hnode, hmade⟩ := exists_nodeOf h t
  obtain ⟨hrooted, hcontents⟩ := hmade.rooted.addSubscription hmade.descend_eq s
  have hnode' : (tree.addSubscription node s).descend Tree.root t.segments = some node :=
    Tree.descend_modify hmade.descend_eq fun _ => ⟨rfl, rfl, rfl⟩
  have henlisted : (tree.addSubscription node s).contents =
      (b.tree.contents.reach t.segments).enlist t.segments s := by
    rw [hcontents, hmade.contents_eq]
    rfl
  have hvalue : (tree.addSubscription node s).contents.value = b.tree.contents.value := by
    rw [henlisted]
    rfl
  have hmetadata : (tree.addSubscription node s).contents.metadata = b.tree.contents.metadata := by
    rw [henlisted]
    rfl
  unfold startSubscription
  rw [hnode]
  simp only
  by_cases hretain : s.flags.retain
  · rw [if_pos hretain, hretain, Bool.true_and]
    have hsame : ({ b with tree := tree.addSubscription node s } : Bus).deviceAnnouncements =
        b.deviceAnnouncements := rfl
    rw [hsame]
    generalize (if hearsDevices t then b.deviceAnnouncements else []) = announced
    obtain ⟨hfirst, htree⟩ := posted_deliverEach s.subscriber announced
      { b with tree := tree.addSubscription node s }
    unfold Tree.replay
    rw [htree]
    generalize hreplayed : (tree.addSubscription node s).replayed node s.flags = replayed
    obtain ⟨hsecond, htree'⟩ := posted_deliverEach s.subscriber replayed
      (deliverEach receive s.subscriber announced { b with tree := tree.addSubscription node s })
    refine ⟨replayed, ⟨?_, ?_, ?_⟩, ?_, ?_⟩
    · rw [htree', htree]
      exact hrooted
    · rw [htree', htree]
      exact henlisted
    · rw [List.map_append]
      exact (posted_tree b _).after (hfirst.trans hsecond)
    · intro e he
      rw [← hreplayed] at he
      rw [← hvalue, ← hmetadata]
      exact hrooted.kept_of_mem_replayed he
    · intro _ q e hq
      obtain ⟨hfromValue, hfromMetadata⟩ := hrooted.mem_replayed hnode' hretain hq (e := e)
      rw [hvalue, hreplayed] at hfromValue
      rw [hmetadata, hreplayed] at hfromMetadata
      exact ⟨hfromValue, hfromMetadata⟩
  · rw [if_neg hretain, Bool.eq_false_of_not_eq_true hretain]
    refine ⟨[], effect_tree hrooted henlisted, List.forall_mem_nil _, nofun⟩

/-- Ending the subscriptions of a subscriber to a topic. -/
theorem effect_endSubscription (h : b.tree.Rooted) (t : Topic) (who : SubscriberId) :
    b.Effect (b.tree.contents.dismiss t.segments who) [] (b.endSubscription t who).2 ∧
    ((b.endSubscription t who).1 = some .notFound ↔
      ∀ s ∈ b.tree.contents.listeners t.segments, s.subscriber ≠ who) := by
  unfold endSubscription Tree.find?
  rw [t.parse_path]
  simp only [Topic.segments_withoutSuffix]
  cases hnode : b.tree.descend Tree.root t.segments with
  | none =>
    have hnobody := Tree.listeners_of_descend_none hnode
    refine ⟨⟨h, Contents.ext rfl rfl rfl ?_, Posted.refl b⟩, ?_⟩
    · show b.tree.contents.listeners = Function.update _ t.segments _
      rw [hnobody, List.filter_nil, ← hnobody, Function.update_eq_self]
    · rw [hnobody]
      exact iff_of_true rfl (List.forall_mem_nil _)
  | some node =>
    obtain ⟨hrooted, hcontents⟩ := h.remove hnode who
    refine ⟨effect_tree hrooted hcontents, ?_⟩
    rw [Tree.listeners_of_descend hnode]
    have hcount : (b.tree.remove node who).1 = 0 ↔
        ∀ s ∈ b.tree.subscriptions node, s.subscriber ≠ who := by
      show List.countP _ _ = 0 ↔ _
      rw [List.countP_eq_zero]
      simp
    rw [← hcount]
    simp only
    by_cases hzero : (b.tree.remove node who).1 = 0
    · rw [if_pos hzero]
      exact iff_of_true rfl hzero
    · rw [if_neg hzero]
      exact iff_of_false nofun hzero

end Bus
end InstrumentBus
