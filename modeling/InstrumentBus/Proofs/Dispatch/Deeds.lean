import Mathlib
import InstrumentBus.Proofs.Dispatch.Ownership
import InstrumentBus.Proofs.Dispatch.Effects

/-!
# What a step is made of

The dispatcher does a few things to the tree: it processes envelopes, announces the answers to
commands, and starts and ends subscriptions. Each is a `Deed`; `effect_perform` says what it leaves
in the tree, and who is told what.

A command of a client and an envelope of a backend are made of some deeds each. `commandPlan` and
`backendPlan` say of which, and on which bus they are done; `handleCommand_eq` and
`handleBackend_eq` that this is all.
-/

namespace InstrumentBus

/-- What the dispatcher does to the tree, one thing at a time. -/
inductive Deed
  /-- An envelope is processed. -/
  | publish (e : Envelope)
  /-- The answer to a command to the bus is announced. -/
  | announce (t : Topic) (code : Int32)
  /-- A subscription is started, -/
  | enlist (t : Topic) (s : Subscription)
  /-- or those of a subscriber to a topic are ended, -/
  | dismiss (t : Topic) (who : SubscriberId)
  /-- or all that it has. -/
  | dismissAll (who : SubscriberId)
  /-- The tree is taken down. -/
  | clear

namespace Bus

/-- The bus after a deed. -/
def perform (b : Bus) : Deed → Bus
  | .publish e => (b.process e).2
  | .announce t code => b.emitReturnCode t code
  | .enlist t s => (b.startSubscription t s).2
  | .dismiss t who => (b.endSubscription t who).2
  | .dismissAll who => { b with tree := (b.tree.removeSubtree Tree.root who).2 }
  | .clear => { b with tree := b.tree.finalize }

def performAll (b : Bus) (ds : List Deed) : Bus := ds.foldl perform b

@[simp] theorem performAll_nil (b : Bus) : b.performAll [] = b := rfl

@[simp] theorem performAll_cons (b : Bus) (d : Deed) (ds : List Deed) :
    b.performAll (d :: ds) = (b.perform d).performAll ds := rfl

theorem performAll_singleton (b : Bus) (d : Deed) : b.performAll [d] = b.perform d := rfl

theorem performAll_append (b : Bus) (ds ds' : List Deed) :
    b.performAll (ds ++ ds') = (b.performAll ds).performAll ds' := List.foldl_append

end Bus

/-! ## The effect of a deed -/

/-- There is nothing but the root. -/
def Contents.nothing : Contents :=
  ⟨fun path => decide (path = []), fun _ => none, fun _ => none, fun _ => []⟩

namespace Contents

/-- What the tree keeps after a deed. -/
def after (c : Contents) : Deed → Contents
  | .publish e => c.publish e
  | .announce t _ => c.reach t.segments
  | .enlist t s => (c.reach t.segments).enlist t.segments s
  | .dismiss t who => c.dismiss t.segments who
  | .dismissAll who => { c with
      listeners := fun path => (c.listeners path).filter (·.subscriber ≠ who) }
  | .clear => nothing

/-- Who is told what by a deed. -/
def Tells (c : Contents) (posts : List Post) : Deed → Prop
  | .publish e => ∃ codes, c.AreCodes codes ∧ posts = c.posts e ++ codes
  | .announce _ _ => c.AreCodes posts
  | .enlist t s => ∃ told : List Envelope, posts = told.map (s.subscriber, ·) ∧
      (∀ e ∈ told, e.topic = .deviceAdd ∨ ∃ q, c.value q = some e ∨ c.metadata q = some e) ∧
      (s.flags.retain = true → ∀ q e, t.segments <+: q →
        (s.flags.publish = true → c.value q = some e → e ∈ told) ∧
        (s.flags.metadataRsp = true → c.metadata q = some e → e ∈ told))
  | .dismiss _ _ | .dismissAll _ | .clear => posts = []

end Contents

namespace Bus

variable {b : Bus} {e : Envelope}

/-- Devices are announced under the topic of their registration. -/
theorem topic_of_mem_announced {asked : Bool}
    (he : e ∈ if asked then b.deviceAnnouncements else []) : e.topic = .deviceAdd := by
  split at he
  · obtain ⟨d, -, rfl⟩ := List.mem_map.mp he
    exact envelope_topic ..
  · cases he

/-- Every deed has its effect. -/
theorem effect_perform (h : b.tree.Rooted) (d : Deed) :
    ∃ posts, b.tree.contents.Tells posts d ∧
      b.Effect (b.tree.contents.after d) posts (b.perform d) := by
  cases d with
  | publish e =>
    obtain ⟨codes, hcodes, heffect⟩ := effect_process h e
    exact ⟨_, ⟨codes, hcodes, rfl⟩, heffect⟩
  | announce t code =>
    obtain ⟨codes, hcodes, heffect⟩ := effect_emitReturnCode h t code
    exact ⟨codes, hcodes, heffect⟩
  | enlist t s =>
    obtain ⟨kept, heffect, hkept, hall⟩ := effect_startSubscription h t s
    refine ⟨_, ⟨_, rfl, fun e he => ?_, fun hretain q e hq => ?_⟩, heffect⟩
    · rcases List.mem_append.mp he with hannounced | he
      · exact Or.inl (topic_of_mem_announced hannounced)
      · exact Or.inr (hkept e he)
    · obtain ⟨hvalue, hmetadata⟩ := hall hretain q e hq
      exact ⟨fun hpublish hq => List.mem_append_right _ (hvalue hpublish hq),
        fun hpublish hq => List.mem_append_right _ (hmetadata hpublish hq)⟩
  | dismiss t who => exact ⟨[], rfl, (effect_endSubscription h t who).1⟩
  | dismissAll who =>
    obtain ⟨hrooted, hcontents⟩ := h.removeSubtree_root who
    exact ⟨[], rfl, effect_tree hrooted hcontents⟩
  | clear => exact ⟨[], rfl, effect_tree Tree.rooted_empty Tree.contents_empty⟩

/-- Deeds leave the tree in order, and what it keeps is what they make of it. -/
theorem performAll_contents (h : b.tree.Rooted) (ds : List Deed) :
    (b.performAll ds).tree.Rooted ∧
      (b.performAll ds).tree.contents = ds.foldl Contents.after b.tree.contents := by
  induction ds generalizing b with
  | nil => exact ⟨h, rfl⟩
  | cons d ds ih =>
    obtain ⟨posts, -, heffect⟩ := effect_perform h d
    obtain ⟨hrooted, hcontents⟩ := ih heffect.rooted
    refine ⟨hrooted, hcontents.trans ?_⟩
    rw [heffect.contents_eq]
    rfl

end Bus

/-! ## Plans -/

/-- The list of the devices, to be kept. -/
def Devices.listEnvelope (devices : Devices) (sizes : BufferSizes) : Envelope :=
  .make sizes .deviceList (Value.str devices.names) .retained

/-- The deeds that a step is made of, and the bus on which they are done. -/
structure Plan where
  bus : Bus
  deeds : List Deed

/-- What is left of the bus when the deeds of a plan are done. -/
def Plan.done (p : Plan) : Bus := p.bus.performAll p.deeds

/-- What a command to the bus asks for, which may be nothing. -/
def Envelope.localDeeds (e : Envelope) : List Deed :=
  if e.topic = .subscribe then
    match e.control with
    | some (.subscribe t s) => [.enlist t s]
    | _ => []
  else if e.topic = .unsubscribe then
    match e.control with
    | some (.unsubscribe t who) => [.dismiss t who]
    | _ => []
  else if e.topic = .unsubscribeAll then
    match e.control with
    | some (.unsubscribeAll who) => [.dismissAll who]
    | _ => []
  else []

namespace Bus

/-- The call of a command that a device answers goes into the table. -/
def holdCall (b : Bus) (e : Envelope) : Bus :=
  match e.call with
  | some call =>
    if b.deviceAnswers e.topic then { b with calls := b.calls.register call } else b
  | none => b

/-- The table of calls is all that this changes. -/
theorem holdCall_eq (b : Bus) (e : Envelope) : ∃ calls, b.holdCall e = { b with calls } := by
  unfold holdCall
  split
  · split
    · exact ⟨_, rfl⟩
    · exact ⟨b.calls, rfl⟩
  · exact ⟨b.calls, rfl⟩

/-- What a command of a client is made of: the bus carries it out and announces its answer, or
processes it. -/
def commandPlan (b : Bus) (e : Envelope) : Plan :=
  if e.topic.isLocal then
    ⟨b, e.localDeeds ++ [.announce e.topic (b.localCommand { e with call := none }).1.code]⟩
  else ⟨b.holdCall e, [.publish { e with call := none }]⟩

/-- A device is registered: what it takes is forwarded to it, and all are told. -/
def addPlan (b : Bus) (e : Envelope) (topic : Topic) (p : InboxId) : Plan :=
  match b.devices.add? topic p with
  | none => ⟨b, []⟩
  | some (device, devices) =>
    ⟨{ b with devices }, [.enlist topic ⟨device.forwarder, .forwarding⟩,
      .publish (({ e with control := none } : Envelope).setFlags {}),
      .publish (devices.listEnvelope b.sizes)]⟩

/-- The registration of a device ends: its inbox is closed, and all are told. -/
def removePlan (b : Bus) (e : Envelope) (name : String) : Plan :=
  match b.devices.remove? name with
  | none => ⟨b, []⟩
  | some (device, devices) =>
    ⟨({ b with devices } : Bus).closeInbox device.inbox,
      [.dismiss device.topic device.forwarder, .publish e, .publish (devices.listEnvelope b.sizes)]⟩

/-- What an envelope of a backend is made of. -/
def backendPlan (b : Bus) (e : Envelope) : Plan :=
  if e.topic.isDriver then
    if e.topic = .deviceAdd then
      match e.control with
      | some (.deviceAdd topic p) => b.addPlan e topic p
      | _ => ⟨b, []⟩
    else if e.topic = .deviceRemove then
      match e.value with
      | .str name => b.removePlan e name
      | _ => ⟨b, []⟩
    else ⟨b, []⟩
  else ⟨b, [.publish (b.received e)]⟩

variable {b : Bus}

theorem localCommand_eq (b : Bus) (e : Envelope) :
    (b.localCommand e).2 = b.performAll e.localDeeds := by
  unfold localCommand Envelope.localDeeds
  simp only
  -- both sides look at the topic first and then at the control
  split
  · cases e.control with
    | none => rfl
    | some control => cases control <;> simp only [performAll_nil, performAll_singleton, perform]
  split
  · cases e.control with
    | none => rfl
    | some control => cases control <;> simp only [performAll_nil, performAll_singleton, perform]
  split
  · cases e.control with
    | none => rfl
    | some control => cases control <;> simp only [performAll_nil, performAll_singleton, perform]
  split
  · split
    · split <;> rw [performAll_nil]
    · rw [performAll_nil]
  · rw [performAll_nil]

/-- A command is carried out as planned; only the calls are not told of then. -/
theorem handleCommand_eq (b : Bus) (e : Envelope) :
    ∃ calls, b.handleCommand e = { (b.commandPlan e).done with calls } := by
  unfold handleCommand commandPlan Plan.done
  simp only
  split
  · rw [performAll_append, performAll_singleton]
    have hlocal := b.localCommand_eq { e with call := none }
    have hdeeds : ({ e with call := none } : Envelope).localDeeds = e.localDeeds := rfl
    rw [← hdeeds, ← hlocal, perform]
    generalize emitReturnCode _ _ _ = b'
    cases e.call with
    | none => exact ⟨b'.calls, rfl⟩
    | some call => exact ⟨_, rfl⟩
  · rw [performAll_singleton, perform]
    unfold holdCall
    cases hcall : e.call with
    | none => exact ⟨(b.process { e with call := none }).2.calls, rfl⟩
    | some call =>
      simp only
      split
      · exact ⟨(({ b with calls := b.calls.register call } : Bus).process
          { e with call := none }).2.calls, rfl⟩
      · exact ⟨_, rfl⟩

/-- Deeds leave the settings and the devices alone. -/
theorem performAll_frame (h : b.tree.Rooted) (ds : List Deed) :
    (b.performAll ds).config = b.config ∧ (b.performAll ds).devices = b.devices := by
  induction ds generalizing b with
  | nil => exact ⟨rfl, rfl⟩
  | cons d ds ih =>
    obtain ⟨posts, -, heffect⟩ := effect_perform h d
    obtain ⟨hconfig, hdevices⟩ := ih heffect.rooted
    exact ⟨hconfig.trans heffect.posted.config_eq, hdevices.trans heffect.posted.devices_eq⟩

/-- After any deeds, publishing the list of devices is another one. -/
theorem publishDeviceList_performAll (h : b.tree.Rooted) (ds : List Deed) :
    (b.performAll ds).publishDeviceList =
      b.performAll (ds ++ [.publish (b.devices.listEnvelope b.sizes)]) := by
  obtain ⟨hconfig, hdevices⟩ := performAll_frame h ds
  rw [performAll_append, performAll_singleton, perform]
  unfold publishDeviceList envelope sizes
  rw [hconfig, hdevices]
  rfl

/-- A forwarder is not told of what is kept. -/
theorem perform_enlist_forwarding {t : Topic} {node : NodeId} {b' : Bus}
    (hnode : b.nodeOf t = .ok (node, b')) (who : SubscriberId) :
    b.perform (.enlist t ⟨who, .forwarding⟩) =
      { b' with tree := b'.tree.addSubscription node ⟨who, .forwarding⟩ } := by
  show (b.startSubscription t ⟨who, .forwarding⟩).2 = _
  unfold startSubscription
  rw [hnode]
  rfl

theorem addDevice_eq (h : b.tree.Rooted) {topic : Topic} {p : InboxId}
    (hcontrol : e.control = some (.deviceAdd topic p)) :
    b.addDevice e = (b.addPlan e topic p).done := by
  unfold addDevice addPlan Plan.done
  rw [hcontrol]
  simp only
  cases hadd : b.devices.add? topic p with
  | none => rfl
  | some added =>
    obtain ⟨device, devices⟩ := added
    obtain ⟨node, tree, hnode, -⟩ := exists_nodeOf (b := { b with devices }) h topic
    have hdeeds := publishDeviceList_performAll (b := { b with devices }) h
      [.enlist topic ⟨device.forwarder, .forwarding⟩,
        .publish (({ e with control := none } : Envelope).setFlags {})]
    simp only [performAll_cons, performAll_nil, List.cons_append, List.nil_append,
      perform_enlist_forwarding hnode] at hdeeds ⊢
    rw [hnode]
    exact hdeeds

theorem perform_dismiss_of_none {t : Topic} (hnode : b.tree.find? t.path = none)
    (who : SubscriberId) : b.perform (.dismiss t who) = b := by
  show (b.endSubscription t who).2 = _
  unfold endSubscription
  rw [hnode]

theorem perform_dismiss_of_some {t : Topic} {node : NodeId} (hnode : b.tree.find? t.path = some node)
    (who : SubscriberId) :
    b.perform (.dismiss t who) = { b with tree := (b.tree.remove node who).2 } := by
  show (b.endSubscription t who).2 = _
  unfold endSubscription
  rw [hnode]

theorem removeDevice_eq (h : b.tree.Rooted) {name : String} (hvalue : e.value = .str name) :
    b.removeDevice e = (b.removePlan e name).done := by
  unfold removeDevice removePlan Plan.done
  rw [hvalue]
  simp only
  cases hremove : b.devices.remove? name with
  | none => rfl
  | some removed =>
    obtain ⟨device, devices⟩ := removed
    simp only
    have hrooted : (({ b with devices } : Bus).closeInbox device.inbox).tree.Rooted := h
    have hdevices : (({ b with devices } : Bus).closeInbox device.inbox).devices = devices := rfl
    have hsizes : (({ b with devices } : Bus).closeInbox device.inbox).sizes = b.sizes := rfl
    rw [← hsizes]
    generalize ({ b with devices } : Bus).closeInbox device.inbox = b' at hrooted hdevices ⊢
    have hdeeds := publishDeviceList_performAll hrooted
      [.dismiss device.topic device.forwarder, .publish e]
    rw [hdevices] at hdeeds
    simp only [performAll_cons, performAll_nil, List.cons_append, List.nil_append] at hdeeds ⊢
    cases hfind : b'.tree.find? device.topic.path with
    | none =>
      rw [perform_dismiss_of_none hfind] at hdeeds ⊢
      exact hdeeds
    | some node =>
      rw [perform_dismiss_of_some hfind] at hdeeds ⊢
      exact hdeeds

/-- Before its deeds are done, a command changes nothing but the table of calls. -/
theorem bus_commandPlan (b : Bus) (e : Envelope) :
    ∃ calls, (b.commandPlan e).bus = { b with calls } := by
  unfold commandPlan
  split
  · exact ⟨b.calls, rfl⟩
  · exact b.holdCall_eq e

/-- So is an envelope of a backend. -/
theorem handleBackend_eq (h : b.tree.Rooted) (e : Envelope) :
    b.handleBackend e = (b.backendPlan e).done := by
  unfold handleBackend backendPlan
  split
  · split
    · split
      · rename_i hcontrol
        exact addDevice_eq h hcontrol
      · rename_i hother
        unfold addDevice
        split
        · rename_i hcontrol
          exact absurd hcontrol (hother _ _)
        · rfl
    · split
      · split
        · rename_i hvalue
          exact removeDevice_eq h hvalue
        · rename_i hother
          unfold removeDevice
          split
          · rename_i hvalue
            exact absurd hvalue (hother _)
          · rfl
      · rfl
  · unfold Plan.done
    rw [performAll_singleton, perform]
    rfl

/-! ## Frames of steps -/

/-- Whatever deeds do besides, they give everyone something, in some order. -/
theorem exists_posted_performAll (h : b.tree.Rooted) (ds : List Deed) :
    ∃ posts, b.Posted posts (b.performAll ds) := by
  induction ds generalizing b with
  | nil => exact ⟨[], Posted.refl b⟩
  | cons deed ds ih =>
    obtain ⟨posts, -, heffect⟩ := effect_perform h deed
    obtain ⟨posts', hposted⟩ := ih heffect.rooted
    exact ⟨posts ++ posts', heffect.posted.trans hposted⟩

/-- So does a command. -/
theorem exists_posted_commandPlan (h : b.tree.Rooted) (e : Envelope) :
    ∃ posts, b.Posted posts (b.commandPlan e).done := by
  obtain ⟨calls, hbus⟩ := b.bus_commandPlan e
  unfold Plan.done
  rw [hbus]
  obtain ⟨posts, hposted⟩ :=
    exists_posted_performAll (b := { b with calls }) h (b.commandPlan e).deeds
  exact ⟨posts, (posted_calls b calls).after hposted⟩

end Bus
end InstrumentBus
