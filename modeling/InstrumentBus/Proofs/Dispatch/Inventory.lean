import Mathlib
import InstrumentBus.Proofs.Dispatch.Forwarding
import InstrumentBus.Proofs.Dispatch.Queues

/-!
# Four accounts of the devices

Which devices there are is written down in four places: in the registry, by the subscriptions of their
forwarders, by the inboxes that are open, and in the list that is kept at `@/list`. They are written
one after the other, while all else goes on.

`Retires` says what becomes of inboxes: once a device is not registered any more, its inbox is closed
and stays so. `subscriptions_forwarder` reads the subscriptions of a forwarder off the registry, and
`Shelf.Lists` is about the list. All four agree in every state of every run: `run_inventory`.
-/

namespace InstrumentBus

/-! ## Devices that go -/

namespace Bus

variable {b b' b'' : Bus} {taken : List Envelope} {e : Envelope} {posts : List Post}

/-- A device that is not registered any more has its inbox closed, and a closed inbox stays so. -/
structure Retires (b b' : Bus) : Prop where
  leaves : ∀ device ∈ b.devices.list,
    device ∈ b'.devices.list ∨ (b'.inbox device.inbox).closed = true
  closed : ∀ p, (b.inbox p).closed = true → (b'.inbox p).closed = true

theorem Retires.refl (b : Bus) : b.Retires b := ⟨fun _ h => Or.inl h, fun _ h => h⟩

theorem Retires.trans (h : b.Retires b') (h' : b'.Retires b'') : b.Retires b'' := by
  refine ⟨fun device hdevice => ?_, fun p hp => h'.closed p (h.closed p hp)⟩
  rcases h.leaves device hdevice with hstays | hclosed
  · exact h'.leaves device hstays
  · exact Or.inr (h'.closed _ hclosed)

theorem retires_of_eq (hdevices : b'.devices = b.devices)
    (hclosed : ∀ p, (b'.inbox p).closed = (b.inbox p).closed) : b.Retires b' := by
  refine ⟨fun device hdevice => Or.inl ?_, fun p hp => ?_⟩
  · rw [hdevices]
    exact hdevice
  · rw [hclosed]
    exact hp

theorem Posted.retires (h : b.Posted posts b') : b.Retires b' := by
  refine retires_of_eq h.devices_eq fun p => ?_
  by_cases hp : p < b.inboxes.length
  · rw [h.inbox_eq p hp]
    split <;> rfl
  · have hle := Nat.not_lt.mp hp
    rw [inbox_of_length_le b hle, inbox_of_length_le b' (h.length_eq.trans_le hle)]

theorem Admits.retires (h : b.Admits b') : b.Retires b' :=
  retires_of_eq h.devices_eq fun p => congrArg Queue.closed (h.inbox_eq p)

theorem closed_closeInbox (b : Bus) {p : InboxId} (hp : p < b.inboxes.length) :
    ((b.closeInbox p).inbox p).closed = true := by
  unfold closeInbox
  rw [inbox_setInbox b _ hp, if_pos rfl]
  rfl

/-- Closing an inbox opens no other. -/
theorem closed_closeInbox_of_closed (b : Bus) (p : InboxId) {p' : InboxId}
    (h : (b.inbox p').closed = true) : ((b.closeInbox p).inbox p').closed = true := by
  by_cases hp : p = p'
  · subst hp
    by_cases hlt : p < b.inboxes.length
    · exact closed_closeInbox b hlt
    · rw [inbox_of_length_le b (Nat.not_lt.mp hlt)] at h
      cases h
  · rw [inbox_closeInbox_of_ne b hp]
    exact h

/-- The prefixes of registered devices differ. -/
theorem Registered.nodup_texts (h : b.Registered taken) :
    (b.devices.list.map (·.topic.text)).Nodup := by
  have htexts := h.topics.map (f := Topic.text) ?_
  · rw [List.map_map] at htexts
    exact htexts
  · intro t t' heq
    cases t
    cases t'
    cases heq
    rfl

/-- Whoever is taken out of the registry has its inbox closed. -/
theorem Registered.retires_backendPlan (h : b.Registered (e :: taken)) :
    b.Retires (b.backendPlan e).bus := by
  unfold Bus.backendPlan
  split
  · split
    · split
      · unfold addPlan
        cases hadd : b.devices.add? _ _ with
        | none => exact Retires.refl b
        | some added =>
          obtain ⟨device, devices⟩ := added
          obtain ⟨-, -, hlist⟩ := Devices.add?_eq_some hadd
          refine ⟨fun other hother => Or.inl ?_, fun p hp => hp⟩
          show other ∈ devices.list
          rw [hlist]
          exact List.mem_append_left _ hother
      · exact Retires.refl b
    · split
      · split
        · rename_i name hname
          unfold removePlan
          cases hremove : b.devices.remove? name with
          | none => exact Retires.refl b
          | some removed =>
            obtain ⟨device, devices⟩ := removed
            obtain ⟨before, later, hlist, hrest⟩ := Devices.remove?_eq_some hremove
            refine ⟨fun other hother => ?_, fun p hp => closed_closeInbox_of_closed _ _ hp⟩
            have hregistered := hother
            -- the one that is taken out, or one before or after it, which stays
            rw [hlist] at hother
            rcases List.mem_append.mp hother with hbefore | hother
            · left
              show other ∈ devices.list
              rw [hrest]
              exact List.mem_append_left _ hbefore
            · rcases List.mem_cons.mp hother with rfl | hlater
              · have hinbox := (h.inboxes other (List.mem_append_left _ hregistered)).1
                exact Or.inr (closed_closeInbox _ hinbox)
              · left
                show other ∈ devices.list
                rw [hrest]
                exact List.mem_append_right _ hlater
        · exact Retires.refl b
      · exact Retires.refl b
  · exact Retires.refl b

/-- In the end all inboxes of devices are closed. -/
theorem retires_finish (h : ∀ device ∈ b.devices.list, device.inbox < b.inboxes.length) :
    b.Retires b.finish := by
  have hclosed : ∀ (ds : List Device) (b : Bus), (∀ device ∈ ds, device.inbox < b.inboxes.length) →
      (∀ device ∈ ds, ((ds.foldl (fun b d => b.closeInbox d.inbox) b).inbox device.inbox).closed) ∧
      ∀ p, (b.inbox p).closed = true →
        ((ds.foldl (fun b d => b.closeInbox d.inbox) b).inbox p).closed = true := by
    -- over any bus, as it changes with each inbox that is closed
    intro ds
    induction ds with
    | nil => exact fun b _ => ⟨List.forall_mem_nil _, fun p hp => hp⟩
    | cons device ds ih =>
      intro b hlt
      obtain ⟨hfirst, hothers⟩ := List.forall_mem_cons.mp hlt
      have hlength : (b.closeInbox device.inbox).inboxes.length = b.inboxes.length := List.length_set
      obtain ⟨hall, hstays⟩ := ih (b.closeInbox device.inbox) (by rw [hlength]; exact hothers)
      rw [List.foldl_cons]
      refine ⟨List.forall_mem_cons.mpr ⟨hstays _ (closed_closeInbox b hfirst), hall⟩, fun p hp => ?_⟩
      exact hstays p (closed_closeInbox_of_closed b _ hp)
  obtain ⟨hall, hstays⟩ := hclosed b.devices.list b h
  exact ⟨fun device hdevice => Or.inr (hall device hdevice), hstays⟩

end Bus

namespace Dispatcher

variable {d : Dispatcher} {L : Roster}

theorem Registered.retires_advance (h : d.Registered L) (hrooted : d.bus.tree.Rooted) :
    d.bus.Retires d.advance.bus := by
  obtain ⟨b, phase⟩ := d
  have hsame : ∀ b' : Bus, b'.devices = b.devices → b'.inboxes = b.inboxes → b.Retires b' := by
    intro b' hdevices hinboxes
    refine Bus.retires_of_eq hdevices fun p => ?_
    unfold Bus.inbox
    rw [hinboxes]
  cases phase with
  | backends es =>
    cases es with
    | nil => exact hsame _ rfl rfl
    | cons e es =>
      show b.Retires (b.handleBackend e)
      rw [Bus.handleBackend_eq hrooted]
      have hrooted' := (Bus.untold_backendPlan b e).rooted hrooted
      obtain ⟨posts, hposted⟩ := Bus.exists_posted_performAll hrooted' (b.backendPlan e).deeds
      exact (Bus.Registered.retires_backendPlan h.bus).trans hposted.retires
  | commands es =>
    cases es with
    | nil => exact hsame _ rfl rfl
    | cons e es =>
      by_cases he : e.topic = .finalize
      · rw [advance_of_finalize rfl he]
        exact hsame (b.dropEnvelopes (e :: es)) rfl rfl
      · obtain ⟨calls, hcalls⟩ := b.handleCommand_eq e
        obtain ⟨posts, hposted⟩ := Bus.exists_posted_commandPlan hrooted e
        rw [advance_of_commands rfl he, hcalls]
        exact hposted.retires.trans (Bus.retires_of_eq rfl fun p => rfl)
  | closing =>
    show b.Retires b.finish
    refine Bus.retires_finish fun device hdevice => ?_
    exact (h.bus.inboxes device (List.mem_append_left _ hdevice)).1
  | _ => exact hsame _ rfl rfl

theorem Registered.retires_act (h : d.Registered L) (hrooted : d.bus.tree.Rooted) (a : Action) :
    d.bus.Retires (d.act a).bus := by
  cases a with
  | advance => exact h.retires_advance hrooted
  | submit s => exact (Bus.admits_accept d.bus s).retires
  | submitLate s => exact (Bus.admits_acceptLate d.bus s).retires
  | collect p => exact Bus.retires_of_eq rfl (d.bus.closed_collect p)
  | addListener l => exact Bus.retires_of_eq rfl fun _ => rfl
  | setClock time => exact Bus.retires_of_eq rfl fun _ => rfl

/-- From any moment of a run on. -/
theorem retires_run (config : BusConfig) (as bs : List Action) :
    (run config as).bus.Retires (run config (as ++ bs)).bus := by
  induction bs using List.reverseRecOn with
  | nil =>
    rw [List.append_nil]
    exact Bus.Retires.refl _
  | append_singleton bs a ih =>
    have hlast := (run_registered config (as ++ bs)).retires_act (run_contents config (as ++ bs)).1 a
    rw [← List.append_assoc, run_append]
    exact ih.trans hlast

end Dispatcher

/-! ## Forwarders in the tree -/

namespace Roster

variable {L : Roster} {devices : List Device}

/-- The entries of a forwarder are those of the devices that have its inbox. -/
theorem filter_who_forwarder (hL : L.forwarders = devices.map Device.entry) (p : InboxId) :
    L.filter (·.who = .forwarder p) = (devices.filter (·.inbox = p)).map Device.entry := by
  have hforwarders :
      L.filter (·.who = .forwarder p) = L.forwarders.filter (·.who = .forwarder p) := by
    unfold forwarders
    rw [List.filter_filter]
    refine List.filter_congr fun n _ => ?_
    by_cases hn : n.who = .forwarder p
    · simp [hn, SubscriberId.isClient]
    · simp [hn]
  rw [hforwarders, hL, List.filter_map]
  congr 1
  refine List.filter_congr fun device _ => ?_
  show decide (SubscriberId.forwarder device.inbox = .forwarder p) = decide (device.inbox = p)
  simp

end Roster

/-- Devices with different inboxes are found by them. -/
theorem filter_inbox_of_mem {devices : List Device} (hdistinct : (devices.map Device.inbox).Nodup)
    {device : Device} (hdevice : device ∈ devices) :
    devices.filter (·.inbox = device.inbox) = [device] := by
  rw [filter_eq_toList_find? Device.inbox hdistinct]
  have hsome : (devices.find? (·.inbox = device.inbox)).isSome :=
    List.find?_isSome.mpr ⟨device, hdevice, decide_eq_true rfl⟩
  obtain ⟨found, hfound⟩ := Option.isSome_iff_exists.mp hsome
  have hinbox : found.inbox = device.inbox := by
    have hfit := List.find?_some hfound
    rw [decide_eq_true_eq] at hfit
    exact hfit
  have hsame : found = device :=
    List.inj_on_of_nodup_map hdistinct (List.mem_of_find?_eq_some hfound) hdevice hinbox
  rw [hfound, hsame]
  rfl

/-- The subscriptions of a forwarder at a node are read off the registry. -/
theorem Tree.Rooted.subscriptions_forwarder {tree : Tree} {L : Roster} {devices : List Device}
    (h : tree.Rooted) (hc : tree.contents.Enrolled L)
    (hL : L.forwarders = devices.map Device.entry) (p : InboxId) {id : NodeId}
    (hid : id < tree.size) :
    (tree.subscriptions id).filter (·.subscriber = .forwarder p) =
      ((devices.filter (·.inbox = p)).filter (·.topic.segments = tree.levels id)).map
        fun device => ⟨device.forwarder, .forwarding⟩ := by
  have hswap : (L.filter (·.topic.segments = tree.levels id)).filter (·.who = .forwarder p) =
      (L.filter (·.who = .forwarder p)).filter (·.topic.segments = tree.levels id) := by
    rw [List.filter_filter, List.filter_filter]
    exact List.filter_congr fun n _ => Bool.and_comm ..
  rw [← Tree.listeners_of_descend (h.descend_levels hid), hc, List.filter_map]
  show ((L.filter _).filter (fun n : Entry => n.who = .forwarder p)).map _ = _
  rw [hswap, Roster.filter_who_forwarder hL, List.filter_map, List.map_map]
  rfl

/-- There is no node beyond the last. -/
theorem Tree.subscriptions_of_size_le (tree : Tree) {id : NodeId} (hid : tree.size ≤ id) :
    tree.subscriptions id = [] := by
  unfold Tree.subscriptions Tree.node
  rw [List.getElem?_eq_none hid]
  rfl

namespace Dispatcher

/-- A registered device is forwarded to from the node of its prefix, and from nowhere else. -/
theorem run_forwarder (config : BusConfig) (as : List Action) {device : Device}
    (hdevice : device ∈ (run config as).bus.devices.list) :
    let tree := (run config as).bus.tree
    ∃ node, tree.find? device.topic.path = some node ∧
      ∀ id, (tree.subscriptions id).filter (·.subscriber = device.forwarder) =
        if id = node then [⟨device.forwarder, .forwarding⟩] else [] := by
  intro tree
  have hrooted : tree.Rooted := (run_contents config as).1
  have henrolled := run_enrolled config as
  have hregistered := run_registered config as
  have hdistinct := hregistered.bus.nodup_inboxes
  have hread : ∀ id < tree.size,
      (tree.subscriptions id).filter (·.subscriber = device.forwarder) =
        ([device].filter (·.topic.segments = tree.levels id)).map
          fun device => ⟨device.forwarder, .forwarding⟩ := by
    intro id hid
    rw [← filter_inbox_of_mem hdistinct hdevice]
    exact hrooted.subscriptions_forwarder henrolled hregistered.forwarders device.inbox hid
  -- someone listens at the prefix, so it is there
  have hnode : ∃ node, tree.descend Tree.root device.topic.segments = some node := by
    have hentry : device.entry ∈ Roster.of (history config as) := by
      have hmem : device.entry ∈ (Roster.of (history config as)).forwarders := by
        rw [hregistered.forwarders]
        exact List.mem_map_of_mem hdevice
      exact List.mem_of_mem_filter hmem
    have hlistens := (henrolled.exists_mem_listeners device.topic device.forwarder).mpr
      ⟨device.entry, hentry, rfl, rfl⟩
    obtain ⟨s, hs, -⟩ := hlistens
    cases hnone : tree.descend Tree.root device.topic.segments with
    | some node => exact ⟨node, rfl⟩
    | none =>
      rw [show (run config as).bus.tree.contents.listeners _ = _ from
        Tree.listeners_of_descend_none hnone] at hs
      exact absurd hs List.not_mem_nil
  obtain ⟨node, hnode⟩ := hnode
  obtain ⟨hlt, hlevels⟩ := hrooted.descend_eq_some_iff.mp hnode
  refine ⟨node, (Bus.find?_eq _ _).trans hnode, fun id => ?_⟩
  by_cases hid : id < tree.size
  · rw [hread id hid]
    by_cases heq : id = node
    · simp [heq, hlevels]
    · have helsewhere : device.topic.segments ≠ tree.levels id := by
        intro hsegments
        have hsame := hrooted.descend_levels hid
        rw [← hsegments, hnode] at hsame
        exact heq (Option.some.inj hsame).symm
      simp [heq, helsewhere]
  · have hne : id ≠ node := fun heq => hid (heq ▸ hlt)
    rw [tree.subscriptions_of_size_le (Nat.not_lt.mp hid), if_neg hne]
    rfl

/-- Whoever has a closed inbox is not forwarded to from anywhere. -/
theorem run_closed (config : BusConfig) (as : List Action) {p : InboxId}
    (hclosed : ((run config as).bus.inbox p).closed = true) (id : NodeId) :
    ((run config as).bus.tree.subscriptions id).filter (·.subscriber = .forwarder p) = [] := by
  have hregistered := run_registered config as
  by_cases hid : id < (run config as).bus.tree.size
  · rw [(run_contents config as).1.subscriptions_forwarder (run_enrolled config as)
      hregistered.forwarders p hid]
    have hnone : (run config as).bus.devices.list.filter (·.inbox = p) = [] := by
      refine List.filter_eq_nil_iff.mpr fun device hdevice hinbox => ?_
      have hopen := (hregistered.bus.inboxes device (List.mem_append_left _ hdevice)).2
      rw [of_decide_eq_true hinbox, hclosed] at hopen
      cases hopen
    rw [hnone]
    rfl
  · rw [Tree.subscriptions_of_size_le _ (Nat.not_lt.mp hid)]
    rfl

end Dispatcher

/-! ## The list -/

theorem Value.eq_str_of_beq {v : Value} {text : String} (h : (v == .str text) = true) :
    v = .str text := by
  have hsame : (v == .str text) = decide (v = .str text) := by cases v <;> rfl
  rw [hsame] at h
  exact of_decide_eq_true h

/-- The list of the devices is on the shelf, and there are no metadata that could refuse the next. -/
structure Shelf.Lists (s : Shelf) (devices : Devices) : Prop where
  value_eq : s.value Topic.deviceList.segments = some (.str devices.names)
  metadata_eq : s.metadata Topic.deviceList.segments = none

namespace Shelf

variable {s : Shelf} {devices : Devices} {deeds : List Deed}

theorem Lists.foldl_after (h : s.Lists devices) (hdeeds : ∀ deed ∈ deeds, deed.avoids .deviceList) :
    (deeds.foldl after s).Lists devices := by
  have hplain : Topic.deviceList.suffix = none := by decide
  obtain ⟨hvalue, hmetadata⟩ := foldl_after_of_avoids hplain hdeeds s
  exact ⟨hvalue.trans h.value_eq, hmetadata.trans h.metadata_eq⟩

/-- A list that is published is the one that is kept then, whatever was kept before. -/
theorem lists_publish (hmetadata : s.metadata Topic.deviceList.segments = none)
    (sizes : BufferSizes) : (s.after (.publish (devices.listEnvelope sizes))).Lists devices := by
  have htopic : (devices.listEnvelope sizes).topic = .deviceList := Envelope.make_topic ..
  have hspec : (devices.listEnvelope sizes).value = .str devices.names ∧
      (devices.listEnvelope sizes).isRetained = true := Envelope.make_spec ..
  have hjudge : Metadata.judge (s.metadata (devices.listEnvelope sizes).topic.segments)
      (devices.listEnvelope sizes).value = .ok (.str devices.names) := by
    rw [htopic, hmetadata]
    exact congrArg Except.ok hspec.1
  obtain ⟨hkept, hsame⟩ := after_publish_of_plain (by rw [htopic]; decide) (by rw [htopic]; decide)
    hspec.2 (by rw [htopic]; decide) s hjudge
  rw [htopic] at hkept hsame
  refine ⟨hkept.trans ?_, hsame.trans hmetadata⟩
  split
  · rename_i hagain
    cases hkept : s.value Topic.deviceList.segments with
    | none =>
      rw [hkept] at hagain
      cases hagain
    | some v =>
      rw [hkept] at hagain
      rw [Value.eq_str_of_beq hagain]
  · rfl

/-- After a change to the registry, and all else that does not touch the list, the new list is
published. -/
theorem Lists.foldl_after_publish (h : s.Lists devices) (deeds : List Deed)
    (hdeeds : ∀ deed ∈ deeds, deed.avoids .deviceList) (devices' : Devices) (sizes : BufferSizes) :
    ((deeds ++ [Deed.publish (devices'.listEnvelope sizes)]).foldl after s).Lists devices' := by
  rw [List.foldl_append]
  exact lists_publish (h.foldl_after hdeeds).metadata_eq sizes

end Shelf

namespace Bus

variable {b : Bus} {e : Envelope} {s : Shelf}

theorem avoids_of_isDriver {t : Topic} (ht : t.isDriver = false) :
    t ≠ .deviceList ∧ t ≠ Topic.deviceList.withSuffix .metadataRsp := by
  constructor <;>
  · rintro rfl
    exact absurd ht (by decide)

/-- Whenever a backend changes the registry, the list follows. -/
theorem lists_backendPlan (h : s.Lists b.devices) (e : Envelope) :
    ((b.backendPlan e).deeds.foldl Shelf.after s).Lists (b.backendPlan e).bus.devices := by
  unfold backendPlan
  split
  · split
    · rename_i hadd
      split
      · unfold addPlan
        split
        · exact h
        · refine h.foldl_after_publish [_, _] ?_ _ _
          refine List.forall_mem_cons.mpr ⟨trivial, List.forall_mem_singleton.mpr ?_⟩
          show e.topic ≠ _ ∧ e.topic ≠ _
          rw [hadd]
          decide
      · exact h
    · split
      · rename_i hremove
        split
        · unfold removePlan
          split
          · exact h
          · refine h.foldl_after_publish [_, _] ?_ _ _
            refine List.forall_mem_cons.mpr ⟨trivial, List.forall_mem_singleton.mpr ?_⟩
            show e.topic ≠ _ ∧ e.topic ≠ _
            rw [hremove]
            decide
        · exact h
      · exact h
  · rename_i hdriver
    exact h.foldl_after (List.forall_mem_singleton.mpr
      (avoids_of_isDriver (Bool.eq_false_of_not_eq_true hdriver)))

theorem avoids_localDeeds (e : Envelope) (t : Topic) : ∀ deed ∈ e.localDeeds, deed.avoids t := by
  unfold Envelope.localDeeds
  repeat' split
  all_goals first | exact List.forall_mem_nil _ | exact List.forall_mem_singleton.mpr trivial

/-- No command but a publication to the list touches it. -/
theorem lists_commandPlan (h : s.Lists b.devices)
    (he : e.topic ≠ .deviceList ∧ e.topic ≠ Topic.deviceList.withSuffix .metadataRsp) :
    ((b.commandPlan e).deeds.foldl Shelf.after s).Lists b.devices := by
  unfold commandPlan
  split
  · exact h.foldl_after (List.forall_mem_append.mpr
      ⟨avoids_localDeeds e _, List.forall_mem_singleton.mpr trivial⟩)
  · exact h.foldl_after (List.forall_mem_singleton.mpr he)

end Bus

namespace Dispatcher

variable {d : Dispatcher} {s : Shelf} {a : Action}

/-- What a step does to the registry is part of its plan, unless it takes everything down. -/
theorem devices_advance (h : d.bus.tree.Rooted) (hclosing : d.phase ≠ .closing) :
    d.advance.bus.devices = d.plan.bus.devices := by
  obtain ⟨b, phase⟩ := d
  cases phase with
  | backends es =>
    cases es with
    | nil => rfl
    | cons e es =>
      have hrooted' := (Bus.untold_backendPlan b e).rooted h
      show (b.handleBackend e).devices = (b.backendPlan e).bus.devices
      rw [Bus.handleBackend_eq h]
      exact (Bus.performAll_frame hrooted' _).2
  | commands es =>
    cases es with
    | nil => rfl
    | cons e es =>
      by_cases he : e.topic = .finalize
      · simp only [plan, advance, if_pos he]
        rfl
      · obtain ⟨calls, hcalls⟩ := b.handleCommand_eq e
        obtain ⟨calls', hbus⟩ := b.bus_commandPlan e
        obtain ⟨posts, hposted⟩ := Bus.exists_posted_commandPlan h e
        simp only [plan, advance, if_neg he]
        rw [hcalls, hbus]
        exact hposted.devices_eq
  | closing => exact absurd rfl hclosing
  | _ => rfl

/-- Nobody but the dispatcher registers devices. -/
theorem devices_act (ha : a ≠ .advance) : (d.act a).bus.devices = d.bus.devices := by
  cases a with
  | advance => exact absurd rfl ha
  | submit s => exact (Bus.handed_accept d.bus s).devices_eq
  | submitLate s => exact (Bus.handed_acceptLate d.bus s).devices_eq
  | _ => rfl

/-- At the start there are no devices. -/
theorem devices_start (config : BusConfig) : (Bus.start config).devices = {} := by
  rw [start_eq]
  exact (Bus.performAll_frame (b := { config }) Tree.rooted_empty _).2

/-- The list follows in every step that leaves the tree standing. -/
theorem lists_advance (h : s.Lists d.bus.devices) (hrooted : d.bus.tree.Rooted)
    (hhandled : ∀ e ∈ d.commandsHandled .advance,
      e.topic ≠ .deviceList ∧ e.topic ≠ Topic.deviceList.withSuffix .metadataRsp)
    (hclosing : d.phase ≠ .closing) :
    (d.plan.deeds.foldl Shelf.after s).Lists d.advance.bus.devices := by
  rw [devices_advance hrooted hclosing]
  obtain ⟨b, phase⟩ := d
  cases phase with
  | backends es =>
    cases es with
    | nil => exact h
    | cons e es => exact Bus.lists_backendPlan h e
  | commands es =>
    cases es with
    | nil => exact h
    | cons e es =>
      by_cases he : e.topic = .finalize
      · simp only [plan, if_pos he]
        exact h
      · obtain ⟨calls, hbus⟩ := b.bus_commandPlan e
        have hmem : e ∈ (⟨b, .commands (e :: es)⟩ : Dispatcher).commandsHandled .advance := by
          rw [commandsHandled_of_commands rfl he]
          exact List.mem_singleton_self e
        simp only [plan, if_neg he]
        rw [hbus]
        exact Bus.lists_commandPlan h (hhandled e hmem)
  | closing => exact absurd rfl hclosing
  | _ => exact h

theorem lists_act (h : s.Lists d.bus.devices) (hrooted : d.bus.tree.Rooted)
    (hhandled : ∀ e ∈ d.commandsHandled a,
      e.topic ≠ .deviceList ∧ e.topic ≠ Topic.deviceList.withSuffix .metadataRsp)
    (hended : (d.act a).phase ≠ .ended) :
    ((d.deedsOf a).foldl Shelf.after s).Lists (d.act a).bus.devices := by
  by_cases ha : a = .advance
  · subst ha
    refine lists_advance h hrooted hhandled fun hclosing => hended ?_
    obtain ⟨b, phase⟩ := d
    obtain rfl : phase = .closing := hclosing
    rfl
  · rw [deedsOf_of_ne ha, devices_act ha]
    exact h

/-- As long as no client publishes to it, the list that is kept is that of the devices. -/
theorem run_lists (config : BusConfig) (as : List Action)
    (hhandled : ∀ e ∈ handledCommands config as,
      e.topic ≠ .deviceList ∧ e.topic ≠ Topic.deviceList.withSuffix .metadataRsp)
    (hended : (run config as).phase ≠ .ended) :
    (shelf config as).Lists (run config as).bus.devices := by
  induction as using List.reverseRecOn with
  | nil =>
    -- a list without devices is published when the bus starts
    have hmetadata : (Shelf.after {} (.publish (.make config.bufferSizes .driverVersion
        (Value.u32 Bus.driverVersion) .retained))).metadata Topic.deviceList.segments = none := by
      refine (Shelf.after_of_avoids (by decide) ?_ _).2
      show (Envelope.make _ _ _ _).topic ≠ _ ∧ (Envelope.make _ _ _ _).topic ≠ _
      rw [Envelope.make_topic]
      decide
    have hdevices : (run config []).bus.devices = {} := devices_start config
    rw [hdevices]
    exact Shelf.lists_publish hmetadata config.bufferSizes
  | append_singleton as a ih =>
    unfold handledCommands at hhandled
    rw [logFrom_concat] at hhandled
    obtain ⟨hbefore, hlast⟩ := List.forall_mem_append.mp hhandled
    rw [run_append] at hended ⊢
    have hdeeds : (run config as).historyFrom [a] = (run config as).deedsOf a := List.append_nil _
    rw [shelf_append, hdeeds]
    exact lists_act (ih hbefore fun hwas => hended (ended_act hwas)) (run_contents config as).1 hlast
      hended

/-! ## All four -/

/-- Let no client publish a value or metadata to the list of the devices. In every state of the run:

* The prefixes of the registered devices differ, and each has three levels and no suffix.
* The forwarder of a registered device listens at the node of its prefix, once and for what devices
  take, and nowhere else; the inbox of the device is open.
* The forwarder of a device that was registered at some time and is not any more listens nowhere, and
  its inbox is closed.
* Until the bus is taken down, the list that is kept is that of the prefixes, in the order in which
  the devices were registered. -/
theorem run_inventory (config : BusConfig) (as : List Action)
    (hlist : ∀ e ∈ handledCommands config as,
      e.topic ≠ .deviceList ∧ e.topic ≠ Topic.deviceList.withSuffix .metadataRsp) :
    let b := (run config as).bus
    ((b.devices.list.map (·.topic.text)).Nodup ∧
      ∀ device ∈ b.devices.list, device.topic.suffix = none ∧ device.topic.segments.length = 3) ∧
    (∀ device ∈ b.devices.list,
      (∃ node, b.tree.find? device.topic.path = some node ∧
        ∀ id, (b.tree.subscriptions id).filter (·.subscriber = device.forwarder) =
          if id = node then [⟨device.forwarder, .forwarding⟩] else []) ∧
      device.inbox < b.inboxes.length ∧ (b.inbox device.inbox).closed = false) ∧
    (∀ before, before <+: as → ∀ device ∈ (run config before).bus.devices.list,
      device ∉ b.devices.list →
      (∀ id, (b.tree.subscriptions id).filter (·.subscriber = device.forwarder) = []) ∧
        (b.inbox device.inbox).closed = true) ∧
    ((run config as).phase ≠ .ended → b.keptValue .deviceList =
      some (.str (String.intercalate "," (b.devices.list.map (·.topic.text))))) := by
  intro b
  have hregistered := (run_registered config as).bus
  have hcandidates : ∀ device ∈ b.devices.list,
      device ∈ b.candidates (run config as).phase.backendsLeft :=
    fun device hdevice => List.mem_append_left _ hdevice
  refine ⟨⟨?_, fun device hdevice => ?_⟩, fun device hdevice => ⟨?_, ?_⟩, ?_, fun hended => ?_⟩
  · exact hregistered.nodup_texts
  · have hown := hregistered.prefixes device (hcandidates device hdevice)
    exact ⟨hown.1, hown.length_segments⟩
  · exact run_forwarder config as hdevice
  · exact hregistered.inboxes device (hcandidates device hdevice)
  · rintro before ⟨rest, rfl⟩ device hdevice hgone
    have hclosed := ((retires_run config before rest).leaves device hdevice).resolve_left hgone
    exact ⟨run_closed config (before ++ rest) hclosed, hclosed⟩
  · have hlists := run_lists config as hlist hended
    exact (Bus.keptValue_of_agrees (run_agrees config as) .deviceList).trans hlists.value_eq

/-! ### Two devices, one of which goes -/

/-- Two devices are registered, and a client sets a value of one of them. -/
def twoCome : List Action :=
  [.submit (.registerDevice "u/a/1"), .submit (.registerDevice "u/b/2"),
    .submit (.request (.publish ⟨"u/b/2/x", Value.u8 1, .retained, 0, 0⟩ 0))] ++
    List.replicate 6 .advance

/-- Then the registration of the other one is ended. -/
def oneGoes : List Action :=
  twoCome ++ .submit (.unregisterDevice "u/a/1") :: List.replicate 5 .advance

theorem inventory_of_one :
    ((handledCommands {} oneGoes).length = 1 ∧ ∀ e ∈ handledCommands {} oneGoes,
      e.topic ≠ .deviceList ∧ e.topic ≠ Topic.deviceList.withSuffix .metadataRsp) ∧
    (run {} oneGoes).bus.keptValue .deviceList = some (.str "u/b/2") ∧
    ((run {} oneGoes).bus.inbox 0).closed = true ∧ ((run {} oneGoes).bus.inbox 1).closed = false ∧
    ∀ id, ((run {} oneGoes).bus.tree.subscriptions id).filter (·.subscriber = .forwarder 0) = [] := by
  have hhandled : (handledCommands {} oneGoes).length = 1 ∧ ∀ e ∈ handledCommands {} oneGoes,
      e.topic ≠ .deviceList ∧ e.topic ≠ Topic.deviceList.withSuffix .metadataRsp := by
    decide +kernel
  obtain ⟨-, hthere, hgone, hkept⟩ := run_inventory {} oneGoes hhandled.2
  have hdevices : (run {} oneGoes).bus.devices.list = [⟨⟨"u/b/2", by decide⟩, 1⟩] := by decide +kernel
  have hphase : (run {} oneGoes).phase.isOver = false := by decide +kernel
  have hended : (run {} oneGoes).phase ≠ .ended := by
    intro hended
    rw [hended] at hphase
    cases hphase
  have hcame : (⟨⟨"u/a/1", by decide⟩, 0⟩ : Device) ∈ (run {} twoCome).bus.devices.list := by
    decide +kernel
  obtain ⟨hnowhere, hclosed⟩ := hgone twoCome (List.prefix_append _ _) _ hcame (by decide +kernel)
  have hmem : (⟨⟨"u/b/2", by decide⟩, 1⟩ : Device) ∈ (run {} oneGoes).bus.devices.list := by
    rw [hdevices]
    exact List.mem_singleton_self _
  have hopen := (hthere _ hmem).2.2
  have hlist := hkept hended
  rw [hdevices] at hlist
  exact ⟨hhandled, hlist, hclosed, hopen, hnowhere⟩

end Dispatcher
end InstrumentBus
