import Mathlib
import InstrumentBus.Proofs.Dispatch.Shelf
import InstrumentBus.Proofs.Dispatch.Registrations

/-!
# What devices receive

A device receives the commands of clients for its topics: requests, and values that are admitted and
new. `Bus.orders` says which, by the first three levels of a topic and the list of registered devices
alone. Delivery knows nothing of this rule, it goes up the tree from the topic and calls whoever
listens; `map_order_posts` says that both come to the same.

`run_forwarding` is about whole runs: what lies in an inbox, behind what its device has taken out
already, are the orders of all commands so far, each once and in their order.
-/

namespace InstrumentBus

/-! ## The rule -/

/-- What a device sees of a command. -/
structure Order where
  topic : Topic
  isRetained : Bool
  op : UInt8
  app : UInt8
  value : Value
  deriving DecidableEq

def Envelope.order (e : Envelope) : Order := ⟨e.topic, e.isRetained, e.op, e.app, e.value⟩

/-- The device whose prefix are the first three levels of a topic. -/
def Devices.ofTopic? (d : Devices) (t : Topic) : Option Device :=
  d.list.find? (·.topic.segments = t.segments.take 3)

namespace Bus

/-- The value of a command as it is passed on, if it is: a request as it is, and a plain value as the
metadata of its topic adjust it, unless they refuse it or it is there already. -/
def passedOn? (b : Bus) (e : Envelope) : Option Value :=
  match e.topic.suffix with
  | some .metadataReq | some .queryReq => some e.value
  | none =>
    match Metadata.judge (b.keptMetadata e.topic) e.value with
    | .error _ => none
    | .ok v => if (b.keptValue e.topic).any (· == v) then none else some v
  | _ => none

/-- What comes into an inbox by a command: one order if the topic belongs to its device and the
command is passed on, and nothing if not. A device does not receive what it has sent itself. -/
def orders (b : Bus) (e : Envelope) (p : InboxId) : List Order :=
  match b.devices.ofTopic? e.topic with
  | some device =>
    if device.inbox = p ∧ e.origin ≠ some device.forwarder then
      ((b.passedOn? e).map fun value => { e.order with value }).toList
    else []
  | none => []

end Bus

/-- What comes into an inbox by the next step. Nothing but commands of clients becomes an order. -/
def Dispatcher.orders (d : Dispatcher) (p : InboxId) : List Order :=
  match d.phase.commandsLeft with
  | e :: _ => d.bus.orders e p
  | [] => []

/-! ## Whose topics -/

/-- Where keys differ, there is at most one of each. -/
theorem filter_eq_toList_find? {α κ : Type} [DecidableEq κ] (key : α → κ) {l : List α}
    (hl : (l.map key).Nodup) (k : κ) :
    (l.filter fun a => key a = k) = (l.find? fun a => key a = k).toList := by
  induction l with
  | nil => rfl
  | cons a l ih =>
    rw [List.map_cons, List.nodup_cons] at hl
    by_cases ha : key a = k
    · have hnone : (l.filter fun a => key a = k) = [] := by
        refine List.filter_eq_nil_iff.mpr fun a' ha' hkey => hl.1 ?_
        rw [ha, ← of_decide_eq_true hkey]
        exact List.mem_map_of_mem ha'
      simp [ha, hnone]
    · simp [ha, ih hl.2]

/-- Registered devices have different prefixes. -/
structure Devices.InOrder (d : Devices) : Prop where
  prefixes : ∀ device ∈ d.list, device.topic.IsDevicePrefix
  topics : (d.list.map Device.topic).Nodup

namespace Devices.InOrder

variable {d : Devices} {t : Topic} {device : Device}

theorem mem_of_ofTopic? (h : d.ofTopic? t = some device) :
    device ∈ d.list ∧ device.topic.segments = t.segments.take 3 := by
  have hsegments := List.find?_some h
  rw [decide_eq_true_eq] at hsegments
  exact ⟨List.mem_of_find?_eq_some h, hsegments⟩

/-- At most one device is found. -/
theorem filter_eq_toList (h : d.InOrder) (t : Topic) :
    d.list.filter (·.topic.segments = t.segments.take 3) = (d.ofTopic? t).toList := by
  have hsegments : (d.list.map fun device => device.topic.segments).Nodup := by
    have hmap := h.topics.map_on (f := Topic.segments) ?_
    · rw [List.map_map] at hmap
      exact hmap
    · intro t ht t' ht' heq
      obtain ⟨device, hdevice, rfl⟩ := List.mem_map.mp ht
      obtain ⟨other, hother, rfl⟩ := List.mem_map.mp ht'
      refine Topic.eq_of_segments heq ?_
      rw [(h.prefixes device hdevice).1, (h.prefixes other hother).1]
  exact filter_eq_toList_find? _ hsegments _

theorem ofTopic?_of_root (h : d.InOrder) (ht : t.segments = []) : d.ofTopic? t = none := by
  cases hdevice : d.ofTopic? t with
  | none => rfl
  | some device =>
    obtain ⟨hmem, hsegments⟩ := mem_of_ofTopic? hdevice
    have hlength := (h.prefixes device hmem).length_segments
    rw [hsegments, ht] at hlength
    cases hlength

/-- Commands to the bus and what the driver announces belong to no device. -/
theorem ofTopic?_of_special (h : d.InOrder) (ht : (t.isLocal || t.isDriver) = true) :
    d.ofTopic? t = none := by
  cases hdevice : d.ofTopic? t with
  | none => rfl
  | some device =>
    obtain ⟨hmem, hsegments⟩ := mem_of_ofTopic? hdevice
    have hown := (h.prefixes device hmem).devicePrefix_eq (t := t) (by
      rw [hsegments]
      exact List.take_prefix _ _)
    unfold Topic.devicePrefix at hown
    rw [if_pos ht] at hown
    cases hown

/-- The device that answers for a topic is the one whose prefix are its first three levels. -/
theorem owner?_eq (h : d.InOrder) (hdevice : d.ofTopic? t = some device) :
    d.owner? t = some device := by
  obtain ⟨hmem, hsegments⟩ := mem_of_ofTopic? hdevice
  have hown := (h.prefixes device hmem).devicePrefix_eq (t := t) (by
    rw [hsegments]
    exact List.take_prefix _ _)
  have hsame : ∀ other ∈ d.list, (other.topic.text == device.topic.path) =
      decide (other.topic.segments = t.segments.take 3) := by
    intro other hother
    rw [(h.prefixes other hother).text_eq, ← hsegments, Bool.eq_iff_iff, beq_iff_eq,
      decide_eq_true_eq, Topic.path_eq_iff]
  unfold owner? get?
  rw [hown, Option.bind_some, List.find?_congr hsame]
  exact hdevice

end Devices.InOrder

/-! ## Who receives -/

/-- Devices take envelopes of the class. -/
def DeliveryClass.forDevices : DeliveryClass → Bool
  | .publish | .metadataReq | .queryReq => true
  | .metadata | .queryRsp | .returnCode => false

theorem Device.accepts_entry (device : Device) (k : DeliveryClass) :
    device.entry.subscription.accepts k = k.forDevices := by
  cases k <;> rfl

/-- A device receives what is delivered in a class for devices and was not sent by itself. -/
def Device.receives (device : Device) (k : DeliveryClass) (origin : Option SubscriberId)
    (p : InboxId) : Bool :=
  k.forDevices && decide (device.inbox = p ∧ origin ≠ some device.forwarder)

namespace Roster

variable {L : Roster} {d : Devices} {device : Device}

/-- The entry of a device is for the topics under its prefix. -/
theorem takes_entry (hdevice : device.topic.IsDevicePrefix) (t : Topic) (k : DeliveryClass)
    (origin : Option SubscriberId) (p : InboxId) :
    (device.entry.who == .forwarder p && device.entry.takes t k origin) =
      (device.receives k origin p && decide (device.topic.segments = t.segments.take 3)) := by
  have hinbox : (device.entry.who == .forwarder p) = decide (device.inbox = p) := by
    rw [Bool.eq_iff_iff, beq_iff_eq, decide_eq_true_eq]
    exact SubscriberId.forwarder.injEq .. ▸ Iff.rfl
  have horigin : (some device.forwarder != origin) = decide (origin ≠ some device.forwarder) := by
    rw [Bool.eq_iff_iff, bne_iff_ne, decide_eq_true_eq]
    exact ne_comm
  have hstarts : t.startsWith device.topic = decide (device.topic.segments = t.segments.take 3) := by
    rw [Bool.eq_iff_iff, decide_eq_true_eq, Topic.startsWith_iff, ← hdevice.take_segments_eq_iff]
    exact eq_comm
  unfold Device.receives
  rw [← hstarts, hinbox]
  show (_ && (t.startsWith device.topic && device.entry.subscription.accepts k &&
    some device.forwarder != origin)) = _
  rw [horigin, device.accepts_entry, Bool.decide_and]
  ac_rfl

/-- How often the forwarder of a device is told: once, if the topic is one of the device, and not if
the device is the sender or takes no envelopes of the class. -/
theorem count_invited (hL : L.forwarders = d.list.map Device.entry) (hd : d.InOrder) (t : Topic)
    (k : DeliveryClass) (origin : Option SubscriberId) (p : InboxId) :
    ((L.invited t k origin).map Entry.who).count (.forwarder p) =
      if (d.ofTopic? t).any (·.receives k origin p) then 1 else 0 := by
  set told : Entry → Bool := fun n => n.who == .forwarder p && n.takes t k origin
  calc ((L.invited t k origin).map Entry.who).count (.forwarder p)
      = (L.invited t k origin).countP (fun n => n.who == .forwarder p) := by
        rw [List.count, List.countP_map]
        rfl
    _ = L.countP told := by
        rw [(L.invited_perm t k origin).countP_eq, List.countP_filter]
    _ = L.forwarders.countP told := by
        unfold forwarders
        rw [List.countP_filter]
        refine List.countP_congr fun n _ => ?_
        have hdevice : told n = true → (!n.who.isClient) = true := by
          intro htold
          rw [eq_of_beq (Bool.and_eq_true_iff.mp htold).1]
          rfl
        exact ⟨fun htold => Bool.and_eq_true_iff.mpr ⟨htold, hdevice htold⟩,
          fun hboth => (Bool.and_eq_true_iff.mp hboth).1⟩
    _ = d.list.countP fun device => told device.entry := by
        rw [hL, List.countP_map]
        rfl
    _ = (d.list.filter (·.topic.segments = t.segments.take 3)).countP (·.receives k origin p) := by
        rw [List.countP_filter]
        refine List.countP_congr fun device hdevice => ?_
        rw [← takes_entry (hd.prefixes device hdevice)]
    _ = if (d.ofTopic? t).any (·.receives k origin p) then 1 else 0 := by
        rw [hd.filter_eq_toList]
        cases d.ofTopic? t with
        | none => rfl
        | some device => simp [List.countP_cons]

end Roster

namespace Contents

variable {c : Contents} {L : Roster} {d : Devices}

/-- Return codes are not for devices. -/
theorem AreCodes.postsTo_forwarder {codes : List Post} (h : c.AreCodes codes) (hc : c.Enrolled L)
    (hL : L.forwarders = d.list.map Device.entry) (p : InboxId) :
    postsTo (.forwarder p) codes = [] := by
  refine postsTo_eq_nil fun x hx hwho => ?_
  obtain ⟨-, path, hmem⟩ := h x hx
  unfold recipients at hmem
  obtain ⟨s, hs, htakes⟩ := List.mem_filterMap.mp hmem
  obtain ⟨q, -, hs⟩ := List.mem_flatMap.mp hs
  rw [hc q] at hs
  obtain ⟨n, hn, rfl⟩ := List.mem_map.mp hs
  split at htakes
  · rename_i haccepts
    have hdevice : n ∈ L.forwarders := by
      refine List.mem_filter.mpr ⟨List.mem_of_mem_filter hn, ?_⟩
      have hn : n.who = .forwarder p := (Option.some.inj htakes).trans hwho
      rw [hn]
      rfl
    rw [hL] at hdevice
    obtain ⟨device, -, rfl⟩ := List.mem_map.mp hdevice
    rw [device.accepts_entry] at haccepts
    exact absurd (Bool.and_eq_true_iff.mp haccepts).1 (by decide)
  · cases htakes

/-- What is delivered comes to the inbox of a device at most once. -/
theorem postsTo_forwarder (hc : c.Enrolled L) (hL : L.forwarders = d.list.map Device.entry)
    (hd : d.InOrder) {e e' : Envelope} {k : DeliveryClass} (h : c.delivered? e = some (e', k))
    (p : InboxId) :
    postsTo (.forwarder p) (c.posts e) =
      if (d.ofTopic? e.topic).any (·.receives k e.origin p) then [e'] else [] := by
  obtain ⟨-, -, -, horigin, -⟩ := delivered?_eq_some h
  rw [posts_of_some h, postsTo_map, hc.recipients_eq, Roster.count_invited hL hd, horigin]
  split <;> rfl

end Contents

namespace Bus

variable {b : Bus} {L : Roster} {e : Envelope}

/-- What is passed on is what is delivered, in the classes that are for devices. -/
theorem passedOn?_eq (b : Bus) (hroot : e.topic.segments ≠ []) :
    b.passedOn? e =
      ((b.tree.contents.delivered? e).filter fun d => d.2.forDevices).map fun d => d.1.value := by
  have hrepeats : ∀ kept : Option Envelope, ∀ e' : Envelope,
      (kept.map Envelope.value).any (· == e'.value) = e'.repeats kept := by
    intro kept e'
    cases kept <;> rfl
  unfold passedOn? Contents.delivered?
  rw [if_neg hroot]
  cases e.topic.suffix with
  | none =>
    simp only
    rw [keptMetadata_eq, keptValue_eq, ← Envelope.map_value_validated]
    cases e.validated (b.tree.contents.metadata e.topic.segments) with
    | error s => rfl
    | ok e' =>
      show (if (_ : Option Value).any (· == e'.value) then _ else _) = _
      rw [hrepeats]
      by_cases hagain : e'.repeats (b.tree.contents.value e.topic.segments) = true
      · simp only [if_pos hagain]
        rfl
      · simp only [if_neg hagain]
        rfl
  | some suffix =>
    cases suffix with
    | metadataRsp =>
      simp only
      split <;> rfl
    | _ => rfl

/-- The orders of a command are what its delivery brings. -/
theorem map_order_posts (hc : b.tree.contents.Enrolled L)
    (hL : L.forwarders = b.devices.list.map Device.entry) (hd : b.devices.InOrder) (e : Envelope)
    (p : InboxId) :
    (postsTo (.forwarder p) (b.tree.contents.posts e)).map Envelope.order = b.orders e p := by
  by_cases hroot : e.topic.segments = []
  · have hnone : b.tree.contents.delivered? e = none := by
      unfold Contents.delivered?
      rw [if_pos hroot]
    unfold orders
    rw [Contents.posts_of_none hnone, hd.ofTopic?_of_root hroot]
    rfl
  · unfold orders
    rw [b.passedOn?_eq hroot]
    cases hdelivered : b.tree.contents.delivered? e with
    | none =>
      rw [Contents.posts_of_none hdelivered]
      split
      · split <;> rfl
      · rfl
    | some delivered =>
      obtain ⟨e', k⟩ := delivered
      obtain ⟨-, htopic, hretained, -, hop, happ, -⟩ := Contents.delivered?_eq_some hdelivered
      have horder : e'.order = { e.order with value := e'.value } := by
        unfold Envelope.order
        rw [htopic, hretained, hop, happ]
      rw [Contents.postsTo_forwarder hc hL hd hdelivered]
      cases b.devices.ofTopic? e.topic with
      | none => rfl
      | some device =>
        by_cases hreceives : device.inbox = p ∧ e.origin ≠ some device.forwarder
        · by_cases hk : k.forDevices
          · simp [Device.receives, hk, hreceives, horder, Option.filter]
          · simp [Device.receives, hk, Option.filter]
        · simp [Device.receives, hreceives]

end Bus

/-! ## Deeds that bring no orders -/

/-- The deed brings nothing to any device: what is published belongs to none, or comes from the one
that it belongs to. -/
def Deed.passesBy (d : Devices) : Deed → Prop
  | .publish e => ∀ device, d.ofTopic? e.topic = some device → e.origin = some device.forwarder
  | deed => deed.sparesDevices

theorem Deed.sparesDevices_of_passesBy {d : Devices} {deed : Deed} (h : deed.passesBy d) :
    deed.sparesDevices := by
  cases deed with
  | publish e => trivial
  | _ => exact h

theorem Deed.passesBy_of_sparesDevices {d : Devices} {deed : Deed} (h : deed.sparesDevices)
    (hother : ∀ e, deed ≠ .publish e) : deed.passesBy d := by
  cases deed with
  | publish e => exact absurd rfl (hother e)
  | _ => exact h

/-- What belongs to no device passes by. -/
theorem Devices.InOrder.passesBy_of_special {d : Devices} (h : d.InOrder) {e : Envelope}
    (he : (e.topic.isLocal || e.topic.isDriver) = true) : (Deed.publish e).passesBy d := by
  intro device hdevice
  rw [h.ofTopic?_of_special he] at hdevice
  cases hdevice

namespace Bus

variable {b : Bus} {L : Roster} {d : Devices} {deed first : Deed} {deeds : List Deed} {e : Envelope}
  {taken : List Envelope}

theorem effect_of_passesBy (hrooted : b.tree.Rooted) (hc : b.tree.contents.Enrolled L)
    (hL : L.forwarders = d.list.map Device.entry) (hd : d.InOrder) (h : deed.passesBy d) :
    ∃ posts, b.Effect (b.tree.contents.after deed) posts (b.perform deed) ∧
      ∀ p, postsTo (.forwarder p) posts = [] := by
  obtain ⟨posts, htells, heffect⟩ := effect_perform hrooted deed
  refine ⟨posts, heffect, fun p => ?_⟩
  cases deed with
  | publish e =>
    obtain ⟨codes, hcodes, rfl⟩ := htells
    rw [postsTo_append, hcodes.postsTo_forwarder hc hL, List.append_nil]
    cases hdelivered : b.tree.contents.delivered? e with
    | none =>
      rw [Contents.posts_of_none hdelivered]
      rfl
    | some delivered =>
      rw [Contents.postsTo_forwarder hc hL hd hdelivered]
      cases hdevice : d.ofTopic? e.topic with
      | none => rfl
      | some device => simp [Device.receives, h device hdevice]
  | announce t code => exact Contents.AreCodes.postsTo_forwarder htells hc hL p
  | enlist t s =>
    obtain ⟨told, rfl, -⟩ := htells
    refine postsTo_eq_nil fun x hx hwho => ?_
    obtain ⟨e, -, rfl⟩ := List.mem_map.mp hx
    have hclient : s.subscriber.isClient = true := h
    rw [show s.subscriber = .forwarder p from hwho] at hclient
    cases hclient
  | dismiss t who | dismissAll who =>
    obtain rfl : posts = [] := htells
    rfl
  | clear => exact absurd h id

theorem posted_of_passesBy (hrooted : b.tree.Rooted) (hc : b.tree.contents.Enrolled L)
    (hL : L.forwarders = d.list.map Device.entry) (hd : d.InOrder)
    (h : ∀ deed ∈ deeds, deed.passesBy d) :
    ∃ posts, b.Posted posts (b.performAll deeds) ∧ ∀ p, postsTo (.forwarder p) posts = [] := by
  induction deeds generalizing b L with
  | nil => exact ⟨[], Posted.refl b, fun _ => rfl⟩
  | cons deed deeds ih =>
    obtain ⟨hdeed, hdeeds⟩ := List.forall_mem_cons.mp h
    obtain ⟨posts, heffect, hnone⟩ := effect_of_passesBy hrooted hc hL hd hdeed
    have hc' : (b.perform deed).tree.contents.Enrolled (L.after deed) := by
      rw [heffect.contents_eq]
      exact hc.after deed
    have hL' := (Roster.forwarders_after (Deed.sparesDevices_of_passesBy hdeed) L).trans hL
    obtain ⟨posts', hposted, hnone'⟩ := ih heffect.rooted hc' hL' hdeeds
    refine ⟨posts ++ posts', heffect.posted.trans hposted, fun p => ?_⟩
    rw [postsTo_append, hnone, hnone', List.append_nil]

/-- The same when first a forwarder comes or goes. -/
theorem posted_cons_of_passesBy (hc : b.tree.contents.Enrolled L)
    (hfirst : b.Effect (b.tree.contents.after first) [] (b.perform first))
    (hL : (L.after first).forwarders = d.list.map Device.entry) (hd : d.InOrder)
    (h : ∀ deed ∈ deeds, deed.passesBy d) :
    ∃ posts, b.Posted posts (b.performAll (first :: deeds)) ∧
      ∀ p, postsTo (.forwarder p) posts = [] := by
  have hc' : (b.perform first).tree.contents.Enrolled (L.after first) := by
    rw [hfirst.contents_eq]
    exact hc.after first
  obtain ⟨posts, hposted, hnone⟩ := posted_of_passesBy hfirst.rooted hc' hL hd h
  exact ⟨posts, hfirst.posted.after hposted, hnone⟩

theorem Registered.inOrder (h : b.Registered taken) : b.devices.InOrder :=
  ⟨fun device hdevice => h.prefixes device (List.mem_append_left _ hdevice), h.topics⟩

/-- A forwarder that starts to listen is told nothing. -/
theorem effect_enlist_forwarder (hrooted : b.tree.Rooted) (t : Topic) (who : SubscriberId) :
    b.Effect (b.tree.contents.after (.enlist t ⟨who, .forwarding⟩)) []
      (b.perform (.enlist t ⟨who, .forwarding⟩)) := by
  obtain ⟨posts, -, heffect⟩ := effect_perform hrooted (.enlist t ⟨who, .forwarding⟩)
  obtain ⟨node, tree, hnode, -⟩ := exists_nodeOf hrooted t
  have hposted : b.Posted [] (b.perform (.enlist t ⟨who, .forwarding⟩)) := by
    rw [perform_enlist_forwarding hnode]
    exact posted_tree b _
  exact ⟨heffect.rooted, heffect.contents_eq, hposted⟩

theorem effect_dismiss (hrooted : b.tree.Rooted) (t : Topic) (who : SubscriberId) :
    b.Effect (b.tree.contents.after (.dismiss t who)) [] (b.perform (.dismiss t who)) := by
  obtain ⟨posts, htells, heffect⟩ := effect_perform hrooted (.dismiss t who)
  obtain rfl : posts = [] := htells
  exact heffect

/-- Registering a device, or ending its registration, takes one change to the subscriptions and two
announcements of the driver; all else that a backend sends is published, or nothing is done. -/
theorem deeds_backendPlan (b : Bus) (e : Envelope) :
    (b.backendPlan e).deeds = [] ∨
    (∃ first e₁ e₂, (b.backendPlan e).deeds = [first, .publish e₁, .publish e₂] ∧
      ((∃ t who, first = .enlist t ⟨who, .forwarding⟩) ∨ ∃ t who, first = .dismiss t who) ∧
      e₁.topic.isDriver = true ∧ e₂.topic.isDriver = true) ∨
    (b.backendPlan e).deeds = [.publish (b.received e)] ∧ (b.backendPlan e).bus = b := by
  have hlist : ∀ (devices : Devices) (sizes : BufferSizes),
      (devices.listEnvelope sizes).topic.isDriver = true := by
    intro devices sizes
    unfold Devices.listEnvelope
    rw [Envelope.make_topic]
    decide
  unfold backendPlan
  split
  · rename_i hdriver
    split
    · split
      · rename_i topic p hcontrol
        unfold addPlan
        cases b.devices.add? topic p with
        | none => exact Or.inl rfl
        | some added =>
          exact Or.inr (Or.inl ⟨_, _, _, rfl, Or.inl ⟨_, _, rfl⟩, hdriver, hlist _ _⟩)
      · exact Or.inl rfl
    · split
      · split
        · rename_i name hname
          unfold removePlan
          cases b.devices.remove? name with
          | none => exact Or.inl rfl
          | some removed =>
            exact Or.inr (Or.inl ⟨_, _, _, rfl, Or.inr ⟨_, _, rfl⟩, hdriver, hlist _ _⟩)
        · exact Or.inl rfl
      · exact Or.inl rfl
  · exact Or.inr (Or.inr ⟨rfl, rfl⟩)

/-- What a device publishes passes by the device. -/
theorem passesBy_received (hd : b.devices.InOrder) (e : Envelope) :
    (Deed.publish (b.received e)).passesBy b.devices := by
  intro device hdevice
  have howner : b.devices.owner? e.topic = some device := hd.owner?_eq hdevice
  unfold received
  rw [howner]

/-- Envelopes of backends bring nothing to any device. -/
theorem posted_backendPlan (h : b.Registered (e :: taken)) (hrooted : b.tree.Rooted)
    (hc : b.tree.contents.Enrolled L) (hL : L.forwarders = b.devices.list.map Device.entry) :
    ∃ posts, (b.backendPlan e).bus.Posted posts (b.backendPlan e).done ∧
      ∀ p, postsTo (.forwarder p) posts = [] := by
  obtain ⟨hregistered, hforwarders, -⟩ := Registered.backendPlan h hL
  have hd := hregistered.inOrder
  rw [← (untold_backendPlan b e).tree_eq] at hrooted hc
  unfold Plan.done
  rcases deeds_backendPlan b e with hnone | ⟨first, e₁, e₂, hdeeds, hfirst, he₁, he₂⟩ | ⟨hdeeds, hbus⟩
  · rw [hnone]
    exact ⟨[], Posted.refl _, fun _ => rfl⟩
  · rw [hdeeds] at hforwarders ⊢
    have heffect : (b.backendPlan e).bus.Effect ((b.backendPlan e).bus.tree.contents.after first) []
        ((b.backendPlan e).bus.perform first) := by
      rcases hfirst with ⟨t, who, rfl⟩ | ⟨t, who, rfl⟩
      · exact effect_enlist_forwarder hrooted t who
      · exact effect_dismiss hrooted t who
    refine posted_cons_of_passesBy hc heffect hforwarders hd ?_
    refine List.forall_mem_cons.mpr ⟨hd.passesBy_of_special ?_, List.forall_mem_singleton.mpr
      (hd.passesBy_of_special ?_)⟩
    · rw [he₁, Bool.or_true]
    · rw [he₂, Bool.or_true]
  · rw [hdeeds]
    rw [hbus] at hrooted hc ⊢
    exact posted_of_passesBy hrooted hc hL h.inOrder
      (List.forall_mem_singleton.mpr (passesBy_received h.inOrder e))

/-- Commands that the bus carries out itself bring nothing either; all others bring their orders. -/
theorem posted_commandPlan (hd : b.devices.InOrder) (hrooted : b.tree.Rooted)
    (hc : b.tree.contents.Enrolled L) (hL : L.forwarders = b.devices.list.map Device.entry)
    (he : e.fromClient) :
    ∃ posts, b.Posted posts (b.commandPlan e).done ∧
      ∀ p, (postsTo (.forwarder p) posts).map Envelope.order = b.orders e p := by
  unfold commandPlan Plan.done
  by_cases hlocal : e.topic.isLocal
  · rw [if_pos hlocal]
    have hpasses : ∀ code, ∀ deed ∈ e.localDeeds ++ [.announce e.topic code],
        deed.passesBy b.devices := by
      intro code
      refine List.forall_mem_append.mpr ⟨fun deed hdeed => ?_, List.forall_mem_singleton.mpr trivial⟩
      obtain ⟨hspares, hother⟩ := sparesDevices_localDeeds he deed hdeed
      exact Deed.passesBy_of_sparesDevices hspares hother
    obtain ⟨posts, hposted, hnone⟩ := posted_of_passesBy hrooted hc hL hd (hpasses _)
    refine ⟨posts, hposted, fun p => ?_⟩
    unfold orders
    rw [hnone, hd.ofTopic?_of_special (by rw [hlocal, Bool.true_or])]
    rfl
  · rw [if_neg hlocal]
    -- the table of calls has no part in this
    obtain ⟨calls, hhold⟩ := b.holdCall_eq e
    have hrooted' : (b.holdCall e).tree.Rooted := by
      rw [hhold]
      exact hrooted
    obtain ⟨posts, htells, heffect⟩ := effect_perform hrooted' (.publish { e with call := none })
    have hcontents : (b.holdCall e).tree.contents = b.tree.contents := by rw [hhold]
    rw [hcontents] at htells
    obtain ⟨codes, hcodes, rfl⟩ := htells
    refine ⟨b.tree.contents.posts { e with call := none } ++ codes, ?_, fun p => ?_⟩
    · have hposted := heffect.posted
      rw [hhold] at hposted ⊢
      exact (posted_calls b calls).after hposted
    · rw [postsTo_append, hcodes.postsTo_forwarder hc hL, List.append_nil,
        map_order_posts hc hL hd]
      simp only [orders, passedOn?, Envelope.order, Envelope.value, Envelope.isRetained]

end Bus

/-! ## What comes into an inbox -/

theorem Envelope.order_clone (e : Envelope) : e.clone.order = e.order := by
  obtain ⟨htopic, hvalue, hretained, hop, happ⟩ := e.clone_spec
  unfold order
  rw [htopic, hvalue, hretained, hop, happ]

namespace Bus

variable {b b' : Bus} {e : Envelope} {taken : List Envelope} {L : Roster} {posts : List Post}
  {p : InboxId} {orders : List Order}

/-- Between the two buses these orders came into the inbox, behind what lay there. -/
def Brings (b b' : Bus) (p : InboxId) (orders : List Order) : Prop :=
  ∃ copies, (b'.inbox p).items = (b.inbox p).items ++ copies ∧ copies.map Envelope.order = orders

theorem brings_nil (h : (b'.inbox p).items = (b.inbox p).items) : b.Brings b' p [] :=
  ⟨[], by rw [h, List.append_nil], rfl⟩

/-- An inbox that nothing is posted to stays as it is. -/
theorem Posted.items_of_nil (h : b.Posted posts b') (hnone : postsTo (.forwarder p) posts = []) :
    (b'.inbox p).items = (b.inbox p).items := by
  by_cases hp : p < b.inboxes.length
  · rw [h.inbox_eq p hp, hnone]
    split
    · rfl
    · exact List.append_nil _
  · have hle := Nat.not_lt.mp hp
    rw [inbox_of_length_le b hle, inbox_of_length_le b' (h.length_eq.trans_le hle)]

/-- What is posted comes in, if the inbox is open. -/
theorem Posted.brings (h : b.Posted posts b') (hopen : postsTo (.forwarder p) posts ≠ [] →
    p < b.inboxes.length ∧ (b.inbox p).closed = false) :
    b.Brings b' p ((postsTo (.forwarder p) posts).map Envelope.order) := by
  by_cases hnone : postsTo (.forwarder p) posts = []
  · rw [hnone]
    exact brings_nil (h.items_of_nil hnone)
  · obtain ⟨hp, hclosed⟩ := hopen hnone
    refine ⟨(postsTo (.forwarder p) posts).map Envelope.clone, ?_, ?_⟩
    · rw [h.inbox_eq p hp, if_neg (by rw [hclosed]; exact Bool.false_ne_true)]
    · rw [List.map_map]
      exact List.map_congr_left fun e _ => e.order_clone

/-- Orders are for inboxes of registered devices, which are open. -/
theorem Registered.open_of_orders (h : b.Registered taken) (horders : b.orders e p ≠ []) :
    p < b.inboxes.length ∧ (b.inbox p).closed = false := by
  unfold Bus.orders at horders
  split at horders
  · rename_i device hdevice
    split at horders
    · rename_i hreceives
      obtain ⟨hmem, -⟩ := Devices.InOrder.mem_of_ofTopic? hdevice
      rw [← hreceives.1]
      exact h.inboxes device (List.mem_append_left _ hmem)
    · exact absurd rfl horders
  · exact absurd rfl horders

/-- The inbox of a device that goes is closed; what lies in it stays there. -/
theorem items_backendPlan (b : Bus) (e : Envelope) (p : InboxId) :
    ((b.backendPlan e).bus.inbox p).items = (b.inbox p).items := by
  unfold backendPlan
  split
  · split
    · split
      · unfold addPlan
        split <;> rfl
      · rfl
    · split
      · split
        · unfold removePlan
          split
          · rfl
          · exact items_closeInbox _ _ p
        · rfl
      · rfl
  · rfl

theorem items_finish (b : Bus) (p : InboxId) : (b.finish.inbox p).items = (b.inbox p).items := by
  have hclosed : ∀ (ds : List Device) (b : Bus),
      ((ds.foldl (fun b d => b.closeInbox d.inbox) b).inbox p).items = (b.inbox p).items := by
    intro ds
    induction ds with
    | nil => exact fun _ => rfl
    | cons device ds ih =>
      intro b
      rw [List.foldl_cons, ih, items_closeInbox]
  exact hclosed b.devices.list b

/-- The oldest command is taken out, if there is one. -/
theorem pop_append_items (b : Bus) (p : InboxId) :
    (b.inbox p).pop.1.toList ++ ((b.setInbox p (b.inbox p).pop.2).inbox p).items =
      (b.inbox p).items := by
  have hqueue : ∀ q : Queue, q.pop.1.toList ++ q.pop.2.items = q.items := by
    intro q
    unfold Queue.pop
    split
    · rfl
    · rename_i hitems
      rw [hitems]
      rfl
  by_cases hp : p < b.inboxes.length
  · rw [inbox_setInbox b _ hp, if_pos rfl, hqueue]
  · have hle := Nat.not_lt.mp hp
    rw [setInbox_of_length_le b _ hle, inbox_of_length_le b hle]
    rfl

theorem Registered.brings_handleBackend (h : b.Registered (e :: taken)) (hrooted : b.tree.Rooted)
    (hc : b.tree.contents.Enrolled L) (hL : L.forwarders = b.devices.list.map Device.entry)
    (p : InboxId) : b.Brings (b.handleBackend e) p [] := by
  rw [handleBackend_eq hrooted]
  obtain ⟨posts, hposted, hnone⟩ := posted_backendPlan h hrooted hc hL
  obtain ⟨copies, hitems, horders⟩ := hposted.brings (p := p) fun hsome => absurd (hnone p) hsome
  rw [items_backendPlan] at hitems
  rw [hnone] at horders
  exact ⟨copies, hitems, horders⟩

theorem Registered.brings_handleCommand (h : b.Registered taken) (hrooted : b.tree.Rooted)
    (hc : b.tree.contents.Enrolled L) (hL : L.forwarders = b.devices.list.map Device.entry)
    (he : e.fromClient) (p : InboxId) : b.Brings (b.handleCommand e) p (b.orders e p) := by
  obtain ⟨calls, hcalls⟩ := b.handleCommand_eq e
  obtain ⟨posts, hposted, horders⟩ := posted_commandPlan h.inOrder hrooted hc hL he
  rw [hcalls, ← horders p]
  refine (hposted.before (posted_calls _ calls)).brings fun hsome => h.open_of_orders (e := e) ?_
  rw [← horders p]
  exact fun hnone => hsome (List.map_eq_nil_iff.mp hnone)

end Bus

/-! ## Runs -/

namespace Dispatcher

variable {d : Dispatcher} {L : Roster}

/-- What comes into an inbox by what happens next. -/
def ordersOf (d : Dispatcher) : Action → InboxId → List Order
  | .advance, p => d.orders p
  | _, _ => []

/-- What a device takes out of an inbox by what happens next. -/
def collectedBy (d : Dispatcher) : Action → InboxId → List Envelope
  | .collect p', p => if p' = p then (d.bus.inbox p).pop.1.toList else []
  | _, _ => []

/-- All orders for an inbox from some moment on. -/
def ordersFrom : Dispatcher → List Action → InboxId → List Order
  | _, [], _ => []
  | d, a :: as, p => d.ordersOf a p ++ ordersFrom (d.act a) as p

/-- Everything that is taken out of an inbox from some moment on. -/
def collectedFrom : Dispatcher → List Action → InboxId → List Envelope
  | _, [], _ => []
  | d, a :: as, p => d.collectedBy a p ++ collectedFrom (d.act a) as p

/-- A step brings an inbox its orders and nothing else. -/
theorem Registered.brings_advance (h : d.Registered L) (hrooted : d.bus.tree.Rooted)
    (hc : d.bus.tree.contents.Enrolled L) (p : InboxId) :
    d.bus.Brings d.advance.bus p (d.orders p) := by
  obtain ⟨hbus, hforwarders, hclients⟩ := h
  obtain ⟨b, phase⟩ := d
  cases phase with
  | backends es =>
    cases es with
    | nil => exact Bus.brings_nil rfl
    | cons e es => exact hbus.brings_handleBackend hrooted hc hforwarders p
  | commands es =>
    cases es with
    | nil => exact Bus.brings_nil rfl
    | cons e es =>
      by_cases hfinalize : e.topic = .finalize
      · have hspecial : (e.topic.isLocal || e.topic.isDriver) = true := by
          rw [hfinalize]
          decide
        have hnone : b.orders e p = [] := by
          unfold Bus.orders
          rw [hbus.inOrder.ofTopic?_of_special hspecial]
        simp only [Dispatcher.advance, if_pos hfinalize, orders, Phase.commandsLeft]
        rw [hnone]
        exact Bus.brings_nil rfl
      · simp only [Dispatcher.advance, if_neg hfinalize, orders, Phase.commandsLeft]
        exact hbus.brings_handleCommand hrooted hc hforwarders
          (hclients e (List.mem_append_left _ List.mem_cons_self)) p
  | closing => exact Bus.brings_nil (b.items_finish p)
  | _ => exact Bus.brings_nil rfl

/-- Whatever happens next: what is taken out of an inbox, and then what lies in it, is what lay in it
and the orders that come. -/
theorem Registered.order_act (h : d.Registered L) (hrooted : d.bus.tree.Rooted)
    (hc : d.bus.tree.contents.Enrolled L) (a : Action) (p : InboxId) :
    (d.collectedBy a p ++ ((d.act a).bus.inbox p).items).map Envelope.order =
      (d.bus.inbox p).items.map Envelope.order ++ d.ordersOf a p := by
  have hkept : ∀ b' : Bus, (b'.inbox p).items = (d.bus.inbox p).items →
      ([] ++ (b'.inbox p).items).map Envelope.order =
        (d.bus.inbox p).items.map Envelope.order ++ [] := by
    intro b' hitems
    rw [hitems, List.nil_append, List.append_nil]
  cases a with
  | advance =>
    obtain ⟨copies, hitems, horders⟩ := h.brings_advance hrooted hc p
    show ([] ++ (d.advance.bus.inbox p).items).map _ = _ ++ d.orders p
    rw [List.nil_append, hitems, List.map_append, horders]
  | submit s => exact hkept _ (congrArg Queue.items ((Bus.admits_accept d.bus s).inbox_eq p))
  | submitLate s => exact hkept _ (congrArg Queue.items ((Bus.admits_acceptLate d.bus s).inbox_eq p))
  | collect p' =>
    show ((if p' = p then (d.bus.inbox p).pop.1.toList else []) ++
      ((d.bus.setInbox p' (d.bus.inbox p').pop.2).inbox p).items).map _ = _ ++ []
    by_cases hp' : p' = p
    · subst hp'
      rw [if_pos rfl, d.bus.pop_append_items p', List.append_nil]
    · rw [if_neg hp']
      exact hkept _ (congrArg Queue.items (d.bus.inbox_setInbox_of_ne _ hp'))
  | addListener l => exact hkept _ rfl
  | setClock time => exact hkept _ rfl

/-- Everything that a run brings an inbox. -/
def allOrders (config : BusConfig) (as : List Action) (p : InboxId) : List Order :=
  ordersFrom ⟨.start config, .awake⟩ as p

/-- Everything that a run takes out of an inbox. -/
def collected (config : BusConfig) (as : List Action) (p : InboxId) : List Envelope :=
  collectedFrom ⟨.start config, .awake⟩ as p

theorem run_enrolled (config : BusConfig) (as : List Action) :
    (run config as).bus.tree.contents.Enrolled (Roster.of (history config as)) := by
  rw [(run_contents config as).2]
  exact Contents.Enrolled.nothing.foldl_after (history config as)

theorem run_nil (config : BusConfig) : run config [] = ⟨.start config, .awake⟩ := rfl

/-- At the start there are no inboxes. -/
theorem inbox_run_nil (config : BusConfig) (p : InboxId) : (run config []).bus.inbox p = {} := by
  rw [run_nil]
  obtain ⟨posts, hposted⟩ :=
    Bus.exists_posted_performAll (b := { config }) Tree.rooted_empty (opening config)
  rw [← start_eq] at hposted
  exact Bus.inbox_of_length_le _ (hposted.length_eq.trans_le (Nat.zero_le p))

/-- From any moment of a run on. -/
theorem order_runFrom_run (config : BusConfig) (as bs : List Action) (p : InboxId) :
    ((run config as).collectedFrom bs p ++
        (((run config as).runFrom bs).bus.inbox p).items).map Envelope.order =
      ((run config as).bus.inbox p).items.map Envelope.order ++ (run config as).ordersFrom bs p := by
  induction bs generalizing as with
  | nil =>
    generalize run config as = d
    rw [collectedFrom, ordersFrom, List.nil_append, List.append_nil]
    rfl
  | cons a bs ih =>
    have hact : (run config as).act a = run config (as ++ [a]) := (run_append config as [a]).symm
    have hstep := (run_registered config as).order_act (run_contents config as).1
      (run_enrolled config as) a p
    have hrest := ih (as ++ [a])
    rw [← hact] at hrest
    calc ((run config as).collectedFrom (a :: bs) p ++
          (((run config as).runFrom (a :: bs)).bus.inbox p).items).map Envelope.order
        = ((run config as).collectedBy a p).map Envelope.order ++
            (((run config as).act a).collectedFrom bs p ++
              ((((run config as).act a).runFrom bs).bus.inbox p).items).map Envelope.order := by
          rw [collectedFrom, List.append_assoc, List.map_append]
          rfl
      _ = ((run config as).collectedBy a p ++
            (((run config as).act a).bus.inbox p).items).map Envelope.order ++
              ((run config as).act a).ordersFrom bs p := by
          rw [hrest, List.map_append, List.append_assoc]
      _ = ((run config as).bus.inbox p).items.map Envelope.order ++
            (run config as).ordersFrom (a :: bs) p := by
          rw [hstep, ordersFrom, List.append_assoc]

/-- In every state of every run, no two registered devices have one inbox, and the next step brings
an inbox its orders: one for a command that is passed on to the device of the inbox, and nothing for
any other envelope. What was taken out of an inbox so far, and then what still lies in it, are all the
orders that came, each once and in their order, whatever became of the device. -/
theorem run_forwarding (config : BusConfig) (as : List Action) (p : InboxId) :
    let d := run config as
    (d.bus.devices.list.map Device.inbox).Nodup ∧
    (∃ copies, (d.advance.bus.inbox p).items = (d.bus.inbox p).items ++ copies ∧
      copies.map Envelope.order = d.orders p) ∧
    (collected config as p ++ (d.bus.inbox p).items).map Envelope.order = allOrders config as p := by
  intro d
  have hregistered := run_registered config as
  refine ⟨?_, ?_, ?_⟩
  · have hdistinct := hregistered.bus.distinct
    unfold Bus.candidates at hdistinct
    rw [List.map_append] at hdistinct
    exact (List.nodup_append.mp hdistinct).1
  · exact hregistered.brings_advance (run_contents config as).1 (run_enrolled config as) p
  · have hrun := order_runFrom_run config [] as p
    rw [inbox_run_nil, run_nil] at hrun
    exact hrun

/-- A device is registered and a value is set twice: the second time nothing changes, so the device
receives it once. -/
example :
    let set : Action := .submit (.request (.publish ⟨"u/a/b/x", Value.u8 1, .retained, 0, 0⟩ 0))
    allOrders {} ([.submit (.registerDevice "u/a/b"), set, set] ++ List.replicate 5 .advance) 0 =
      [⟨⟨"u/a/b/x", by decide⟩, true, 0, 0, .u8 1⟩] := by
  decide +kernel

end Dispatcher
end InstrumentBus
