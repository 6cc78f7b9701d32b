import Mathlib
import InstrumentBus.Proofs.Dispatch.Runs
import InstrumentBus.Proofs.Dispatch.Roster

/-!
# Devices, inboxes and forwarders

A device has an inbox from the moment that its registration is asked for. As long as it is registered,
or its registration is still on its way, this inbox is open and no other device has it
(`Bus.Registered`). The forwarders of the registered devices are all that listens in the tree besides
clients, each to the prefix of its device (`Roster.forwarders`). `run_registered` says that this is so
in every state of every run.
-/

namespace InstrumentBus

/-! ## The registry -/

/-- The device that an envelope of a backend asks to register. -/
def Envelope.candidate (e : Envelope) : Option Device :=
  match e.control with
  | some (.deviceAdd topic p) => some ⟨topic, p⟩
  | _ => none

theorem Envelope.candidate_of_control {e : Envelope} {topic : Topic} {p : InboxId}
    (h : e.control = some (.deviceAdd topic p)) : e.candidate = some ⟨topic, p⟩ := by
  unfold candidate
  rw [h]

/-- What the forwarder of a device is entered with. -/
def Device.entry (d : Device) : Entry := ⟨d.topic, ⟨d.forwarder, .forwarding⟩⟩

namespace Devices

variable {d d' : Devices} {device : Device} {topic : Topic} {p : InboxId} {name : String}

theorem add?_eq_some (h : d.add? topic p = some (device, d')) :
    (∀ other ∈ d.list, other.topic ≠ topic) ∧ device = ⟨topic, p⟩ ∧
      d'.list = d.list ++ [⟨topic, p⟩] := by
  unfold add? at h
  split at h
  · cases h
  · rename_i hnone
    cases h
    refine ⟨fun other hother htopic => ?_, rfl, rfl⟩
    have hfind := List.find?_eq_none.mp hnone other hother
    exact hfind (beq_iff_eq.mpr (congrArg Topic.text htopic))

/-- The device that was registered with a name is taken out. -/
theorem remove?_eq_some (h : d.remove? name = some (device, d')) :
    ∃ before later, d.list = before ++ device :: later ∧ d'.list = before ++ later := by
  obtain ⟨found, hfound, heq⟩ := Option.map_eq_some_iff.mp h
  cases heq
  obtain ⟨hname, before, later, hlist, hbefore⟩ := List.find?_eq_some_iff_append.mp hfound
  refine ⟨before, later, hlist, ?_⟩
  have hnone : ∀ other ∈ before, ¬ (other.topic.text == name) = true := by
    intro other hother
    simpa using hbefore other hother
  show d.list.eraseP _ = _
  rw [hlist, List.eraseP_append_right _ hnone,
    List.eraseP_cons_of_pos (p := fun other : Device => other.topic.text == name) hname]

end Devices

/-! ## Inboxes -/

namespace Bus

variable {b b' : Bus} {taken taken' : List Envelope} {e : Envelope} {posts : List Post}

theorem inbox_of_length_le (b : Bus) {p : InboxId} (hp : b.inboxes.length ≤ p) : b.inbox p = {} := by
  unfold inbox
  rw [List.getElem?_eq_none hp]
  rfl

theorem inbox_closeInbox_of_ne (b : Bus) {p p' : InboxId} (h : p ≠ p') :
    (b.closeInbox p).inbox p' = b.inbox p' :=
  b.inbox_setInbox_of_ne _ h

/-- What lies in an inbox stays there when it is closed. -/
theorem items_closeInbox (b : Bus) (p p' : InboxId) :
    ((b.closeInbox p).inbox p').items = (b.inbox p').items := by
  by_cases h : p = p'
  · subst h
    by_cases hp : p < b.inboxes.length
    · unfold closeInbox
      rw [inbox_setInbox b _ hp, if_pos rfl]
      rfl
    · unfold closeInbox
      rw [setInbox_of_length_le b _ (Nat.not_lt.mp hp)]
  · rw [inbox_closeInbox_of_ne b h]

/-- Taking a command out of an inbox does not open or close any. -/
theorem closed_collect (b : Bus) (p p' : InboxId) :
    ((b.setInbox p (b.inbox p).pop.2).inbox p').closed = (b.inbox p').closed := by
  by_cases hp : p < b.inboxes.length
  · rw [inbox_setInbox b _ hp]
    split
    · rename_i heq
      rw [← heq]
      unfold Queue.pop
      split <;> rfl
    · rfl
  · rw [setInbox_of_length_le b _ (Nat.not_lt.mp hp)]

/-- The registered devices, and those whose registration is on its way. -/
def candidates (b : Bus) (taken : List Envelope) : List Device :=
  b.devices.list ++ (taken ++ b.backend.items).filterMap Envelope.candidate

/-- Every device has an open inbox of its own, and every registered one a prefix of its own. -/
structure Registered (taken : List Envelope) (b : Bus) : Prop where
  prefixes : ∀ device ∈ b.candidates taken, device.topic.IsDevicePrefix
  inboxes : ∀ device ∈ b.candidates taken,
    device.inbox < b.inboxes.length ∧ (b.inbox device.inbox).closed = false
  distinct : ((b.candidates taken).map Device.inbox).Nodup
  topics : (b.devices.list.map Device.topic).Nodup

/-- No two registered devices have one inbox. -/
theorem Registered.nodup_inboxes (h : b.Registered taken) :
    (b.devices.list.map Device.inbox).Nodup := by
  have hdistinct := h.distinct
  unfold candidates at hdistinct
  rw [List.map_append] at hdistinct
  exact (List.nodup_append.mp hdistinct).1

/-- What there is less of devices leaves the others alone, as long as their inboxes stay open. -/
theorem Registered.mono (h : b.Registered taken)
    (hcandidates : (b'.candidates taken').Sublist (b.candidates taken))
    (hdevices : b'.devices.list.Sublist b.devices.list) (hlength : b.inboxes.length ≤ b'.inboxes.length)
    (hclosed : ∀ device ∈ b'.candidates taken', (b'.inbox device.inbox).closed =
      (b.inbox device.inbox).closed) : b'.Registered taken' where
  prefixes device hdevice := h.prefixes device (hcandidates.subset hdevice)
  inboxes device hdevice := by
    obtain ⟨hlt, hopen⟩ := h.inboxes device (hcandidates.subset hdevice)
    refine ⟨Nat.lt_of_lt_of_le hlt hlength, ?_⟩
    rw [hclosed device hdevice]
    exact hopen
  distinct := h.distinct.sublist (hcandidates.map _)
  topics := h.topics.sublist (hdevices.map _)

/-- Whoever is told of anything, the devices and their inboxes stay. -/
theorem Registered.posted (h : b.Registered taken) (hposted : b.Posted posts b') :
    b'.Registered taken := by
  have hcandidates : b'.candidates taken = b.candidates taken := by
    unfold candidates
    rw [hposted.devices_eq, hposted.backend_eq]
  refine h.mono ?_ ?_ hposted.length_eq.ge fun device hdevice => ?_
  · rw [hcandidates]
  · rw [hposted.devices_eq]
  · rw [hcandidates] at hdevice
    rw [hposted.inbox_eq _ (h.inboxes device hdevice).1]
    split <;> rfl

/-- An envelope that was handled asks for nothing any more. -/
theorem Registered.tail (h : b.Registered (e :: taken)) : b.Registered taken := by
  have hsublist : (b.candidates taken).Sublist (b.candidates (e :: taken)) := by
    unfold candidates
    rw [List.cons_append]
    exact (List.Sublist.refl _).append ((List.sublist_cons_self _ _).filterMap _)
  exact h.mono hsublist (List.Sublist.refl _) (Nat.le_refl _) fun _ _ => rfl

/-- The first of those on their way is now the last of those that are registered. -/
theorem candidates_add? {topic : Topic} {p : InboxId} {device : Device} {devices : Devices}
    (hcontrol : e.control = some (.deviceAdd topic p))
    (hadd : b.devices.add? topic p = some (device, devices)) (taken : List Envelope) :
    ({ b with devices } : Bus).candidates taken = b.candidates (e :: taken) := by
  obtain ⟨-, -, hlist⟩ := Devices.add?_eq_some hadd
  unfold candidates
  rw [hlist, List.cons_append, List.filterMap_cons_some (Envelope.candidate_of_control hcontrol),
    List.append_assoc]
  rfl

theorem Registered.setDevices_add {topic : Topic} {p : InboxId} {device : Device} {devices : Devices}
    (h : b.Registered (e :: taken)) (hcontrol : e.control = some (.deviceAdd topic p))
    (hadd : b.devices.add? topic p = some (device, devices)) :
    ({ b with devices } : Bus).Registered taken := by
  obtain ⟨hfree, -, hlist⟩ := Devices.add?_eq_some hadd
  have hcandidates := candidates_add? hcontrol hadd taken
  refine ⟨?_, ?_, ?_, ?_⟩
  · rw [hcandidates]
    exact h.prefixes
  · rw [hcandidates]
    exact h.inboxes
  · rw [hcandidates]
    exact h.distinct
  · show (devices.list.map Device.topic).Nodup
    rw [hlist, List.map_append]
    refine List.nodup_append.mpr ⟨h.topics, List.nodup_singleton _, ?_⟩
    intro t ht t' ht' heq
    obtain ⟨other, hother, rfl⟩ := List.mem_map.mp ht
    exact hfree other hother (heq.trans (List.mem_singleton.mp ht'))

theorem Registered.setDevices_remove {name : String} {device : Device} {devices : Devices}
    (h : b.Registered taken) (hremove : b.devices.remove? name = some (device, devices)) :
    (({ b with devices } : Bus).closeInbox device.inbox).Registered taken := by
  obtain ⟨before, later, hlist, hrest⟩ := Devices.remove?_eq_some hremove
  have hdevices : devices.list.Sublist b.devices.list := by
    rw [hlist, hrest]
    exact (List.Sublist.refl _).append (List.sublist_cons_self _ _)
  set b' := ({ b with devices } : Bus).closeInbox device.inbox
  have hcandidates : (b'.candidates taken).Sublist (b.candidates taken) :=
    hdevices.append (List.Sublist.refl _)
  refine h.mono hcandidates hdevices ?_ fun other hother => ?_
  · show _ ≤ (b.inboxes.set device.inbox _).length
    rw [List.length_set]
  · -- no other device has the inbox that is closed
    have hne : device.inbox ≠ other.inbox := by
      have hdistinct := h.distinct
      unfold candidates at hdistinct hother
      rw [hlist, List.append_assoc, List.cons_append, List.map_append, List.map_cons] at hdistinct
      have hnotMem := (List.nodup_cons.mp (List.nodup_middle.mp hdistinct)).1
      intro heq
      refine hnotMem ?_
      rw [heq, ← List.map_append, ← List.append_assoc, ← hrest]
      exact List.mem_map_of_mem hother
    exact congrArg Queue.closed (inbox_closeInbox_of_ne _ hne)

/-! ## What comes in -/

/-- The second bus comes from the first by what clients and backends hand over. Whoever asks to
register a device gets a new inbox. -/
structure Admits (b b' : Bus) : Prop where
  devices_eq : b'.devices = b.devices
  commands_eq : ∃ es, (∀ e ∈ es, e.fromClient) ∧ b'.commands.items = b.commands.items ++ es
  inboxes_eq : ∃ queues, (∀ q ∈ queues, q = {}) ∧ b'.inboxes = b.inboxes ++ queues
  backend_eq : ∃ es, b'.backend.items = b.backend.items ++ es ∧
    ((es.filterMap Envelope.candidate).map Device.inbox).Nodup ∧
    ∀ device ∈ es.filterMap Envelope.candidate, device.topic.IsDevicePrefix ∧
      b.inboxes.length ≤ device.inbox ∧ device.inbox < b'.inboxes.length

theorem exists_nil_append {α : Type} {P : α → Prop} (items : List α) :
    ∃ new, (∀ x ∈ new, P x) ∧ items = items ++ new :=
  ⟨[], List.forall_mem_nil _, (List.append_nil items).symm⟩

theorem exists_singleton_append {α : Type} {P : α → Prop} (items : List α) {x : α} (hx : P x) :
    ∃ new, (∀ x ∈ new, P x) ∧ items ++ [x] = items ++ new :=
  ⟨[x], List.forall_mem_singleton.mpr hx, rfl⟩

/-- Most that comes in asks for no device. -/
theorem admits_queued (hdevices : b'.devices = b.devices) (hinboxes : b'.inboxes = b.inboxes)
    (hcommands : ∃ es, (∀ e ∈ es, e.fromClient) ∧ b'.commands.items = b.commands.items ++ es)
    (hbackend : ∃ es, (∀ e ∈ es, e.candidate = none) ∧ b'.backend.items = b.backend.items ++ es) :
    b.Admits b' := by
  obtain ⟨es, hes, hitems⟩ := hbackend
  have hnone : es.filterMap Envelope.candidate = [] := List.filterMap_eq_nil_iff.mpr hes
  refine ⟨hdevices, hcommands, ?_, es, hitems, ?_, ?_⟩
  · rw [hinboxes]
    exact exists_nil_append _
  · rw [hnone]
    exact List.nodup_nil
  · rw [hnone]
    exact List.forall_mem_nil _

theorem Admits.refl (b : Bus) : b.Admits b :=
  admits_queued rfl rfl (exists_nil_append _) (exists_nil_append _)

theorem admits_submit (b : Bus) (he : e.fromClient) (timeout : Nat) :
    b.Admits (b.submit e timeout false).2 := by
  unfold submit
  split
  · exact Admits.refl b
  · split
    · exact Admits.refl b
    · split
      · cases hpush : b.pushCommand? e with
        | none => exact Admits.refl b
        | some b' =>
          obtain ⟨-, rfl⟩ := pushCommand?_eq_some hpush
          exact admits_queued rfl rfl (exists_singleton_append _ he) (exists_nil_append _)
      · simp only [Bool.false_eq_true, if_false]
        split
        · rename_i b' hpush
          obtain ⟨-, rfl⟩ := pushCommand?_eq_some hpush
          refine admits_queued rfl rfl (exists_singleton_append _ ?_) (exists_nil_append _)
          exact he
        · exact admits_queued rfl rfl (exists_nil_append _) (exists_nil_append _)

theorem admits_send (b : Bus) (he : e.candidate = none) : b.Admits (b.send e).2 := by
  unfold send
  split
  · exact Admits.refl b
  · split
    · exact Admits.refl b
    · cases hpush : b.pushBackend? e with
      | none => exact Admits.refl b
      | some b' =>
        obtain ⟨backend, hqueue, rfl⟩ := Option.map_eq_some_iff.mp hpush
        obtain ⟨-, rfl⟩ := Queue.push?_eq_some hqueue
        exact admits_queued rfl rfl (exists_nil_append _) (exists_singleton_append _ he)

theorem isDevicePrefix_of_parsePrefix {name : String} {topic : Topic}
    (h : Device.parsePrefix name = .ok topic) : topic.IsDevicePrefix := by
  unfold Device.parsePrefix at h
  split at h
  · cases h
  · split at h
    · rename_i hown
      cases h
      exact ⟨Option.isNone_iff_eq_none.mp hown.1, hown.2⟩
    · cases h

/-- Whoever asks to register a device gets a new inbox, also if the bus does not take the request. -/
theorem admits_ask (b : Bus) {topic : Topic} (htopic : topic.IsDevicePrefix)
    (he : e.candidate = some ⟨topic, b.inboxes.length⟩) :
    b.Admits (({ b with inboxes := b.inboxes ++ [{}] } : Bus).send e).2 := by
  have hlonger : b.inboxes.length < (b.inboxes ++ [({} : Queue)]).length := by
    rw [List.length_append]
    exact Nat.lt_succ_self _
  have hrefused : b.Admits { b with inboxes := b.inboxes ++ [{}] } :=
    ⟨rfl, exists_nil_append _, exists_singleton_append _ rfl, [], (List.append_nil _).symm,
      List.nodup_nil, List.forall_mem_nil _⟩
  unfold send
  split
  · exact hrefused
  · split
    · exact hrefused
    · cases hpush : pushBackend? { b with inboxes := b.inboxes ++ [{}] } e with
      | none => exact hrefused
      | some b' =>
        obtain ⟨backend, hqueue, rfl⟩ := Option.map_eq_some_iff.mp hpush
        obtain ⟨-, rfl⟩ := Queue.push?_eq_some hqueue
        refine ⟨rfl, exists_nil_append _, exists_singleton_append _ rfl, [e], rfl, ?_, ?_⟩
        · rw [List.filterMap_cons_some he]
          exact List.nodup_singleton _
        · intro device hdevice
          rw [List.filterMap_cons_some he] at hdevice
          rw [List.mem_singleton.mp hdevice]
          refine ⟨htopic, Nat.le_refl _, ?_⟩
          exact hlonger

theorem admits_registerDevice (b : Bus) (name : String) : b.Admits (b.registerDevice name).2 := by
  unfold registerDevice
  split
  · exact Admits.refl b
  · rename_i topic hname
    exact admits_ask b (isDevicePrefix_of_parsePrefix hname) rfl

theorem admits_accept (b : Bus) (s : Submission) : b.Admits (b.accept s) := by
  cases s with
  | request r =>
    show b.Admits (b.acceptRequest r)
    unfold acceptRequest
    split
    · exact Admits.refl b
    · rename_i e timeout hr
      exact admits_submit b (envelopeOf_fromClient hr) timeout
  | shutdown =>
    show b.Admits b.requestEnd
    unfold requestEnd
    split
    · exact Admits.refl b
    · simp only
      cases hpush : pushCommand? { b with closed := true } _ with
      | none => exact admits_queued rfl rfl (exists_nil_append _) (exists_nil_append _)
      | some b' =>
        obtain ⟨-, rfl⟩ := pushCommand?_eq_some hpush
        refine admits_queued rfl rfl (exists_singleton_append _ ?_) (exists_nil_append _)
        simp [Envelope.fromClient, envelope]
  | command e timeout => exact admits_submit b rfl timeout
  | send e => exact admits_send b rfl
  | registerDevice name => exact admits_registerDevice b name
  | unregisterDevice name =>
    show b.Admits (b.unregisterDevice name).2
    unfold unregisterDevice
    split
    · exact Admits.refl b
    · refine admits_send b ?_
      simp [Envelope.candidate, textEnvelope, envelope]

theorem admits_acceptLate (b : Bus) (s : Submission) : b.Admits (b.acceptLate s) := by
  unfold acceptLate
  split
  · obtain ⟨hdevices, hcommands, hinboxes, hbackend⟩ := admits_accept { b with closed := false } s
    exact ⟨hdevices, hcommands, hinboxes, hbackend⟩
  · exact admits_accept b s

/-- The inboxes that are there stay as they are; new ones are open and empty. -/
theorem Admits.inbox_eq (h : b.Admits b') (p : InboxId) : b'.inbox p = b.inbox p := by
  obtain ⟨queues, hempty, hinboxes⟩ := h.inboxes_eq
  unfold inbox
  rw [hinboxes]
  by_cases hp : p < b.inboxes.length
  · rw [List.getElem?_append_left hp]
  · have hle := Nat.not_lt.mp hp
    rw [List.getElem?_append_right hle, List.getElem?_eq_none hle]
    cases hq : queues[p - b.inboxes.length]? with
    | none => rfl
    | some q => exact hempty q (List.mem_of_getElem? hq)

/-- A new device has a new inbox. -/
theorem Registered.admits (h : b.Registered taken) (hadmits : b.Admits b') : b'.Registered taken := by
  have hinbox := hadmits.inbox_eq
  obtain ⟨hdevices, -, ⟨queues, -, hinboxes⟩, es, hitems, hnodup, hnew⟩ := hadmits
  have hcandidates : b'.candidates taken =
      b.candidates taken ++ es.filterMap Envelope.candidate := by
    unfold candidates
    rw [hdevices, hitems, ← List.append_assoc taken, List.filterMap_append, List.append_assoc]
  refine ⟨?_, ?_, ?_, ?_⟩
  · rw [hcandidates]
    exact List.forall_mem_append.mpr ⟨h.prefixes, fun device hdevice => (hnew device hdevice).1⟩
  · rw [hcandidates]
    refine List.forall_mem_append.mpr ⟨fun device hdevice => ?_, fun device hdevice => ?_⟩
    · obtain ⟨hlt, hopen⟩ := h.inboxes device hdevice
      rw [hinbox, hinboxes, List.length_append]
      exact ⟨Nat.lt_add_right _ hlt, hopen⟩
    · obtain ⟨-, hle, hlt⟩ := hnew device hdevice
      rw [hinbox, inbox_of_length_le b hle]
      exact ⟨hlt, rfl⟩
  · rw [hcandidates, List.map_append]
    refine List.nodup_append.mpr ⟨h.distinct, hnodup, ?_⟩
    intro p hp p' hp' heq
    obtain ⟨device, hdevice, rfl⟩ := List.mem_map.mp hp
    obtain ⟨device', hdevice', rfl⟩ := List.mem_map.mp hp'
    have hlt := (h.inboxes device hdevice).1
    rw [heq] at hlt
    exact absurd hlt (Nat.not_lt.mpr (hnew device' hdevice').2.1)
  · rw [hdevices]
    exact h.topics

end Bus

/-! ## Forwarders -/

namespace Roster

/-- The entries of devices. -/
def forwarders (L : Roster) : Roster := L.filter fun n => !n.who.isClient

end Roster

/-- The deed starts and ends no subscription but those of clients. -/
def Deed.sparesDevices : Deed → Prop
  | .enlist _ s => s.subscriber.isClient
  | .dismiss _ who | .dismissAll who => who.isClient
  | .clear => False
  | .publish _ | .announce _ _ => True

namespace Roster

variable {L : Roster} {deed : Deed} {deeds : List Deed} {device : Device}

theorem forwarders_after (h : deed.sparesDevices) (L : Roster) :
    (L.after deed).forwarders = L.forwarders := by
  have hstays : ∀ (P : Entry → Bool), (∀ n : Entry, n.who.isClient = false → P n = true) →
      forwarders (L.filter P) = L.forwarders := by
    intro P hP
    unfold forwarders
    rw [List.filter_filter]
    refine List.filter_congr fun n _ => ?_
    cases hn : n.who.isClient with
    | true => rfl
    | false => rw [hP n hn, Bool.and_true]
  have hother : ∀ (who : SubscriberId) (n : Entry), who.isClient → n.who.isClient = false →
      n.who ≠ who := by
    intro who n hwho hn heq
    rw [heq, hwho] at hn
    cases hn
  cases deed with
  | publish e | announce t code => rfl
  | enlist t s =>
    have hclient : s.subscriber.isClient = true := h
    have hnone : [(⟨t, s⟩ : Entry)].filter (fun n => !n.who.isClient) = [] := by
      simp [Entry.who, hclient]
    show (L ++ [(⟨t, s⟩ : Entry)]).filter _ = _
    rw [List.filter_append, hnone, List.append_nil]
    rfl
  | dismiss t who =>
    refine hstays _ fun n hn => decide_eq_true fun hentry => ?_
    exact hother who n h hn hentry.2
  | dismissAll who => exact hstays _ fun n hn => decide_eq_true (hother who n h hn)
  | clear => exact absurd h id

theorem forwarders_foldl_after (h : ∀ deed ∈ deeds, deed.sparesDevices) (L : Roster) :
    (deeds.foldl after L).forwarders = L.forwarders := by
  induction deeds generalizing L with
  | nil => rfl
  | cons deed deeds ih =>
    obtain ⟨hdeed, hdeeds⟩ := List.forall_mem_cons.mp h
    rw [List.foldl_cons, ih hdeeds, forwarders_after hdeed]

/-- Registering a device adds its entry, -/
theorem forwarders_enlist (L : Roster) (device : Device) :
    (L.after (.enlist device.topic ⟨device.forwarder, .forwarding⟩)).forwarders =
      L.forwarders ++ [device.entry] := by
  show (L ++ [device.entry]).filter _ = _
  rw [List.filter_append]
  rfl

/-- and ending its registration takes it out. -/
theorem forwarders_dismiss {before later : List Device}
    (hL : L.forwarders = (before ++ device :: later).map Device.entry)
    (hdistinct : ((before ++ device :: later).map Device.inbox).Nodup) :
    (L.after (.dismiss device.topic device.forwarder)).forwarders =
      (before ++ later).map Device.entry := by
  -- what is filtered out of the roster is filtered out of the entries of devices
  have hcomm : (L.after (.dismiss device.topic device.forwarder)).forwarders =
      L.forwarders.filter fun n => ¬ (n.topic.path = device.topic.path ∧ n.who = device.forwarder) := by
    show forwarders (L.filter _) = _
    unfold forwarders
    rw [List.filter_filter, List.filter_filter]
    exact List.filter_congr fun n _ => Bool.and_comm ..
  have htakesOut : ∀ P : Entry → Bool, P device.entry = false →
      (∀ other ∈ before ++ later, P other.entry = true) →
      ((before ++ device :: later).map Device.entry).filter P = (before ++ later).map Device.entry := by
    intro P hself hothers
    obtain ⟨hbefore, hlater⟩ := List.forall_mem_append.mp hothers
    rw [List.map_append, List.map_cons, List.filter_append,
      List.filter_cons_of_neg (Bool.not_eq_true _ ▸ hself), ← List.filter_append, ← List.map_append]
    refine List.filter_eq_self.mpr fun n hn => ?_
    obtain ⟨other, hother, rfl⟩ := List.mem_map.mp hn
    exact hothers other hother
  -- no other device has the inbox of this one
  have hnotMem : device.inbox ∉ (before ++ later).map Device.inbox := by
    rw [List.map_append, List.map_cons] at hdistinct
    rw [List.map_append]
    exact (List.nodup_cons.mp (List.nodup_middle.mp hdistinct)).1
  rw [hcomm, hL]
  refine htakesOut _ (decide_eq_false (not_not.mpr ⟨rfl, rfl⟩)) fun other hother => ?_
  refine decide_eq_true fun hentry => hnotMem ?_
  have hinbox : other.inbox = device.inbox := SubscriberId.forwarder.inj hentry.2
  exact hinbox ▸ List.mem_map_of_mem hother

end Roster

/-! ## Steps and runs -/

namespace Bus

variable {b : Bus} {e : Envelope} {taken : List Envelope} {L : Roster}

/-- Commands of clients concern clients only, and the bus publishes none of those that it carries out
itself. -/
theorem sparesDevices_localDeeds (h : e.fromClient) :
    ∀ deed ∈ e.localDeeds, deed.sparesDevices ∧ ∀ e', deed ≠ .publish e' := by
  unfold Envelope.fromClient at h
  unfold Envelope.localDeeds
  split
  · split
    · rename_i hcontrol
      rw [hcontrol] at h
      exact List.forall_mem_singleton.mpr ⟨h, fun _ heq => by cases heq⟩
    · exact List.forall_mem_nil _
  split
  · split
    · rename_i hcontrol
      rw [hcontrol] at h
      exact List.forall_mem_singleton.mpr ⟨h, fun _ heq => by cases heq⟩
    · exact List.forall_mem_nil _
  split
  · split
    · rename_i hcontrol
      rw [hcontrol] at h
      exact List.forall_mem_singleton.mpr ⟨h, fun _ heq => by cases heq⟩
    · exact List.forall_mem_nil _
  · exact List.forall_mem_nil _

theorem sparesDevices_commandPlan (b : Bus) (h : e.fromClient) :
    ∀ deed ∈ (b.commandPlan e).deeds, deed.sparesDevices := by
  unfold commandPlan
  split
  · refine List.forall_mem_append.mpr ⟨fun deed hdeed => ?_, List.forall_mem_singleton.mpr trivial⟩
    exact (sparesDevices_localDeeds h deed hdeed).1
  · exact List.forall_mem_singleton.mpr trivial

/-- Before the deeds of an envelope of a backend are done, the devices are what they will be, and the
forwarders follow. -/
theorem Registered.backendPlan (h : b.Registered (e :: taken))
    (hL : L.forwarders = b.devices.list.map Device.entry) :
    (b.backendPlan e).bus.Registered taken ∧
      ((b.backendPlan e).deeds.foldl Roster.after L).forwarders =
        (b.backendPlan e).bus.devices.list.map Device.entry ∧
      (b.backendPlan e).bus.commands = b.commands := by
  unfold Bus.backendPlan
  split
  · split
    · split
      · rename_i topic p hcontrol
        unfold addPlan
        cases hadd : b.devices.add? topic p with
        | none => exact ⟨h.tail, hL, rfl⟩
        | some added =>
          obtain ⟨device, devices⟩ := added
          refine ⟨h.setDevices_add hcontrol hadd, ?_, rfl⟩
          obtain ⟨-, rfl, hlist⟩ := Devices.add?_eq_some hadd
          show (L.after (.enlist topic ⟨.forwarder p, .forwarding⟩)).forwarders =
            devices.list.map Device.entry
          rw [hlist, List.map_append, ← hL]
          exact L.forwarders_enlist ⟨topic, p⟩
      · exact ⟨h.tail, hL, rfl⟩
    · split
      · split
        · rename_i name hname
          unfold removePlan
          cases hremove : b.devices.remove? name with
          | none => exact ⟨h.tail, hL, rfl⟩
          | some removed =>
            obtain ⟨device, devices⟩ := removed
            refine ⟨h.tail.setDevices_remove hremove, ?_, rfl⟩
            obtain ⟨before, later, hlist, hrest⟩ := Devices.remove?_eq_some hremove
            show (L.after (.dismiss device.topic device.forwarder)).forwarders =
              devices.list.map Device.entry
            rw [hrest]
            rw [hlist] at hL
            refine Roster.forwarders_dismiss hL ?_
            rw [← hlist]
            exact h.nodup_inboxes
        · exact ⟨h.tail, hL, rfl⟩
      · exact ⟨h.tail, hL, rfl⟩
  · exact ⟨h.tail, hL, rfl⟩

end Bus

namespace Dispatcher

variable {d : Dispatcher} {L : Roster}

/-- Between any two envelopes, every device has an inbox of its own, the forwarders on the roster are
those of the registered devices, and what clients have sent concerns clients. -/
structure Registered (L : Roster) (d : Dispatcher) : Prop where
  bus : d.bus.Registered d.phase.backendsLeft
  forwarders : L.forwarders = d.bus.devices.list.map Device.entry
  clients : ∀ e ∈ d.phase.commandsLeft ++ d.bus.commands.items, e.fromClient

/-- Whoever is told of anything, this stays so. -/
theorem Registered.posted {b b' : Bus} {phase : Phase} {posts : List Post}
    (h : (⟨b, phase⟩ : Dispatcher).Registered L) (hposted : b.Posted posts b') :
    (⟨b', phase⟩ : Dispatcher).Registered L := by
  obtain ⟨hbus, hforwarders, hclients⟩ := h
  refine ⟨hbus.posted hposted, ?_, ?_⟩
  · show L.forwarders = b'.devices.list.map Device.entry
    rw [hposted.devices_eq]
    exact hforwarders
  · obtain ⟨es, hes, hitems⟩ := hposted.commands_eq
    show ∀ e ∈ phase.commandsLeft ++ b'.commands.items, e.fromClient
    rw [hitems, ← List.append_assoc]
    exact List.forall_mem_append.mpr ⟨hclients, hes⟩

/-- The deeds of an envelope are done to it. -/
theorem Registered.advance_backends {b : Bus} {e : Envelope} {es : List Envelope}
    (h : (⟨b, .backends (e :: es)⟩ : Dispatcher).Registered L) (hrooted : b.tree.Rooted) :
    (⟨(b.backendPlan e).done, .backends es⟩ : Dispatcher).Registered
      ((b.backendPlan e).deeds.foldl Roster.after L) := by
  obtain ⟨hbus, hforwarders, hclients⟩ := h
  obtain ⟨hplan, hL, hcommands⟩ := Bus.Registered.backendPlan hbus hforwarders
  have hrooted' := (Bus.untold_backendPlan b e).rooted hrooted
  obtain ⟨posts, hposted⟩ := Bus.exists_posted_performAll hrooted' (b.backendPlan e).deeds
  refine Registered.posted (b := (b.backendPlan e).bus) ⟨hplan, hL, ?_⟩ hposted
  show ∀ e' ∈ [] ++ (b.backendPlan e).bus.commands.items, e'.fromClient
  rw [hcommands]
  exact hclients

theorem Registered.advance_commands {b : Bus} {e : Envelope} {es : List Envelope}
    (h : (⟨b, .commands (e :: es)⟩ : Dispatcher).Registered L) (hrooted : b.tree.Rooted) :
    (⟨(b.commandPlan e).done, .commands es⟩ : Dispatcher).Registered
      ((b.commandPlan e).deeds.foldl Roster.after L) := by
  obtain ⟨hbus, hforwarders, hclients⟩ := h
  obtain ⟨he, hes⟩ := List.forall_mem_cons.mp hclients
  obtain ⟨posts, hposted⟩ := Bus.exists_posted_commandPlan hrooted e
  refine Registered.posted (b := b) ⟨hbus, ?_, hes⟩ hposted
  rw [Roster.forwarders_foldl_after (Bus.sparesDevices_commandPlan b he)]
  exact hforwarders

/-- What moves envelopes from a queue into the hands of the dispatcher, or leaves devices and queues
alone, changes nothing. -/
theorem Registered.of_eq {b' : Bus} {phase' : Phase} (h : d.Registered L)
    (hdevices : b'.devices = d.bus.devices) (hinboxes : b'.inboxes = d.bus.inboxes)
    (hbackends : phase'.backendsLeft ++ b'.backend.items =
      d.phase.backendsLeft ++ d.bus.backend.items)
    (hcommands : ∀ e ∈ phase'.commandsLeft ++ b'.commands.items,
      e ∈ d.phase.commandsLeft ++ d.bus.commands.items) :
    (⟨b', phase'⟩ : Dispatcher).Registered L := by
  obtain ⟨hbus, hforwarders, hclients⟩ := h
  refine ⟨hbus.mono ?_ ?_ ?_ fun _ _ => ?_, ?_, fun e he => hclients e (hcommands e he)⟩
  · unfold Bus.candidates
    rw [hdevices, hbackends]
  · rw [hdevices]
  · rw [hinboxes]
  · unfold Bus.inbox
    rw [hinboxes]
  · rw [hdevices]
    exact hforwarders

theorem Registered.advance (h : d.Registered L) (hrooted : d.bus.tree.Rooted) :
    d.advance.Registered (d.plan.deeds.foldl Roster.after L) := by
  obtain ⟨b, phase⟩ := d
  cases phase with
  | awake => exact h.of_eq rfl rfl (List.append_nil _) fun _ he => he
  | backends es =>
    cases es with
    | nil =>
      refine h.of_eq rfl rfl rfl fun e he => ?_
      rcases List.mem_append.mp he with he | he
      · exact he
      · exact absurd he List.not_mem_nil
    | cons e es =>
      have hadvance : (⟨b, .backends (e :: es)⟩ : Dispatcher).advance =
          ⟨(b.backendPlan e).done, .backends es⟩ := by
        rw [← Bus.handleBackend_eq hrooted e]
        rfl
      rw [hadvance]
      exact h.advance_backends hrooted
  | commands es =>
    cases es with
    | nil => exact h.of_eq rfl rfl rfl fun _ he => he
    | cons e es =>
      by_cases hfinalize : e.topic = .finalize
      · simp only [plan, advance, if_pos hfinalize]
        exact h.of_eq rfl rfl rfl fun _ he => List.mem_append_right _ he
      · simp only [plan, advance, if_neg hfinalize]
        obtain ⟨calls, hcalls⟩ := b.handleCommand_eq e
        rw [hcalls]
        exact (h.advance_commands hrooted).of_eq rfl rfl rfl fun _ he => he
  | resting => exact h.of_eq rfl rfl rfl fun _ he => he
  | ending => exact h.of_eq rfl rfl rfl fun _ he => he
  | closing =>
    -- nothing is left
    refine ⟨⟨List.forall_mem_nil _, List.forall_mem_nil _, List.nodup_nil, List.nodup_nil⟩, rfl,
      List.forall_mem_nil _⟩
  | ended => exact h

theorem Registered.act (h : d.Registered L) (hrooted : d.bus.tree.Rooted) (a : Action) :
    (d.act a).Registered ((d.deedsOf a).foldl Roster.after L) := by
  have hadmits : ∀ b', d.bus.Admits b' → (⟨b', d.phase⟩ : Dispatcher).Registered L := by
    intro b' hadmits
    refine ⟨h.bus.admits hadmits, ?_, ?_⟩
    · show L.forwarders = b'.devices.list.map Device.entry
      rw [hadmits.devices_eq]
      exact h.forwarders
    · obtain ⟨es, hes, hitems⟩ := hadmits.commands_eq
      show ∀ e ∈ d.phase.commandsLeft ++ b'.commands.items, e.fromClient
      rw [hitems, ← List.append_assoc]
      exact List.forall_mem_append.mpr ⟨h.clients, hes⟩
  cases a with
  | advance => exact h.advance hrooted
  | submit s => exact hadmits _ (Bus.admits_accept d.bus s)
  | submitLate s => exact hadmits _ (Bus.admits_acceptLate d.bus s)
  | collect p =>
    refine ⟨h.bus.mono (List.Sublist.refl _) (List.Sublist.refl _) ?_ fun device _ => ?_,
      h.forwarders, h.clients⟩
    · exact List.length_set.ge
    · exact d.bus.closed_collect p device.inbox
  | addListener l => exact h.of_eq rfl rfl rfl fun _ he => he
  | setClock time => exact h.of_eq rfl rfl rfl fun _ he => he

/-- In every state of every run, the devices are in order for the roster of the history. -/
theorem run_registered (config : BusConfig) (as : List Action) :
    (run config as).Registered (Roster.of (history config as)) := by
  induction as using List.reverseRecOn with
  | nil =>
    have hempty : (⟨{ config }, .awake⟩ : Dispatcher).Registered [] :=
      ⟨⟨List.forall_mem_nil _, List.forall_mem_nil _, List.nodup_nil, List.nodup_nil⟩, rfl,
        List.forall_mem_nil _⟩
    have hroster : Roster.of (history config []) = [] := rfl
    obtain ⟨posts, hposted⟩ :=
      Bus.exists_posted_performAll (b := { config }) Tree.rooted_empty (opening config)
    rw [hroster]
    show (⟨Bus.start config, .awake⟩ : Dispatcher).Registered []
    rw [start_eq]
    exact hempty.posted hposted
  | append_singleton as a ih =>
    have hhistory : history config (as ++ [a]) = history config as ++ (run config as).deedsOf a := by
      rw [history_append]
      show _ ++ ((run config as).deedsOf a ++ []) = _
      rw [List.append_nil]
    rw [run_append, hhistory, Roster.of_append]
    exact ih.act (run_contents config as).1 a

end Dispatcher
end InstrumentBus
