import Mathlib
import InstrumentBus.Proofs.Dispatch.Inventory
import InstrumentBus.Proofs.Dispatch.Ending

/-!
# The ports of devices at the end

Whoever asks to register a device gets an inbox at once, before the dispatcher knows of it. The
dispatcher closes the inboxes of the devices that are registered, when their registration ends or the
bus does, and no other. A registration is passed over if its prefix is taken at its turn, and dropped
if its turn does not come before the end. So at the end an inbox is closed exactly if its registration
was accepted: `closed_iff_registered`.
-/

namespace InstrumentBus

namespace Devices

variable {d : Devices} {topic : Topic} {p : InboxId}

/-- A device is not registered exactly if its prefix is taken. -/
theorem add?_eq_none_iff : d.add? topic p = none ↔ ∃ other ∈ d.list, other.topic = topic := by
  have htopic : ∀ other : Device, other.topic.text = topic.text ↔ other.topic = topic := by
    intro other
    cases other.topic
    cases topic
    rw [Topic.mk.injEq]
  unfold add? get?
  cases hfind : d.list.find? (·.topic.text == topic.text) with
  | none =>
    refine iff_of_false nofun ?_
    rintro ⟨other, hother, htaken⟩
    have hne := List.find?_eq_none.mp hfind other hother
    exact hne (beq_iff_eq.mpr ((htopic other).mpr htaken))
  | some other =>
    refine iff_of_true rfl ⟨other, List.mem_of_find?_eq_some hfind, ?_⟩
    have htext := List.find?_some hfind
    exact (htopic other).mp (beq_iff_eq.mp htext)

end Devices

namespace Bus

variable {b b' : Bus} {t : Topic} {p : InboxId} {came : Prop} {e : Envelope}
  {taken taken' : List Envelope} {posts : List Post} {s : Submission}

/-! ## Ports -/

/-- The prefix and the inbox that are handed out at once for a registration. -/
def portOf? (b : Bus) : Submission → Option (Topic × InboxId)
  | .registerDevice name => (b.registerDevice name).1.toOption
  | _ => none

/-- The device that an envelope of a backend registers, which it does if the prefix is free. -/
def registeredBy (b : Bus) (e : Envelope) : Option Device :=
  if e.topic = .deviceAdd then
    e.candidate.filter fun device => decide (∀ other ∈ b.devices.list, other.topic ≠ device.topic)
  else none

/-- An inbox was made for a device, and `came` says whether the device has been registered: if so, it
still is or its inbox is closed, else the inbox is open. -/
structure Follows (t : Topic) (p : InboxId) (came : Prop) (taken : List Envelope) (b : Bus) :
    Prop where
  inbox_lt : p < b.inboxes.length
  topic_eq : ∀ device ∈ b.candidates taken, device.inbox = p → device.topic = t
  came_iff : came ↔ (b.inbox p).closed = true ∨ ⟨t, p⟩ ∈ b.devices.list

/-- Whatever leaves the devices and their inboxes alone and adds no registration. -/
theorem Follows.of_frame (h : b.Follows t p came taken) (hdevices : b'.devices = b.devices)
    (hlength : b'.inboxes.length = b.inboxes.length)
    (hclosed : (b'.inbox p).closed = (b.inbox p).closed)
    (hqueued : ∀ e ∈ taken' ++ b'.backend.items, e ∈ taken ++ b.backend.items) :
    b'.Follows t p came taken' where
  inbox_lt := by
    rw [hlength]
    exact h.inbox_lt
  topic_eq device hdevice := by
    apply h.topic_eq
    unfold candidates at hdevice ⊢
    rw [hdevices] at hdevice
    refine List.mem_append.mpr ((List.mem_append.mp hdevice).imp id fun hqueue => ?_)
    obtain ⟨e, he, hcandidate⟩ := List.mem_filterMap.mp hqueue
    exact List.mem_filterMap.mpr ⟨e, hqueued e he, hcandidate⟩
  came_iff := by
    rw [hclosed, hdevices]
    exact h.came_iff

theorem Follows.posted (h : b.Follows t p came taken) (hposted : b.Posted posts b') :
    b'.Follows t p came taken := by
  refine h.of_frame hposted.devices_eq hposted.length_eq ?_ fun e he => ?_
  · rw [hposted.inbox_eq p h.inbox_lt]
    split <;> rfl
  · rw [hposted.backend_eq] at he
    exact he

/-- Other registrations that come in are for other inboxes. -/
theorem Follows.admits (h : b.Follows t p came taken) (hadmits : b.Admits b') :
    b'.Follows t p came taken := by
  have hinbox := hadmits.inbox_eq p
  obtain ⟨hdevices, -, ⟨queues, -, hinboxes⟩, es, hitems, -, hnew⟩ := hadmits
  refine ⟨?_, ?_, ?_⟩
  · rw [hinboxes, List.length_append]
    exact Nat.lt_add_right _ h.inbox_lt
  · intro device hdevice hp
    unfold candidates at hdevice
    rw [hdevices, hitems, ← List.append_assoc taken, List.filterMap_append,
      ← List.append_assoc] at hdevice
    rcases List.mem_append.mp hdevice with hold | hcame
    · exact h.topic_eq device hold hp
    · obtain ⟨-, hle, -⟩ := hnew device hcame
      rw [hp] at hle
      exact absurd h.inbox_lt (Nat.not_lt.mpr hle)
  · rw [hinbox, hdevices]
    exact h.came_iff

/-- Closing inboxes closes these and no other. -/
theorem closed_closeInbox_iff (hp : p < b.inboxes.length) (q : InboxId) :
    ((b.closeInbox q).inbox p).closed = true ↔ (b.inbox p).closed = true ∨ q = p := by
  by_cases hq : q = p
  · subst hq
    exact iff_of_true (closed_closeInbox b hp) (.inr rfl)
  · rw [inbox_closeInbox_of_ne b hq, or_iff_left hq]

theorem closed_closeInboxes_iff (ds : List Device) (hp : p < b.inboxes.length) :
    ((ds.foldl (fun b d => b.closeInbox d.inbox) b).inbox p).closed = true ↔
      (b.inbox p).closed = true ∨ ∃ device ∈ ds, device.inbox = p := by
  induction ds generalizing b with
  | nil => simp
  | cons device ds ih =>
    have hlength : (b.closeInbox device.inbox).inboxes.length = b.inboxes.length := List.length_set
    rw [List.foldl_cons, ih (hlength ▸ hp), closed_closeInbox_iff hp, or_assoc]
    simp only [List.mem_cons, exists_eq_or_imp]

/-- At the end the inboxes of the devices that are registered are closed. -/
theorem closed_finish_iff (hp : p < b.inboxes.length) :
    (b.finish.inbox p).closed = true ↔
      (b.inbox p).closed = true ∨ ∃ device ∈ b.devices.list, device.inbox = p :=
  closed_closeInboxes_iff b.devices.list hp

theorem length_closeInboxes (ds : List Device) (b : Bus) :
    (ds.foldl (fun b d => b.closeInbox d.inbox) b).inboxes.length = b.inboxes.length := by
  induction ds generalizing b with
  | nil => rfl
  | cons device ds ih =>
    rw [List.foldl_cons, ih]
    exact List.length_set

theorem Follows.finish (h : b.Follows t p came taken) : b.finish.Follows t p came [] := by
  obtain ⟨-, hbackend, -, hdevices, -, -, -⟩ := takenDown_finish b
  have hlist : b.finish.devices.list = [] := by rw [hdevices]
  have hnobody : b.finish.candidates [] = [] := by
    unfold candidates
    rw [hlist, hbackend]
    rfl
  refine ⟨?_, ?_, ?_⟩
  · have hlength : b.finish.inboxes.length = b.inboxes.length :=
      length_closeInboxes b.devices.list b
    rw [hlength]
    exact h.inbox_lt
  · rw [hnobody]
    exact List.forall_mem_nil _
  · rw [closed_finish_iff h.inbox_lt, hlist, h.came_iff, or_iff_left List.not_mem_nil]
    refine or_congr_right ⟨fun hdevice => ⟨_, hdevice, rfl⟩, ?_⟩
    -- the device that has the inbox is the one that it was made for
    rintro ⟨device, hdevice, rfl⟩
    have htopic := h.topic_eq device (List.mem_append_left _ hdevice) rfl
    rw [← htopic]
    exact hdevice

/-! ## Envelopes of backends -/

theorem registeredBy_of_control {topic : Topic} {q : InboxId} (he : e.topic = .deviceAdd)
    (hcontrol : e.control = some (.deviceAdd topic q)) :
    b.registeredBy e =
      if ∀ other ∈ b.devices.list, other.topic ≠ topic then some ⟨topic, q⟩ else none := by
  rw [registeredBy, if_pos he, Envelope.candidate_of_control hcontrol, Option.filter]
  simp only [decide_eq_true_eq]

/-- An envelope that was handled asks for nothing any more. -/
theorem Follows.tail (h : b.Follows t p came (e :: taken)) : b.Follows t p came taken :=
  h.of_frame rfl rfl rfl fun _ he => List.mem_cons_of_mem e he

/-- A device is registered if its prefix is free, -/
theorem Follows.addPlan {topic : Topic} {q : InboxId} (h : b.Follows t p came (e :: taken))
    (he : e.topic = .deviceAdd) (hcontrol : e.control = some (.deviceAdd topic q)) :
    (b.addPlan e topic q).bus.Follows t p (came ∨ b.registeredBy e = some ⟨t, p⟩) taken := by
  rw [registeredBy_of_control he hcontrol, Bus.addPlan]
  cases hadd : b.devices.add? topic q with
  | none =>
    obtain ⟨other, hother, htaken⟩ := Devices.add?_eq_none_iff.mp hadd
    rw [if_neg fun hfree => hfree other hother htaken]
    simpa using h.tail
  | some added =>
    obtain ⟨device, devices⟩ := added
    obtain ⟨hfree, -, hlist⟩ := Devices.add?_eq_some hadd
    rw [if_pos hfree]
    refine ⟨h.inbox_lt, ?_, ?_⟩
    · show ∀ other ∈ ({ b with devices } : Bus).candidates taken, _
      rw [candidates_add? hcontrol hadd]
      exact h.topic_eq
    · show _ ↔ (b.inbox p).closed = true ∨ ⟨t, p⟩ ∈ devices.list
      rw [h.came_iff, hlist, List.mem_append, List.mem_singleton, or_assoc, Option.some.injEq,
        eq_comm (a := (⟨topic, q⟩ : Device))]

/-- and another one goes if its registration is ended. -/
theorem Follows.removePlan {name : String} (h : b.Follows t p came taken) :
    (b.removePlan e name).bus.Follows t p came taken := by
  unfold Bus.removePlan
  cases hremove : b.devices.remove? name with
  | none => exact h
  | some removed =>
    obtain ⟨device, devices⟩ := removed
    obtain ⟨before, later, hlist, hrest⟩ := Devices.remove?_eq_some hremove
    have hlength : (({ b with devices } : Bus).closeInbox device.inbox).inboxes.length =
        b.inboxes.length := List.length_set
    have hdevice : device ∈ b.devices.list := by
      rw [hlist]
      exact List.mem_append_right _ List.mem_cons_self
    have hsub : ∀ other ∈ devices.list, other ∈ b.devices.list := by
      intro other hother
      rw [hrest] at hother
      rw [hlist]
      exact List.mem_append.mpr ((List.mem_append.mp hother).imp id (List.mem_cons_of_mem _))
    refine ⟨?_, ?_, ?_⟩
    · rw [hlength]
      exact h.inbox_lt
    · intro other hother
      apply h.topic_eq other
      exact List.mem_append.mpr ((List.mem_append.mp hother).imp (hsub other) id)
    · show _ ↔ ((({ b with devices } : Bus).closeInbox device.inbox).inbox p).closed = true ∨
        ⟨t, p⟩ ∈ devices.list
      rw [closed_closeInbox_iff (b := { b with devices }) h.inbox_lt, h.came_iff, or_assoc]
      refine or_congr_right ?_
      constructor
      · intro hthere
        rw [hlist] at hthere
        rcases List.mem_append.mp hthere with hbefore | hthere
        · exact .inr (hrest ▸ List.mem_append_left _ hbefore)
        · rcases List.mem_cons.mp hthere with rfl | hlater
          · exact .inl rfl
          · exact .inr (hrest ▸ List.mem_append_right _ hlater)
      · rintro (rfl | hthere)
        · have htopic := h.topic_eq device (List.mem_append_left _ hdevice) rfl
          rw [← htopic]
          exact hdevice
        · exact hsub _ hthere

theorem Follows.backendPlan (h : b.Follows t p came (e :: taken)) :
    (b.backendPlan e).bus.Follows t p (came ∨ b.registeredBy e = some ⟨t, p⟩) taken := by
  have hother : e.topic ≠ .deviceAdd ∨ e.candidate = none →
      (came ∨ b.registeredBy e = some ⟨t, p⟩ ↔ came) := by
    intro hnot
    have hnone : b.registeredBy e = none := by
      unfold registeredBy
      rcases hnot with htopic | hcandidate
      · rw [if_neg htopic]
      · rw [hcandidate]
        split <;> rfl
    rw [hnone]
    simp
  unfold Bus.backendPlan
  by_cases hdriver : e.topic.isDriver
  · rw [if_pos hdriver]
    by_cases hadd : e.topic = .deviceAdd
    · rw [if_pos hadd]
      split
      · rename_i topic q hcontrol
        exact h.addPlan hadd hcontrol
      · rename_i hcontrol
        have hcandidate : e.candidate = none := by
          unfold Envelope.candidate
          split
          · exact absurd ‹_› (hcontrol _ _)
          · rfl
        rw [hother (.inr hcandidate)]
        exact h.tail
    · rw [if_neg hadd, hother (.inl hadd)]
      split
      · split
        · exact h.tail.removePlan
        · exact h.tail
      · exact h.tail
  · have hadd : e.topic ≠ .deviceAdd := by
      intro hadd
      rw [hadd] at hdriver
      exact hdriver (by decide)
    rw [if_neg hdriver, hother (.inl hadd)]
    exact h.tail

/-! ## The inbox of a new registration -/

/-- What the queue of the backends takes comes behind all that is there. -/
theorem send_of_ok (h : (b.send e).1 = .ok ()) :
    (b.send e).2.devices = b.devices ∧ (b.send e).2.inboxes = b.inboxes ∧
      (b.send e).2.backend.items = b.backend.items ++ [e] := by
  unfold send at h ⊢
  by_cases hclosed : b.closed
  · rw [if_pos hclosed] at h
    cases h
  rw [if_neg hclosed] at h ⊢
  cases hpayload : b.checkPayload e with
  | error f =>
    rw [hpayload] at h
    cases h
  | ok u =>
    rw [hpayload] at h
    simp only at h ⊢
    cases hpush : b.pushBackend? e with
    | none =>
      rw [hpush] at h
      cases h
    | some b' =>
      obtain ⟨backend, hqueue, rfl⟩ := Option.map_eq_some_iff.mp hpush
      obtain ⟨-, rfl⟩ := Queue.push?_eq_some hqueue
      exact ⟨rfl, rfl, rfl⟩

/-- A registration that is taken in is for a new inbox and waits for its turn. -/
theorem follows_send (h : b.Registered taken) (hcandidate : e.candidate = some ⟨t, b.inboxes.length⟩)
    (hok : (({ b with inboxes := b.inboxes ++ [{}] } : Bus).send e).1 = .ok ()) :
    (({ b with inboxes := b.inboxes ++ [{}] } : Bus).send e).2.Follows t b.inboxes.length False
      taken := by
  obtain ⟨hdevices, hinboxes, hitems⟩ := send_of_ok hok
  generalize (send _ e).2 = b' at hdevices hinboxes hitems
  replace hdevices : b'.devices = b.devices := hdevices
  replace hinboxes : b'.inboxes = b.inboxes ++ [({} : Queue)] := hinboxes
  replace hitems : b'.backend.items = b.backend.items ++ [e] := hitems
  have hcandidates : b'.candidates taken = b.candidates taken ++ [⟨t, b.inboxes.length⟩] := by
    unfold candidates
    rw [hdevices, hitems, ← List.append_assoc taken, List.filterMap_append, List.append_assoc,
      List.filterMap_cons_some hcandidate]
    rfl
  have hempty : b'.inbox b.inboxes.length = {} := by
    rw [inbox, hinboxes, List.getElem?_concat_length]
    rfl
  refine ⟨?_, ?_, ?_⟩
  · rw [hinboxes, List.length_append]
    exact Nat.lt_succ_self _
  · intro device hdevice hinbox
    rw [hcandidates] at hdevice
    rcases List.mem_append.mp hdevice with hold | hnew
    · -- whoever was there before has another inbox
      have hlt := (h.inboxes device hold).1
      rw [hinbox] at hlt
      exact absurd hlt (Nat.lt_irrefl _)
    · rw [List.mem_singleton.mp hnew]
  · rw [hdevices, hempty]
    refine iff_of_false not_false ?_
    rintro (hclosed | hthere)
    · exact Bool.false_ne_true hclosed
    · exact absurd (h.inboxes _ (List.mem_append_left _ hthere)).1 (Nat.lt_irrefl _)

theorem follows_registerDevice {name : String} (h : b.Registered taken)
    (hport : (b.registerDevice name).1 = .ok (t, p)) :
    (b.registerDevice name).2.Follows t p False taken := by
  unfold registerDevice at hport ⊢
  split at hport
  · cases hport
  · obtain ⟨u, hok, hsame⟩ := map_eq_ok_iff.mp hport
    cases hsame
    exact follows_send h rfl hok

theorem follows_accept (h : b.Registered taken) (hport : b.portOf? s = some (t, p)) :
    (b.accept s).Follows t p False taken := by
  cases s with
  | registerDevice name =>
    apply follows_registerDevice h
    have hanswer : (b.registerDevice name).1.toOption = some (t, p) := hport
    cases hresult : (b.registerDevice name).1 with
    | error f => simp [hresult, Except.toOption] at hanswer
    | ok port =>
      rw [hresult] at hanswer
      exact congrArg _ (Option.some.inj hanswer)
  | _ => cases hport

theorem follows_acceptLate (h : b.Registered taken)
    (hport : ({ b with closed := false } : Bus).portOf? s = some (t, p)) :
    (b.acceptLate s).Follows t p False taken := by
  have hopen : ({ b with closed := false } : Bus).Registered taken :=
    ⟨h.prefixes, h.inboxes, h.distinct, h.topics⟩
  have hfollows := follows_accept hopen hport
  unfold acceptLate
  by_cases hclosed : b.closed
  · rw [if_pos hclosed]
    exact ⟨hfollows.inbox_lt, hfollows.topic_eq, hfollows.came_iff⟩
  · have hsame : ({ b with closed := false } : Bus) = b := by
      rw [← Bool.eq_false_iff.mpr hclosed]
    rw [if_neg hclosed]
    rw [hsame] at hfollows
    exact hfollows

end Bus

namespace Dispatcher

variable {d : Dispatcher} {t : Topic} {p : InboxId} {came : Prop}

/-- The prefix and the inbox that are handed out by what happens next. -/
def portOf? (d : Dispatcher) : Action → Option (Topic × InboxId)
  | .submit s => d.bus.portOf? s
  | .submitLate s => ({ d.bus with closed := false } : Bus).portOf? s
  | _ => none

/-- The device that is registered by what happens next, if any. -/
def registered (d : Dispatcher) (a : Action) : List Device :=
  (d.messagesHandled a).filterMap d.bus.registeredBy

theorem follows_portOf? {a : Action} (h : d.bus.Registered d.phase.backendsLeft)
    (hport : d.portOf? a = some (t, p)) :
    (d.act a).bus.Follows t p False (d.act a).phase.backendsLeft := by
  cases a with
  | submit s => exact Bus.follows_accept h hport
  | submitLate s => exact Bus.follows_acceptLate h hport
  | _ => cases hport

/-- Only a step that handles an envelope of a backend registers a device, and every step closes only
the inboxes of registered devices. -/
theorem follows_advance (h : d.bus.Follows t p came d.phase.backendsLeft)
    (hrooted : d.bus.tree.Rooted) :
    d.advance.bus.Follows t p (came ∨ ⟨t, p⟩ ∈ d.registered .advance) d.advance.phase.backendsLeft := by
  have hnobody : (∀ e, e ∉ d.messagesHandled .advance) →
      (came ∨ ⟨t, p⟩ ∈ d.registered .advance ↔ came) := by
    intro hnone
    have hregistered : d.registered .advance = [] := by
      rw [registered, List.eq_nil_iff_forall_not_mem.mpr hnone]
      rfl
    rw [hregistered, or_iff_left List.not_mem_nil]
  obtain ⟨b, phase⟩ := d
  cases phase with
  | awake =>
    rw [hnobody fun _ => List.not_mem_nil]
    have hdrained : b.takeBackend.1 ++ b.takeBackend.2.backend.items = b.backend.items :=
      List.append_nil _
    refine h.of_frame rfl rfl rfl fun e he => ?_
    rw [← hdrained]
    exact he
  | backends es =>
    cases es with
    | nil =>
      rw [hnobody fun _ => List.not_mem_nil]
      exact h.of_frame rfl rfl rfl fun e he => he
    | cons e es =>
      have hone : (⟨t, p⟩ ∈ registered ⟨b, .backends (e :: es)⟩ .advance) ↔
          b.registeredBy e = some ⟨t, p⟩ := by
        show _ ∈ [e].filterMap b.registeredBy ↔ _
        simp
      rw [hone]
      show (b.handleBackend e).Follows t p _ es
      rw [Bus.handleBackend_eq hrooted]
      obtain ⟨posts, hposted⟩ := Bus.exists_posted_performAll
        ((Bus.untold_backendPlan b e).rooted hrooted) (b.backendPlan e).deeds
      exact (Bus.Follows.backendPlan h).posted hposted
  | commands es =>
    rw [hnobody fun _ => List.not_mem_nil]
    cases es with
    | nil => exact h.of_frame rfl rfl rfl fun e he => he
    | cons e es =>
      by_cases he : e.topic = .finalize
      · rw [advance_of_finalize rfl he]
        exact h.of_frame rfl rfl rfl fun e he => he
      · obtain ⟨calls, hcalls⟩ := b.handleCommand_eq e
        obtain ⟨posts, hposted⟩ := Bus.exists_posted_commandPlan hrooted e
        rw [advance_of_commands rfl he, hcalls]
        have hdone : (b.commandPlan e).done.Follows t p came [] := Bus.Follows.posted h hposted
        exact hdone.of_frame rfl rfl rfl fun e he => he
  | closing =>
    rw [hnobody fun _ => List.not_mem_nil]
    exact Bus.Follows.finish h
  | resting | ending | ended =>
    rw [hnobody fun _ => List.not_mem_nil]
    exact h.of_frame rfl rfl rfl fun e he => he

theorem follows_act (h : d.bus.Follows t p came d.phase.backendsLeft) (hrooted : d.bus.tree.Rooted)
    (a : Action) :
    (d.act a).bus.Follows t p (came ∨ ⟨t, p⟩ ∈ d.registered a) (d.act a).phase.backendsLeft := by
  by_cases ha : a = .advance
  · subst ha
    exact follows_advance h hrooted
  · have hnobody : d.registered a = [] := by
      cases a with
      | advance => exact absurd rfl ha
      | _ => rfl
    rw [hnobody, or_iff_left List.not_mem_nil, phase_act ha]
    cases a with
    | advance => exact absurd rfl ha
    | submit s => exact h.admits (Bus.admits_accept d.bus s)
    | submitLate s => exact h.admits (Bus.admits_acceptLate d.bus s)
    | collect q =>
      exact h.of_frame rfl List.length_set (d.bus.closed_collect q p) fun e he => he
    | addListener l => exact h.of_frame rfl rfl rfl fun e he => he
    | setClock time => exact h.of_frame rfl rfl rfl fun e he => he

/-- From the moment at which a port is handed out on. -/
theorem follows_run (config : BusConfig) (as : List Action) {a : Action} (bs : List Action)
    (hport : (run config as).portOf? a = some (t, p)) :
    (run config (as ++ a :: bs)).bus.Follows t p
      (⟨t, p⟩ ∈ logFrom registered (run config (as ++ [a])) bs)
      (run config (as ++ a :: bs)).phase.backendsLeft := by
  induction bs using List.reverseRecOn with
  | nil =>
    have hstart := follows_portOf? (run_registered config as).bus hport
    rw [run_append]
    simp only [logFrom, List.not_mem_nil]
    exact hstart
  | append_singleton bs b ih =>
    have hlater : run config (as ++ a :: (bs ++ [b])) = (run config (as ++ a :: bs)).act b := by
      rw [← List.cons_append, ← List.append_assoc, run_append]
      rfl
    have hlog : logFrom registered (run config (as ++ [a])) (bs ++ [b]) =
        logFrom registered (run config (as ++ [a])) bs ++ (run config (as ++ a :: bs)).registered b := by
      rw [logFrom_concat, ← run_append, List.append_assoc, List.singleton_append]
    rw [hlater, hlog, List.mem_append]
    exact follows_act ih (run_contents config _).1 b

/-- A port was handed out for a registration, and the run has ended. Then the port is closed exactly
if the dispatcher came to the registration before the end and the prefix was free at that time. -/
theorem closed_iff_registered (config : BusConfig) (as : List Action) {a : Action} (bs : List Action)
    (hport : (run config as).portOf? a = some (t, p))
    (hended : (run config (as ++ a :: bs)).phase = .ended) :
    ((run config (as ++ a :: bs)).bus.inbox p).closed = true ↔
      ⟨t, p⟩ ∈ logFrom registered (run config (as ++ [a])) bs := by
  have hfollows := follows_run config as bs hport
  have hdevices := (takenDown_run config _ hended).devices_eq
  rw [hfollows.came_iff, hdevices, or_iff_left List.not_mem_nil]

/-- A device asks to be registered. -/
def signsUp (name : String) : Action := .submit (.registerDevice name)

/-- The bus is shut down, and the dispatcher works until it has ended. -/
def shutsDown : List Action := .submit .shutdown :: List.replicate 9 .advance

/-- The port of a device that was registered is closed at the end. -/
theorem closed_of_registered :
    (run {} []).portOf? (signsUp "u/a/1") = some (⟨"u/a/1", by decide⟩, 0) ∧
      ((run {} ([] ++ signsUp "u/a/1" :: shutsDown)).bus.inbox 0).closed = true := by
  have hport : (run {} []).portOf? (signsUp "u/a/1") = some (⟨"u/a/1", by decide⟩, 0) := by
    decide +kernel
  have hended : (run {} ([] ++ signsUp "u/a/1" :: shutsDown)).phase = .ended :=
    ended_of_stepsLeft (by decide +kernel)
  refine ⟨hport, (closed_iff_registered {} [] shutsDown hport hended).mpr ?_⟩
  decide +kernel

/-- A second registration with the same prefix is passed over, and its port stays open after the
end. -/
theorem not_always_closed :
    ¬ ∀ (config : BusConfig) (as : List Action) (a : Action) (bs : List Action) (t : Topic)
      (p : InboxId), (run config as).portOf? a = some (t, p) →
        (run config (as ++ a :: bs)).phase = .ended →
        ((run config (as ++ a :: bs)).bus.inbox p).closed = true := by
  intro h
  have hclosed := h {} [signsUp "u/a/1"] (signsUp "u/a/1") shutsDown ⟨"u/a/1", by decide⟩ 1
    (by decide +kernel) (ended_of_stepsLeft (by decide +kernel))
  have hopen :
      ((run {} ([signsUp "u/a/1"] ++ signsUp "u/a/1" :: shutsDown)).bus.inbox 1).closed = false := by
    decide +kernel
  rw [hopen] at hclosed
  cases hclosed

end Dispatcher
end InstrumentBus
