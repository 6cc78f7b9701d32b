import Mathlib
import InstrumentBus.Proofs.Dispatch.Deadlines
import InstrumentBus.Proofs.Dispatch.Reception
import InstrumentBus.Proofs.Dispatch.Repeats
import InstrumentBus.Proofs.Dispatch.Statuses

/-!
# What a success says

A client that sets a value and waits is answered with success. If the value was there already, this
says nothing: nobody is asked, and whoever refused it before is not heard of. Else nobody has refused
the value that the topic took last: `run_success`.

While a call waits for a device, its topic may take other values. `CallTable.Expects` is what holds
all the time: the call waits and nobody has refused the last value yet, or it has an answer, which is
success only if nobody has.
-/

namespace InstrumentBus

variable {base : CallSlots} {others : List PendingCall} {table : CallTable} {b : Bus} {e : Envelope}
  {es : List Envelope} {call own : PendingCall} {t : Topic} {r : Reception}

/-! ## A call that waits -/

namespace CallTable

/-- The call waits, and no other call waits for the same. -/
structure WaitsAlone (table : CallTable) (call : PendingCall) : Prop where
  waits : call ∈ table.pending.waiting
  alone : ∀ other ∈ table.pending.waiting, other.topic = call.topic → other = call

/-- As long as the call waits for an answer, nobody has refused the value; and success is the answer
only if the value is accepted. -/
def Expects (table : CallTable) (call : PendingCall) (r : Reception) : Prop :=
  (table.WaitsAlone call ∧ r.Clean) ∨
    ∃ o, table.slots.outcome? call.slot = some o ∧ (o = ⟨0, none⟩ → r.Accepted)

theorem WaitsAlone.of_subset {table' : CallTable} (h : table.WaitsAlone call)
    (hsubset : table'.pending.waiting ⊆ table.pending.waiting)
    (hwaits : call ∈ table'.pending.waiting) : table'.WaitsAlone call :=
  ⟨hwaits, fun other hother => h.alone other (hsubset hother)⟩

/-- Another call may join it that waits for something else, -/
theorem WaitsAlone.register (h : table.WaitsAlone call) (hne : own.topic ≠ call.topic) :
    (table.register own).WaitsAlone call := by
  have hwaiting : (table.register own).pending.waiting = table.pending.waiting ++ [own] :=
    PendingCalls.register_waiting _ _
  refine ⟨?_, fun other hother htopic => ?_⟩
  · rw [hwaiting]
    exact List.mem_append_left _ h.waits
  · rw [hwaiting] at hother
    rcases List.mem_append.mp hother with hother | hother
    · exact h.alone other hother htopic
    · rw [List.mem_singleton.mp hother] at htopic
      exact absurd htopic hne

/-- and a call that is the first one for its topic waits alone. -/
theorem waitsAlone_register (hfirst : ∀ other ∈ table.pending.waiting, other.topic ≠ call.topic) :
    (table.register call).WaitsAlone call := by
  have hwaiting : (table.register call).pending.waiting = table.pending.waiting ++ [call] :=
    PendingCalls.register_waiting _ _
  refine ⟨?_, fun other hother htopic => ?_⟩
  · rw [hwaiting]
    exact List.mem_append_right _ (List.mem_singleton_self call)
  · rw [hwaiting] at hother
    rcases List.mem_append.mp hother with hother | hother
    · exact absurd htopic (hfirst other hother)
    · exact List.mem_singleton.mp hother

theorem WaitsAlone.announce (h : table.WaitsAlone call) (hindexed : table.pending.Indexed)
    (htopic : call.topic ≠ (t.withSuffix .returnCode).text) (code? : Option Int32) :
    (table.announce t code?).WaitsAlone call :=
  h.of_subset (announce_waiting_subset hindexed t code?)
    (mem_waiting_announce hindexed code? h.waits htopic)

/-- What is announced for its topic is the answer to it. -/
theorem Sound.expects_announce (h : table.Sound base others) (hwaits : table.WaitsAlone call)
    (htopic : call.topic = (t.withSuffix .returnCode).text) {code? : Option Int32}
    (hnone : code? = none → r.Clean) (hzero : code? = some 0 → r.Accepted) :
    (table.announce t code?).Expects call r := by
  cases code? with
  | none => exact Or.inl ⟨hwaits, hnone rfl⟩
  | some code =>
    refine Or.inr ⟨⟨code, none⟩, h.outcome?_announce hwaits.waits htopic hwaits.alone, fun hcode => ?_⟩
    rw [CallOutcome.mk.injEq] at hcode
    exact hzero (congrArg some hcode.1)

/-- Its time may be over. -/
theorem Sound.expects_expireDue (h : table.Sound base others) (hwaits : table.WaitsAlone call)
    (hclean : r.Clean) (now : Nat) : (table.expireDue now).2.Expects call r := by
  obtain ⟨-, -, hplain⟩ := expireDue_eq_plain h.indexed now
  have hwaiting : (table.expireDue now).2.pending.waiting =
      table.pending.waiting.filter (now < ·.deadline) := congrArg PlainCalls.waiting hplain
  have hslots : (table.expireDue now).2.slots =
      table.slots.resolveAll ((table.pending.waiting.filter (·.deadline ≤ now)).map (·.slot))
        (.ofStatus .timedOut) := congrArg PlainCalls.slots hplain
  by_cases hlate : now < call.deadline
  · refine Or.inl ⟨hwaits.of_subset (expireDue_waiting_subset h.indexed now) ?_, hclean⟩
    rw [hwaiting]
    exact List.mem_filter.mpr ⟨hwaits.waits, decide_eq_true hlate⟩
  · refine Or.inr ⟨.ofStatus .timedOut, ?_, fun hsuccess => absurd hsuccess (by decide)⟩
    have hdue : call ∈ table.pending.waiting.filter (·.deadline ≤ now) :=
      List.mem_filter.mpr ⟨hwaits.waits, decide_eq_true (Nat.not_lt.mp hlate)⟩
    rw [hslots]
    exact CallSlots.outcome?_resolveAll_of_mem (h.owned.isOpen (List.mem_append_right _ hwaits.waits))
      (List.mem_map_of_mem hdue) _

end CallTable

namespace Bus

/-! ## One envelope -/

/-- The verdict on a return code is the code, if it is a number of the right kind. -/
theorem verdict_of_codeSuffix (hroot : e.topic.path ≠ "") (hsuffix : e.topic.suffix = some .returnCode) :
    b.verdict e = e.value.returnCode? := by
  unfold verdict
  rw [if_neg hroot, nodeOf_eq, hsuffix]

/-- There is no verdict on anything but values and return codes. -/
theorem verdict_eq_none (hvalue : e.topic.suffix ≠ none) (hcode : e.topic.suffix ≠ some .returnCode) :
    b.verdict e = none := by
  unfold verdict
  split
  · rfl
  · rw [nodeOf_eq]
    cases hsuffix : e.topic.suffix with
    | none => exact absurd hsuffix hvalue
    | some suffix =>
      cases suffix with
      | returnCode => exact absurd hsuffix hcode
      | _ => rfl

/-- An announcement that a value was processed says whether the value was accepted. A value that was
there already is not told to anyone. -/
theorem accepted_of_verdict (hrooted : b.tree.Rooted) (hlocal : e.topic.isLocal = false)
    (hroot : e.topic.path ≠ "") (hplain : e.topic.suffix = none)
    (hclean : b.isThere e = true → r.Clean) :
    (b.verdict e = none → ((b.answered? e).getD r).Clean) ∧
      (b.verdict e = some 0 → ((b.answered? e).getD r).Accepted) := by
  rcases verdict_cases hrooted hlocal hroot hplain with ⟨hverdict, -⟩ | ⟨hverdict, hthere, hanswered⟩ |
    ⟨r', hverdict, -, hanswered, hcodes⟩
  · rw [hverdict]
    exact ⟨nofun, fun hzero => absurd (Option.some.inj hzero) (by decide)⟩
  · rw [hverdict, hanswered]
    exact ⟨nofun, fun _ => (hclean hthere).accepted⟩
  · rw [hverdict, hanswered, Option.getD_some]
    have hnocodes : ∀ code ∈ r'.codes, code = 0 := by
      rw [hcodes]
      exact List.forall_mem_nil _
    refine ⟨fun hnone => ⟨?_, hnocodes⟩, fun hzero => ⟨Or.inr ?_, hnocodes⟩⟩
    · exact List.findSome?_eq_none_iff.mp (Option.map_eq_none_iff.mp hnone)
    · obtain ⟨s, hs, hcode⟩ := Option.map_eq_some_iff.mp hzero
      rw [hs, StatusCode.eq_success_of_code hcode]

/-- A value is told to subscribers, and accepted, if processing it is a success and it was not there. -/
theorem accepted_of_process (hrooted : b.tree.Rooted) (hlocal : e.topic.isLocal = false)
    (hplain : e.topic.suffix = none) (hnew : b.isThere e = false)
    (hsuccess : Outcome.code (b.process e).1 = 0) : ((b.answered? e).getD r).Accepted := by
  have hroot : e.topic.path ≠ "" := by
    intro hroot
    unfold process at hsuccess
    rw [if_pos hroot] at hsuccess
    exact absurd (show StatusCode.notSupported.code = 0 from hsuccess) (by decide)
  rw [code_process hroot hplain] at hsuccess
  obtain ⟨hnone, hzero⟩ := accepted_of_verdict (r := r) hrooted hlocal hroot hplain fun hthere => by
    rw [hnew] at hthere
    cases hthere
  cases hverdict : b.verdict e with
  | none => exact (hnone hverdict).accepted
  | some code =>
    rw [hverdict] at hsuccess
    exact hzero (hverdict.trans (congrArg some hsuccess))

/-- An envelope that is processed while a call waits for the topic of the value. -/
theorem Sound.expects_publish (h : b.Sound base es) (hrooted : b.tree.Rooted)
    (hwaits : b.calls.WaitsAlone call) (hplain : t.suffix = none)
    (htopic : call.topic = (t.withSuffix .returnCode).text)
    (hclean : (e.topic = t ∧ b.isThere e = false) ∨ r.Clean) :
    (b.calls.announce e.topic (b.verdict e)).Expects call (b.receptionAfter t r (.publish e)) := by
  -- the topic is that of a device
  have hdevice : t.path ≠ "" ∧ t.isLocal = false := by
    obtain ⟨t', ht', hcall⟩ := h.device call hwaits.waits
    have hsame := hcall.symm.trans htopic
    refine ⟨fun hroot => ?_, Bool.eq_false_iff.mpr fun hlocal => ?_⟩
    · refine Topic.pathChars_ne_nil ht' ?_
      rw [Topic.pathChars_eq_of_withSuffix hsame]
      exact Topic.path_eq_empty_iff.mp hroot
    · exact Topic.returnCode_ne_of_devicePrefix ht' (Or.inl hlocal) hsame
  by_cases hsame : call.topic = (e.topic.withSuffix .returnCode).text
  · have hpath : e.topic.segments = t.segments := by
      unfold Topic.segments
      rw [Topic.pathChars_eq_of_withSuffix (hsame.symm.trans htopic)]
    by_cases hvalue : e.topic = t
    · subst hvalue
      obtain ⟨hnone, hzero⟩ := accepted_of_verdict (r := r) hrooted hdevice.2 hdevice.1 hplain
        fun hthere => hclean.resolve_left fun hnew => by
          rw [hnew.2] at hthere
          cases hthere
      simp only [receptionAfter, if_true]
      exact h.calls.expects_announce hwaits hsame hnone hzero
    have hclean : r.Clean := hclean.resolve_left fun hnew => hvalue hnew.1
    by_cases hcode : e.topic = t.withSuffix .returnCode
    · -- a return code from outside is added to the record, and is the answer
      have hsuffix : e.topic.suffix = some .returnCode := by
        rw [hcode, Topic.suffix_withSuffix]
      have hroot : e.topic.path ≠ "" := by
        rw [Topic.path_eq_iff.mpr hpath]
        exact hdevice.1
      simp only [receptionAfter, if_neg hvalue, if_pos hcode]
      rw [verdict_of_codeSuffix hroot hsuffix]
      refine h.calls.expects_announce hwaits hsame (fun hnone => ?_) fun hzero => ?_
      · rw [hnone]
        exact hclean.hear (List.forall_mem_nil _)
      · rw [hzero]
        exact (hclean.hear (List.forall_mem_singleton.mpr rfl)).accepted
    · -- anything else at the topic is a request, or an answer to one
      simp only [receptionAfter, if_neg hvalue, if_neg hcode]
      rw [verdict_eq_none]
      · exact Or.inl ⟨hwaits, hclean⟩
      · exact fun hsuffix => hvalue (Topic.eq_of_segments hpath (hsuffix.trans hplain.symm))
      · intro hsuffix
        refine hcode (Topic.eq_of_segments ?_ ?_)
        · rw [Topic.segments_withSuffix, hpath]
        · rw [Topic.suffix_withSuffix, hsuffix]
  · have hne : (e.topic.withSuffix .returnCode).text ≠ (t.withSuffix .returnCode).text := by
      rw [← htopic]
      exact Ne.symm hsame
    rw [receptionAfter_of_ne hne]
    refine Or.inl ⟨hwaits.announce h.calls.indexed hsame _, hclean.resolve_left ?_⟩
    rintro ⟨rfl, -⟩
    exact hne rfl

/-! ## Commands and messages -/

theorem receptionAll_of_forall {deeds : List Deed}
    (h : ∀ deed ∈ deeds, ∀ b r, receptionAfter b t r deed = r) (b : Bus) (r : Reception) :
    b.receptionAll t r deeds = r := by
  induction deeds generalizing b r with
  | nil => rfl
  | cons deed deeds ih =>
    obtain ⟨hdeed, hdeeds⟩ := List.forall_mem_cons.mp h
    rw [receptionAll, hdeed, ih hdeeds]

/-- Commands to the bus itself take no value, -/
theorem receptionAfter_of_mem_localDeeds {deed : Deed} (hdeed : deed ∈ e.localDeeds) (b : Bus)
    (r : Reception) : b.receptionAfter t r deed = r := by
  unfold Envelope.localDeeds at hdeed
  split at hdeed
  · split at hdeed <;> simp only [List.mem_singleton, List.not_mem_nil] at hdeed
    rw [hdeed]
    rfl
  split at hdeed
  · split at hdeed <;> simp only [List.mem_singleton, List.not_mem_nil] at hdeed
    rw [hdeed]
    rfl
  split at hdeed
  · split at hdeed <;> simp only [List.mem_singleton, List.not_mem_nil] at hdeed
    rw [hdeed]
    rfl
  · cases hdeed

/-- and commands for other topics neither. -/
theorem receptionAll_commandPlan_of_ne
    (hne : (e.topic.withSuffix .returnCode).text ≠ (t.withSuffix .returnCode).text) :
    (b.commandPlan e).bus.receptionAll t r (b.commandPlan e).deeds = r := by
  unfold commandPlan
  split
  · refine receptionAll_of_forall (List.forall_mem_append.mpr ⟨fun deed hdeed b r => ?_, ?_⟩) b r
    · exact receptionAfter_of_mem_localDeeds hdeed b r
    · exact List.forall_mem_singleton.mpr fun _ _ => rfl
  · exact receptionAfter_of_ne hne

/-- Nor do messages for other topics. What is told of devices is for topics of the driver. -/
theorem receptionAll_backendPlan_of_ne
    (hspecial : ∀ t' : Topic, t'.isDriver →
      (t'.withSuffix .returnCode).text ≠ (t.withSuffix .returnCode).text)
    (hne : (e.topic.withSuffix .returnCode).text ≠ (t.withSuffix .returnCode).text) :
    (b.backendPlan e).bus.receptionAll t r (b.backendPlan e).deeds = r := by
  rcases deeds_backendPlan b e with hnone | ⟨first, e₁, e₂, hdeeds, hfirst, h₁, h₂⟩ | ⟨hdeeds, -⟩
  · rw [hnone]
    rfl
  · rw [hdeeds]
    refine receptionAll_of_forall (List.forall_mem_cons.mpr ⟨?_, List.forall_mem_cons.mpr
      ⟨fun _ _ => receptionAfter_of_ne (hspecial _ h₁),
        List.forall_mem_singleton.mpr fun _ _ => receptionAfter_of_ne (hspecial _ h₂)⟩⟩) _ _
    rcases hfirst with ⟨t', who, rfl⟩ | ⟨t', who, rfl⟩ <;> exact fun _ _ => rfl
  · rw [hdeeds]
    exact receptionAfter_of_ne hne

theorem Sound.waitsAlone_handleCommand (h : b.Sound base (e :: es)) (hwaits : b.calls.WaitsAlone call)
    (hne : call.topic ≠ (e.topic.withSuffix .returnCode).text) :
    (b.handleCommand e).calls.WaitsAlone call := by
  cases hown : e.call with
  | none =>
    rw [h.handleCommand_calls hown]
    exact hwaits.announce h.calls.indexed hne _
  | some own =>
    by_cases hanswers : b.deviceAnswers e.topic
    · rw [handleCommand_calls_of_deviceAnswers b hown hanswers]
      have htopic : own.topic ≠ call.topic := by
        rw [h.addressed e List.mem_cons_self own hown]
        exact hne.symm
      exact (hwaits.register htopic).announce (h.calls.indexed.register own) hne _
    · obtain ⟨code?, o, hcalls, -⟩ := handleCommand_calls_of_call b hown hanswers
      have hannounced := hwaits.announce h.calls.indexed hne code?
      rw [hcalls]
      exact ⟨hannounced.waits, hannounced.alone⟩

/-- A command that is handled while a call waits. -/
theorem Sound.expects_handleCommand (h : b.Sound base (e :: es)) (hrooted : b.tree.Rooted)
    (hwaits : b.calls.WaitsAlone call) (hclean : r.Clean) (hplain : t.suffix = none)
    (htopic : call.topic = (t.withSuffix .returnCode).text)
    (hothers : ∀ own, e.call = some own → own.topic ≠ call.topic) :
    (b.handleCommand e).calls.Expects call
      ((b.commandPlan e).bus.receptionAll t r (b.commandPlan e).deeds) := by
  by_cases hsame : call.topic = (e.topic.withSuffix .returnCode).text
  · have hnone : e.call = none := by
      cases hown : e.call with
      | none => rfl
      | some own =>
        have hown' := h.addressed e List.mem_cons_self own hown
        exact absurd (hown'.trans hsame.symm) (hothers own hown)
    have hlocal : ¬ e.topic.isLocal := by
      intro hlocal
      obtain ⟨t', ht', hcall⟩ := h.device call hwaits.waits
      exact Topic.returnCode_ne_of_devicePrefix ht' (Or.inl hlocal) (hcall.symm.trans hsame)
    have hself : ({ e with call := none } : Envelope) = e := by rw [← hnone]
    have hplan : b.commandPlan e = ⟨b, [.publish e]⟩ := by
      unfold commandPlan holdCall
      rw [if_neg hlocal, hnone, hself]
    rw [hplan, h.handleCommand_calls hnone]
    exact h.expects_publish hrooted hwaits hplain htopic (Or.inr hclean)
  · rw [receptionAll_commandPlan_of_ne (by rw [← htopic]; exact Ne.symm hsame)]
    exact Or.inl ⟨h.waitsAlone_handleCommand hwaits hsame, hclean⟩

/-- A message that is handled while a call waits. -/
theorem Sound.expects_handleBackend (h : b.Sound base es) (hrooted : b.tree.Rooted)
    (he : e.call = none) (hwaits : b.calls.WaitsAlone call) (hclean : r.Clean) (hplain : t.suffix = none)
    (htopic : call.topic = (t.withSuffix .returnCode).text) :
    (b.handleBackend e).calls.Expects call
      ((b.backendPlan e).bus.receptionAll t r (b.backendPlan e).deeds) := by
  obtain ⟨t', ht', hcall⟩ := h.device call hwaits.waits
  rw [h.handleBackend_calls he]
  by_cases hsame : call.topic = (e.topic.withSuffix .returnCode).text
  · have hdriver : ¬ e.topic.isDriver := fun hdriver =>
      Topic.returnCode_ne_of_devicePrefix ht' (Or.inr hdriver) (hcall.symm.trans hsame)
    have hplan : b.backendPlan e = ⟨b, [.publish (b.received e)]⟩ := by
      unfold backendPlan
      rw [if_neg hdriver]
    rw [hplan]
    exact h.expects_publish (e := b.received e) hrooted hwaits hplain htopic (Or.inr hclean)
  · have hspecial : ∀ t₀ : Topic, t₀.isDriver →
        (t₀.withSuffix .returnCode).text ≠ (t.withSuffix .returnCode).text := by
      intro t₀ hdriver
      rw [← htopic, hcall]
      exact (Topic.returnCode_ne_of_devicePrefix ht' (Or.inr hdriver)).symm
    rw [receptionAll_backendPlan_of_ne hspecial (by rw [← htopic]; exact Ne.symm hsame)]
    exact Or.inl ⟨hwaits.announce h.calls.indexed hsame _, hclean⟩

end Bus

/-! ## Steps and runs -/

namespace Dispatcher

variable {d : Dispatcher} {a : Action} {as bs : List Action}

/-- What a command adds to what is said of a value. -/
theorem receptionOf_of_commands (h : d.phase = .commands (e :: es)) (he : e.topic ≠ .finalize) :
    d.receptionOf t r .advance =
      (d.bus.commandPlan e).bus.receptionAll t r (d.bus.commandPlan e).deeds := by
  obtain ⟨b, phase⟩ := d
  obtain rfl : phase = .commands (e :: es) := h
  have hplan : (⟨b, .commands (e :: es)⟩ : Dispatcher).plan = b.commandPlan e := if_neg he
  rw [receptionOf, hplan]

/-- A call that waits has no outcome. -/
theorem Sound.outcome?_of_waits (h : d.Sound base) (hwaits : call ∈ d.bus.calls.pending.waiting) :
    d.outcome? call.slot = none :=
  (CallSlots.isOpen_iff.mp (h.bus.calls.owned.isOpen (List.mem_append_right _ hwaits))).2

theorem Sound.expects_advance (h : d.Sound base) (hrooted : d.bus.tree.Rooted)
    (hwaits : d.bus.calls.WaitsAlone call) (hclean : r.Clean) (hplain : t.suffix = none)
    (htopic : call.topic = (t.withSuffix .returnCode).text)
    (hothers : ∀ e ∈ d.commandsHandled .advance, ∀ own, e.call = some own → own.topic ≠ call.topic) :
    d.advance.bus.calls.Expects call (d.receptionOf t r .advance) := by
  obtain ⟨b, phase⟩ := d
  have hstays : b.calls.Expects call r := Or.inl ⟨hwaits, hclean⟩
  cases phase with
  | awake => exact hstays
  | resting => exact Or.inl ⟨⟨hwaits.waits, hwaits.alone⟩, hclean⟩
  | backends es =>
    cases es with
    | nil => exact hstays
    | cons e es =>
      obtain ⟨he, -⟩ := callFree_cons.mp h.backends
      exact h.bus.expects_handleBackend hrooted he hwaits hclean hplain htopic
  | commands es =>
    cases es with
    | nil => exact h.bus.calls.expects_expireDue hwaits hclean b.clock
    | cons e es =>
      by_cases he : e.topic = .finalize
      · have hplan : (⟨b, .commands (e :: es)⟩ : Dispatcher).plan = ⟨b, []⟩ := if_pos he
        have hpending : (b.dropEnvelopes (e :: es)).calls.pending = b.calls.pending :=
          CallTable.dropAll_pending _ _
        rw [advance_of_finalize rfl he, receptionOf, hplan]
        refine Or.inl ⟨hwaits.of_subset ?_ ?_, hclean⟩
        · rw [hpending]
          exact List.Subset.refl _
        · rw [hpending]
          exact hwaits.waits
      · have hhandled : e ∈ (⟨b, .commands (e :: es)⟩ : Dispatcher).commandsHandled .advance := by
          rw [commandsHandled_of_commands rfl he]
          exact List.mem_singleton_self e
        rw [advance_of_commands rfl he, receptionOf_of_commands rfl he]
        exact Bus.Sound.expects_handleCommand h.bus hrooted hwaits hclean hplain htopic
          (hothers e hhandled)
  | ending => exact h.bus.calls.expects_expireDue hwaits hclean b.clock
  | closing =>
    -- whoever waits to the end is aborted
    have hopen : b.calls.slots.IsOpen call.slot :=
      h.bus.calls.owned.isOpen (List.mem_append_right _ hwaits.waits)
    obtain ⟨hlt, hnone⟩ := CallSlots.isOpen_iff.mp hopen
    have hforsaken : (⟨b.finish, .ended⟩ : Dispatcher).Forsaken call.slot := by
      refine ⟨fun other hother => ?_, fun o ho => ?_⟩
      · rw [(Bus.takenDown_finish b).pending_eq] at hother
        cases hother
      · rcases Bus.onlyAborts_finish b call.slot with hsame | haborted
        · rw [show (⟨b.finish, .ended⟩ : Dispatcher).outcome? call.slot = none from
            hsame.trans hnone] at ho
          cases ho
        · exact Option.some.inj (ho.symm.trans haborted)
    have hslot := Nat.lt_of_lt_of_le hlt h.rebase.advance.bus.calls.kept.length_le
    exact Or.inr ⟨.ofStatus .aborted, hforsaken.outcome?_eq h.advance rfl hslot,
      fun hsuccess => absurd hsuccess (by decide)⟩
  | ended => exact hstays

theorem Sound.expects_act (h : d.Sound base) (hrooted : d.bus.tree.Rooted)
    (hwaits : d.bus.calls.WaitsAlone call) (hclean : r.Clean) (hplain : t.suffix = none)
    (htopic : call.topic = (t.withSuffix .returnCode).text)
    (hothers : ∀ e ∈ d.commandsHandled a, ∀ own, e.call = some own → own.topic ≠ call.topic) :
    (d.act a).bus.calls.Expects call (d.receptionOf t r a) := by
  have hsame : ∀ b' : Bus, b'.calls.pending = d.bus.calls.pending → b'.calls.Expects call r := by
    intro b' hpending
    refine Or.inl ⟨hwaits.of_subset ?_ ?_, hclean⟩
    · rw [hpending]
      exact List.Subset.refl _
    · rw [hpending]
      exact hwaits.waits
  cases a with
  | advance => exact h.expects_advance hrooted hwaits hclean hplain htopic hothers
  | submit s => exact hsame _ (Bus.handed_accept d.bus s).pending_eq
  | submitLate s => exact hsame _ (Bus.handed_acceptLate d.bus s).pending_eq
  | collect p | addListener l | setClock time => exact hsame _ rfl

/-- What a call expects it goes on expecting until it has its answer. -/
theorem expects_run (config : BusConfig) (as bs : List Action)
    (hexpects : (run config as).bus.calls.Expects call (reception config as t))
    (hplain : t.suffix = none) (htopic : call.topic = (t.withSuffix .returnCode).text)
    (hothers : ∀ e ∈ logFrom commandsHandled (run config as) bs,
      ∀ own, e.call = some own → own.topic ≠ call.topic)
    (hpending : ∀ n < bs.length, (run config (as ++ bs.take n)).outcome? call.slot = none) :
    (run config (as ++ bs)).bus.calls.Expects call (reception config (as ++ bs) t) := by
  induction bs using List.reverseRecOn with
  | nil =>
    rw [List.append_nil]
    exact hexpects
  | append_singleton bs a ih =>
    rw [logFrom_concat, ← run_append] at hothers
    obtain ⟨hbefore, hlast⟩ := List.forall_mem_append.mp hothers
    have hwaiting := ih hbefore fun n hn => by
      have hnone := hpending n (by rw [List.length_append]; exact Nat.lt_add_right _ hn)
      rwa [List.take_append_of_le_length (Nat.le_of_lt hn)] at hnone
    -- it has no answer before the last step, so it still waits
    have hnone : (run config (as ++ bs)).outcome? call.slot = none := by
      have hnone := hpending bs.length (by simp)
      rwa [List.take_left] at hnone
    obtain ⟨hwaits, hclean⟩ := hwaiting.resolve_right fun ⟨o, ho, _⟩ => by
      rw [show (run config (as ++ bs)).bus.calls.slots.outcome? call.slot = none from hnone] at ho
      cases ho
    have hact := (sound_run config (as ++ bs)).expects_act (run_contents config (as ++ bs)).1 hwaits
      hclean hplain htopic hlast
    have hrun : run config (as ++ (bs ++ [a])) = (run config (as ++ bs)).act a := by
      rw [← List.append_assoc, run_append]
      rfl
    have hreception : reception config (as ++ (bs ++ [a])) t =
        (run config (as ++ bs)).receptionOf t (reception config (as ++ bs) t) a := by
      rw [← List.append_assoc, reception_append]
      rfl
    rw [hrun, hreception]
    exact hact

end Dispatcher

/-! ## The answer to a value -/

namespace Bus

/-- A value that is there already is a success, which is announced. -/
theorem verdict_of_isThere (hrooted : b.tree.Rooted) (hplain : e.topic.suffix = none)
    (hthere : b.isThere e = true) : b.verdict e = some 0 ∧ b.answered? e = none := by
  obtain ⟨hlocal, hroot, -⟩ := isThere_iff.mp hthere
  rcases verdict_cases hrooted hlocal hroot hplain with ⟨-, hnew, -⟩ | ⟨hverdict, -, hanswered⟩ |
    ⟨r', -, hnew, -⟩
  · rw [hthere] at hnew
    cases hnew
  · exact ⟨hverdict, hanswered⟩
  · rw [hthere] at hnew
    cases hnew

/-- It leaves everything as it is but for a return code that is told, and says nothing of the value. -/
theorem effect_of_isThere (hrooted : b.tree.Rooted) (hplain : e.topic.suffix = none)
    (hthere : b.isThere e = true) (r : Reception) :
    (b.commandPlan e).bus.receptionAll e.topic r (b.commandPlan e).deeds = r ∧
    (∃ answer : Envelope, answer.topic = e.topic.withSuffix .returnCode ∧ answer.value = .i32 0 ∧
      b.Posted ((b.tree.contents.recipients e.topic.segments .returnCode none).map (·, answer))
        (b.handleCommand e)) ∧
    ∀ t, (b.handleCommand e).keptValue t = b.keptValue t ∧
      (b.handleCommand e).keptMetadata t = b.keptMetadata t := by
  obtain ⟨hlocal, hroot, v, hjudge, hkept⟩ := isThere_iff.mp hthere
  obtain ⟨held, hheld⟩ := b.holdCall_eq e
  obtain ⟨calls, hhandled⟩ := b.handleCommand_eq e
  have hplan : b.commandPlan e = ⟨{ b with calls := held }, [.publish { e with call := none }]⟩ := by
    unfold commandPlan
    rw [if_neg (by simp [hlocal]), hheld]
  obtain ⟨-, -, answer, htopic, hvalue, heffect⟩ := effect_of_kept (b := { b with calls := held })
    (e := { e with call := none }) hrooted hroot hplain hjudge hkept
  have hdone : b.handleCommand e =
      { (({ b with calls := held } : Bus).process { e with call := none }).2 with calls } := by
    rw [hhandled, hplan]
    rfl
  have htree : (b.handleCommand e).tree.contents = b.tree.contents.reach e.topic.segments := by
    rw [hdone]
    exact heffect.contents_eq
  refine ⟨?_, ⟨answer, htopic, hvalue, ?_⟩, fun t => ?_⟩
  · rw [hplan]
    simp only [receptionAll, receptionAfter, if_true]
    rw [(verdict_of_isThere (b := { b with calls := held }) (e := { e with call := none }) hrooted hplain
      hthere).2, Option.getD_none]
  · rw [hdone]
    exact (posted_calls b held).after (heffect.posted.before (posted_calls _ calls))
  · rw [keptValue_eq, keptValue_eq, keptMetadata_eq, keptMetadata_eq, htree]
    exact ⟨rfl, rfl⟩

/-- All commands to the bus itself are actions. -/
theorem localCommand_of_not_isAction (haction : e.topic.isAction = false) :
    (b.localCommand e).1 = .ofStatus .notSupported := by
  have hother : ∀ t : Topic, t.isAction = true → e.topic ≠ t := by
    rintro t ht rfl
    rw [haction] at ht
    cases ht
  unfold localCommand
  simp only
  rw [if_neg (hother _ (by decide)), if_neg (hother _ (by decide)), if_neg (hother _ (by decide)),
    if_neg (hother _ (by decide))]

/-- A value that a client sets and that is there already is a success, of which nobody is asked. -/
theorem Sound.outcome?_of_isThere (h : b.Sound base (e :: es)) (hrooted : b.tree.Rooted)
    (hcall : e.call = some call) (hplain : e.topic.suffix = none) (hthere : b.isThere e = true)
    (hfirst : ∀ other ∈ b.calls.pending.waiting, other.topic ≠ call.topic) :
    (b.handleCommand e).calls.slots.outcome? call.slot = some ⟨0, none⟩ := by
  obtain ⟨hlocal, hroot, -⟩ := isThere_iff.mp hthere
  by_cases hanswers : b.deviceAnswers e.topic
  · have hregistered := (h.register hcall (devicePrefix_of_deviceAnswers hanswers)).calls
    have hwaits := CallTable.waitsAlone_register hfirst
    have hverdict : b.registeredVerdict call e = some 0 :=
      (verdict_of_isThere (b := { b with calls := b.calls.register call }) (e := { e with call := none })
        hrooted hplain hthere).1
    rw [handleCommand_calls_of_deviceAnswers b hcall hanswers, hverdict]
    exact hregistered.outcome?_announce hwaits.waits (h.addressed e List.mem_cons_self call hcall)
      hwaits.alone
  · have hverdict := (verdict_of_isThere (e := { e with call := none }) hrooted hplain hthere).1
    have hcode := code_process (b := b) (e := { e with call := none }) hroot hplain
    rw [h.outcome?_of_processed hcall (by simp [hlocal]) hanswers, hcode, hverdict]
    rfl

/-- The call of a client that sets another value expects to hear of it. -/
theorem Sound.expects_value (h : b.Sound base (e :: es)) (hrooted : b.tree.Rooted)
    (hcall : e.call = some call) (hplain : e.topic.suffix = none) (haction : e.topic.isAction = false)
    (hnew : b.isThere e = false)
    (hfirst : ∀ other ∈ b.calls.pending.waiting, other.topic ≠ call.topic) :
    (b.handleCommand e).calls.Expects call
      ((b.commandPlan e).bus.receptionAll e.topic r (b.commandPlan e).deeds) := by
  have htopic := h.addressed e List.mem_cons_self call hcall
  by_cases hlocal : e.topic.isLocal
  · -- the bus knows no such command
    refine Or.inr ⟨_, h.outcome?_of_isLocal hcall hlocal, fun hsuccess => ?_⟩
    rw [localCommand_of_not_isAction (e := { e with call := none }) haction] at hsuccess
    exact absurd hsuccess (by decide)
  by_cases hanswers : b.deviceAnswers e.topic
  · have hplan : b.commandPlan e =
        ⟨{ b with calls := b.calls.register call }, [.publish { e with call := none }]⟩ := by
      unfold commandPlan holdCall
      rw [if_neg hlocal, hcall]
      simp only [if_pos hanswers]
    rw [hplan, handleCommand_calls_of_deviceAnswers b hcall hanswers]
    exact (h.register hcall (devicePrefix_of_deviceAnswers hanswers)).expects_publish
      (e := { e with call := none }) hrooted (CallTable.waitsAlone_register hfirst) hplain htopic
      (Or.inl ⟨rfl, hnew⟩)
  · have hplan : b.commandPlan e = ⟨b, [.publish { e with call := none }]⟩ := by
      unfold commandPlan holdCall
      rw [if_neg hlocal, hcall]
      simp only [if_neg hanswers]
    refine Or.inr ⟨_, h.outcome?_of_processed hcall hlocal hanswers, fun hsuccess => ?_⟩
    have hreception : (b.commandPlan e).bus.receptionAll e.topic r (b.commandPlan e).deeds =
        (b.answered? { e with call := none }).getD r := by
      rw [hplan]
      exact if_pos rfl
    rw [hreception]
    exact accepted_of_process (e := { e with call := none }) hrooted (Bool.eq_false_iff.mpr hlocal)
      hplain hnew (congrArg CallOutcome.code hsuccess)

end Bus

namespace Dispatcher

/-- In every state of every run, let the next command be a value for a topic that is no action, with a
call, and let no other call wait for the return code of the topic.

If what metadata make of the value is there already, the call is a success at once: but for a return
code nobody is told of anything, all that is kept stays, and so does what was said of the value.

Else, if it is a success in the end, and commands of others with a call for the topic do not come in
between, then nobody has refused the value that the topic took last, which is the one that it keeps, if
it keeps any. -/
theorem run_success (config : BusConfig) (as : List Action) {e : Envelope} {es : List Envelope}
    {call : PendingCall} (hnext : (run config as).phase.commandsLeft = e :: es)
    (hcall : e.call = some call) (hplain : e.topic.suffix = none) (haction : e.topic.isAction = false)
    (hfirst : ∀ other ∈ (run config as).bus.calls.pending.waiting, other.topic ≠ call.topic) :
    let d := run config as
    let asked := as ++ [.advance]
    (d.bus.isThere e = true →
      (run config asked).outcome? call.slot = some ⟨0, none⟩ ∧
      reception config asked e.topic = reception config as e.topic ∧
      (∃ answer : Envelope, answer.topic = e.topic.withSuffix .returnCode ∧ answer.value = .i32 0 ∧
        d.bus.Posted ((d.bus.tree.contents.recipients e.topic.segments .returnCode none).map (·, answer))
          (run config asked).bus) ∧
      ∀ t, (run config asked).bus.keptValue t = d.bus.keptValue t ∧
        (run config asked).bus.keptMetadata t = d.bus.keptMetadata t) ∧
    (d.bus.isThere e = false → ∀ bs,
      (∀ e' ∈ logFrom commandsHandled (run config asked) bs,
        ∀ other, e'.call = some other → other.topic ≠ call.topic) →
      (∀ n < bs.length, (run config (asked ++ bs.take n)).outcome? call.slot = none) →
      (run config (asked ++ bs)).outcome? call.slot = some ⟨0, none⟩ →
      (reception config (asked ++ bs) e.topic).Accepted ∧
      ∀ v, (run config (asked ++ bs)).bus.keptValue e.topic = some v →
        (reception config (asked ++ bs) e.topic).value = some v) := by
  intro d asked
  have hphase : d.phase = .commands (e :: es) := phase_of_commandsLeft hnext
  have hsound : d.bus.Sound {} (e :: es) := by
    have hbus := (sound_run config as).bus
    rw [hnext] at hbus
    exact hbus
  have hrooted : d.bus.tree.Rooted := (run_contents config as).1
  have hfinalize : e.topic ≠ .finalize := by
    intro he
    rw [he] at haction
    exact absurd haction (by decide)
  have hbus : (run config asked).bus = d.bus.handleCommand e := by
    rw [run_append]
    show d.advance.bus = _
    rw [advance_of_commands hphase hfinalize]
  have hreception : reception config asked e.topic =
      (d.bus.commandPlan e).bus.receptionAll e.topic (reception config as e.topic)
        (d.bus.commandPlan e).deeds := by
    rw [reception_append]
    exact receptionOf_of_commands hphase hfinalize
  refine ⟨fun hthere => ?_, fun hnew bs hothers hpending hsuccess => ?_⟩
  · obtain ⟨hsame, hposted, hkept⟩ :=
      Bus.effect_of_isThere hrooted hplain hthere (reception config as e.topic)
    rw [outcome?, hreception, hbus]
    exact ⟨hsound.outcome?_of_isThere hrooted hcall hplain hthere hfirst, hsame, hposted, hkept⟩
  · have hexpects : (run config asked).bus.calls.Expects call (reception config asked e.topic) := by
      rw [hbus, hreception]
      exact hsound.expects_value hrooted hcall hplain haction hnew hfirst
    have htopic := hsound.addressed e List.mem_cons_self call hcall
    refine ⟨?_, run_reception config _ hplain⟩
    rcases expects_run config asked bs hexpects hplain htopic hothers hpending with ⟨hwaits, -⟩ |
      ⟨o, ho, haccepted⟩
    · rw [(sound_run config _).outcome?_of_waits hwaits.waits] at hsuccess
      cases hsuccess
    · exact haccepted (Option.some.inj (ho.symm.trans hsuccess))

/-! ### A value that is refused, and one that is not -/

/-- A client sets a value and waits, and its command is the next one. -/
def asks (topic : String) : List Action :=
  [.submit (.request (.publish ⟨topic, Value.u8 1, .retained, 0, 0⟩ 400)), .advance, .advance]

/-- The dispatcher goes on to the end of its round. -/
def roundEnds : List Action := List.replicate 3 .advance

/-- A listener that refuses everything listens to a topic. -/
def busyListener : List Action :=
  [.addListener (answering (some .busy)),
    .submit (.request (.subscribe "a" "listener" { publish := true } 0)), .advance, .advance] ++ roundEnds

/-- A client sets a value that is refused, and then sets it again. -/
def asksAgain : List Action := asks "a/x" ++ roundEnds ++ asks "a/x"

/-- A client sets a value of a device. -/
def asksDevice : List Action :=
  [.submit (.registerDevice "u/js220/0001"), .advance, .advance, .advance, .advance, .advance] ++
    asks "u/js220/0001/x"

/-- The device takes it. -/
def deviceTakes : List Action :=
  [.submit (.send (.make {} ⟨"u/js220/0001/x#", by decide⟩ (Value.i32 0) {})), .advance, .advance,
    .advance, .advance]

/-- The command of the client that sets the value again, -/
def repeatedCommand : Envelope :=
  (run {} (busyListener ++ asksAgain)).phase.commandsLeft.head (by decide +kernel)

/-- and of the one that asks the device. -/
def deviceCommand : Envelope := (run {} asksDevice).phase.commandsLeft.head (by decide +kernel)

theorem busyListener_commandsLeft :
    (run {} (busyListener ++ asksAgain)).phase.commandsLeft =
      repeatedCommand :: (run {} (busyListener ++ asksAgain)).phase.commandsLeft.tail :=
  (List.cons_head_tail _).symm

theorem asksDevice_commandsLeft :
    (run {} asksDevice).phase.commandsLeft =
      deviceCommand :: (run {} asksDevice).phase.commandsLeft.tail :=
  (List.cons_head_tail _).symm

theorem repeatedCommand_spec :
    repeatedCommand.call = some ⟨"a/x#", 400, 1⟩ ∧ repeatedCommand.topic.suffix = none ∧
      repeatedCommand.topic.isAction = false ∧
      (run {} (busyListener ++ asksAgain)).bus.isThere repeatedCommand = true := by
  decide +kernel

theorem deviceCommand_spec :
    deviceCommand.call = some ⟨"u/js220/0001/x#", 400, 0⟩ ∧ deviceCommand.topic.suffix = none ∧
      deviceCommand.topic.isAction = false ∧
      (run {} asksDevice).bus.isThere deviceCommand = false := by
  decide +kernel

/-- The listener is not asked again, and what it said stays. The device is asked. -/
theorem repeated_or_asked :
    ((run {} (busyListener ++ asksAgain ++ [.advance])).outcome? 1 = some ⟨0, none⟩ ∧
      (reception {} (busyListener ++ asksAgain ++ [.advance]) repeatedCommand.topic).answers =
        [some .busy]) ∧
    (reception {} (asksDevice ++ [.advance] ++ deviceTakes) deviceCommand.topic).Accepted := by
  obtain ⟨hcall, hplain, haction, hthere⟩ := repeatedCommand_spec
  obtain ⟨hcall', hplain', haction', hnew⟩ := deviceCommand_spec
  have hrepeated := (run_success {} (busyListener ++ asksAgain) busyListener_commandsLeft hcall hplain
    haction (by decide +kernel)).1 hthere
  have hasked := (run_success {} asksDevice asksDevice_commandsLeft hcall' hplain' haction'
    (by decide +kernel)).2 hnew deviceTakes
  refine ⟨⟨hrepeated.1, ?_⟩, (hasked ?_ (by decide +kernel) (by decide +kernel)).1⟩
  · rw [hrepeated.2.1]
    decide +kernel
  · have hnone : (logFrom commandsHandled (run {} (asksDevice ++ [.advance])) deviceTakes).isEmpty :=
      by decide +kernel
    rw [List.isEmpty_iff.mp hnone]
    exact List.forall_mem_nil _

end Dispatcher

/-- The deed starts no subscription and ends none, so no device comes or goes either. -/
def Deed.isPublication : Deed → Bool
  | .publish _ | .announce _ _ => true
  | _ => false

namespace Dispatcher

/-- So it is not true that a success always says that the value is accepted: not even if nothing was
kept at the topic when subscriptions and devices were last changed. -/
theorem not_success_always_accepted :
    ¬ ∀ (config : BusConfig) (as bs : List Action) (e : Envelope) (es : List Envelope)
        (call : PendingCall),
      (∀ deed ∈ (run config as).historyFrom bs, deed.isPublication = true) →
      (run config as).bus.keptValue e.topic = none →
      (run config (as ++ bs)).phase.commandsLeft = e :: es → e.call = some call →
      e.topic.suffix = none → e.topic.isAction = false → e.isRetained = true → e.origin = none →
      (∀ other ∈ (run config (as ++ bs)).bus.calls.pending.waiting, other.topic ≠ call.topic) →
      (run config (as ++ bs ++ [.advance])).outcome? call.slot = some ⟨0, none⟩ →
      (reception config (as ++ bs ++ [.advance]) e.topic).Accepted := by
  intro halways
  obtain ⟨hcall, hplain, haction, -⟩ := repeatedCommand_spec
  have haccepted := halways {} busyListener asksAgain repeatedCommand _ _ (by decide +kernel)
    (by decide +kernel) busyListener_commandsLeft hcall hplain haction (by decide +kernel)
    (by decide +kernel) (by decide +kernel) (by decide +kernel)
  revert haccepted
  decide +kernel

end Dispatcher
end InstrumentBus
