import Mathlib
import InstrumentBus.Proofs.Dispatch.Submissions
import InstrumentBus.Proofs.Dispatch.Deeds

/-!
# The history of a run

`Dispatcher.plan` says which deeds the next step of the dispatcher is made of; `untold_advance` that
these are the whole step, as far as the tree and the listeners are concerned. The deeds of all steps
of a run are its `history`, and what the tree keeps is determined by it: `run_contents`.

`historyFrom_induction` is the way to show what a run preserves, one deed at a time.
-/

namespace InstrumentBus

namespace Bus

variable {b b' : Bus} {e : Envelope}

/-! ## What is no deed -/

/-- The second bus has the tree of the first, and no listener has heard anything new. -/
structure Untold (b b' : Bus) : Prop where
  tree_eq : b'.tree = b.tree
  record_eq : b'.audience.record = b.audience.record
  listeners_le : b.audience.listeners.length ≤ b'.audience.listeners.length

theorem Untold.rooted (h : b.Untold b') (hrooted : b.tree.Rooted) : b'.tree.Rooted := by
  rw [h.tree_eq]
  exact hrooted

theorem untold_of_audience (htree : b'.tree = b.tree) (haudience : b'.audience = b.audience) :
    b.Untold b' := by
  refine ⟨htree, ?_, ?_⟩
  · rw [haudience]
  · rw [haudience]

theorem audience_submit (b : Bus) (e : Envelope) (timeout : Nat) :
    (b.submit e timeout false).2.audience = b.audience := by
  unfold submit
  split
  · rfl
  · split
    · rfl
    · split
      · cases hpush : b.pushCommand? e with
        | none => rfl
        | some b' =>
          obtain ⟨-, rfl⟩ := pushCommand?_eq_some hpush
          rfl
      · simp only [Bool.false_eq_true, if_false]
        split
        · rename_i b' hpush
          obtain ⟨-, rfl⟩ := pushCommand?_eq_some hpush
          rfl
        · rfl

theorem audience_send (b : Bus) (e : Envelope) : (b.send e).2.audience = b.audience := by
  unfold send
  split
  · rfl
  · split
    · rfl
    · cases hpush : b.pushBackend? e with
      | none => rfl
      | some b' =>
        obtain ⟨backend, -, rfl⟩ := Option.map_eq_some_iff.mp hpush
        rfl

/-- What clients and backends hand over is not heard before the dispatcher has seen it. -/
theorem audience_accept (b : Bus) (s : Submission) : (b.accept s).audience = b.audience := by
  cases s with
  | request r =>
    show (b.acceptRequest r).audience = _
    unfold acceptRequest
    split
    · rfl
    · exact audience_submit b _ _
  | shutdown =>
    show b.requestEnd.audience = _
    unfold requestEnd
    split
    · rfl
    · simp only
      cases hpush : pushCommand? { b with closed := true } _ with
      | none => rfl
      | some b' =>
        obtain ⟨-, rfl⟩ := pushCommand?_eq_some hpush
        rfl
  | command e timeout => exact audience_submit b e.bare timeout
  | send e => exact audience_send b e.bare
  | registerDevice name =>
    show (b.registerDevice name).2.audience = _
    unfold registerDevice
    split
    · rfl
    · exact audience_send _ _
  | unregisterDevice name =>
    show (b.unregisterDevice name).2.audience = _
    unfold unregisterDevice
    split
    · rfl
    · exact audience_send b _

theorem untold_accept (b : Bus) (s : Submission) : b.Untold (b.accept s) :=
  untold_of_audience (handed_accept b s).tree_eq (audience_accept b s)

theorem untold_acceptLate (b : Bus) (s : Submission) : b.Untold (b.acceptLate s) := by
  refine untold_of_audience (handed_acceptLate b s).tree_eq ?_
  unfold acceptLate
  split
  · exact audience_accept _ s
  · exact audience_accept b s

theorem audience_closeInboxes (ds : List Device) (b : Bus) :
    (ds.foldl (fun b d => b.closeInbox d.inbox) b).audience = b.audience := by
  induction ds generalizing b with
  | nil => rfl
  | cons d ds ih => exact ih (b.closeInbox d.inbox)

/-- At the end the tree is taken down. -/
theorem untold_finish (b : Bus) : (b.perform .clear).Untold b.finish :=
  untold_of_audience rfl (audience_closeInboxes b.devices.list b)

theorem untold_addPlan (b : Bus) (e : Envelope) (topic : Topic) (p : InboxId) :
    b.Untold (b.addPlan e topic p).bus := by
  unfold addPlan
  split <;> exact untold_of_audience rfl rfl

theorem untold_removePlan (b : Bus) (e : Envelope) (name : String) :
    b.Untold (b.removePlan e name).bus := by
  unfold removePlan
  split <;> exact untold_of_audience rfl rfl

theorem untold_backendPlan (b : Bus) (e : Envelope) : b.Untold (b.backendPlan e).bus := by
  unfold backendPlan
  split
  · split
    · split
      · exact untold_addPlan b e _ _
      · exact untold_of_audience rfl rfl
    · split
      · split
        · exact untold_removePlan b e _
        · exact untold_of_audience rfl rfl
      · exact untold_of_audience rfl rfl
  · exact untold_of_audience rfl rfl

theorem untold_commandPlan (b : Bus) (e : Envelope) : b.Untold (b.commandPlan e).bus := by
  obtain ⟨calls, hbus⟩ := b.bus_commandPlan e
  rw [hbus]
  exact untold_of_audience rfl rfl

end Bus

/-! ## Steps and runs -/

namespace Dispatcher

variable {d : Dispatcher}

/-- The deeds that the next step is made of. Most steps only take envelopes from a queue or look at
the clock. -/
def plan : Dispatcher → Plan
  | ⟨b, .backends (e :: _)⟩ => b.backendPlan e
  | ⟨b, .commands (e :: _)⟩ => if e.topic = .finalize then ⟨b, []⟩ else b.commandPlan e
  | ⟨b, .closing⟩ => ⟨b, [.clear]⟩
  | ⟨b, _⟩ => ⟨b, []⟩

theorem untold_plan (d : Dispatcher) : d.bus.Untold d.plan.bus := by
  obtain ⟨b, phase⟩ := d
  have hself : b.Untold b := Bus.untold_of_audience rfl rfl
  cases phase with
  | backends es =>
    cases es with
    | nil => exact hself
    | cons e es => exact Bus.untold_backendPlan b e
  | commands es =>
    cases es with
    | nil => exact hself
    | cons e es =>
      by_cases he : e.topic = .finalize
      · simp only [plan, if_pos he]
        exact hself
      · simp only [plan, if_neg he]
        exact Bus.untold_commandPlan b e
  | _ => exact hself

/-- The deeds of a step are all that it does to the tree and the listeners. -/
theorem untold_advance (h : d.bus.tree.Rooted) : d.plan.done.Untold d.advance.bus := by
  obtain ⟨b, phase⟩ := d
  cases phase with
  | backends es =>
    cases es with
    | nil => exact Bus.untold_of_audience rfl rfl
    | cons e es =>
      have hdone : (⟨b, .backends (e :: es)⟩ : Dispatcher).advance.bus = (b.backendPlan e).done :=
        Bus.handleBackend_eq h e
      rw [hdone]
      exact Bus.untold_of_audience rfl rfl
  | commands es =>
    cases es with
    | nil => exact Bus.untold_of_audience rfl rfl
    | cons e es =>
      by_cases he : e.topic = .finalize
      · simp only [plan, advance, if_pos he]
        exact Bus.untold_of_audience rfl rfl
      · simp only [plan, advance, if_neg he]
        obtain ⟨calls, hcalls⟩ := b.handleCommand_eq e
        rw [hcalls]
        exact Bus.untold_of_audience rfl rfl
  | closing => exact Bus.untold_finish b
  | _ => exact Bus.untold_of_audience rfl rfl

/-- Nobody but the dispatcher touches the tree, or tells listeners anything. -/
theorem untold_act {a : Action} (ha : a ≠ .advance) : d.bus.Untold (d.act a).bus := by
  cases a with
  | advance => exact absurd rfl ha
  | submit s => exact Bus.untold_accept d.bus s
  | submitLate s => exact Bus.untold_acceptLate d.bus s
  | collect p => exact Bus.untold_of_audience rfl rfl
  | addListener l =>
    refine ⟨rfl, rfl, ?_⟩
    show _ ≤ (d.bus.audience.listeners ++ [l]).length
    rw [List.length_append]
    exact Nat.le_add_right _ _
  | setClock time => exact Bus.untold_of_audience rfl rfl

/-- The deeds of what happens next. -/
def deedsOf (d : Dispatcher) : Action → List Deed
  | .advance => d.plan.deeds
  | _ => []

theorem deedsOf_of_ne {a : Action} (ha : a ≠ .advance) : d.deedsOf a = [] := by
  cases a with
  | advance => exact absurd rfl ha
  | _ => rfl

/-- The deeds of a run from some moment on. -/
def historyFrom : Dispatcher → List Action → List Deed
  | _, [] => []
  | d, a :: as => d.deedsOf a ++ historyFrom (d.act a) as

/-- What is announced first: the version of the driver, and that there are no devices. -/
def opening (config : BusConfig) : List Deed :=
  [.publish (.make config.bufferSizes .driverVersion (Value.u32 Bus.driverVersion) .retained),
    .publish (Devices.listEnvelope {} config.bufferSizes)]

/-- The deeds of a run. -/
def history (config : BusConfig) (as : List Action) : List Deed :=
  opening config ++ historyFrom ⟨.start config, .awake⟩ as

theorem historyFrom_append (d : Dispatcher) (as bs : List Action) :
    d.historyFrom (as ++ bs) = d.historyFrom as ++ (d.runFrom as).historyFrom bs := by
  induction as generalizing d with
  | nil => rfl
  | cons a as ih =>
    rw [List.cons_append, historyFrom, historyFrom, ih, List.append_assoc]
    rfl

theorem history_append (config : BusConfig) (as bs : List Action) :
    history config (as ++ bs) = history config as ++ (run config as).historyFrom bs := by
  unfold history
  rw [historyFrom_append, List.append_assoc]
  rfl

/-- What every deed preserves, and what does not depend on anything but the tree and the listeners,
holds in all of a run if it holds at the start of it. -/
theorem historyFrom_induction {motive : List Deed → Bus → Prop}
    (hrooted : ∀ h b, motive h b → b.tree.Rooted)
    (huntold : ∀ h b b', b.Untold b' → motive h b → motive h b')
    (hperform : ∀ h b deed, motive h b → motive (h ++ [deed]) (b.perform deed))
    {h : List Deed} (hstart : motive h d.bus) (as : List Action) :
    motive (h ++ d.historyFrom as) (d.runFrom as).bus := by
  have hperformAll : ∀ ds h b, motive h b → motive (h ++ ds) (b.performAll ds) := by
    intro ds
    induction ds with
    | nil =>
      intro h b hb
      rw [List.append_nil]
      exact hb
    | cons deed ds ih =>
      intro h b hb
      have hdone := ih (h ++ [deed]) (b.perform deed) (hperform h b deed hb)
      rw [List.append_assoc] at hdone
      exact hdone
  induction as generalizing d h with
  | nil =>
    rw [historyFrom, List.append_nil]
    exact hstart
  | cons a as ih =>
    rw [historyFrom, ← List.append_assoc]
    apply ih
    by_cases ha : a = .advance
    · subst ha
      have hplan := huntold _ _ _ d.untold_plan hstart
      exact huntold _ _ _ (untold_advance (hrooted _ _ hstart)) (hperformAll _ _ _ hplan)
    · rw [deedsOf_of_ne ha, List.append_nil]
      exact huntold _ _ _ (untold_act ha) hstart

theorem start_eq (config : BusConfig) :
    Bus.start config = ({ config } : Bus).performAll (opening config) := by
  have hdeeds := Bus.publishDeviceList_performAll (b := { config }) Tree.rooted_empty
    [.publish (.make config.bufferSizes .driverVersion (Value.u32 Bus.driverVersion) .retained)]
  exact hdeeds

/-- What the tree keeps is what the history makes of nothing. -/
theorem run_contents (config : BusConfig) (as : List Action) :
    (run config as).bus.tree.Rooted ∧
      (run config as).bus.tree.contents = (history config as).foldl Contents.after .nothing := by
  apply historyFrom_induction (motive := fun h b =>
    b.tree.Rooted ∧ b.tree.contents = h.foldl Contents.after .nothing)
  · exact fun h b hb => hb.1
  · intro h b b' huntold hb
    rw [huntold.tree_eq]
    exact hb
  · intro h b deed hb
    obtain ⟨posts, -, heffect⟩ := Bus.effect_perform hb.1 deed
    refine ⟨heffect.rooted, ?_⟩
    rw [heffect.contents_eq, hb.2, List.foldl_append]
    rfl
  · show (Bus.start config).tree.Rooted ∧ _
    rw [start_eq]
    obtain ⟨hrooted, hcontents⟩ := Bus.performAll_contents (b := { config }) Tree.rooted_empty
      (opening config)
    refine ⟨hrooted, hcontents.trans ?_⟩
    rw [show ({ config } : Bus).tree.contents = .nothing from Tree.contents_empty]

end Dispatcher
end InstrumentBus
