import Mathlib
import InstrumentBus.Proofs.PendingCalls.Operations
import InstrumentBus.Proofs.PendingCalls.Slots

/-!
# A table of calls is a plain list

While its indices agree with its calls, a `CallTable` does on every request what the plain list that
it stands for does. The lemmas come one for each operation; the theorem at the end puts them together
for all sequences of requests.
-/

namespace InstrumentBus.CallTable

variable {t : CallTable} {call : PendingCall} {topic : String} {o : CallOutcome}

/-! ## One request -/

@[simp] theorem register_plain (t : CallTable) (call : PendingCall) :
    (t.register call).plain = t.plain.register call := by
  unfold plain register PlainCalls.register
  simp

theorem complete_eq_plain (h : t.pending.Indexed) (topic : String) (o : CallOutcome) :
    (t.complete topic o).1 = (t.plain.complete topic o).1 ∧
      (t.complete topic o).2.pending.Indexed ∧
      (t.complete topic o).2.plain = (t.plain.complete topic o).2 := by
  unfold complete PlainCalls.complete
  cases htake : t.pending.take? topic with
  | none =>
    have hnone : PendingCall.soonest? topic t.plain.waiting = none := h.take?_eq_none_iff.mp htake
    rw [hnone]
    exact ⟨rfl, h, rfl⟩
  | some found =>
    obtain ⟨call, rest⟩ := found
    obtain ⟨hsoonest, hindexed, hwaiting⟩ := h.take?_eq_some htake
    have hsome : PendingCall.soonest? topic t.plain.waiting = some call := hsoonest
    rw [hsome]
    refine ⟨rfl, hindexed, ?_⟩
    simp only [plain, resolve]
    rw [hwaiting]

theorem expireDue_eq_plain (h : t.pending.Indexed) (now : Nat) :
    (t.expireDue now).1 = (t.plain.expireDue now).1 ∧
      (t.expireDue now).2.pending.Indexed ∧
      (t.expireDue now).2.plain = (t.plain.expireDue now).2 := by
  have hperm := h.takeDue_perm now
  refine ⟨hperm.length_eq, h.takeDue now, ?_⟩
  simp only [expireDue, plain, resolveAll, PlainCalls.expireDue]
  -- the calls are ended by deadline, which the slots do not show
  rw [h.takeDue_waiting, CallSlots.resolveAll_perm (hperm.map _)]

theorem abortAll_eq_plain (t : CallTable) :
    t.abortAll.1 = t.plain.abortAll.1 ∧ t.abortAll.2.pending.Indexed ∧
      t.abortAll.2.plain = t.plain.abortAll.2 :=
  ⟨rfl, PendingCalls.indexed_empty _, rfl⟩

theorem nextDeadline_eq_plain (h : t.pending.Indexed) :
    t.nextDeadline.1 = t.plain.nextDeadline ∧ t.nextDeadline.2.pending.Indexed ∧
      t.nextDeadline.2.plain = t.plain :=
  ⟨h.nextDeadline_eq_min?, h.nextDeadline, rfl⟩

/-! ## All requests -/

theorem perform_eq_plain (h : t.pending.Indexed) (r : TableRequest) :
    (operations.perform t r).1 = (PlainCalls.operations.perform t.plain r).1 ∧
      (operations.perform t r).2.pending.Indexed ∧
      (operations.perform t r).2.plain = (PlainCalls.operations.perform t.plain r).2 := by
  cases r with
  | register call => exact ⟨rfl, h.register call, register_plain t call⟩
  | complete topic o =>
    obtain ⟨hanswer, hrest⟩ := complete_eq_plain h topic o
    exact ⟨congrArg TableAnswer.found hanswer, hrest⟩
  | expireDue now =>
    obtain ⟨hanswer, hrest⟩ := expireDue_eq_plain h now
    exact ⟨congrArg TableAnswer.count hanswer, hrest⟩
  | nextDeadline =>
    obtain ⟨hanswer, hrest⟩ := nextDeadline_eq_plain h
    exact ⟨congrArg TableAnswer.deadline hanswer, hrest⟩
  | size =>
    have hlength : t.pending.size = t.plain.waiting.length := by
      unfold PendingCalls.size plain PendingCalls.waiting
      rw [List.length_map]
    exact ⟨congrArg TableAnswer.count hlength, h, rfl⟩
  | abortAll =>
    obtain ⟨hanswer, hrest⟩ := abortAll_eq_plain t
    exact ⟨congrArg TableAnswer.count hanswer, hrest⟩

/-- Every sequence of requests to an empty table has the answers, and leaves the waiting calls and
the slots, that it has and leaves on a plain list. -/
theorem performAll_eq_plain (slots : CallSlots) (rs : List TableRequest) :
    (operations.performAll rs { slots }).map id plain =
      PlainCalls.operations.performAll rs { slots } := by
  have hstep : ∀ (t : CallTable) (p : PlainCalls) (r : TableRequest),
      (t.pending.Indexed ∧ t.plain = p) →
        (operations.perform t r).1 = (PlainCalls.operations.perform p r).1 ∧
          (operations.perform t r).2.pending.Indexed ∧
          (operations.perform t r).2.plain = (PlainCalls.operations.perform p r).2 := by
    rintro t p r ⟨hindexed, rfl⟩
    exact perform_eq_plain hindexed r
  obtain ⟨hanswers, -, hplain⟩ := TableOperations.performAll_related hstep rs
    (s := { slots }) (t := { slots }) ⟨PendingCalls.indexed_empty 0, rfl⟩
  exact Prod.ext hanswers hplain

end InstrumentBus.CallTable
