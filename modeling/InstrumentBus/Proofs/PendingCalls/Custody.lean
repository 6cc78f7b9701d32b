import Mathlib
import InstrumentBus.Proofs.PendingCalls.Refinement

/-!
# Who holds the records of open slots

The record of a call is made by a client and then is either in the table or somewhere on its way
there. `CallTable.Sound` says that the records in the table together with these `others` are the
records of the open slots, one each. Every operation of the table moves, makes or uses up records
and keeps this; a slot is written only by using up its record.
-/

namespace InstrumentBus.CallTable

variable {base : CallSlots} {others others' calls : List PendingCall} {t : CallTable}
  {call : PendingCall} {topic : String} {o : CallOutcome}

/-- Each open slot has one record, in the table or among the others, and no other slot has any; all
outcomes that were in `base` are there still. -/
structure Sound (base : CallSlots) (others : List PendingCall) (t : CallTable) : Prop where
  indexed : t.pending.Indexed
  owned : t.slots.Owned (others ++ t.pending.waiting)
  kept : base.Extends t.slots

theorem sound_empty : Sound {} [] {} where
  indexed := PendingCalls.indexed_empty 0
  owned := CallSlots.owned_nil_iff.mpr fun slot h => by simp [CallSlots.IsOpen] at h
  kept := CallSlots.Extends.refl _

/-- From any moment on what there is then is kept. -/
theorem Sound.rebase (h : Sound base others t) : Sound t.slots others t :=
  ⟨h.indexed, h.owned, CallSlots.Extends.refl _⟩

theorem Sound.perm (h : Sound base others t) (hperm : others.Perm others') : Sound base others' t :=
  ⟨h.indexed, h.owned.perm (hperm.append_right _), h.kept⟩

/-! ## Records outside of the table -/

theorem Sound.create (h : Sound base others t) (topic : String) (deadline : Nat) :
    Sound base ((t.create topic deadline).1 :: others) (t.create topic deadline).2 where
  indexed := h.indexed
  owned := h.owned.create topic deadline
  kept := h.kept.trans (CallSlots.extends_create _)

theorem Sound.register (h : Sound base (call :: others) t) : Sound base others (t.register call) where
  indexed := h.indexed.register call
  owned := by
    show t.slots.Owned (others ++ (t.pending.register call).waiting)
    rw [PendingCalls.register_waiting]
    refine h.owned.perm ?_
    rw [← List.append_assoc]
    exact (List.perm_append_singleton call _).symm
  kept := h.kept

theorem Sound.resolve (h : Sound base (call :: others) t) (o : CallOutcome) :
    Sound base others (t.resolve call o) where
  indexed := h.indexed
  owned := CallSlots.Owned.resolve h.owned o
  kept := h.kept.trans (CallSlots.extends_resolve _ _ _)

theorem Sound.dropAll (h : Sound base (calls ++ others) t) :
    Sound base others (calls.foldl drop t) := by
  induction calls generalizing t with
  | nil => exact h
  | cons call calls ih => exact ih (h.resolve (.ofStatus .aborted))

theorem dropAll_pending (calls : List PendingCall) (t : CallTable) :
    (calls.foldl drop t).pending = t.pending := by
  induction calls generalizing t with
  | nil => rfl
  | cons call calls ih => exact ih (t.drop call)

/-! ## Records in the table -/

theorem complete_of_none (h : t.pending.Indexed)
    (hnone : PendingCall.soonest? topic t.pending.waiting = none) (o : CallOutcome) :
    t.complete topic o = (false, t) := by
  unfold complete
  rw [h.take?_eq_none_iff.mpr hnone]

theorem complete_of_some (h : t.pending.Indexed)
    (hsome : PendingCall.soonest? topic t.pending.waiting = some call) (o : CallOutcome) :
    (t.complete topic o).2.pending.waiting = t.pending.waiting.erase call ∧
      (t.complete topic o).2.slots = (t.slots.resolve call.slot o).2 := by
  obtain ⟨-, -, hplain⟩ := complete_eq_plain h topic o
  have hfound : (t.plain.complete topic o).2 =
      ⟨t.pending.waiting.erase call, (t.slots.resolve call.slot o).2⟩ := by
    unfold PlainCalls.complete
    rw [show PendingCall.soonest? topic t.plain.waiting = some call from hsome]
    rfl
  rw [hfound] at hplain
  exact ⟨congrArg PlainCalls.waiting hplain, congrArg PlainCalls.slots hplain⟩

theorem complete_waiting_subset (h : t.pending.Indexed) (topic : String) (o : CallOutcome) :
    (t.complete topic o).2.pending.waiting ⊆ t.pending.waiting := by
  cases hsoonest : PendingCall.soonest? topic t.pending.waiting with
  | none =>
    rw [complete_of_none h hsoonest]
    exact List.Subset.refl _
  | some call =>
    rw [(complete_of_some h hsoonest o).1]
    exact List.erase_subset

theorem Sound.complete (h : Sound base others t) (topic : String) (o : CallOutcome) :
    Sound base others (t.complete topic o).2 := by
  cases hsoonest : PendingCall.soonest? topic t.pending.waiting with
  | none =>
    rw [complete_of_none h.indexed hsoonest]
    exact h
  | some call =>
    obtain ⟨hwaiting, hslots⟩ := complete_of_some h.indexed hsoonest o
    have hmem := (PendingCall.mem_of_soonest? hsoonest).1
    refine ⟨(complete_eq_plain h.indexed topic o).2.1, ?_, ?_⟩
    · rw [hwaiting, hslots]
      -- the record that is used up is one of those in the table
      have hperm : (others ++ t.pending.waiting).Perm
          (call :: (others ++ t.pending.waiting.erase call)) :=
        ((List.perm_cons_erase hmem).append_left others).trans List.perm_middle
      exact (h.owned.perm hperm).resolve o
    · rw [hslots]
      exact h.kept.trans (CallSlots.extends_resolve _ _ _)

theorem expireDue_waiting_subset (h : t.pending.Indexed) (now : Nat) :
    (t.expireDue now).2.pending.waiting ⊆ t.pending.waiting := by
  have hwaiting : (t.expireDue now).2.pending.waiting =
      t.pending.waiting.filter (now < ·.deadline) :=
    congrArg PlainCalls.waiting (expireDue_eq_plain h now).2.2
  rw [hwaiting]
  exact List.filter_subset_self _

theorem Sound.expireDue (h : Sound base others t) (now : Nat) :
    Sound base others (t.expireDue now).2 := by
  obtain ⟨-, hindexed, hplain⟩ := expireDue_eq_plain h.indexed now
  have hwaiting : (t.expireDue now).2.pending.waiting =
      t.pending.waiting.filter (now < ·.deadline) := congrArg PlainCalls.waiting hplain
  have hslots : (t.expireDue now).2.slots =
      t.slots.resolveAll ((t.pending.waiting.filter (·.deadline ≤ now)).map (·.slot))
        (.ofStatus .timedOut) := congrArg PlainCalls.slots hplain
  refine ⟨hindexed, ?_, ?_⟩
  · rw [hwaiting, hslots]
    refine CallSlots.Owned.resolveAll (h.owned.perm ?_) _
    have hsplit : t.pending.waiting.Perm
        (t.pending.waiting.filter (·.deadline ≤ now) ++
          t.pending.waiting.filter (now < ·.deadline)) := by
      have hlate : t.pending.waiting.filter (fun call => !decide (call.deadline ≤ now)) =
          t.pending.waiting.filter (now < ·.deadline) := by
        apply List.filter_congr
        intro call _
        by_cases hlt : now < call.deadline
        · simp [hlt]
        · simp [hlt, Nat.not_lt.mp hlt]
      rw [← hlate]
      exact (List.filter_append_perm _ _).symm
    refine (hsplit.append_left others).trans ?_
    rw [← List.append_assoc, ← List.append_assoc]
    exact List.perm_append_comm.append_right _
  · rw [hslots]
    exact h.kept.trans (CallSlots.extends_resolveAll _ _ _)

theorem Sound.nextDeadline (h : Sound base others t) : Sound base others t.nextDeadline.2 :=
  ⟨h.indexed.nextDeadline, h.owned, h.kept⟩

theorem abortAll_waiting (t : CallTable) : t.abortAll.2.pending.waiting = [] := rfl

theorem Sound.abortAll (h : Sound base others t) : Sound base others t.abortAll.2 where
  indexed := PendingCalls.indexed_empty _
  owned := by
    rw [abortAll_waiting, List.append_nil]
    exact CallSlots.Owned.resolveAll (h.owned.perm List.perm_append_comm) _
  kept := h.kept.trans (CallSlots.extends_resolveAll _ _ _)

end InstrumentBus.CallTable
