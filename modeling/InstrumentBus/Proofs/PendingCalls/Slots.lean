import Mathlib
import InstrumentBus.PendingCalls

/-!
# Slots and the records that may write them

A slot is open from its creation until it is given an outcome. Writing into a slot that is not open
does nothing, so an outcome stays what it was: `CallSlots.Extends`. Whoever holds the record of a
call may write its slot once; `CallSlots.Owned` says that there is one record for each open slot and
none for any other, and every operation on slots keeps this for the records that are left.
-/

namespace InstrumentBus.CallSlots

variable {s s' s'' : CallSlots} {slot other : SlotId} {o : CallOutcome}
  {call : PendingCall} {calls rest : List PendingCall}

/-- The slot was created and has no outcome yet. -/
def IsOpen (s : CallSlots) (slot : SlotId) : Prop := s.outcomes[slot]? = some none

instance (s : CallSlots) (slot : SlotId) : Decidable (s.IsOpen slot) :=
  inferInstanceAs (Decidable (s.outcomes[slot]? = some none))

theorem isOpen_iff : s.IsOpen slot ↔ slot < s.outcomes.length ∧ s.outcome? slot = none := by
  unfold IsOpen outcome?
  rw [List.getElem?_eq_some_iff]
  constructor
  · rintro ⟨hlt, hnone⟩
    simp [hlt, hnone]
  · rintro ⟨hlt, hjoin⟩
    exact ⟨hlt, by simpa [hlt] using hjoin⟩

/-! ## What the operations write -/

theorem getElem?_resolve (s : CallSlots) (slot : SlotId) (o : CallOutcome) (other : SlotId) :
    (s.resolve slot o).2.outcomes[other]? =
      if s.IsOpen slot ∧ other = slot then some (some o) else s.outcomes[other]? := by
  unfold resolve
  by_cases hopen : s.IsOpen slot
  · rw [show s.outcomes[slot]? = some none from hopen]
    have hlt : slot < s.outcomes.length := (isOpen_iff.mp hopen).1
    simp only [hopen, true_and]
    by_cases he : other = slot
    · rw [if_pos he, he, List.getElem?_set_self hlt]
    · rw [if_neg he, List.getElem?_set_ne (Ne.symm he)]
  · rw [if_neg (by tauto)]
    split
    · rename_i h
      exact absurd h hopen
    · rfl

theorem length_resolve (s : CallSlots) (slot : SlotId) (o : CallOutcome) :
    (s.resolve slot o).2.outcomes.length = s.outcomes.length := by
  unfold resolve
  split <;> simp

theorem resolve_isOpen_iff : (s.resolve slot o).2.IsOpen other ↔ s.IsOpen other ∧ other ≠ slot := by
  unfold IsOpen
  rw [getElem?_resolve]
  by_cases he : other = slot
  · subst he
    by_cases hopen : s.IsOpen other
    · simp [hopen]
    · rw [if_neg (by tauto)]
      exact iff_of_false hopen (by tauto)
  · simp [he]

theorem outcome?_resolve_of_ne (h : other ≠ slot) :
    (s.resolve slot o).2.outcome? other = s.outcome? other := by
  unfold outcome?
  rw [getElem?_resolve, if_neg (by tauto)]

theorem outcome?_resolve_self (h : s.IsOpen slot) : (s.resolve slot o).2.outcome? slot = some o := by
  unfold outcome?
  rw [getElem?_resolve, if_pos ⟨h, rfl⟩]
  rfl

theorem eq_of_getElem?_eq (h : ∀ i : Nat, s.outcomes[i]? = s'.outcomes[i]?) : s = s' := by
  obtain ⟨l⟩ := s
  obtain ⟨l'⟩ := s'
  rw [mk.injEq]
  exact List.ext_getElem? h

theorem resolve_comm (s : CallSlots) (slot other : SlotId) (o : CallOutcome) :
    ((s.resolve slot o).2.resolve other o).2 = ((s.resolve other o).2.resolve slot o).2 := by
  apply eq_of_getElem?_eq
  intro i
  simp only [getElem?_resolve, resolve_isOpen_iff]
  -- only at the two slots is there anything to compare, and both get the same outcome
  by_cases hi : i = slot <;> by_cases hi' : i = other <;> grind

/-- It does not matter in which order several slots are given one outcome. -/
theorem resolveAll_perm {slots slots' : List SlotId} (h : slots.Perm slots') (s : CallSlots)
    (o : CallOutcome) : s.resolveAll slots o = s.resolveAll slots' o := by
  have hcomm : RightCommutative fun (s : CallSlots) slot => (s.resolve slot o).2 :=
    ⟨fun s slot other => resolve_comm s slot other o⟩
  exact h.foldl_eq s

theorem resolveAll_cons (s : CallSlots) (slot : SlotId) (slots : List SlotId) (o : CallOutcome) :
    s.resolveAll (slot :: slots) o = (s.resolve slot o).2.resolveAll slots o := rfl

theorem length_resolveAll (s : CallSlots) (slots : List SlotId) (o : CallOutcome) :
    (s.resolveAll slots o).outcomes.length = s.outcomes.length := by
  induction slots generalizing s with
  | nil => rfl
  | cons slot slots ih => rw [resolveAll_cons, ih, length_resolve]

theorem getElem?_create (s : CallSlots) (i : Nat) :
    s.create.2.outcomes[i]? = if i = s.create.1 then some none else s.outcomes[i]? := by
  show (s.outcomes ++ [none])[i]? = if i = s.outcomes.length then some none else s.outcomes[i]?
  by_cases hi : i = s.outcomes.length
  · simp [hi]
  · rw [if_neg hi, List.getElem?_append]
    split
    · rfl
    · rw [List.getElem?_eq_none (by simp; omega), List.getElem?_eq_none (by omega)]

theorem create_isOpen_iff : s.create.2.IsOpen slot ↔ slot = s.create.1 ∨ s.IsOpen slot := by
  unfold IsOpen
  rw [getElem?_create]
  by_cases h : slot = s.create.1 <;> simp [h]

theorem not_isOpen_create (s : CallSlots) : ¬ s.IsOpen s.create.1 := fun h =>
  lt_irrefl _ (isOpen_iff.mp h).1

/-! ## Outcomes stay -/

/-- Slots are never taken back, and neither are outcomes. -/
structure Extends (s s' : CallSlots) : Prop where
  length_le : s.outcomes.length ≤ s'.outcomes.length
  outcome?_eq : ∀ slot o, s.outcome? slot = some o → s'.outcome? slot = some o

theorem Extends.refl (s : CallSlots) : s.Extends s := ⟨le_refl _, fun _ _ h => h⟩

theorem Extends.trans (h : s.Extends s') (h' : s'.Extends s'') : s.Extends s'' :=
  ⟨le_trans h.length_le h'.length_le, fun slot o ho =>
    h'.outcome?_eq slot o (h.outcome?_eq slot o ho)⟩

theorem extends_resolve (s : CallSlots) (slot : SlotId) (o : CallOutcome) :
    s.Extends (s.resolve slot o).2 := by
  refine ⟨le_of_eq (length_resolve s slot o).symm, fun other o' h => ?_⟩
  by_cases he : s.IsOpen slot ∧ other = slot
  · -- an open slot has no outcome that could be lost
    obtain ⟨hopen, rfl⟩ := he
    rw [(isOpen_iff.mp hopen).2] at h
    exact absurd h (by simp)
  · unfold outcome?
    rw [getElem?_resolve, if_neg he]
    exact h

theorem extends_resolveAll (s : CallSlots) (slots : List SlotId) (o : CallOutcome) :
    s.Extends (s.resolveAll slots o) := by
  induction slots generalizing s with
  | nil => exact Extends.refl s
  | cons slot slots ih => exact (extends_resolve s slot o).trans (ih _)

/-- Of several slots that are ended at once, each that was open has the outcome. -/
theorem outcome?_resolveAll_of_mem {slots : List SlotId} (hopen : s.IsOpen slot)
    (hmem : slot ∈ slots) (o : CallOutcome) : (s.resolveAll slots o).outcome? slot = some o := by
  induction slots generalizing s with
  | nil => cases hmem
  | cons other slots ih =>
    rw [resolveAll_cons]
    by_cases heq : slot = other
    · subst heq
      exact (extends_resolveAll _ slots o).outcome?_eq slot o (outcome?_resolve_self hopen)
    · have hrest := (List.mem_cons.mp hmem).resolve_left heq
      exact ih (resolve_isOpen_iff.mpr ⟨hopen, heq⟩) hrest

theorem extends_create (s : CallSlots) : s.Extends s.create.2 := by
  refine ⟨by simp [create], fun slot o h => ?_⟩
  have hne : slot ≠ s.create.1 := by
    rintro rfl
    simp [outcome?, create] at h
  unfold outcome?
  rw [getElem?_create, if_neg hne]
  exact h

/-! ## Who may write -/

/-- There is one record for each open slot, and none for any other slot. -/
def Owned (s : CallSlots) (calls : List PendingCall) : Prop :=
  ∀ slot, (calls.map (·.slot)).count slot = if s.IsOpen slot then 1 else 0

theorem Owned.perm (h : s.Owned calls) (hperm : calls.Perm rest) : s.Owned rest := fun slot => by
  rw [← h slot, (hperm.map _).count_eq]

theorem Owned.isOpen (h : s.Owned calls) (hcall : call ∈ calls) : s.IsOpen call.slot := by
  have hcount := h call.slot
  have hpos : 0 < (calls.map (·.slot)).count call.slot :=
    List.count_pos_iff.mpr (List.mem_map_of_mem hcall)
  by_contra hclosed
  rw [if_neg hclosed] at hcount
  omega

/-- Two records of one slot are the same record. -/
theorem Owned.notMem_tail (h : s.Owned (call :: rest)) : call.slot ∉ rest.map (·.slot) := by
  have hcount := h call.slot
  rw [List.map_cons, List.count_cons_self, if_pos (h.isOpen List.mem_cons_self)] at hcount
  exact List.count_eq_zero.mp (by omega)

theorem owned_nil_iff : s.Owned [] ↔ ∀ slot, ¬ s.IsOpen slot := by
  refine forall_congr' fun slot => ?_
  by_cases h : s.IsOpen slot <;> simp [h]

theorem Owned.create (h : s.Owned calls) (topic : String) (deadline : Nat) :
    s.create.2.Owned (⟨topic, deadline, s.create.1⟩ :: calls) := by
  intro slot
  have hcount := h slot
  rw [List.map_cons, List.count_cons, hcount]
  by_cases he : slot = s.create.1
  · subst he
    rw [if_neg (not_isOpen_create s), if_pos (create_isOpen_iff.mpr (Or.inl rfl))]
    simp
  · have hiff : s.create.2.IsOpen slot ↔ s.IsOpen slot := by
      rw [create_isOpen_iff]
      exact or_iff_right he
    have hne : ¬ s.create.1 = slot := fun e => he e.symm
    simp only [hiff, beq_iff_eq, hne, if_false, Nat.add_zero]

theorem Owned.resolve (h : s.Owned (call :: rest)) (o : CallOutcome) :
    (s.resolve call.slot o).2.Owned rest := by
  intro slot
  have hcount := h slot
  rw [List.map_cons, List.count_cons] at hcount
  by_cases he : slot = call.slot
  · subst he
    rw [if_pos (h.isOpen List.mem_cons_self)] at hcount
    rw [if_neg (by rw [resolve_isOpen_iff]; tauto)]
    simp only [beq_self_eq_true, if_true] at hcount
    omega
  · have hiff : (s.resolve call.slot o).2.IsOpen slot ↔ s.IsOpen slot := by
      rw [resolve_isOpen_iff]
      exact and_iff_left he
    have hne : ¬ call.slot = slot := fun e => he e.symm
    simp only [hiff]
    simpa only [beq_iff_eq, hne, if_false, Nat.add_zero] using hcount

theorem Owned.resolveAll (h : s.Owned (calls ++ rest)) (o : CallOutcome) :
    (s.resolveAll (calls.map (·.slot)) o).Owned rest := by
  induction calls generalizing s with
  | nil => exact h
  | cons call calls ih =>
    rw [List.map_cons, resolveAll_cons]
    exact ih (h.resolve o)

end InstrumentBus.CallSlots
