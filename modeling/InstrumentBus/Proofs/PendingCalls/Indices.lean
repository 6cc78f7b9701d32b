import Mathlib
import InstrumentBus.Proofs.PendingCalls.Plain

/-!
# The indices of pending calls

`PendingCalls.Indexed` links the three parts of a table: numbers ascend in the order of
registration, every call has its deadline in the sorted index of deadlines, and the numbers of a
topic are those of its calls. Deadlines of calls that are gone may stay behind; the invariant only
says that a deadline whose number is still in use is the right one.

Here are the invariant, what it says about numbers and deadlines, and that registration keeps it.
-/

namespace InstrumentBus

/-! ## Association lists -/

section Lookup

variable {κ α : Type} [DecidableEq κ]

theorem lookup_cons_ne {k key : κ} (h : k ≠ key) (a : α) (l : List (κ × α)) :
    ((key, a) :: l).lookup k = l.lookup k := by
  have hbeq : (k == key) = false := by simpa using h
  rw [List.lookup_cons, hbeq]

/-- With distinct keys, looking up finds exactly the pairs of the list. -/
theorem lookup_eq_some_iff_mem {l : List (κ × α)} (h : (l.map (·.1)).Nodup) {k : κ} {a : α} :
    l.lookup k = some a ↔ (k, a) ∈ l := by
  induction l with
  | nil => simp
  | cons x l ih =>
    obtain ⟨key, b⟩ := x
    rw [List.map_cons, List.nodup_cons] at h
    have hkey : ∀ b', (key, b') ∉ l := fun b' hb => h.1 (List.mem_map.mpr ⟨_, hb, rfl⟩)
    rw [List.mem_cons]
    by_cases hk : k = key
    · subst hk
      simp [hkey, eq_comm]
    · rw [lookup_cons_ne hk, ih h.2]
      simp [hk]

theorem lookup_eq_none_of_notMem {l : List (κ × α)} {k : κ} (h : k ∉ l.map (·.1)) :
    l.lookup k = none := by
  rw [List.lookup_eq_none_iff]
  intro x hx
  have hne : k ≠ x.1 := fun e => h (List.mem_map.mpr ⟨x, hx, e.symm⟩)
  simpa using hne

end Lookup

/-- The first of the smallest is chosen before or after a change of what is compared. -/
theorem argmin_map {α β : Type} (g : α → β) (f : β → Nat) (l : List α) :
    (l.map g).argmin f = (l.argmin fun a => f (g a)).map g := by
  induction l with
  | nil => rfl
  | cons a l ih =>
    rw [List.map_cons, List.argmin_cons, List.argmin_cons, ih]
    cases l.argmin fun a => f (g a) with
    | none => rfl
    | some c =>
      simp only [Option.map_some]
      split <;> rfl

namespace PendingCalls

variable {p : PendingCalls} {call : PendingCall} {topic : String} {id now : Nat}

/-! ## The invariant -/

/-- The indices of deadlines and of topics speak of the calls in the table. -/
structure Indexed (p : PendingCalls) : Prop where
  /-- Numbers are given in ascending order, -/
  ascending : (p.calls.map (·.1)).Pairwise (· < ·)
  number_le : ∀ x ∈ p.calls, x.1 ≤ p.last
  /-- the earliest deadline comes first, -/
  sorted : p.deadlines.Pairwise fun a b => a.1 ≤ b.1
  deadline_number_le : ∀ d ∈ p.deadlines, d.2 ≤ p.last
  /-- the deadline of a call is never missing, -/
  deadline_mem : ∀ x ∈ p.calls, (x.2.deadline, x.1) ∈ p.deadlines
  /-- and a number that is in use stands at no other deadline. -/
  deadline_eq : ∀ x ∈ p.calls, ∀ d ∈ p.deadlines, d.2 = x.1 → d.1 = x.2.deadline
  topics_nodup : (p.topics.map (·.1)).Nodup
  /-- The numbers of a topic are those of its calls, in the order of their registration. -/
  idsOf_eq : ∀ topic, p.idsOf topic = (p.calls.filter (·.2.topic = topic)).map (·.1)

theorem Indexed.nodup (h : p.Indexed) : (p.calls.map (·.1)).Nodup :=
  h.ascending.imp fun hlt => Nat.ne_of_lt hlt

theorem Indexed.call?_eq_some_iff (h : p.Indexed) : p.call? id = some call ↔ (id, call) ∈ p.calls :=
  lookup_eq_some_iff_mem h.nodup

theorem Indexed.call?_eq_none_iff (h : p.Indexed) : p.call? id = none ↔ ∀ x ∈ p.calls, x.1 ≠ id := by
  rw [Option.eq_none_iff_forall_ne_some]
  constructor
  · intro hnone x hx hid
    subst hid
    exact hnone x.2 (h.call?_eq_some_iff.mpr hx)
  · intro hne call hcall
    exact hne _ (h.call?_eq_some_iff.mp hcall) rfl

/-- A number stands for one call. -/
theorem Indexed.eq_of_number (h : p.Indexed) (hcall : (id, call) ∈ p.calls) {x : Nat × PendingCall}
    (hx : x ∈ p.calls) (hid : x.1 = id) : x = (id, call) := by
  subst hid
  have hfound : p.call? x.1 = some x.2 := h.call?_eq_some_iff.mpr hx
  rw [h.call?_eq_some_iff.mpr hcall] at hfound
  rw [Option.some.inj hfound]

/-- No call is due before the first deadline in the index. -/
theorem Indexed.head_le (h : p.Indexed) {d : Nat × Nat} {ds : List (Nat × Nat)}
    (hds : p.deadlines = d :: ds) {x : Nat × PendingCall} (hx : x ∈ p.calls) :
    d.1 ≤ x.2.deadline := by
  have hmem := h.deadline_mem x hx
  have hsorted := h.sorted
  rw [hds] at hmem hsorted
  rcases List.mem_cons.mp hmem with he | he
  · rw [← he]
  · exact (List.pairwise_cons.mp hsorted).1 _ he

theorem Indexed.calls_eq_nil (h : p.Indexed) (hds : p.deadlines = []) : p.calls = [] := by
  rw [List.eq_nil_iff_forall_not_mem]
  intro x hx
  have hmem := h.deadline_mem x hx
  rw [hds] at hmem
  exact List.not_mem_nil hmem

theorem indexed_empty (last : Nat) : ({ last } : PendingCalls).Indexed where
  ascending := List.Pairwise.nil
  number_le := by simp
  sorted := List.Pairwise.nil
  deadline_number_le := by simp
  deadline_mem := by simp
  deadline_eq := by simp
  topics_nodup := List.nodup_nil
  idsOf_eq := fun _ => rfl

/-! ## Registration -/

theorem mem_insertDeadline {d e : Nat × Nat} {ds : List (Nat × Nat)} :
    e ∈ insertDeadline d ds ↔ e = d ∨ e ∈ ds := by
  induction ds with
  | nil => simp [insertDeadline]
  | cons f ds ih =>
    unfold insertDeadline
    split
    · simp
    · rw [List.mem_cons, ih, List.mem_cons, or_left_comm]

theorem before_iff {d e : Nat × Nat} : before d e ↔ d.1 < e.1 ∨ d.1 = e.1 ∧ d.2 ≤ e.2 := by
  simp [before]

theorem insertDeadline_sorted (d : Nat × Nat) {ds : List (Nat × Nat)}
    (h : ds.Pairwise fun a b => a.1 ≤ b.1) :
    (insertDeadline d ds).Pairwise fun a b => a.1 ≤ b.1 := by
  induction ds with
  | nil => simp [insertDeadline]
  | cons e ds ih =>
    rw [List.pairwise_cons] at h
    unfold insertDeadline
    split
    · rename_i hbefore
      have hde : d.1 ≤ e.1 := by
        rw [before_iff] at hbefore
        omega
      refine List.pairwise_cons.mpr ⟨fun f hf => ?_, List.pairwise_cons.mpr h⟩
      rcases List.mem_cons.mp hf with rfl | hf
      · exact hde
      · exact le_trans hde (h.1 f hf)
    · rename_i hbefore
      have hed : e.1 ≤ d.1 := by
        rw [before_iff] at hbefore
        omega
      refine List.pairwise_cons.mpr ⟨fun f hf => ?_, ih h.2⟩
      rcases mem_insertDeadline.mp hf with rfl | hf
      · exact hed
      · exact h.1 f hf

theorem lookup_insertTopic (topic : String) (id : Nat) (ts : List (String × List Nat))
    (other : String) :
    ((insertTopic topic id ts).lookup other).getD [] =
      (ts.lookup other).getD [] ++ if other = topic then [id] else [] := by
  induction ts with
  | nil =>
    unfold insertTopic
    by_cases h : other = topic
    · simp [h]
    · rw [lookup_cons_ne h]
      simp [h]
  | cons x ts ih =>
    obtain ⟨t, ids⟩ := x
    unfold insertTopic
    by_cases ht : t = topic
    · subst ht
      by_cases h : other = t
      · simp [h]
      · rw [if_pos rfl, lookup_cons_ne h, lookup_cons_ne h]
        simp [h]
    · rw [if_neg ht]
      by_cases h : other = t
      · subst h
        simp [ht]
      · rw [lookup_cons_ne h, lookup_cons_ne h]
        exact ih

theorem map_fst_insertTopic (topic : String) (id : Nat) (ts : List (String × List Nat)) :
    (insertTopic topic id ts).map (·.1) =
      if topic ∈ ts.map (·.1) then ts.map (·.1) else ts.map (·.1) ++ [topic] := by
  induction ts with
  | nil => simp [insertTopic]
  | cons x ts ih =>
    obtain ⟨t, ids⟩ := x
    unfold insertTopic
    by_cases ht : t = topic
    · simp [ht]
    · have ht' : ¬ topic = t := fun e => ht e.symm
      rw [if_neg ht, List.map_cons, ih]
      by_cases hmem : topic ∈ ts.map (·.1) <;> simp [hmem, ht']

@[simp] theorem register_waiting (p : PendingCalls) (call : PendingCall) :
    (p.register call).waiting = p.waiting ++ [call] := by
  simp [register, waiting]

theorem Indexed.register (h : p.Indexed) (call : PendingCall) : (p.register call).Indexed where
  ascending := by
    rw [PendingCalls.register, List.map_append, List.pairwise_append]
    refine ⟨h.ascending, List.pairwise_singleton _ _, fun a ha b hb => ?_⟩
    obtain ⟨x, hx, rfl⟩ := List.mem_map.mp ha
    have hle := h.number_le x hx
    simp only [List.map_cons, List.map_nil, List.mem_singleton] at hb
    omega
  number_le := by
    intro x hx
    rcases List.mem_append.mp hx with hx | hx
    · exact Nat.le_succ_of_le (h.number_le x hx)
    · rw [List.mem_singleton.mp hx]
      exact le_refl _
  sorted := insertDeadline_sorted _ h.sorted
  deadline_number_le := by
    intro d hd
    rcases mem_insertDeadline.mp hd with rfl | hd
    · exact le_refl _
    · exact Nat.le_succ_of_le (h.deadline_number_le d hd)
  deadline_mem := by
    intro x hx
    apply mem_insertDeadline.mpr
    rcases List.mem_append.mp hx with hx | hx
    · exact .inr (h.deadline_mem x hx)
    · rw [List.mem_singleton.mp hx]
      exact .inl rfl
  deadline_eq := by
    intro x hx d hd hnum
    rcases List.mem_append.mp hx with hx | hx
    · have hle := h.number_le x hx
      rcases mem_insertDeadline.mp hd with rfl | hd
      · simp only at hnum
        omega
      · exact h.deadline_eq x hx d hd hnum
    · rw [List.mem_singleton.mp hx] at hnum ⊢
      rcases mem_insertDeadline.mp hd with rfl | hd
      · rfl
      · -- the new number is beyond all that are left in the index
        have hle := h.deadline_number_le d hd
        simp only at hnum
        omega
  topics_nodup := by
    show ((insertTopic _ _ _).map (·.1)).Nodup
    rw [map_fst_insertTopic]
    split
    · exact h.topics_nodup
    · rename_i hmem
      exact List.nodup_append.mpr ⟨h.topics_nodup, List.nodup_singleton _, by
        intro a ha b hb hab
        rw [List.mem_singleton.mp hb] at hab
        exact hmem (hab ▸ ha)⟩
  idsOf_eq := by
    intro topic
    show ((insertTopic _ _ _).lookup topic).getD [] = _
    rw [lookup_insertTopic]
    have hids : (p.topics.lookup topic).getD [] = _ := h.idsOf_eq topic
    rw [hids]
    simp only [PendingCalls.register, List.filter_append, List.map_append]
    by_cases ht : topic = call.topic
    · simp [ht]
    · have ht' : ¬ call.topic = topic := fun e => ht e.symm
      simp [ht, ht']

end PendingCalls
end InstrumentBus
