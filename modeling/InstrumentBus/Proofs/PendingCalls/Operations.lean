import Mathlib
import InstrumentBus.Proofs.PendingCalls.Indices

/-!
# What the operations on pending calls do

Each operation that takes calls out of a table keeps `PendingCalls.Indexed` and acts on
`PendingCalls.waiting` as on a plain list:

* `Indexed.take?_eq_none_iff`, `Indexed.take?_eq_some`: the soonest call on a topic is erased;
* `Indexed.takeDue_waiting`, `Indexed.takeDue_perm`: the calls that are not due stay, in their
  order;
* `Indexed.nextDeadline_eq_min?`: the least deadline of a call that waits, whatever was left behind.
-/

namespace InstrumentBus.PendingCalls

variable {p : PendingCalls} {call : PendingCall} {topic : String} {id now : Nat}

/-! ## Removal -/

theorem eraseTopic_cons (topic : String) (id : Nat) (t : String) (ids : List Nat)
    (ts : List (String × List Nat)) :
    eraseTopic topic id ((t, ids) :: ts) =
      if (if t = topic then ids.erase id else ids) = [] then eraseTopic topic id ts
      else (t, if t = topic then ids.erase id else ids) :: eraseTopic topic id ts := by
  unfold eraseTopic
  rw [List.map_cons, List.filter_cons]
  by_cases ht : t = topic
  · simp only [ht, if_true]
    by_cases hempty : ids.erase id = [] <;> simp [hempty]
  · simp only [ht, if_false]
    by_cases hempty : ids = [] <;> simp [hempty]

theorem lookup_eraseTopic (topic : String) (id : Nat) {ts : List (String × List Nat)}
    (h : (ts.map (·.1)).Nodup) (other : String) :
    ((eraseTopic topic id ts).lookup other).getD [] =
      if other = topic then ((ts.lookup other).getD []).erase id else (ts.lookup other).getD [] := by
  induction ts with
  | nil => by_cases h : other = topic <;> simp [eraseTopic, h]
  | cons x ts ih =>
    obtain ⟨t, ids⟩ := x
    rw [List.map_cons, List.nodup_cons] at h
    have ih := ih h.2
    rw [eraseTopic_cons]
    by_cases ho : other = t
    · subst ho
      rw [List.lookup_cons_self, Option.getD_some]
      generalize (if other = topic then ids.erase id else ids) = left
      by_cases hempty : left = []
      · -- a topic that lost its last number is gone, and stands nowhere else
        rw [if_pos hempty, ih, lookup_eq_none_of_notMem h.1, hempty]
        split <;> rfl
      · rw [if_neg hempty, List.lookup_cons_self, Option.getD_some]
    · rw [lookup_cons_ne ho, ← ih]
      generalize (if t = topic then ids.erase id else ids) = left
      by_cases hempty : left = []
      · rw [if_pos hempty]
      · rw [if_neg hempty, lookup_cons_ne ho]

theorem eraseTopic_keys_sublist (topic : String) (id : Nat) (ts : List (String × List Nat)) :
    ((eraseTopic topic id ts).map (·.1)).Sublist (ts.map (·.1)) := by
  -- No entry changes its key before the emptied ones are filtered out.
  refine (List.filter_sublist.map _).trans ?_
  rw [List.map_map, List.map_congr_left (g := (·.1)) ?_]
  intro x _
  simp only [Function.comp_apply]
  split <;> rfl

theorem Indexed.remove (h : p.Indexed) (hcall : (id, call) ∈ p.calls) :
    (p.remove id call.topic).Indexed where
  ascending := h.ascending.sublist (List.filter_sublist.map _)
  number_le x hx := h.number_le x (List.mem_of_mem_filter hx)
  sorted := h.sorted
  deadline_number_le := h.deadline_number_le
  deadline_mem x hx := h.deadline_mem x (List.mem_of_mem_filter hx)
  deadline_eq x hx := h.deadline_eq x (List.mem_of_mem_filter hx)
  topics_nodup := h.topics_nodup.sublist (eraseTopic_keys_sublist _ _ _)
  idsOf_eq := by
    intro topic
    show ((eraseTopic _ _ _).lookup topic).getD [] = _
    rw [lookup_eraseTopic _ _ h.topics_nodup]
    have hids : (p.topics.lookup topic).getD [] = _ := h.idsOf_eq topic
    rw [hids]
    have hcomm : (p.remove id call.topic).calls.filter (·.2.topic = topic)
        = (p.calls.filter (·.2.topic = topic)).filter (·.1 ≠ id) := by
      rw [PendingCalls.remove, List.filter_filter, List.filter_filter]
      exact List.filter_congr fun x _ => Bool.and_comm _ _
    rw [hcomm]
    have hnodup : ((p.calls.filter (·.2.topic = topic)).map (·.1)).Nodup :=
      h.nodup.sublist (List.filter_sublist.map _)
    split
    · rw [hnodup.erase_eq_filter, List.filter_map]
      congr 1
      apply List.filter_congr
      intro x _
      by_cases hx : x.1 = id <;> simp [hx]
    · rename_i ht
      -- calls on another topic have other numbers
      congr 1
      refine (List.filter_eq_self.mpr fun x hx => ?_).symm
      rw [List.mem_filter] at hx
      have hne : x.1 ≠ id := by
        rintro rfl
        have hsame : x.2 = call := congrArg (·.2) (h.eq_of_number hcall hx.1 rfl)
        apply ht
        rw [← hsame]
        exact (of_decide_eq_true hx.2).symm
      simpa using hne

/-! ## The soonest call on a topic -/

theorem earliest_map {l : List (Nat × PendingCall)} (h : ∀ x ∈ l, p.call? x.1 = some x.2) :
    p.earliest (l.map (·.1)) = l.argmin (·.2.deadline) := by
  induction l with
  | nil => rfl
  | cons x l ih =>
    have ih := ih fun y hy => h y (List.mem_cons_of_mem _ hy)
    rw [List.map_cons, earliest, h x List.mem_cons_self, ih, List.argmin_cons]
    cases l.argmin (·.2.deadline) with
    | none => rfl
    | some y =>
      simp only
      by_cases hle : x.2.deadline ≤ y.2.deadline
      · rw [if_pos hle, if_neg (Nat.not_lt.mpr hle)]
      · rw [if_neg hle, if_pos (Nat.lt_of_not_le hle)]

/-- The call that is chosen on a topic is the first one like it, so erasing its number and erasing
it as an element of the list is the same. -/
theorem erase_argmin {l : List (Nat × PendingCall)} (hnodup : (l.map (·.1)).Nodup)
    (h : (l.filter (·.2.topic = topic)).argmin (·.2.deadline) = some (id, call)) :
    (l.filter (·.1 ≠ id)).map (·.2) = (l.map (·.2)).erase call := by
  induction l with
  | nil => simp at h
  | cons x l ih =>
    rw [List.map_cons, List.nodup_cons] at hnodup
    -- either the head is the chosen one, or it is another call with another record
    have hself : (id, call) = x → ((x :: l).filter (·.1 ≠ id)).map (·.2)
        = ((x :: l).map (·.2)).erase call := by
      rintro rfl
      have hkeep : l.filter (·.1 ≠ id) = l := by
        refine List.filter_eq_self.mpr fun y hy => ?_
        have hne : y.1 ≠ id := fun e => hnodup.1 (List.mem_map.mpr ⟨y, hy, e⟩)
        simpa using hne
      rw [List.filter_cons_of_neg (by simp), hkeep, List.map_cons, List.erase_cons_head]
    have hother : x.1 ≠ id → x.2 ≠ call →
        (l.filter (·.2.topic = topic)).argmin (·.2.deadline) = some (id, call) →
        ((x :: l).filter (·.1 ≠ id)).map (·.2) = ((x :: l).map (·.2)).erase call := by
      intro hid hcall hmin
      have hbeq : ¬ (x.2 == call) = true := by simpa using hcall
      rw [List.map_cons, List.erase_cons_tail hbeq, ← ih hnodup.2 hmin]
      simp [hid]
    have hid : ∀ y ∈ l, x.1 ≠ y.1 := fun y hy e => hnodup.1 (List.mem_map.mpr ⟨y, hy, e.symm⟩)
    by_cases htopic : x.2.topic = topic
    · rw [List.filter_cons_of_pos (by simpa using htopic), List.argmin_cons] at h
      cases hmin : (l.filter (·.2.topic = topic)).argmin (·.2.deadline) with
      | none =>
        rw [hmin] at h
        exact hself (Option.some.inj h).symm
      | some y =>
        rw [hmin] at h
        simp only at h
        split at h
        · rename_i hlt
          obtain rfl := Option.some.inj h
          have hmem := List.mem_of_mem_filter (List.argmin_mem hmin)
          refine hother (hid _ hmem) ?_ hmin
          intro e
          rw [e] at hlt
          exact lt_irrefl _ hlt
        · exact hself (Option.some.inj h).symm
    · rw [List.filter_cons_of_neg (by simpa using htopic)] at h
      have hmem := List.mem_filter.mp (List.argmin_mem h)
      refine hother (hid _ hmem.1) ?_ h
      intro e
      apply htopic
      rw [e]
      exact of_decide_eq_true hmem.2

theorem Indexed.take?_eq (h : p.Indexed) (topic : String) :
    p.take? topic = ((p.calls.filter (·.2.topic = topic)).argmin (·.2.deadline)).map
      fun (id, call) => (call, p.remove id topic) := by
  rw [take?, h.idsOf_eq, earliest_map]
  intro x hx
  exact h.call?_eq_some_iff.mpr (List.mem_of_mem_filter hx)

theorem soonest?_waiting (p : PendingCalls) (topic : String) :
    PendingCall.soonest? topic p.waiting =
      ((p.calls.filter (·.2.topic = topic)).argmin (·.2.deadline)).map (·.2) := by
  rw [PendingCall.soonest?, waiting, List.filter_map, argmin_map]
  rfl

theorem Indexed.take?_eq_none_iff (h : p.Indexed) :
    p.take? topic = none ↔ PendingCall.soonest? topic p.waiting = none := by
  rw [h.take?_eq, soonest?_waiting, Option.map_eq_none_iff, Option.map_eq_none_iff]

theorem Indexed.take?_eq_some (h : p.Indexed) {rest : PendingCalls}
    (htake : p.take? topic = some (call, rest)) :
    PendingCall.soonest? topic p.waiting = some call ∧ rest.Indexed ∧
      rest.waiting = p.waiting.erase call := by
  rw [h.take?_eq] at htake
  obtain ⟨⟨id, found⟩, hmin, hpair⟩ := Option.map_eq_some_iff.mp htake
  obtain ⟨rfl, rfl⟩ := Prod.mk.inj hpair
  obtain ⟨hmem, htopic⟩ := List.mem_filter.mp (List.argmin_mem hmin)
  obtain rfl : found.topic = topic := of_decide_eq_true htopic
  refine ⟨?_, h.remove hmem, erase_argmin h.nodup hmin⟩
  rw [soonest?_waiting, hmin]
  rfl

/-! ## Expiry -/

/-- A deadline that no call has any more may be forgotten. -/
theorem Indexed.dropDeadline (h : p.Indexed) {d : Nat × Nat} {ds : List (Nat × Nat)}
    (hds : p.deadlines = d :: ds) (hgone : ∀ x ∈ p.calls, x.1 ≠ d.2) :
    ({ p with deadlines := ds } : PendingCalls).Indexed where
  ascending := h.ascending
  number_le := h.number_le
  sorted := by
    have hsorted := h.sorted
    rw [hds] at hsorted
    exact hsorted.of_cons
  deadline_number_le e he := h.deadline_number_le e (by rw [hds]; exact List.mem_cons_of_mem _ he)
  deadline_mem := by
    intro x hx
    have hmem := h.deadline_mem x hx
    rw [hds] at hmem
    rcases List.mem_cons.mp hmem with he | he
    · exact absurd (congrArg (·.2) he) (hgone x hx)
    · exact he
  deadline_eq x hx e he := h.deadline_eq x hx e (by rw [hds]; exact List.mem_cons_of_mem _ he)
  topics_nodup := h.topics_nodup
  idsOf_eq := h.idsOf_eq

/-- Taking out one call leaves the calls whose numbers are different. -/
theorem Indexed.perm_cons_remove (h : p.Indexed) (hcall : (id, call) ∈ p.calls) :
    p.calls.Perm ((id, call) :: (p.remove id call.topic).calls) := by
  have hnodup : p.calls.Nodup := List.Nodup.of_map _ h.nodup
  have herase : (p.remove id call.topic).calls = p.calls.erase (id, call) := by
    rw [hnodup.erase_eq_filter]
    apply List.filter_congr
    intro x hx
    by_cases hid : x.1 = id
    · simp [h.eq_of_number hcall hx hid]
    · have hx' : x ≠ (id, call) := fun e => hid (congrArg (·.1) e)
      simp [hid, hx']
  rw [herase]
  exact List.perm_cons_erase hcall

/-- Taking out a call that is due does not touch those that are not, -/
theorem Indexed.filter_remove_late (h : p.Indexed) (hcall : (id, call) ∈ p.calls)
    (hdue : call.deadline ≤ now) :
    (p.remove id call.topic).calls.filter (now < ·.2.deadline) =
      p.calls.filter (now < ·.2.deadline) := by
  rw [PendingCalls.remove, List.filter_filter]
  apply List.filter_congr
  intro x hx
  by_cases hid : x.1 = id
  · have hx' : x.2 = call := congrArg (·.2) (h.eq_of_number hcall hx hid)
    have hlate : ¬ now < x.2.deadline := by
      rw [hx']
      exact Nat.not_lt.mpr hdue
    simp [hid, hlate]
  · simp [hid]

/-- and leaves the others that are. -/
theorem Indexed.perm_filter_remove_due (h : p.Indexed) (hcall : (id, call) ∈ p.calls)
    (hdue : call.deadline ≤ now) :
    ((p.calls.filter (·.2.deadline ≤ now)).map (·.2)).Perm
      (call :: ((p.remove id call.topic).calls.filter (·.2.deadline ≤ now)).map (·.2)) := by
  have hfilter := ((h.perm_cons_remove hcall).filter (·.2.deadline ≤ now)).map (·.2)
  rw [List.filter_cons_of_pos (by simpa using hdue), List.map_cons] at hfilter
  exact hfilter

/-- The loop over the deadlines, by recursion on those that are left. Only they, and not the ones
that the table still names, have to agree with the calls. -/
theorem takeDueFrom_spec (now : Nat) (ds : List (Nat × Nat)) {p : PendingCalls}
    (h : ({ p with deadlines := ds } : PendingCalls).Indexed) :
    (takeDueFrom now ds p).2.Indexed ∧
      (takeDueFrom now ds p).2.calls = p.calls.filter (now < ·.2.deadline) ∧
      (takeDueFrom now ds p).1.Perm ((p.calls.filter (·.2.deadline ≤ now)).map (·.2)) := by
  induction ds generalizing p with
  | nil =>
    have hcalls : p.calls = [] := h.calls_eq_nil rfl
    simp only [takeDueFrom]
    exact ⟨h, by simp [hcalls], by simp [hcalls]⟩
  | cons d ds ih =>
    obtain ⟨deadline, id⟩ := d
    unfold takeDueFrom
    by_cases hnow : now < deadline
    · -- what follows in the index is due later still
      have hlate : ∀ x ∈ p.calls, now < x.2.deadline := fun x hx =>
        lt_of_lt_of_le hnow (h.head_le rfl hx)
      rw [if_pos hnow]
      refine ⟨h, ?_, ?_⟩
      · exact (List.filter_eq_self.mpr fun x hx => by simpa using hlate x hx).symm
      · rw [List.filter_eq_nil_iff.mpr fun x hx => by simpa using hlate x hx]
        exact List.Perm.refl _
    · rw [if_neg hnow]
      cases hcall : p.call? id with
      | none =>
        exact ih (h.dropDeadline rfl (h.call?_eq_none_iff.mp hcall))
      | some call =>
        have hmem : (id, call) ∈ p.calls := h.call?_eq_some_iff.mp hcall
        have hdue : call.deadline ≤ now := by
          have heq := h.deadline_eq _ hmem _ List.mem_cons_self rfl
          simp only at heq
          omega
        have hgone : ∀ x ∈ (p.remove id call.topic).calls, x.1 ≠ id := by
          intro x hx
          simpa using (List.mem_filter.mp hx).2
        obtain ⟨hindexed, hcalls, hperm⟩ :=
          ih (p := p.remove id call.topic) ((h.remove hmem).dropDeadline rfl hgone)
        simp only
        refine ⟨hindexed, ?_, ?_⟩
        · rw [hcalls]
          exact h.filter_remove_late hmem hdue
        · exact (hperm.cons call).trans (h.perm_filter_remove_due hmem hdue).symm

theorem Indexed.takeDue (h : p.Indexed) (now : Nat) : (p.takeDue now).2.Indexed :=
  (takeDueFrom_spec now p.deadlines h).1

theorem Indexed.takeDue_waiting (h : p.Indexed) (now : Nat) :
    (p.takeDue now).2.waiting = p.waiting.filter (now < ·.deadline) := by
  rw [waiting, PendingCalls.takeDue, (takeDueFrom_spec now p.deadlines h).2.1, waiting,
    List.filter_map]
  rfl

/-- The calls that are due are taken out, in the order of their deadlines. -/
theorem Indexed.takeDue_perm (h : p.Indexed) (now : Nat) :
    (p.takeDue now).1.Perm (p.waiting.filter (·.deadline ≤ now)) := by
  rw [waiting, List.filter_map]
  exact (takeDueFrom_spec now p.deadlines h).2.2

/-! ## The next deadline -/

theorem Indexed.dropWhile_gone (h : p.Indexed) :
    ({ p with
      deadlines := p.deadlines.dropWhile fun (_, id) => (p.call? id).isNone } :
        PendingCalls).Indexed := by
  obtain ⟨last, calls, ds, topics⟩ := p
  induction ds with
  | nil => exact h
  | cons d ds ih =>
    simp only [List.dropWhile_cons]
    split
    · rename_i hgone
      refine ih (h.dropDeadline rfl (h.call?_eq_none_iff.mp ?_))
      simpa using hgone
    · exact h

theorem Indexed.nextDeadline (h : p.Indexed) : p.nextDeadline.2.Indexed := h.dropWhile_gone

theorem Indexed.nextDeadline_eq_min? (h : p.Indexed) :
    p.nextDeadline.1 = (p.waiting.map (·.deadline)).min? := by
  have hrest := h.dropWhile_gone
  rw [PendingCalls.nextDeadline]
  simp only
  cases hds : p.deadlines.dropWhile fun (_, id) => (p.call? id).isNone with
  | nil =>
    rw [hds] at hrest
    have hcalls : p.calls = [] := hrest.calls_eq_nil rfl
    simp [waiting, hcalls]
  | cons d ds =>
    rw [hds] at hrest
    have hhead : (p.call? d.2).isNone = false := by
      have := List.head?_dropWhile_not (fun d : Nat × Nat => (p.call? d.2).isNone) p.deadlines
      simpa [hds] using this
    obtain ⟨call, hcall⟩ : ∃ call, p.call? d.2 = some call := by
      cases hc : p.call? d.2 with
      | none => simp [hc] at hhead
      | some call => exact ⟨call, rfl⟩
    have hmem : (d.2, call) ∈ p.calls := h.call?_eq_some_iff.mp hcall
    have hfirst : d.1 = call.deadline := hrest.deadline_eq _ hmem d List.mem_cons_self rfl
    rw [List.head?_cons, Option.map_some, eq_comm, List.min?_eq_some_iff]
    constructor
    · rw [hfirst]
      exact List.mem_map.mpr ⟨call, List.mem_map.mpr ⟨_, hmem, rfl⟩, rfl⟩
    · intro n hn
      obtain ⟨c, hc, rfl⟩ := List.mem_map.mp hn
      obtain ⟨x, hx, rfl⟩ := List.mem_map.mp hc
      exact hrest.head_le rfl hx

end InstrumentBus.PendingCalls
