import Mathlib
import InstrumentBus.Proofs.Envelope.Lending

/-!
# The accounts of a pool

A pool counts the buffers of each size class that it makes, lends again and takes back. `Booked` says
what an action does to the account of a class; it follows that the counters tell how many buffers are
out and how many are free (`Balanced`), and that a pool that is closed has none to lend. `run_accounts`
says so after any actions.
-/

namespace InstrumentBus

namespace FreeList

/-- A buffer is lent, whether it was free or has to be made. -/
theorem take_spec (l : FreeList) :
    l.take.allocated + l.take.reused = l.allocated + l.reused + 1 ∧ l.take.released = l.released ∧
      l.take.free + l.take.reused = l.free + l.reused ∧ l.take.free ≤ l.free ∧
      (l.free = 0 → l.take.reused = l.reused) := by
  unfold take
  split
  · refine ⟨by simp only; omega, rfl, by simp only; omega, Nat.sub_le _ _, fun hnone => ?_⟩
    omega
  · exact ⟨Nat.add_right_comm _ _ _, rfl, rfl, Nat.le_refl _, fun _ => rfl⟩

end FreeList

namespace Lending

open Envelope

variable {s : Lending} {e : Envelope} {i : Nat} {a : Action} {c : SizeClass}

/-! ## Buffers that are out -/

/-- How many buffers of a size class are out. -/
def live (s : Lending) (c : SizeClass) : Nat := s.held.countP (·.any (·.sizeClass = c))

/-- The class of the buffer that an action lends. -/
def lent (s : Lending) : Action → Option SizeClass
  | .alloc => some .control
  | .allocStream _ => some .stream
  | .allocFor _ length => some (s.pool.sizes.classFor length)
  | .envelope _ v _ => some (s.pool.sizes.classFor v.value.byteLength)
  | .clone i => (s.at? i).map sizeClass
  | _ => none

/-- The class of the buffer that an action gives back. -/
def returned (s : Lending) : Action → Option SizeClass
  | .drop i => (s.at? i).map sizeClass
  | _ => none

theorem live_hold (s : Lending) (made : Envelope × Pool) (c : SizeClass) :
    (s.hold made).live c = s.live c + if made.1.sizeClass = c then 1 else 0 := by
  unfold live hold
  rw [List.countP_append, List.countP_singleton]
  simp

/-- A dropped envelope is out no more. -/
theorem live_drop (hi : s.at? i = some e) (c : SizeClass) :
    (s.act (.drop i)).live c + (if e.sizeClass = c then 1 else 0) = s.live c := by
  obtain ⟨hlt, hheld⟩ := List.getElem?_eq_some_iff.mp (Option.join_eq_some_iff.mp hi)
  have hcount : (s.act (.drop i)).live c = s.live c - if e.sizeClass = c then 1 else 0 := by
    show List.countP _ (s.held.set i none) = _
    -- its place is left empty, and an empty place is not counted
    rw [List.countP_set hlt, hheld]
    simp [live]
  rw [hcount]
  by_cases hc : e.sizeClass = c
  · have hpos : 0 < s.live c :=
      List.countP_pos_iff.mpr ⟨some e, mem_held_of_at? hi, by simp [hc]⟩
    rw [if_pos hc]
    exact Nat.sub_add_cancel hpos
  · rw [if_neg hc]
    rfl

/-- A change of an envelope is none of its buffer's class. -/
theorem sizeClass_edit (e : Envelope) (change : Edit) : (e.edit change).sizeClass = e.sizeClass := by
  have hclass := congrArg Saying.sizeClass (e.saying_edit change)
  cases change <;> exact hclass

theorem live_edit (s : Lending) (i : Nat) (change : Edit) (c : SizeClass) :
    (s.act (.edit i change)).live c = s.live c := by
  -- a class is read off what is said
  have hmap : ∀ held : List (Option Envelope), held.countP (·.any (·.sizeClass = c)) =
      (held.map (Option.map sizeClass)).countP (· = some c) := by
    intro held
    rw [List.countP_map]
    congr 1
    funext o
    cases o <;> simp
  have hsame : (s.held.modify i (Option.map (·.edit change))).map (Option.map sizeClass) =
      s.held.map (Option.map sizeClass) := by
    refine List.ext_getElem? fun j => ?_
    simp only [List.getElem?_map, List.getElem?_modify]
    cases s.held[j]? with
    | none => rfl
    | some held =>
      cases held with
      | none => simp
      | some e => by_cases hj : i = j <;> simp [hj, sizeClass_edit]
  show List.countP _ (s.held.modify i _) = List.countP _ s.held
  rw [hmap, hmap, hsame]

/-! ## The account of a class -/

/-- What an action does to the account of a size class. -/
inductive Booked (s : Lending) (a : Action) (c : SizeClass) : Prop
  | lent (hlent : s.lent a = some c) (hreturned : s.returned a = none)
      (hlist : (s.act a).pool.list c = (s.pool.list c).take)
      (hlive : (s.act a).live c = s.live c + 1) (hclosed : (s.act a).pool.closed = s.pool.closed)
  | returned (hlent : s.lent a = none) (hreturned : s.returned a = some c)
      (hlist : (s.act a).pool.list c = (s.pool.list c).release s.pool.closed)
      (hlive : (s.act a).live c + 1 = s.live c) (hclosed : (s.act a).pool.closed = s.pool.closed)
  | closed (ha : a = .close) (hlent : s.lent a = none) (hreturned : s.returned a = none)
      (hlist : (s.act a).pool.list c = { s.pool.list c with free := 0 })
      (hlive : (s.act a).live c = s.live c) (hclosed : (s.act a).pool.closed = true)
  | none (ha : a ≠ .close) (hlent : s.lent a ≠ some c) (hreturned : s.returned a ≠ some c)
      (hlist : (s.act a).pool.list c = s.pool.list c)
      (hlive : (s.act a).live c = s.live c) (hclosed : (s.act a).pool.closed = s.pool.closed)

theorem closed_modify (p : Pool) (c : SizeClass) (f : FreeList → FreeList) :
    (p.modify c f).closed = p.closed := by
  cases c <;> rfl

/-- A new envelope takes a buffer of its class. -/
theorem booked_of_hold (made : Envelope × Pool) (hact : s.act a = s.hold made)
    (hpool : made.2 = s.pool.modify made.1.sizeClass .take)
    (hlent : s.lent a = some made.1.sizeClass) (hreturned : s.returned a = none) (c : SizeClass) :
    s.Booked a c := by
  have hlist := s.pool.list_modify made.1.sizeClass .take c
  have hlive := s.live_hold made c
  have hclosed : (s.act a).pool.closed = s.pool.closed := by
    rw [hact]
    show made.2.closed = _
    rw [hpool, closed_modify]
  rw [← hpool] at hlist
  rw [← hact] at hlive
  by_cases hc : made.1.sizeClass = c
  · rw [if_pos hc.symm] at hlist
    rw [if_pos hc] at hlive
    exact .lent (hlent.trans (congrArg some hc)) hreturned (hact ▸ hlist) hlive hclosed
  · rw [if_neg (Ne.symm hc)] at hlist
    rw [if_neg hc] at hlive
    refine .none ?_ ?_ ?_ (hact ▸ hlist) hlive hclosed
    · rintro rfl
      cases hlent
    · rw [hlent]
      exact fun heq => hc (Option.some.inj heq)
    · rw [hreturned]
      exact (Option.some_ne_none c).symm

theorem sizeClass_cloneInto (sizes : BufferSizes) (e : Envelope) :
    (e.cloneInto (sizes.buffer e.sizeClass)).sizeClass = e.sizeClass :=
  congrArg Saying.sizeClass (saying_cloneInto sizes e)

theorem sizeClass_envelope (p : Pool) (topic : Topic) (v : Stored) (flags : ValueFlags) :
    (p.envelope topic v flags).1.sizeClass = p.sizes.classFor v.value.byteLength :=
  congrArg Saying.sizeClass (saying_envelope p topic v flags)

/-- What does nothing is not booked. -/
theorem booked_of_act_eq (hact : s.act a = s) (ha : a ≠ .close) (hlent : s.lent a = none)
    (hreturned : s.returned a = none) (c : SizeClass) : s.Booked a c := by
  refine .none ha ?_ ?_ ?_ ?_ ?_
  · simp [hlent]
  · simp [hreturned]
  all_goals rw [hact]

/-- Where no envelope is, none can be dropped. -/
theorem act_drop_of_at?_eq_none (hi : s.at? i = none) : s.act (.drop i) = s := by
  have hheld : s.held.set i none = s.held := by
    by_cases hlt : i < s.held.length
    · have hnone : s.held[i] = none := by
        rw [at?, List.getElem?_eq_getElem hlt] at hi
        exact hi
      exact hnone ▸ List.set_getElem_self hlt
    · exact List.set_eq_of_length_le (Nat.not_lt.mp hlt)
  simp only [act, hi, hheld]
  rfl

/-- A dropped envelope gives back its buffer to the list of its class. -/
theorem booked_drop (hi : s.at? i = some e) (c : SizeClass) : s.Booked (.drop i) c := by
  have hpool : (s.act (.drop i)).pool = s.pool.modify e.sizeClass (.release s.pool.closed) := by
    simp only [act, hi, Option.toList_some]
    rfl
  have hreturned : s.returned (.drop i) = some e.sizeClass := by
    simp only [returned, hi, Option.map_some]
  have hlist := s.pool.list_modify e.sizeClass (.release s.pool.closed) c
  have hclosed := closed_modify s.pool e.sizeClass (.release s.pool.closed)
  have hlive := live_drop hi c
  rw [← hpool] at hlist hclosed
  by_cases hc : e.sizeClass = c
  · rw [if_pos hc.symm] at hlist
    rw [if_pos hc] at hlive
    exact .returned rfl (hreturned.trans (congrArg some hc)) hlist hlive hclosed
  · rw [if_neg (Ne.symm hc)] at hlist
    rw [if_neg hc] at hlive
    refine .none ?_ ?_ ?_ hlist hlive hclosed
    · simp
    · simp [lent]
    · rw [hreturned]
      exact fun heq => hc (Option.some.inj heq)

/-- Every action is booked in one of these ways. -/
theorem booked (s : Lending) (a : Action) (c : SizeClass) : s.Booked a c := by
  cases a with
  | alloc => exact booked_of_hold s.pool.alloc rfl rfl rfl rfl c
  | allocStream topic => exact booked_of_hold (s.pool.allocStream topic) rfl rfl rfl rfl c
  | allocFor topic length =>
    exact booked_of_hold (s.pool.allocFor topic length) rfl rfl rfl rfl c
  | envelope topic v flags =>
    have hclass := sizeClass_envelope s.pool topic v flags
    refine booked_of_hold (s.pool.envelope topic v flags) rfl ?_ ?_ rfl c
    · rw [hclass]
      rfl
    · rw [hclass]
      rfl
  | clone i =>
    cases hi : s.at? i with
    | none =>
      refine booked_of_act_eq ?_ ?_ ?_ rfl c
      · simp only [act, hi]
      · simp
      · simp only [lent, hi, Option.map_none]
    | some e =>
      have hclass := sizeClass_cloneInto s.pool.sizes e
      refine booked_of_hold (s.pool.clone e) ?_ ?_ ?_ rfl c
      · simp only [act, hi]
      · exact congrArg (s.pool.modify · .take) hclass.symm
      · simp only [lent, hi, Option.map_some]
        exact congrArg some hclass.symm
  | drop i =>
    cases hi : s.at? i with
    | none =>
      refine booked_of_act_eq (act_drop_of_at?_eq_none hi) ?_ rfl ?_ c
      · simp
      · simp only [returned, hi, Option.map_none]
    | some e => exact booked_drop hi c
  | edit i change =>
    refine .none ?_ ?_ ?_ rfl (s.live_edit i change c) rfl
    · simp
    · simp [lent]
    · simp [returned]
  | close => exact .closed rfl rfl rfl (by cases c <;> rfl) rfl rfl

/-! ## Any actions -/

/-- How many buffers of a class were made beforehand. -/
def prepared (control stream : Nat) : SizeClass → Nat
  | .control => control
  | .stream => stream

/-- The counters tell how many buffers are out, and how many are free. -/
structure Balanced (made : SizeClass → Nat) (s : Lending) : Prop where
  live_eq : ∀ c, (s.pool.list c).allocated + (s.pool.list c).reused =
    (s.pool.list c).released + s.live c
  free_eq : s.pool.closed = false → ∀ c, (s.pool.list c).free + (s.pool.list c).reused =
    made c + (s.pool.list c).released
  free_eq_zero : s.pool.closed = true → ∀ c, (s.pool.list c).free = 0

theorem Balanced.act {made : SizeClass → Nat} (h : s.Balanced made) (a : Action) :
    (s.act a).Balanced made := by
  -- a pool that is open or closed after the action was so before it, but for the action of closing
  refine ⟨fun c => ?_, fun hopen c => ?_, fun hclosed' c => ?_⟩
  · have hbefore := h.live_eq c
    cases s.booked a c with
    | lent _ _ hlist hlive =>
      obtain ⟨hout, hreleased, -⟩ := (s.pool.list c).take_spec
      rw [hlist, hlive]
      omega
    | returned _ _ hlist hlive =>
      rw [hlist]
      simp only [FreeList.release]
      omega
    | closed _ _ _ hlist hlive =>
      rw [hlist, hlive]
      exact hbefore
    | none _ _ _ hlist hlive =>
      rw [hlist, hlive]
      exact hbefore
  · cases s.booked a c with
    | lent _ _ hlist _ hclosed =>
      obtain ⟨-, hreleased, hfree, -⟩ := (s.pool.list c).take_spec
      rw [hlist, hfree, hreleased]
      exact h.free_eq (hclosed.symm.trans hopen) c
    | returned _ _ hlist _ hclosed =>
      have hbefore := h.free_eq (hclosed.symm.trans hopen) c
      rw [hlist, hclosed.symm.trans hopen]
      simp only [FreeList.release, Bool.false_eq_true, if_false]
      omega
    | closed _ _ _ _ _ hclosed =>
      rw [hclosed] at hopen
      cases hopen
    | none _ _ _ hlist _ hclosed =>
      rw [hlist]
      exact h.free_eq (hclosed.symm.trans hopen) c
  · cases s.booked a c with
    | lent _ _ hlist _ hclosed =>
      have hbefore := h.free_eq_zero (hclosed.symm.trans hclosed') c
      obtain ⟨-, -, -, hle, -⟩ := (s.pool.list c).take_spec
      rw [hlist]
      omega
    | returned _ _ hlist _ hclosed =>
      rw [hlist, hclosed.symm.trans hclosed']
      exact h.free_eq_zero (hclosed.symm.trans hclosed') c
    | closed _ _ _ hlist => rw [hlist]
    | none _ _ _ hlist _ hclosed =>
      rw [hlist]
      exact h.free_eq_zero (hclosed.symm.trans hclosed') c

theorem balanced_run (sizes : BufferSizes) (control stream : Nat) (as : List Action) :
    (run sizes control stream as).Balanced (prepared control stream) := by
  induction as using List.reverseRecOn with
  | nil =>
    refine ⟨fun c => ?_, fun _ c => ?_, fun hclosed => ?_⟩
    · cases c <;> rfl
    · cases c <;> rfl
    · cases hclosed
  | append_singleton as a ih =>
    unfold run
    rw [List.foldl_append]
    exact ih.act a

/-- A pool is closed once and for all. -/
theorem closed_act_iff (s : Lending) (a : Action) :
    (s.act a).pool.closed = true ↔ s.pool.closed = true ∨ a = .close := by
  -- the flag is that of the whole pool, so any class tells of it
  cases s.booked a .control with
  | lent hlent _ _ _ hclosed =>
    have ha : a ≠ .close := by
      rintro rfl
      cases hlent
    simp [hclosed, ha]
  | returned _ hreturned _ _ hclosed =>
    have ha : a ≠ .close := by
      rintro rfl
      cases hreturned
    simp [hclosed, ha]
  | closed ha _ _ _ _ hclosed => exact ⟨fun _ => Or.inr ha, fun _ => hclosed⟩
  | none ha _ _ _ _ hclosed => simp [hclosed, ha]

theorem closed_run_iff (sizes : BufferSizes) (control stream : Nat) (as : List Action) :
    (run sizes control stream as).pool.closed = true ↔ .close ∈ as := by
  induction as using List.reverseRecOn with
  | nil => simp [run, ofSizes, Pool.ofSizes]
  | append_singleton as a ih =>
    unfold run at ih ⊢
    rw [List.foldl_append, List.mem_append, List.mem_singleton, ← ih, eq_comm (b := a)]
    exact closed_act_iff _ a

/-- What an action adds to the counters of a class: one if it lends a buffer of the class, and one if
it gives one back. No other action makes a list of free buffers longer, and a closed pool lends only
buffers that are made. -/
theorem counters_act (s : Lending) (a : Action) (c : SizeClass)
    (hnone : s.pool.closed = true → (s.pool.list c).free = 0) :
    ((s.act a).pool.list c).allocated + ((s.act a).pool.list c).reused =
        (s.pool.list c).allocated + (s.pool.list c).reused + (if s.lent a = some c then 1 else 0) ∧
      ((s.act a).pool.list c).released =
        (s.pool.list c).released + (if s.returned a = some c then 1 else 0) ∧
      (s.returned a ≠ some c → ((s.act a).pool.list c).free ≤ (s.pool.list c).free) ∧
      (s.pool.closed = true → ((s.act a).pool.list c).reused = (s.pool.list c).reused) := by
  cases s.booked a c with
  | lent hlent hreturned hlist =>
    obtain ⟨hout, hreleased, -, hle, hreused⟩ := (s.pool.list c).take_spec
    rw [hlist, if_pos hlent, if_neg (by simp [hreturned])]
    exact ⟨hout, hreleased, fun _ => hle, fun hclosed => hreused (hnone hclosed)⟩
  | returned hlent hreturned hlist =>
    rw [hlist, if_neg (by simp [hlent]), if_pos hreturned]
    exact ⟨rfl, rfl, fun hne => absurd hreturned hne, fun _ => rfl⟩
  | closed _ hlent hreturned hlist =>
    rw [hlist, if_neg (by simp [hlent]), if_neg (by simp [hreturned])]
    exact ⟨rfl, rfl, fun _ => Nat.zero_le _, fun _ => rfl⟩
  | none _ hlent hreturned hlist =>
    rw [hlist, if_neg hlent, if_neg hreturned]
    exact ⟨rfl, rfl, fun _ => Nat.le_refl _, fun _ => rfl⟩

/-- After any actions, and for each size class apart: buffers that were made or lent again are out or
were given back. While the pool is open, those that were made beforehand or given back are free or were
lent again, so the free ones and those that are out are all that were ever made. From the moment when
the pool is closed none is free, whatever is dropped, and whatever is lent then is made. Every action
counts for the class of its buffer alone: what comes back goes to the list of its own class. -/
theorem run_accounts (sizes : BufferSizes) (control stream : Nat) (as : List Action) (c : SizeClass) :
    let s := run sizes control stream as
    let l := s.pool.list c
    l.allocated + l.reused = l.released + s.live c ∧
      (.close ∉ as → l.free + l.reused = prepared control stream c + l.released ∧
        l.free + s.live c = prepared control stream c + l.allocated) ∧
      (.close ∈ as → l.free = 0) ∧
      ∀ a, let l' := (run sizes control stream (as ++ [a])).pool.list c
        l'.allocated + l'.reused = l.allocated + l.reused + (if s.lent a = some c then 1 else 0) ∧
        l'.released = l.released + (if s.returned a = some c then 1 else 0) ∧
        (s.returned a ≠ some c → l'.free ≤ l.free) ∧
        (.close ∈ as → l'.reused = l.reused) := by
  intro s l
  obtain ⟨hlive, hopen, hclosed⟩ := balanced_run sizes control stream as
  have hiff := closed_run_iff sizes control stream as
  have hnone : .close ∈ as → l.free = 0 := fun h => hclosed (hiff.mpr h) c
  refine ⟨hlive c, fun h => ?_, hnone, fun a => ?_⟩
  · have hfree : l.free + l.reused = prepared control stream c + l.released :=
      hopen (Bool.eq_false_iff.mpr (mt hiff.mp h)) c
    have hout : l.allocated + l.reused = l.released + s.live c := hlive c
    exact ⟨hfree, by omega⟩
  · intro l'
    have hnext : l' = (s.act a).pool.list c := by
      show (run sizes control stream (as ++ [a])).pool.list c = _
      unfold run
      rw [List.foldl_append]
      rfl
    rw [hnext]
    obtain ⟨hlent, hreturned, hle, hreused⟩ := s.counters_act a c fun h => hnone (hiff.mp h)
    exact ⟨hlent, hreturned, hle, fun h => hreused (hiff.mpr h)⟩

/-- Envelopes are dropped before and after the pool is closed, and one is copied after that. -/
def outlives : List Action :=
  [.alloc, .clone 0, .drop 0, .alloc, .allocFor .deviceList 7, .close, .drop 1, .clone 3, .alloc]

/-- Before the pool is closed, the small buffers that are out or free are those that were made. At the
end two are out and none is free, though two were given back. -/
theorem outlives_accounts :
    (.close ∉ outlives.take 4 ∧ let s := run ⟨4, 8⟩ 1 0 (outlives.take 4)
      (s.pool.list .control).free + s.live .control = 1 + (s.pool.list .control).allocated) ∧
    .close ∈ outlives ∧ ((run ⟨4, 8⟩ 1 0 outlives).pool.list .control).free = 0 ∧
      ((run ⟨4, 8⟩ 1 0 outlives).pool.list .control).released = 2 ∧
      (run ⟨4, 8⟩ 1 0 outlives).live .control = 2 := by
  have hopen : .close ∉ outlives.take 4 := by simp [outlives]
  have hclose : .close ∈ outlives := by simp [outlives]
  obtain ⟨-, hwhile, -⟩ := run_accounts ⟨4, 8⟩ 1 0 (outlives.take 4) .control
  obtain ⟨-, hmade⟩ := hwhile hopen
  obtain ⟨-, -, hafter, -⟩ := run_accounts ⟨4, 8⟩ 1 0 outlives .control
  have hnone : ((run ⟨4, 8⟩ 1 0 outlives).pool.list .control).free = 0 := hafter hclose
  exact ⟨⟨hopen, hmade⟩, hclose, hnone, by decide, by decide⟩

end Lending
end InstrumentBus
