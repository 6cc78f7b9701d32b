import Mathlib
import InstrumentBus.PendingCalls

/-!
# Waiting calls as a plain list

`PendingCalls` keeps the calls that wait by number, beside an index of deadlines and an index of
topics. This file says what it stands for: a list of calls in the order of their registration, on
which every operation is a filter, a minimum or an erasure.

* `PendingCalls.waiting`, the list that a table of pending calls stands for;
* `PlainCalls`, such a list together with the slots of all calls, and the operations on it;
* `CallTable.plain`, what a table with its slots stands for;
* `TableRequest`, the operations as data, so that one sequence of them can be carried out on
  anything that has these operations, `CallTable.operations` and `PlainCalls.operations` in
  particular.
-/

namespace InstrumentBus

/-- The calls that wait, in the order of their registration. -/
def PendingCalls.waiting (p : PendingCalls) : List PendingCall := p.calls.map (·.2)

/-- The call on a topic with the smallest deadline; of several the one that was registered first. -/
def PendingCall.soonest? (topic : String) (w : List PendingCall) : Option PendingCall :=
  (w.filter (·.topic = topic)).argmin (·.deadline)

namespace PendingCall

variable {topic : String} {w : List PendingCall} {call : PendingCall}

theorem soonest?_eq_none_iff : soonest? topic w = none ↔ ∀ call ∈ w, call.topic ≠ topic := by
  unfold soonest?
  rw [List.argmin_eq_none, List.filter_eq_nil_iff]
  simp

theorem mem_of_soonest? (h : soonest? topic w = some call) : call ∈ w ∧ call.topic = topic := by
  simpa using List.mem_filter.mp (List.argmin_mem h)

theorem deadline_le_of_soonest? (h : soonest? topic w = some call) {other : PendingCall}
    (hother : other ∈ w) (htopic : other.topic = topic) : call.deadline ≤ other.deadline := by
  have hmem : other ∈ w.filter (·.topic = topic) :=
    List.mem_filter.mpr ⟨hother, by simpa using htopic⟩
  exact List.le_of_mem_argmin hmem h

theorem soonest?_cons (topic : String) (call : PendingCall) (w : List PendingCall) :
    soonest? topic (call :: w) =
      if call.topic = topic then
        match soonest? topic w with
        | none => some call
        | some first => if first.deadline < call.deadline then some first else some call
      else soonest? topic w := by
  unfold soonest?
  by_cases htopic : call.topic = topic
  · rw [if_pos htopic, List.filter_cons_of_pos (by simpa using htopic), List.argmin_cons]
    cases (w.filter (·.topic = topic)).argmin (·.deadline) <;> rfl
  · rw [if_neg htopic, List.filter_cons_of_neg (by simpa using htopic)]

/-- The soonest call has a smaller deadline than all before it on its topic, and no greater one than
all after it. -/
theorem soonest?_eq_some_iff :
    soonest? topic w = some call ↔
      ∃ before after, w = before ++ call :: after ∧ call.topic = topic ∧
        (∀ other ∈ before, other.topic = topic → call.deadline < other.deadline) ∧
        ∀ other ∈ after, other.topic = topic → call.deadline ≤ other.deadline := by
  constructor
  · intro h
    induction w with
    | nil => cases h
    | cons head w ih =>
      have htopic : call.topic = topic := (mem_of_soonest? h).2
      have hmin := fun other (hother : other ∈ w) =>
        deadline_le_of_soonest? h (List.mem_cons_of_mem head hother)
      by_cases heq : call = head
      · subst heq
        exact ⟨[], w, rfl, htopic, by simp, hmin⟩
      · -- what comes later is chosen only if it has a smaller deadline
        have hstep : soonest? topic w = some call ∧
            (head.topic = topic → call.deadline < head.deadline) := by
          rw [soonest?_cons] at h
          split at h
          · split at h
            · exact absurd (Option.some.inj h).symm heq
            · split at h
              · rename_i first hfirst hlt
                obtain rfl := Option.some.inj h
                exact ⟨hfirst, fun _ => hlt⟩
              · exact absurd (Option.some.inj h).symm heq
          · rename_i hne
            exact ⟨h, fun htopic => absurd htopic hne⟩
        obtain ⟨before, after, rfl, -, hbefore, hafter⟩ := ih hstep.1
        exact ⟨head :: before, after, rfl, htopic, List.forall_mem_cons.mpr ⟨hstep.2, hbefore⟩,
          hafter⟩
  · rintro ⟨before, after, rfl, htopic, hbefore, hafter⟩
    induction before with
    | nil =>
      rw [List.nil_append, soonest?_cons, if_pos htopic]
      cases hfirst : soonest? topic after with
      | none => rfl
      | some first =>
        obtain ⟨hmem, hfirstTopic⟩ := mem_of_soonest? hfirst
        exact if_neg (Nat.not_lt.mpr (hafter first hmem hfirstTopic))
    | cons head before ih =>
      obtain ⟨hhead, hbefore⟩ := List.forall_mem_cons.mp hbefore
      rw [List.cons_append, soonest?_cons, ih hbefore]
      split
      · rename_i hheadTopic
        exact if_pos (hhead hheadTopic)
      · rfl

/-- A call that is registered last is the soonest on its topic if all others have later deadlines;
of equal ones the first one counts. -/
theorem soonest?_concat_eq_iff (hcall : call ∉ w) :
    soonest? call.topic (w ++ [call]) = some call ↔
      ∀ other ∈ w, other.topic = call.topic → call.deadline < other.deadline := by
  rw [soonest?_eq_some_iff]
  constructor
  · rintro ⟨before, after, hsplit, -, hbefore, -⟩
    rcases List.eq_nil_or_concat after with rfl | ⟨rest, last, rfl⟩
    · rw [List.append_inj_left' hsplit rfl]
      exact hbefore
    · -- it would stand among the others as well
      have hsplit' : w ++ [call] = (before ++ call :: rest) ++ [last] := by
        rw [hsplit]
        simp
      have hw : w = before ++ call :: rest := List.append_inj_left' hsplit' rfl
      exact absurd (by simp [hw]) hcall
  · intro h
    exact ⟨w, [], rfl, rfl, h, by simp⟩

end PendingCall

/-- Calls that wait, in the order of their registration, and the slots of all calls. -/
structure PlainCalls where
  waiting : List PendingCall := []
  slots : CallSlots := {}

namespace PlainCalls

def register (t : PlainCalls) (call : PendingCall) : PlainCalls :=
  { t with waiting := t.waiting ++ [call] }

/-- Ends the soonest call on a topic; says whether there was one. -/
def complete (t : PlainCalls) (topic : String) (outcome : CallOutcome) : Bool × PlainCalls :=
  match PendingCall.soonest? topic t.waiting with
  | none => (false, t)
  | some call => (true, ⟨t.waiting.erase call, (t.slots.resolve call.slot outcome).2⟩)

/-- Ends the calls whose deadline is not after `now`, and counts them. -/
def expireDue (t : PlainCalls) (now : Nat) : Nat × PlainCalls :=
  let due := t.waiting.filter (·.deadline ≤ now)
  (due.length,
    ⟨t.waiting.filter (now < ·.deadline),
      t.slots.resolveAll (due.map (·.slot)) (.ofStatus .timedOut)⟩)

/-- The smallest deadline; none if no call waits. -/
def nextDeadline (t : PlainCalls) : Option Nat := (t.waiting.map (·.deadline)).min?

/-- Ends all calls, and counts them. -/
def abortAll (t : PlainCalls) : Nat × PlainCalls :=
  (t.waiting.length,
    ⟨[], t.slots.resolveAll (t.waiting.map (·.slot)) (.ofStatus .aborted)⟩)

end PlainCalls

/-- The plain list that a table stands for. -/
def CallTable.plain (t : CallTable) : PlainCalls := ⟨t.pending.waiting, t.slots⟩

/-! ## Operations as data -/

/-- What can be asked of something that holds waiting calls. -/
inductive TableRequest
  | register (call : PendingCall)
  | complete (topic : String) (outcome : CallOutcome)
  | expireDue (now : Nat)
  | nextDeadline
  | size
  | abortAll

/-- What is answered. -/
inductive TableAnswer
  | done
  | found (any : Bool)
  | count (n : Nat)
  | deadline (first : Option Nat)
  deriving DecidableEq, Repr

/-- The operations of something that holds waiting calls. -/
structure TableOperations (σ : Type) where
  register : σ → PendingCall → σ
  complete : σ → String → CallOutcome → Bool × σ
  expireDue : σ → Nat → Nat × σ
  nextDeadline : σ → Option Nat × σ
  size : σ → Nat
  abortAll : σ → Nat × σ

namespace TableOperations

/-- Carries out one request. -/
def perform {σ : Type} (o : TableOperations σ) (t : σ) : TableRequest → TableAnswer × σ
  | .register call => (.done, o.register t call)
  | .complete topic outcome => (o.complete t topic outcome).map .found id
  | .expireDue now => (o.expireDue t now).map .count id
  | .nextDeadline => (o.nextDeadline t).map .deadline id
  | .size => (.count (o.size t), t)
  | .abortAll => (o.abortAll t).map .count id

/-- Carries out requests one after the other; gives all answers and what is left. -/
def performAll {σ : Type} (o : TableOperations σ) : List TableRequest → σ → List TableAnswer × σ
  | [], t => ([], t)
  | r :: rs, t =>
    let (answer, t) := o.perform t r
    let (answers, t) := o.performAll rs t
    (answer :: answers, t)

/-- Two things that answer every request alike, and stay related, answer every sequence of requests
alike and stay related. -/
theorem performAll_related {σ τ : Type} {o : TableOperations σ} {q : TableOperations τ}
    {Related : σ → τ → Prop}
    (hstep : ∀ s t r, Related s t →
      (o.perform s r).1 = (q.perform t r).1 ∧ Related (o.perform s r).2 (q.perform t r).2)
    (rs : List TableRequest) {s : σ} {t : τ} (h : Related s t) :
    (o.performAll rs s).1 = (q.performAll rs t).1 ∧
      Related (o.performAll rs s).2 (q.performAll rs t).2 := by
  induction rs generalizing s t with
  | nil => exact ⟨rfl, h⟩
  | cons r rs ih =>
    obtain ⟨hanswer, hrest⟩ := hstep s t r h
    obtain ⟨hanswers, hend⟩ := ih hrest
    simp only [performAll]
    rw [hanswer, hanswers]
    exact ⟨rfl, hend⟩

end TableOperations

/-- A table with its indices. -/
def CallTable.operations : TableOperations CallTable where
  register := register
  complete := complete
  expireDue := expireDue
  nextDeadline := nextDeadline
  size t := t.pending.size
  abortAll := abortAll

/-- A plain list. -/
def PlainCalls.operations : TableOperations PlainCalls where
  register := register
  complete := complete
  expireDue := expireDue
  nextDeadline t := (t.nextDeadline, t)
  size t := t.waiting.length
  abortAll := abortAll

end InstrumentBus
