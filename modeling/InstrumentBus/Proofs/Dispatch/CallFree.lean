import Mathlib
import InstrumentBus.Bus.Client

/-!
# Envelopes without calls

Only a client that waits puts a call into its envelope. All envelopes that are made anywhere else,
and all copies, are without one, and so is what the tree keeps as long as nothing else is put into
it.
-/

namespace InstrumentBus

/-! ## Envelopes without calls -/

/-- No call travels with any of the envelopes. -/
def CallFree (es : List Envelope) : Prop := ∀ e ∈ es, e.call = none

theorem callFree_append {es es' : List Envelope} :
    CallFree (es ++ es') ↔ CallFree es ∧ CallFree es' := List.forall_mem_append

theorem callFree_cons {e : Envelope} {es : List Envelope} :
    CallFree (e :: es) ↔ e.call = none ∧ CallFree es := List.forall_mem_cons

theorem callFree_nil : CallFree [] := List.forall_mem_nil _

theorem CallFree.filterMap_call {es : List Envelope} (h : CallFree es) :
    es.filterMap Envelope.call = [] := List.filterMap_eq_nil_iff.mpr h

theorem Queue.push?_eq_some {q q' : Queue} {e : Envelope} (h : q.push? e = some q') :
    q.closed = false ∧ q' = { q with items := q.items ++ [e] } := by
  unfold push? at h
  split at h
  · cases h
  · rename_i hopen
    exact ⟨by simpa using hopen, (Option.some.inj h).symm⟩

theorem CallFree.push {q q' : Queue} {e : Envelope} (h : CallFree q.items) (he : e.call = none)
    (hpush : q.push? e = some q') : CallFree q'.items := by
  obtain ⟨-, rfl⟩ := Queue.push?_eq_some hpush
  exact callFree_append.mpr ⟨h, callFree_cons.mpr ⟨he, callFree_nil⟩⟩

namespace Envelope

theorem storeInline?_some {e e' : Envelope} {v : Value} (h : e.storeInline? v = some e') :
    e'.topic = e.topic ∧ e'.call = e.call ∧ e'.control = e.control := by
  unfold storeInline? at h
  split at h
  · cases h
  · split at h
    · cases h
    · cases h
      exact ⟨rfl, rfl, rfl⟩

/-- A value changes neither the topic of its envelope nor what else it carries. -/
theorem setValue_eq (e : Envelope) (v : Stored) :
    (e.setValue v).topic = e.topic ∧ (e.setValue v).call = e.call ∧
      (e.setValue v).control = e.control := by
  unfold setValue
  split
  · exact ⟨rfl, rfl, rfl⟩
  · cases h : (e.setConst false).storeInline? v.value with
    | none =>
      simp only [h, Option.getD_none]
      exact ⟨rfl, rfl, rfl⟩
    | some e' =>
      have hstored := storeInline?_some h
      simp only [h, Option.getD_some]
      exact hstored

@[simp] theorem make_call (sizes : BufferSizes) (topic : Topic) (v : Stored) (f : ValueFlags) :
    (make sizes topic v f).call = none := by simp [make, setFlags, ofBuffer, setValue_eq]

@[simp] theorem make_topic (sizes : BufferSizes) (topic : Topic) (v : Stored) (f : ValueFlags) :
    (make sizes topic v f).topic = topic := by simp [make, setFlags, ofBuffer, setValue_eq]

@[simp] theorem make_control (sizes : BufferSizes) (topic : Topic) (v : Stored) (f : ValueFlags) :
    (make sizes topic v f).control = none := by simp [make, setFlags, ofBuffer, setValue_eq]

@[simp] theorem clone_call (e : Envelope) : e.clone.call = none := by
  unfold clone cloneInto
  cases e.payload with
  | stored v => rfl
  | inline kind length => simp [copyValue, ofBuffer, setValue_eq]

end Envelope

@[simp] theorem Bus.envelope_call (b : Bus) (topic : Topic) (v : Stored) (f : ValueFlags) :
    (b.envelope topic v f).call = none := Envelope.make_call ..

@[simp] theorem Bus.envelope_topic (b : Bus) (topic : Topic) (v : Stored) (f : ValueFlags) :
    (b.envelope topic v f).topic = topic := Envelope.make_topic ..

@[simp] theorem Bus.textEnvelope_call (b : Bus) (topic : Topic) (text : String) :
    (b.textEnvelope topic text).call = none := Envelope.make_call ..

theorem map_eq_ok_iff {ε α β : Type} {x : Except ε α} {f : α → β} {y : β} :
    x.map f = .ok y ↔ ∃ a, x = .ok a ∧ f a = y := by
  cases x <;> simp [Except.map]

/-- The requests of clients become envelopes without calls. -/
theorem Bus.envelopeOf_call {b : Bus} {r : Request} {e : Envelope} {timeout : Nat}
    (h : b.envelopeOf r = .ok (e, timeout)) : e.call = none := by
  cases r with
  | publish p time =>
    obtain ⟨e', he', heq⟩ := map_eq_ok_iff.mp h
    obtain ⟨t, -, rfl⟩ := map_eq_ok_iff.mp he'
    cases heq
    exact envelope_call b t p.value p.flags
  | query topic time | queryInto topic capacity time =>
    obtain ⟨e', he', heq⟩ := map_eq_ok_iff.mp h
    obtain ⟨t, -, rfl⟩ := map_eq_ok_iff.mp he'
    cases heq
    exact textEnvelope_call ..
  | subscribe topic listener flags time | unsubscribe topic listener time =>
    obtain ⟨t, -, heq⟩ := map_eq_ok_iff.mp h
    cases heq
    exact textEnvelope_call ..
  | unsubscribeAll listener time =>
    cases h
    exact envelope_call b .unsubscribeAll Value.null {}
  | shutdown => cases h

/-! ## Envelopes in the tree -/

namespace Tree

variable {t : Tree}

theorem callFree_kept_iff :
    CallFree t.kept ↔ ∀ n ∈ t.nodes, CallFree (n.value.toList ++ n.metadata.toList) := by
  unfold CallFree kept
  simp only [List.mem_flatMap]
  constructor
  · intro h n hn e he
    exact h e ⟨n, hn, he⟩
  · rintro h e ⟨n, hn, he⟩
    exact h n hn e he

theorem callFree_empty : CallFree ({} : Tree).kept := by simp [CallFree, kept]

theorem callFree_modify (h : CallFree t.kept) (id : NodeId) {f : Node → Node}
    (hf : ∀ n, CallFree (n.value.toList ++ n.metadata.toList) →
      CallFree ((f n).value.toList ++ (f n).metadata.toList)) :
    CallFree (t.modify id f).kept := by
  rw [callFree_kept_iff] at h ⊢
  intro n hn
  obtain ⟨i, hi⟩ := List.mem_iff_getElem?.mp hn
  rw [show (t.modify id f).nodes[i]? = (t.nodes.modify id f)[i]? from rfl, List.getElem?_modify] at hi
  obtain ⟨m, hm, rfl⟩ := Option.map_eq_some_iff.mp hi
  have hfree := h m (List.mem_of_getElem? hm)
  split
  · exact hf m hfree
  · exact hfree

theorem callFree_addChild (h : CallFree t.kept) (parent : NodeId) (name : String) :
    CallFree (t.addChild parent name).2.kept := by
  refine callFree_modify ?_ parent fun n hn => hn
  rw [callFree_kept_iff] at h ⊢
  intro n hn
  rcases List.mem_append.mp hn with hn | hn
  · exact h n hn
  · rw [List.mem_singleton.mp hn]
    exact callFree_nil

theorem callFree_makeLevels (names : List String) (h : CallFree t.kept) (id : NodeId) :
    CallFree (t.makeLevels id names).2.kept := by
  induction names generalizing t id with
  | nil => exact h
  | cons name names ih =>
    unfold makeLevels
    split
    · exact ih h _
    · exact ih (callFree_addChild h id name) _

theorem callFree_setRetained (h : CallFree t.kept) (id : NodeId) {e : Envelope} (he : e.call = none) :
    CallFree (t.setRetained id e).kept := by
  refine callFree_modify h id fun n hn => ?_
  have hmetadata := (callFree_append.mp hn).2
  split
  · exact callFree_append.mpr ⟨callFree_cons.mpr ⟨he, callFree_nil⟩, hmetadata⟩
  · exact callFree_append.mpr ⟨callFree_nil, hmetadata⟩

theorem callFree_setMetadata (h : CallFree t.kept) (id : NodeId) {e : Envelope} (he : e.call = none) :
    CallFree (t.setMetadata id e).kept := by
  refine callFree_modify h id fun n hn => ?_
  exact callFree_append.mpr
    ⟨(callFree_append.mp hn).1, callFree_cons.mpr ⟨he, callFree_nil⟩⟩

theorem callFree_addSubscription (h : CallFree t.kept) (id : NodeId) (s : Subscription) :
    CallFree (t.addSubscription id s).kept := callFree_modify h id fun _ hn => hn

theorem callFree_remove (h : CallFree t.kept) (id : NodeId) (who : SubscriberId) :
    CallFree (t.remove id who).2.kept := callFree_modify h id fun _ hn => hn

theorem callFree_removeAt (ids : List NodeId) (h : CallFree t.kept) (who : SubscriberId) :
    CallFree (t.removeAt who ids).2.kept := by
  induction ids generalizing t with
  | nil => exact h
  | cons id ids ih => exact ih (callFree_remove h id who)

end Tree
end InstrumentBus
