import Mathlib
import InstrumentBus.Proofs.Topic.Levels
import InstrumentBus.Proofs.Dispatch.Quiet
import InstrumentBus.Proofs.PendingCalls.Custody

/-!
# Return codes that one envelope announces

Processing an envelope announces at most one return code for its topic. `Bus.verdict` says which,
and `quiet_process` that this is all that processing does to the calls: the code ends the soonest of
those that wait on the topic, whoever made it, and everything else is quiet.

A return code announced for a topic of the bus itself, or of its driver, ends no call that waits for
a device: `Topic.returnCode_ne_of_devicePrefix`.
-/

namespace InstrumentBus

/-! ## The topics of return codes -/

namespace Topic

theorem pathChars_ne_nil {t : Topic} (h : t.devicePrefix.isSome) : t.pathChars ≠ [] := by
  intro hnil
  unfold devicePrefix at h
  rw [hnil] at h
  split at h <;> simp [takeLevels] at h

/-- The return codes of devices have topics of their own. -/
theorem returnCode_ne_of_devicePrefix {t t' : Topic} (h : t.devicePrefix.isSome)
    (h' : t'.isLocal ∨ t'.isDriver) :
    (t.withSuffix .returnCode).text ≠ (t'.withSuffix .returnCode).text := by
  intro htext
  have hpath := pathChars_eq_of_withSuffix htext
  have hne := pathChars_ne_nil h
  have hhead : t.chars.head? = t'.chars.head? := by
    rw [head?_chars hne, head?_chars (hpath ▸ hne), hpath]
  have hspecial : t.isLocal ∨ t.isDriver := by
    unfold isLocal isDriver at h' ⊢
    rw [hhead]
    exact h'
  unfold devicePrefix at h
  rcases hspecial with hl | hd
  · simp [hl] at h
  · simp [hd] at h

end Topic

/-- Ends the soonest call that waits on a topic, if there is a code to end it with. -/
def CallTable.announce (t : CallTable) (topic : Topic) : Option Int32 → CallTable
  | none => t
  | some code => (t.complete (topic.withSuffix .returnCode).text ⟨code, none⟩).2

theorem CallTable.Sound.announce {base : CallSlots} {others : List PendingCall} {t : CallTable}
    (h : t.Sound base others) (topic : Topic) (code : Option Int32) :
    (t.announce topic code).Sound base others := by
  cases code with
  | none => exact h
  | some code => exact h.complete _ _

theorem CallTable.announce_waiting_subset {t : CallTable} (h : t.pending.Indexed) (topic : Topic)
    (code : Option Int32) :
    (t.announce topic code).pending.waiting ⊆ t.pending.waiting := by
  cases code with
  | none => exact List.Subset.refl _
  | some code => exact complete_waiting_subset h _ _

namespace Bus

variable {b b' : Bus} {e : Envelope}

/-! ## The code that is announced -/

/-- The code that publishing a value at its node announces: the status of a refusal, zero for a
value that is there already, or the status of the first subscriber that fails. -/
def publicationVerdict (b : Bus) (node : NodeId) (e : Envelope) : Option Int32 :=
  match b.validate node e with
  | .error s => some s.code
  | .ok e =>
    if b.isDuplicate node e then some 0
    else
      ((({ b with tree := b.tree.setRetained node e } : Bus).deliver node e .publish).1).map
        StatusCode.code

/-- The code that processing an envelope announces for its topic, if any: that of a value, or the
one that a return code envelope brings from outside. -/
def verdict (b : Bus) (e : Envelope) : Option Int32 :=
  if e.topic.path = "" then none
  else
    match b.nodeOf e.topic with
    | .error _ => none
    | .ok (node, b) =>
      match e.topic.suffix with
      | some .returnCode => e.value.returnCode?
      | some _ => none
      | none => b.publicationVerdict node e

theorem quiet_emitReturnCode (b : Bus) (t : Topic) (code : Int32) :
    ({ b with calls := b.calls.announce t (some code) } : Bus).Quiet (b.emitReturnCode t code) := by
  unfold emitReturnCode
  simp only
  split
  · exact Quiet.refl _
  · rename_i node b' hnode
    exact (quiet_nodeOf hnode).trans (quiet_deliver b' node _ _)

theorem emitReturnCode_calls (b : Bus) (t : Topic) (code : Int32) :
    (b.emitReturnCode t code).calls = b.calls.announce t (some code) :=
  (quiet_emitReturnCode b t code).calls_eq

theorem quiet_publishMetadata (b : Bus) (node : NodeId) (he : e.call = none) :
    b.Quiet (b.publishMetadata node e).2 := by
  unfold publishMetadata
  split
  · split
    · exact Quiet.refl b
    · exact (quiet_tree _ fun h => Tree.callFree_setMetadata h node he).trans
        (quiet_deliver _ node e _)
  · split
    · exact Quiet.refl b
    · exact (quiet_tree _ fun h => Tree.callFree_setMetadata h node he).trans
        (quiet_deliver _ node e _)
  · exact Quiet.refl b

theorem quiet_publishReturnCode (b : Bus) (node : NodeId) (hs : e.topic.suffix = some .returnCode) :
    ({ b with calls := b.calls.announce e.topic e.value.returnCode? } : Bus).Quiet
      (b.publishReturnCode node e).2 := by
  unfold publishReturnCode
  simp only
  refine Quiet.trans ?_ (quiet_deliver _ node e .returnCode)
  cases e.value.returnCode? with
  | none => exact Quiet.refl _
  | some code =>
    unfold CallTable.announce
    rw [Topic.withSuffix_of_suffix hs]
    exact Quiet.refl _

/-- Metadata may change the value of an envelope, but neither its topic nor its call. -/
theorem validate_ok {node : NodeId} {e' : Envelope} (h : b.validate node e = .ok e') :
    e'.topic = e.topic ∧ e'.call = e.call := by
  have hvalue : e' = e ∨ ∃ v, e' = e.setValue v := by
    unfold validate at h
    split at h
    case h_3 => exact Or.inl (Except.ok.inj h).symm
    -- text or a document, both are read alike
    all_goals
      rename_i text _
      cases hm : Metadata.validate text e.value with
      | error s => simp [hm] at h
      | ok changed => cases changed <;> simp only [hm, Except.ok.injEq] at h <;> simp [← h]
  rcases hvalue with rfl | ⟨v, rfl⟩
  · exact ⟨rfl, rfl⟩
  · obtain ⟨htopic, hcall, -⟩ := e.setValue_eq v
    exact ⟨htopic, hcall⟩

theorem quiet_publishValue (b : Bus) (node : NodeId) (he : e.call = none) :
    ({ b with calls := b.calls.announce e.topic (b.publicationVerdict node e) } : Bus).Quiet
      (b.publishValue node e).2 := by
  unfold publishValue publicationVerdict
  cases hvalidate : b.validate node e with
  | error s =>
    simp only
    exact quiet_emitReturnCode b e.topic s.code
  | ok e' =>
    obtain ⟨htopic, hcall⟩ := validate_ok hvalidate
    simp only
    rw [← htopic]
    split
    · simp only
      exact quiet_emitReturnCode b e'.topic 0
    · have hdeliver : b.Quiet
          (({ b with tree := b.tree.setRetained node e' } : Bus).deliver node e' .publish).2 :=
        (quiet_tree _ fun h => Tree.callFree_setRetained h node (hcall.trans he)).trans
          (quiet_deliver _ node e' _)
      generalize ({ b with tree := b.tree.setRetained node e' } : Bus).deliver node e' .publish =
        delivered at hdeliver ⊢
      obtain ⟨outcome, b'⟩ := delivered
      cases outcome with
      | none => exact hdeliver
      | some s =>
        -- the code is announced after the delivery, but delivery leaves the calls as they are
        have hemit := quiet_emitReturnCode b' e'.topic s.code
        rw [show b'.calls = b.calls from hdeliver.calls_eq] at hemit
        simp only [Option.map_some]
        exact (hdeliver.setCalls _).trans hemit

/-- Processing an envelope announces its verdict, and does nothing else to the calls. -/
theorem quiet_process (b : Bus) (he : e.call = none) :
    ({ b with calls := b.calls.announce e.topic (b.verdict e) } : Bus).Quiet (b.process e).2 := by
  unfold process verdict
  split
  · exact Quiet.refl b
  · cases hnode : b.nodeOf e.topic with
    | error _ => exact Quiet.refl b
    | ok found =>
      obtain ⟨node, b'⟩ := found
      have hquiet := quiet_nodeOf hnode
      simp only
      cases hs : e.topic.suffix with
      | none =>
        have hvalue := quiet_publishValue b' node he
        rw [hquiet.calls_eq] at hvalue
        exact (hquiet.setCalls _).trans hvalue
      | some s =>
        cases s with
        | metadataReq => exact hquiet.trans (quiet_deliver b' node e _)
        | metadataRsp => exact hquiet.trans (quiet_publishMetadata b' node he)
        | queryReq => exact hquiet.trans (quiet_deliver b' node e _)
        | queryRsp => exact hquiet.trans (quiet_deliver b' node e _)
        | returnCode =>
          have hcode := quiet_publishReturnCode b' node hs
          rw [hquiet.calls_eq] at hcode
          exact (hquiet.setCalls _).trans hcode

theorem process_calls (b : Bus) (he : e.call = none) :
    (b.process e).2.calls = b.calls.announce e.topic (b.verdict e) := (quiet_process b he).calls_eq

end Bus
end InstrumentBus
