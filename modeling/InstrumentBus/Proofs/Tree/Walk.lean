import Mathlib
import InstrumentBus.Proofs.Tree.Preorder

/-!
# Walking a tree from the top

A walk comes to every node whose path goes on from that of the node it starts at. What is done at all
nodes below another, ending the subscriptions of a subscriber and telling a new one what is kept,
leaves none of them out.
-/

namespace InstrumentBus.Tree

variable {t : Tree} {id i : NodeId} {path : List String}

namespace Rooted

/-- All nodes at and below a node are come to. -/
theorem mem_subtree (h : t.Rooted) (hid : id < t.size) (hi : i < t.size)
    (hle : t.levels id <+: t.levels i) : i ∈ t.subtree id := by
  rw [h.subtree_eq_preorder hid]
  exact (h.mem_preorder hid).mpr ⟨hi, hle⟩

/-! ## Ending subscriptions everywhere -/

/-- Whoever ends subscriptions at some nodes ends them at the paths that lead there. -/
theorem removeAt (h : t.Rooted) (who : SubscriberId) (ids : List NodeId) :
    (t.removeAt who ids).2.Rooted ∧ (t.removeAt who ids).2.contents = { t.contents with
      listeners := fun q =>
        if ∃ i ∈ ids, t.descend root q = some i then
          (t.contents.listeners q).filter (·.subscriber ≠ who)
        else t.contents.listeners q } := by
  induction ids generalizing t with
  | nil => exact ⟨h, Contents.ext rfl rfl rfl (funext fun q => by simp [Tree.removeAt])⟩
  | cons id ids ih =>
    by_cases hid : id < t.size
    · have halike : t.Alike (t.remove id who).2 := alike_modify t id fun _ => ⟨rfl, rfl, rfl⟩
      obtain ⟨hrooted, hcontents⟩ := h.remove (h.descend_levels hid) who
      obtain ⟨hrooted', hcontents'⟩ := ih hrooted
      refine ⟨hrooted', hcontents'.trans ?_⟩
      rw [hcontents]
      refine Contents.ext rfl rfl rfl (funext fun q => ?_)
      simp only [halike.descend_eq, List.exists_mem_cons_iff, h.descend_eq_some_iff, hid, true_and]
      by_cases hq : q = t.levels id
      · subst hq
        simp only [Function.update_self, List.filter_filter, Bool.and_self, true_or, if_true, ite_self]
      · rw [Function.update_of_ne hq]
        simp only [Ne.symm hq, false_or]
    · -- there is no such node
      have hsame : (t.remove id who).2 = t := by
        show t.modify id _ = t
        unfold Tree.modify
        rw [List.modify_eq_self (Nat.not_lt.mp hid)]
      have hcons : (t.removeAt who (id :: ids)).2 = (t.removeAt who ids).2 := by
        show ((t.remove id who).2.removeAt who ids).2 = _
        rw [hsame]
      obtain ⟨hrooted, hcontents⟩ := ih h
      rw [hcons]
      refine ⟨hrooted, hcontents.trans (Contents.ext rfl rfl rfl (funext fun q => ?_))⟩
      simp only [List.exists_mem_cons_iff, h.descend_eq_some_iff, hid, false_and, false_or]

/-- Below the root is everything. -/
theorem removeSubtree_root (h : t.Rooted) (who : SubscriberId) :
    (t.removeSubtree root who).2.Rooted ∧ (t.removeSubtree root who).2.contents =
      { t.contents with
        listeners := fun q => (t.contents.listeners q).filter (·.subscriber ≠ who) } := by
  obtain ⟨hrooted, hcontents⟩ := h.removeAt who (t.subtree root)
  refine ⟨hrooted, hcontents.trans (Contents.ext rfl rfl rfl (funext fun q => ?_))⟩
  cases hq : t.descend root q with
  | none => simp [listeners_of_descend_none hq]
  | some i =>
    have hi : i < t.size := (h.descend_eq_some_iff.mp hq).1
    have hmem : i ∈ t.subtree root := by
      refine h.mem_subtree h.root_lt hi ?_
      rw [h.levels_root]
      exact List.nil_prefix
    exact if_pos ⟨i, hmem, hq⟩

/-! ## What a new subscription is told -/

/-- Whatever is kept at or below a node is told to a subscription that asks for it. -/
theorem mem_replayed (h : t.Rooted) (hid : t.descend root path = some id) {flags : SubscribeFlags}
    (hretain : flags.retain = true) {q : List String} (hq : path <+: q) {e : Envelope} :
    (flags.publish = true → t.contents.value q = some e → e ∈ t.replayed id flags) ∧
    (flags.metadataRsp = true → t.contents.metadata q = some e → e ∈ t.replayed id flags) := by
  have hmem : ∀ i, t.descend root q = some i → i ∈ t.subtree id := by
    intro i hi
    obtain ⟨hlt, hlevels⟩ := h.descend_eq_some_iff.mp hid
    obtain ⟨hlt', hlevels'⟩ := h.descend_eq_some_iff.mp hi
    refine h.mem_subtree hlt hlt' ?_
    rw [hlevels, hlevels']
    exact hq
  unfold replayed
  rw [if_pos hretain]
  constructor
  · intro hpublish he
    cases hi : t.descend root q with
    | none =>
      rw [value_of_descend_none hi] at he
      cases he
    | some i =>
      rw [value_of_descend hi] at he
      refine List.mem_flatMap.mpr ⟨i, hmem i hi, List.mem_append_right _ ?_⟩
      rw [if_pos hpublish, he]
      exact List.mem_singleton_self e
  · intro hmetadata he
    cases hi : t.descend root q with
    | none =>
      rw [metadata_of_descend_none hi] at he
      cases he
    | some i =>
      rw [metadata_of_descend hi] at he
      refine List.mem_flatMap.mpr ⟨i, hmem i hi, List.mem_append_left _ ?_⟩
      rw [if_pos hmetadata, he]
      exact List.mem_singleton_self e

/-- Nothing is told but what is kept. -/
theorem kept_of_mem_replayed (h : t.Rooted) {flags : SubscribeFlags} {e : Envelope}
    (he : e ∈ t.replayed id flags) :
    ∃ q, t.contents.value q = some e ∨ t.contents.metadata q = some e := by
  have hlt : ∀ i, t.value? i = some e ∨ t.metadata? i = some e → i < t.size := by
    intro i hkept
    by_contra hge
    unfold value? metadata? at hkept
    rw [node_of_size_le (Nat.not_lt.mp hge)] at hkept
    simp at hkept
  unfold replayed at he
  split at he
  · obtain ⟨i, -, he⟩ := List.mem_flatMap.mp he
    have hkept : t.value? i = some e ∨ t.metadata? i = some e := by
      rcases List.mem_append.mp he with he | he
      · split at he
        · exact Or.inr (Option.mem_toList.mp he)
        · cases he
      · split at he
        · exact Or.inl (Option.mem_toList.mp he)
        · cases he
    have hi := h.descend_levels (hlt i hkept)
    rw [← value_of_descend hi, ← metadata_of_descend hi] at hkept
    exact ⟨t.levels i, hkept⟩
  · cases he

end Rooted
end InstrumentBus.Tree
