import Mathlib
import InstrumentBus.Proofs.Tree.Contents

/-!
# The order of a walk

`Tree.subtree` takes nodes from a stack and puts their children in their place, at most as many times
as there are nodes. `Rooted.preorder` is the order that this is meant to be: a node, and then child
by child what is at and below it. `Rooted.subtree_eq_preorder` says that they are the same, so the
bound is never met.

Of the order, `Rooted.mem_preorder` says that it holds the nodes whose path goes on from that of the
first one, and `Rooted.pairwise_preorder` that none of them comes after a node below it.
-/

namespace InstrumentBus.Tree

variable {t : Tree} {id i c : NodeId}

namespace Rooted

/-! ## Below a node -/

/-- Fewer nodes come after a child than after the node itself. -/
theorem sub_lt_of_child (h : t.Rooted) (hc : c ∈ (t.node id).children) :
    t.size - c < t.size - id := by
  obtain ⟨hlt, hsize⟩ := h.lt_of_child id c hc
  exact Nat.sub_lt_sub_left (Nat.lt_trans hlt hsize) hlt

/-- What holds of a node if it holds of its children, holds of all nodes. -/
theorem induction_children (h : t.Rooted) {motive : NodeId → Prop}
    (hnode : ∀ id, (∀ c ∈ (t.node id).children, motive c) → motive id) (id : NodeId) :
    motive id := by
  induction hleft : t.size - id using Nat.strong_induction_on generalizing id with
  | _ left ih =>
    apply hnode
    intro c hc
    rw [← hleft] at ih
    exact ih (t.size - c) (h.sub_lt_of_child hc) c rfl

theorem levels_prefix_child (h : t.Rooted) (hc : c ∈ (t.node id).children) :
    t.levels id <+: t.levels c := by
  rw [h.levels_of_child hc]
  exact List.prefix_append _ _

/-- What is below a node is at or below one of its children. -/
theorem eq_or_below_child (h : t.Rooted) (hid : id < t.size) (hi : i < t.size)
    (hle : t.levels id <+: t.levels i) :
    i = id ∨ ∃ c ∈ (t.node id).children, t.levels c <+: t.levels i := by
  refine h.induction (motive := fun i => t.levels id <+: t.levels i →
    i = id ∨ ∃ c ∈ (t.node id).children, t.levels c <+: t.levels i) ?_ ?_ i hi hle
  · intro hroot
    rw [h.levels_root, List.prefix_nil] at hroot
    rw [← h.levels_root] at hroot
    exact Or.inl (h.levels_injOn hid h.root_lt hroot).symm
  · intro p c hc ih hchild
    have hlevels := h.levels_of_child hc
    rw [hlevels, List.prefix_concat_iff, ← hlevels] at hchild
    rcases hchild with heq | hp
    · exact Or.inl (h.levels_injOn hid (h.lt_of_child p c hc).2 heq).symm
    · rcases ih hp with rfl | ⟨c', hc', hbelow⟩
      · exact Or.inr ⟨c, hc, List.prefix_refl _⟩
      · exact Or.inr ⟨c', hc', hbelow.trans (h.levels_prefix_child hc)⟩

theorem not_levels_child_prefix (h : t.Rooted) (hc : c ∈ (t.node id).children) :
    ¬ t.levels c <+: t.levels id := by
  intro hle
  have hlength := hle.length_le
  rw [h.levels_of_child hc, List.length_append, List.length_singleton] at hlength
  omega

/-- No node is below two children of another, as these differ in their last level. -/
theorem child_eq_of_below (h : t.Rooted) {c' : NodeId} (hc : c ∈ (t.node id).children)
    (hc' : c' ∈ (t.node id).children) (hle : t.levels c <+: t.levels i)
    (hle' : t.levels c' <+: t.levels i) : c = c' := by
  have hlength : (t.levels c).length = (t.levels c').length := by
    rw [h.levels_of_child hc, h.levels_of_child hc', List.length_append, List.length_append]
    rfl
  have hbegins : t.levels c <+: t.levels c' :=
    List.prefix_of_prefix_length_le hle hle' (Nat.le_of_eq hlength)
  exact h.levels_injOn (h.lt_of_child id c hc).2 (h.lt_of_child id c' hc').2
    (hbegins.eq_of_length hlength)

/-! ## The order -/

/-- The nodes at and below a node: the node itself, and then what is at and below its children, in
the order of their creation. -/
def preorder (h : t.Rooted) (id : NodeId) : List NodeId :=
  id :: (t.node id).children.attach.flatMap fun c => h.preorder c.1
termination_by t.size - id
decreasing_by exact h.sub_lt_of_child c.2

theorem preorder_eq (h : t.Rooted) (id : NodeId) :
    h.preorder id = id :: (t.node id).children.flatMap h.preorder := by
  conv_lhs => unfold preorder
  rw [List.flatMap_subtype fun _ _ => rfl, List.unattach_attach]

theorem mem_preorder (h : t.Rooted) (hid : id < t.size) :
    i ∈ h.preorder id ↔ i < t.size ∧ t.levels id <+: t.levels i := by
  refine h.induction_children (motive := fun id => id < t.size →
    (i ∈ h.preorder id ↔ i < t.size ∧ t.levels id <+: t.levels i)) ?_ id hid
  intro id ih hid
  have hchild : ∀ c ∈ (t.node id).children,
      (i ∈ h.preorder c ↔ i < t.size ∧ t.levels c <+: t.levels i) :=
    fun c hc => ih c hc (h.lt_of_child id c hc).2
  rw [preorder_eq, List.mem_cons, List.mem_flatMap]
  constructor
  · rintro (rfl | ⟨c, hc, hi⟩)
    · exact ⟨hid, List.prefix_refl _⟩
    · obtain ⟨hlt, hle⟩ := (hchild c hc).mp hi
      exact ⟨hlt, (h.levels_prefix_child hc).trans hle⟩
  · rintro ⟨hlt, hle⟩
    refine (h.eq_or_below_child hid hlt hle).imp_right ?_
    rintro ⟨c, hc, hbelow⟩
    exact ⟨c, hc, (hchild c hc).mpr ⟨hlt, hbelow⟩⟩

/-- No node comes after one below it, nor twice. -/
theorem pairwise_preorder (h : t.Rooted) (id : NodeId) :
    (h.preorder id).Pairwise fun a b => ¬ t.levels b <+: t.levels a := by
  refine h.induction_children (motive := fun id =>
    (h.preorder id).Pairwise fun a b => ¬ t.levels b <+: t.levels a) ?_ id
  intro id ih
  have hchild : ∀ c ∈ (t.node id).children, ∀ i ∈ h.preorder c, t.levels c <+: t.levels i :=
    fun c hc i hi => ((h.mem_preorder (h.lt_of_child id c hc).2).mp hi).2
  rw [preorder_eq, List.pairwise_cons, List.pairwise_flatMap]
  refine ⟨?_, ih, ?_⟩
  · intro i hi hle
    obtain ⟨c, hc, hi⟩ := List.mem_flatMap.mp hi
    exact h.not_levels_child_prefix hc ((hchild c hc i hi).trans hle)
  · refine (h.increasing id).imp_of_mem ?_
    intro c c' hc hc' hlt a ha b hb hle
    -- otherwise the first would be below both children
    have heq := h.child_eq_of_below hc hc' (hchild c hc a ha) ((hchild c' hc' b hb).trans hle)
    exact absurd heq (Nat.ne_of_lt hlt)

theorem nodup_preorder (h : t.Rooted) (id : NodeId) : (h.preorder id).Nodup := by
  refine (h.pairwise_preorder id).imp ?_
  rintro a b hle rfl
  exact hle (List.prefix_refl _)

theorem length_preorder_le (h : t.Rooted) (hid : id < t.size) :
    (h.preorder id).length ≤ t.size := by
  have hsubset : h.preorder id ⊆ List.range t.size := by
    intro i hi
    exact List.mem_range.mpr ((h.mem_preorder hid).mp hi).1
  have hlength := ((h.nodup_preorder id).subperm hsubset).length_le
  rw [List.length_range] at hlength
  exact hlength

/-! ## The walk -/

/-- With enough steps, a walk goes through what is at and below the nodes on its stack. -/
theorem walk_eq_flatMap_preorder (h : t.Rooted) {fuel : Nat} {stack : List NodeId}
    (hfuel : (stack.flatMap h.preorder).length ≤ fuel) :
    t.walk fuel stack = stack.flatMap h.preorder := by
  induction fuel generalizing stack with
  | zero =>
    rw [List.length_eq_zero_iff.mp (Nat.le_zero.mp hfuel)]
    rfl
  | succ fuel ih =>
    cases stack with
    | nil => rfl
    | cons id stack =>
      -- a step takes the first node of the order, and leaves the rest of it on the stack
      have hstep : (id :: stack).flatMap h.preorder =
          id :: ((t.node id).children ++ stack).flatMap h.preorder := by
        rw [List.flatMap_cons, h.preorder_eq, List.flatMap_append, List.cons_append]
      rw [hstep, List.length_cons] at hfuel
      rw [hstep, walk, ih (Nat.le_of_succ_le_succ hfuel)]

/-- There are enough steps for all that is below a node. -/
theorem subtree_eq_preorder (h : t.Rooted) (hid : id < t.size) : t.subtree id = h.preorder id := by
  have hsingle : [id].flatMap h.preorder = h.preorder id := List.flatMap_singleton _ _
  unfold subtree
  rw [h.walk_eq_flatMap_preorder, hsingle]
  rw [hsingle]
  exact h.length_preorder_le hid

end Rooted
end InstrumentBus.Tree
