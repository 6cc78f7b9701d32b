import Mathlib
import InstrumentBus.Proofs.Tree.Arena

/-!
# How the tree grows

Looking for the node of a path makes the nodes that are missing, and this is all that it does.
`Tree.Grown` says so of single nodes: those that were there are as they were, with new children behind
the old ones, and the new ones are blank and lie on the path. `Rooted.grown_makeLevels` is the way to
come by it.
-/

namespace InstrumentBus.Tree

variable {t t' t'' : Tree} {id p : NodeId} {path path' : List String} {name : String}

/-- Nothing is kept at a node, and nobody listens there. -/
structure IsBlank (n : Node) : Prop where
  value : n.value = none
  metadata : n.metadata = none
  subscriptions : n.subscriptions = []

/-- The second tree has the nodes of the first, and beside them only blank ones on a path. -/
structure Grown (path : List String) (t t' : Tree) : Prop where
  size_le : t.size ≤ t'.size
  /-- A node that was there may have new children, which come after the others. -/
  node_eq : ∀ id < t.size, ∃ made, (∀ c ∈ made, t.size ≤ c) ∧
    t'.node id = { t.node id with children := (t.node id).children ++ made }
  levels_eq : ∀ id < t.size, t'.levels id = t.levels id
  blank : ∀ id, t.size ≤ id → id < t'.size → t'.levels id <+: path ∧ IsBlank (t'.node id)

theorem Grown.refl (path : List String) (t : Tree) : t.Grown path t where
  size_le := Nat.le_refl _
  node_eq id _ := ⟨[], List.forall_mem_nil _, by rw [List.append_nil]⟩
  levels_eq _ _ := rfl
  blank _ hle hlt := absurd hlt (Nat.not_lt.mpr hle)

theorem Grown.trans (h : t.Grown path t') (h' : t'.Grown path t'') : t.Grown path t'' where
  size_le := Nat.le_trans h.size_le h'.size_le
  node_eq id hid := by
    obtain ⟨made, hmade, hnode⟩ := h.node_eq id hid
    obtain ⟨made', hmade', hnode'⟩ := h'.node_eq id (Nat.lt_of_lt_of_le hid h.size_le)
    refine ⟨made ++ made', List.forall_mem_append.mpr ⟨hmade, fun c hc => ?_⟩, ?_⟩
    · exact Nat.le_trans h.size_le (hmade' c hc)
    · rw [hnode', hnode, List.append_assoc]
  levels_eq id hid :=
    (h'.levels_eq id (Nat.lt_of_lt_of_le hid h.size_le)).trans (h.levels_eq id hid)
  blank id hle hlt := by
    by_cases hid : id < t'.size
    · obtain ⟨hlevels, hblank⟩ := h.blank id hle hid
      obtain ⟨made, -, hnode⟩ := h'.node_eq id hid
      rw [h'.levels_eq id hid, hnode]
      exact ⟨hlevels, hblank.value, hblank.metadata, hblank.subscriptions⟩
    · exact h'.blank id (Nat.not_lt.mp hid) hlt

theorem Grown.of_prefix (h : t.Grown path t') (hpath : path <+: path') : t.Grown path' t' where
  size_le := h.size_le
  node_eq := h.node_eq
  levels_eq := h.levels_eq
  blank id hle hlt := ⟨(h.blank id hle hlt).1.trans hpath, (h.blank id hle hlt).2⟩

/-- One new node, -/
theorem Rooted.grown_addChild (h : t.Rooted) (hp : p < t.size) (hname : t.child? p name = none) :
    t.Grown (t.levels p ++ [name]) (t.addChild p name).2 := by
  have hsize := size_addChild t p name
  obtain ⟨hnew, hold⟩ := h.levels_addChild hp hname
  refine ⟨?_, fun id hid => ?_, hold, fun id hle hlt => ?_⟩
  · rw [hsize]
    exact Nat.le_succ _
  · rw [node_addChild t name hp, if_neg (Nat.ne_of_lt hid)]
    by_cases hparent : id = p
    · refine ⟨[t.size], List.forall_mem_singleton.mpr (Nat.le_refl _), ?_⟩
      rw [if_pos hparent, hparent]
    · refine ⟨[], List.forall_mem_nil _, ?_⟩
      rw [if_neg hparent, List.append_nil]
  · rw [hsize] at hlt
    obtain rfl : id = t.size := Nat.le_antisymm (Nat.le_of_lt_succ hlt) hle
    rw [hnew, node_addChild t name hp, if_pos rfl]
    exact ⟨List.prefix_rfl, rfl, rfl, rfl⟩

/-- and all that are missing on the way down from a node. -/
theorem Rooted.grown_makeLevels (h : t.Rooted) (hid : id < t.size) (names : List String) :
    t.Grown (t.levels id ++ names) (t.makeLevels id names).2 := by
  induction names generalizing t id with
  | nil => exact Grown.refl _ t
  | cons name names ih =>
    unfold Tree.makeLevels
    cases hchild : t.child? id name with
    | some c =>
      obtain ⟨hc, rfl⟩ := h.child?_eq_some_iff.mp hchild
      have hrest := ih h (h.lt_of_child id c hc).2
      rw [h.levels_of_child hc, List.append_assoc] at hrest
      exact hrest
    | none =>
      have hfirst := h.grown_addChild hid hchild
      have hlt : t.size < (t.addChild id name).2.size := by
        rw [size_addChild]
        exact Nat.lt_succ_self _
      have hrest := ih (h.addChild hid hchild) hlt
      rw [(h.levels_addChild hid hchild).1, List.append_assoc, List.singleton_append] at hrest
      refine Grown.trans (hfirst.of_prefix ⟨names, ?_⟩) hrest
      rw [List.append_assoc, List.singleton_append]

/-- Making the nodes of a path. -/
theorem Rooted.grown_of_path (h : t.Rooted) (path : List String) :
    t.Grown path (t.makeLevels root path).2 := by
  have hgrown := h.grown_makeLevels h.root_lt path
  rw [h.levels_root] at hgrown
  exact hgrown

end InstrumentBus.Tree
