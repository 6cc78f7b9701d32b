import Mathlib
import InstrumentBus.Proofs.Tree.Growth
import InstrumentBus.Proofs.Tree.Walk

/-!
# Trees that operations make

Starting from an empty tree, `Tree.performAll` carries out any operations in any order.
`performAll_represents` says what all of these trees have in common: parents and children are two
sides of one relation (`WellFormed`), a node is known by its path, and looking for a path makes what
is missing on it and nothing else (`Extended`).

The operations are of two kinds. Most of them leave the places of nodes alone, and one looks for a
path; `Reachable.induction` goes by these two.
-/

namespace InstrumentBus.Tree

variable {t t' : Tree} {id : NodeId} {path : String}

/-- The trees that can be made of nothing. -/
inductive Reachable : Tree → Prop
  | nothing : Reachable {}
  | findOrCreate {t t' : Tree} {path : String} {id : NodeId} (h : Reachable t)
      (hmade : t.findOrCreate path = .ok (id, t')) : Reachable t'
  | addSubscription {t : Tree} (h : Reachable t) (id : NodeId) (s : Subscription) :
      Reachable (t.addSubscription id s)
  | remove {t : Tree} (h : Reachable t) (id : NodeId) (who : SubscriberId) :
      Reachable (t.remove id who).2
  | removeSubtree {t : Tree} (h : Reachable t) (id : NodeId) (who : SubscriberId) :
      Reachable (t.removeSubtree id who).2
  | setRetained {t : Tree} (h : Reachable t) (id : NodeId) (e : Envelope) :
      Reachable (t.setRetained id e)
  | setMetadata {t : Tree} (h : Reachable t) (id : NodeId) (e : Envelope) :
      Reachable (t.setMetadata id e)

/-! ## Operations that leave nodes in their places -/

theorem alike_addSubscription (t : Tree) (id : NodeId) (s : Subscription) :
    t.Alike (t.addSubscription id s) := alike_modify t id fun _ => ⟨rfl, rfl, rfl⟩

theorem alike_remove (t : Tree) (id : NodeId) (who : SubscriberId) : t.Alike (t.remove id who).2 :=
  alike_modify t id fun _ => ⟨rfl, rfl, rfl⟩

theorem alike_removeAt (t : Tree) (who : SubscriberId) (ids : List NodeId) :
    t.Alike (t.removeAt who ids).2 := by
  induction ids generalizing t with
  | nil => exact .refl t
  | cons id ids ih => exact (alike_remove t id who).trans (ih _)

theorem alike_setRetained (t : Tree) (id : NodeId) (e : Envelope) : t.Alike (t.setRetained id e) :=
  alike_modify t id fun _ => ⟨rfl, rfl, rfl⟩

theorem alike_setMetadata (t : Tree) (id : NodeId) (e : Envelope) : t.Alike (t.setMetadata id e) :=
  alike_modify t id fun _ => ⟨rfl, rfl, rfl⟩

namespace Reachable

/-- What holds of an empty tree, is kept while nodes stay in their places, and holds after a path was
looked for, holds of all trees. -/
theorem induction {motive : Tree → Prop} (nothing : motive {})
    (alike : ∀ t t', t.Alike t' → motive t → motive t')
    (found : ∀ t (topic : Topic), Reachable t → motive t →
      motive (t.makeLevels root topic.segments).2) (h : t.Reachable) : motive t := by
  induction h with
  | nothing => exact nothing
  | @findOrCreate t t' path id h hmade ih =>
    unfold Tree.findOrCreate at hmade
    cases hparse : Topic.parse path with
    | error e =>
      rw [hparse] at hmade
      cases hmade
    | ok topic =>
      rw [hparse] at hmade
      obtain rfl : (t.makeLevels root topic.segments).2 = t' :=
        congrArg Prod.snd (Except.ok.inj hmade)
      exact found t topic h ih
  | addSubscription _ id s ih => exact alike _ _ (alike_addSubscription _ id s) ih
  | remove _ id who ih => exact alike _ _ (alike_remove _ id who) ih
  | removeSubtree _ id who ih => exact alike _ _ (alike_removeAt _ who _) ih
  | setRetained _ id e ih => exact alike _ _ (alike_setRetained _ id e) ih
  | setMetadata _ id e ih => exact alike _ _ (alike_setMetadata _ id e) ih

theorem rooted (h : t.Reachable) : t.Rooted :=
  h.induction rooted_empty (fun _ _ halike ih => halike.rooted ih)
    fun _ topic _ ih => (ih.made topic.segments).rooted

/-- The path of every node is that of a topic. -/
theorem exists_topic (h : t.Reachable) :
    ∀ id < t.size, ∃ topic : Topic, t.levels id = topic.segments := by
  refine h.induction
    (motive := fun t => ∀ id < t.size, ∃ topic : Topic, t.levels id = topic.segments) ?_ ?_ ?_
  · intro id hid
    obtain rfl : id = root := Nat.lt_one_iff.mp hid
    exact ⟨.root, rfl⟩
  · intro t t' halike ih id hid
    rw [halike.levels_eq]
    exact ih id (halike.size_eq ▸ hid)
  · intro t topic h ih id hid
    have hgrown := h.rooted.grown_of_path topic.segments
    by_cases hold : id < t.size
    · rw [hgrown.levels_eq id hold]
      exact ih id hold
    · -- a new node lies on the path that was looked for
      obtain ⟨above, habove⟩ := Topic.exists_of_prefix (hgrown.blank id (Nat.not_lt.mp hold) hid).1
      exact ⟨above, habove.symm⟩

end Reachable

/-! ## What all trees have in common -/

/-- Parents and children are two sides of one relation, by which every node hangs on the root. -/
structure WellFormed (t : Tree) : Prop where
  root_lt : root < t.size
  parent_eq_none_iff : ∀ id < t.size, (t.node id).parent = none ↔ id = root
  /-- A node is once among the children of its parent, and never among those of another node. -/
  exists_parent : ∀ id < t.size, id ≠ root → ∃ p < id, (t.node id).parent = some p ∧
    ∀ q, (t.node q).children.count id = if q = p then 1 else 0
  increasing : ∀ id, (t.node id).children.Pairwise (· < ·)
  names_nodup : ∀ id, ((t.node id).children.map fun c => (t.node c).name).Nodup
  child_lt : ∀ id, ∀ c ∈ (t.node id).children, c < t.size
  parent_lt : ∀ id p, (t.node id).parent = some p → p < t.size

namespace Rooted

theorem parent_eq_none_iff (h : t.Rooted) (hid : id < t.size) :
    (t.node id).parent = none ↔ id = root := by
  constructor
  · intro hnone
    by_contra hne
    obtain ⟨p, hp⟩ := h.exists_parent id hid hne
    rw [h.parent_of_child p id hp] at hnone
    cases hnone
  · rintro rfl
    exact h.parent_root

/-- The children of a node are counted once, and those of other nodes not at all. -/
theorem count_children (h : t.Rooted) {p c : NodeId} (hc : c ∈ (t.node p).children) (q : NodeId) :
    (t.node q).children.count c = if q = p then 1 else 0 := by
  by_cases hq : q = p
  · rw [if_pos hq, hq]
    have hnodup : (t.node p).children.Nodup := (h.increasing p).imp Nat.ne_of_lt
    exact List.count_eq_one_of_mem hnodup hc
  · rw [if_neg hq, List.count_eq_zero]
    intro hc'
    have hparent := h.parent_of_child q c hc'
    rw [h.parent_of_child p c hc] at hparent
    exact hq (Option.some.inj hparent).symm

theorem wellFormed (h : t.Rooted) : t.WellFormed where
  root_lt := h.root_lt
  parent_eq_none_iff _ := h.parent_eq_none_iff
  exists_parent id hid hne := by
    obtain ⟨p, hp⟩ := h.exists_parent id hid hne
    exact ⟨p, (h.lt_of_child p id hp).1, h.parent_of_child p id hp, h.count_children hp⟩
  increasing := h.increasing
  names_nodup := h.names_nodup
  child_lt id c hc := (h.lt_of_child id c hc).2
  parent_lt id p hp := by
    by_contra hle
    have hid : t.size ≤ id := Nat.le_trans (Nat.not_lt.mp hle) (Nat.le_of_lt (h.lt_of_parent hp))
    rw [node_of_size_le hid] at hp
    cases hp

end Rooted

/-- The second tree has the nodes of the first, and beside them one new node for each beginning of a
path that was missing. -/
structure Extended (segments : List String) (t t' : Tree) : Prop extends Grown segments t t' where
  made_iff : ∀ q, (∃ id, t.size ≤ id ∧ id < t'.size ∧ t'.levels id = q) ↔
    q <+: segments ∧ ∀ id < t.size, t.levels id ≠ q

theorem Rooted.extended (h : t.Rooted) (segments : List String) :
    t.Extended segments (t.makeLevels root segments).2 := by
  have hgrown := h.grown_of_path segments
  obtain ⟨hrooted, hdescend, -⟩ := h.made segments
  refine ⟨hgrown, fun q => ⟨?_, ?_⟩⟩
  · rintro ⟨id, hle, hlt, rfl⟩
    refine ⟨(hgrown.blank id hle hlt).1, fun i hi heq => ?_⟩
    -- two nodes of one path would be one
    rw [← hgrown.levels_eq i hi] at heq
    have hsame := hrooted.levels_injOn (Nat.lt_of_lt_of_le hi hgrown.size_le) hlt heq
    exact absurd (hsame ▸ hi) (Nat.not_lt.mpr hle)
  · rintro ⟨hbegins, hmissing⟩
    obtain ⟨hend, hlevels⟩ := hrooted.descend_eq_some_iff.mp hdescend
    have hknown := hrooted.known_of_prefix hend (hlevels ▸ hbegins)
    rw [known_eq] at hknown
    obtain ⟨id, hid⟩ := Option.isSome_iff_exists.mp hknown
    obtain ⟨hlt, hq⟩ := hrooted.descend_eq_some_iff.mp hid
    refine ⟨id, Nat.not_lt.mp fun hold => ?_, hlt, hq⟩
    rw [hgrown.levels_eq id hold] at hq
    exact hmissing id hold hq

/-! ## Any operations -/

/-- What can be done to a tree. -/
inductive Operation
  | findOrCreate (path : String)
  | addSubscription (id : NodeId) (s : Subscription)
  | remove (id : NodeId) (who : SubscriberId)
  | removeSubtree (id : NodeId) (who : SubscriberId)
  | setRetained (id : NodeId) (e : Envelope)
  | setMetadata (id : NodeId) (e : Envelope)
  | finalize

/-- Carries out an operation. -/
def perform (t : Tree) : Operation → Tree
  | .findOrCreate path =>
    match t.findOrCreate path with
    | .ok (_, t) => t
    | .error _ => t
  | .addSubscription id s => t.addSubscription id s
  | .remove id who => (t.remove id who).2
  | .removeSubtree id who => (t.removeSubtree id who).2
  | .setRetained id e => t.setRetained id e
  | .setMetadata id e => t.setMetadata id e
  | .finalize => t.finalize

/-- The tree that some operations make of an empty one. -/
def performAll (ops : List Operation) : Tree := ops.foldl perform {}

theorem Reachable.perform (h : t.Reachable) (op : Operation) : (t.perform op).Reachable := by
  cases op with
  | findOrCreate path =>
    simp only [Tree.perform]
    cases hmade : t.findOrCreate path with
    | ok made => exact h.findOrCreate hmade
    | error e => exact h
  | addSubscription id s => exact h.addSubscription id s
  | remove id who => exact h.remove id who
  | removeSubtree id who => exact h.removeSubtree id who
  | setRetained id e => exact h.setRetained id e
  | setMetadata id e => exact h.setMetadata id e
  | finalize => exact .nothing

theorem reachable_performAll (ops : List Operation) : (performAll ops).Reachable := by
  induction ops using List.reverseRecOn with
  | nil => exact .nothing
  | append_singleton ops op ih =>
    unfold performAll
    rw [List.foldl_append]
    exact ih.perform op

theorem Reachable.find?_path (h : t.Reachable) (hid : id < t.size) :
    t.find? (t.path id) = some id := by
  obtain ⟨topic, htopic⟩ := h.exists_topic id hid
  rw [path_of_levels htopic, Tree.find?_path, ← htopic]
  exact h.rooted.descend_levels hid

theorem findOrCreate_of_parse {topic : Topic} (h : Topic.parse path = .ok topic) :
    t.findOrCreate path = .ok (t.makeLevels root topic.segments) := by
  unfold findOrCreate
  rw [h]
  rfl

theorem find?_of_parse {topic : Topic} (h : Topic.parse path = .ok topic) :
    t.find? path = t.descend root topic.segments := by
  unfold find?
  rw [h]

/-- Whatever is done to a tree, its nodes hang together: the root is the one node without a parent,
any other has an earlier parent and is once among the children of this one alone, and children come in
the order of their creation and have different names. So every node is found by its path, and no two
have one path. Looking for the path of a topic finds the node that it leads to from then on; of what
was there it changes nothing but that nodes have new children behind the others, and what it makes are
the nodes that were missing. A text that is no topic changes nothing. -/
theorem performAll_represents (ops : List Operation) :
    (performAll ops).WellFormed ∧
      (∀ id < (performAll ops).size,
        (performAll ops).find? ((performAll ops).path id) = some id ∧
          ∀ id' < (performAll ops).size,
            (performAll ops).path id = (performAll ops).path id' → id = id') ∧
      ∀ path, match Topic.parse path with
        | .ok topic => ∃ id t', (performAll ops).findOrCreate path = .ok (id, t') ∧
            performAll (ops ++ [.findOrCreate path]) = t' ∧ t'.find? path = some id ∧
            (performAll ops).Extended topic.segments t'
        | .error e => (performAll ops).findOrCreate path = .error e ∧
            performAll (ops ++ [.findOrCreate path]) = performAll ops := by
  have hreachable := reachable_performAll ops
  have hnext : ∀ op, performAll (ops ++ [op]) = (performAll ops).perform op := by
    intro op
    unfold performAll
    rw [List.foldl_append]
    rfl
  -- that the tree can be made is all that is needed from here on
  simp only [hnext]
  generalize performAll ops = t at hreachable
  have hrooted := hreachable.rooted
  refine ⟨hrooted.wellFormed, fun id hid => ⟨hreachable.find?_path hid, fun id' hid' heq => ?_⟩, ?_⟩
  · have hfound := hreachable.find?_path hid
    rw [heq, hreachable.find?_path hid'] at hfound
    exact (Option.some.inj hfound).symm
  · intro path
    cases hparse : Topic.parse path with
    | ok topic =>
      have hmade := findOrCreate_of_parse (t := t) hparse
      refine ⟨_, _, hmade, ?_, ?_, hrooted.extended topic.segments⟩
      · simp only [perform, hmade]
      · rw [find?_of_parse hparse]
        exact (hrooted.made topic.segments).descend_eq
    | error e =>
      have hrefused : t.findOrCreate path = .error e := by
        unfold findOrCreate
        rw [hparse]
        rfl
      refine ⟨hrefused, ?_⟩
      simp only [perform, hrefused]

/-- A tree with an action and a topic beside it is taken down and grows again. -/
def regrown : List Operation :=
  [.findOrCreate "a/b/!go", .findOrCreate "a/c%", .findOrCreate "a//c", .finalize,
    .findOrCreate "u/x", .findOrCreate "u/y/", .removeSubtree 0 (.client 1)]

/-- Its last node is found by the path that it has now. -/
theorem regrown_found : 3 < (performAll regrown).size ∧ (performAll regrown).path 3 = "u/y" ∧
    (performAll regrown).find? ((performAll regrown).path 3) = some 3 := by
  have hlt : 3 < (performAll regrown).size := by decide
  exact ⟨hlt, by decide +kernel, ((performAll_represents regrown).2.1 3 hlt).1⟩

end InstrumentBus.Tree
