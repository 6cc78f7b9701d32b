import Mathlib
import InstrumentBus.Tree.Delivery
import InstrumentBus.Proofs.Topic.Levels

/-!
# Nodes and their paths

A tree is a list of nodes that refer to each other by number. `Tree.Rooted` says how they must hang
together: every node but the root is a child of one node that came before it, and no two children of
a node have one name. Then a node is as good as the names on the way to it:

* `Rooted.descend_eq_some_iff`: going down a path leads to the node whose levels are this path;
* `Rooted.map_levels_ancestors`: the nodes above a node have the beginnings of its path.

`Tree.Alike` is what operations on single nodes leave as it is; the one that makes nodes is
`addChild`.
-/

namespace InstrumentBus.Tree

variable {t t' t'' : Tree} {id c p : NodeId} {name : String}

/-- How the nodes of a tree hang together. -/
structure Rooted (t : Tree) : Prop where
  root_lt : root < t.size
  parent_root : (t.node root).parent = none
  lt_of_child : ∀ id, ∀ c ∈ (t.node id).children, id < c ∧ c < t.size
  parent_of_child : ∀ id, ∀ c ∈ (t.node id).children, (t.node c).parent = some id
  exists_parent : ∀ c < t.size, c ≠ root → ∃ p, c ∈ (t.node p).children
  /-- Children are kept in the order of their creation. -/
  increasing : ∀ id, (t.node id).children.Pairwise (· < ·)
  names_nodup : ∀ id, ((t.node id).children.map fun c => (t.node c).name).Nodup

theorem node_of_size_le (h : t.size ≤ id) : t.node id = {} := by
  unfold node
  rw [List.getElem?_eq_none h]
  rfl

theorem rooted_empty : ({} : Tree).Rooted := by
  have hnode : ∀ id, ({} : Tree).node id = {} := by
    intro id
    cases id <;> rfl
  refine ⟨by decide, rfl, ?_, ?_, ?_, ?_, ?_⟩
  · intro id c hc
    rw [hnode] at hc
    cases hc
  · intro id c hc
    rw [hnode] at hc
    cases hc
  · intro c hc hne
    exact absurd (Nat.lt_one_iff.mp hc) hne
  · intro id
    rw [hnode]
    exact List.Pairwise.nil
  · intro id
    rw [hnode]
    exact List.nodup_nil

namespace Rooted

/-! ## Going up -/

theorem parent_lt_of_child (h : t.Rooted) (hc : c ∈ (t.node p).children) : p < t.size :=
  Nat.lt_trans (h.lt_of_child p c hc).1 (h.lt_of_child p c hc).2

/-- What holds of the root, and of a child if it holds of the node above, holds of all nodes. -/
theorem induction (h : t.Rooted) {motive : NodeId → Prop} (hroot : motive root)
    (hchild : ∀ p c, c ∈ (t.node p).children → motive p → motive c) :
    ∀ id < t.size, motive id := by
  intro id
  induction id using Nat.strong_induction_on with
  | _ id ih =>
    intro hid
    by_cases hne : id = root
    · rw [hne]
      exact hroot
    · obtain ⟨p, hp⟩ := h.exists_parent id hid hne
      exact hchild p id hp (ih p (h.lt_of_child p id hp).1 (h.parent_lt_of_child hp))

theorem lt_of_parent (h : t.Rooted) (hp : (t.node c).parent = some p) : p < c := by
  have hc : c < t.size := by
    by_contra hle
    rw [node_of_size_le (Nat.not_lt.mp hle)] at hp
    cases hp
  have hne : c ≠ root := by
    intro hroot
    rw [hroot, h.parent_root] at hp
    cases hp
  obtain ⟨q, hq⟩ := h.exists_parent c hc hne
  rw [h.parent_of_child q c hq] at hp
  rw [← Option.some.inj hp]
  exact (h.lt_of_child q c hq).1

/-- Going up takes no more steps than there are nodes before. -/
theorem upwards_of_lt (h : t.Rooted) {fuel : Nat} (hfuel : id < fuel) :
    t.upwards fuel id = t.upwards (id + 1) id := by
  induction id using Nat.strong_induction_on generalizing fuel with
  | _ id ih =>
    obtain ⟨fuel, rfl⟩ := Nat.exists_eq_add_of_lt hfuel
    unfold upwards
    cases hparent : (t.node id).parent with
    | none => rfl
    | some p =>
      have hlt : p < id := h.lt_of_parent hparent
      simp only [Option.map_some, Option.getD_some]
      rw [ih p hlt (Nat.lt_of_lt_of_le hlt (Nat.le_add_right id fuel)), ih p hlt hlt]

theorem ancestors_root (h : t.Rooted) : t.ancestors root = [root] := by
  unfold ancestors
  rw [h.upwards_of_lt h.root_lt]
  unfold upwards
  rw [h.parent_root]
  rfl

theorem ancestors_of_child (h : t.Rooted) (hc : c ∈ (t.node p).children) :
    t.ancestors c = c :: t.ancestors p := by
  obtain ⟨hlt, hsize⟩ := h.lt_of_child p c hc
  unfold ancestors
  rw [h.upwards_of_lt hsize, h.upwards_of_lt (h.parent_lt_of_child hc), ← h.upwards_of_lt hlt]
  conv_lhs => unfold upwards
  rw [h.parent_of_child p c hc]
  rfl

theorem levels_root (h : t.Rooted) : t.levels root = [] := by
  unfold levels
  rw [h.ancestors_root]
  rfl

theorem levels_of_child (h : t.Rooted) (hc : c ∈ (t.node p).children) :
    t.levels c = t.levels p ++ [(t.node c).name] := by
  have hne : c ≠ root := Nat.ne_of_gt (Nat.zero_lt_of_lt (h.lt_of_child p c hc).1)
  unfold levels
  rw [h.ancestors_of_child hc, List.filter_cons_of_pos (by simpa using hne)]
  simp

/-- The nodes above a node have the beginnings of its path. -/
theorem map_levels_ancestors (h : t.Rooted) (hid : id < t.size) :
    (t.ancestors id).map t.levels = (t.levels id).inits.reverse := by
  refine h.induction (motive := fun id =>
    (t.ancestors id).map t.levels = (t.levels id).inits.reverse) ?_ ?_ id hid
  · rw [h.ancestors_root, List.map_singleton, h.levels_root]
    rfl
  · intro p c hc ih
    rw [h.ancestors_of_child hc, List.map_cons, ih, h.levels_of_child hc, List.inits_append]
    simp

/-! ## Going down -/

theorem child?_eq_some_iff (h : t.Rooted) :
    t.child? id name = some c ↔ c ∈ (t.node id).children ∧ (t.node c).name = name := by
  unfold child?
  constructor
  · intro hfind
    exact ⟨List.mem_of_find?_eq_some hfind, by simpa using List.find?_some hfind⟩
  · rintro ⟨hc, hname⟩
    cases hfind : (t.node id).children.find? fun c => (t.node c).name == name with
    | none =>
      rw [List.find?_eq_none] at hfind
      exact absurd (by simpa using hname) (hfind c hc)
    | some c' =>
      -- only one child has the name
      have hname' : (t.node c').name = name := by simpa using List.find?_some hfind
      have heq := List.inj_on_of_nodup_map (h.names_nodup id) (List.mem_of_find?_eq_some hfind) hc
        (hname'.trans hname.symm)
      rw [heq]

end Rooted

theorem descend_append (t : Tree) (id : NodeId) (names names' : List String) :
    t.descend id (names ++ names') = (t.descend id names).bind (t.descend · names') := by
  induction names generalizing id with
  | nil => rfl
  | cons name names ih =>
    rw [List.cons_append, descend, descend, Option.bind_assoc]
    congr 1
    funext c
    exact ih c

theorem descend_singleton (t : Tree) (id : NodeId) (name : String) :
    t.descend id [name] = t.child? id name := by
  unfold descend
  cases t.child? id name <;> rfl

namespace Rooted

theorem descend_levels (h : t.Rooted) (hid : id < t.size) :
    t.descend root (t.levels id) = some id := by
  refine h.induction (motive := fun id => t.descend root (t.levels id) = some id) ?_ ?_ id hid
  · rw [h.levels_root]
    rfl
  · intro p c hc ih
    rw [h.levels_of_child hc, descend_append, ih, Option.bind_some, descend_singleton]
    exact h.child?_eq_some_iff.mpr ⟨hc, rfl⟩

/-- A path leads to the one node that it is the path of. -/
theorem descend_eq_some_iff (h : t.Rooted) {names : List String} :
    t.descend root names = some id ↔ id < t.size ∧ t.levels id = names := by
  constructor
  · intro hdescend
    induction names using List.reverseRecOn generalizing id with
    | nil =>
      obtain rfl : root = id := Option.some.inj hdescend
      exact ⟨h.root_lt, h.levels_root⟩
    | append_singleton names name ih =>
      rw [descend_append] at hdescend
      obtain ⟨p, hp, hchild⟩ := Option.bind_eq_some_iff.mp hdescend
      rw [descend_singleton] at hchild
      obtain ⟨hc, hname⟩ := h.child?_eq_some_iff.mp hchild
      refine ⟨(h.lt_of_child p id hc).2, ?_⟩
      rw [h.levels_of_child hc, (ih hp).2, hname]
  · rintro ⟨hid, rfl⟩
    exact h.descend_levels hid

theorem levels_injOn (h : t.Rooted) {id' : NodeId} (hid : id < t.size) (hid' : id' < t.size)
    (heq : t.levels id = t.levels id') : id = id' := by
  have hdescend := h.descend_levels hid
  rw [heq, h.descend_levels hid'] at hdescend
  exact (Option.some.inj hdescend).symm

/-- The last level of a path is the name of its node. -/
theorem name_eq_getLast (h : t.Rooted) (hid : id < t.size) (hne : t.levels id ≠ []) :
    (t.levels id).getLast? = some (t.node id).name := by
  have hroot : id ≠ root := by
    intro heq
    rw [heq, h.levels_root] at hne
    exact hne rfl
  obtain ⟨p, hp⟩ := h.exists_parent id hid hroot
  rw [h.levels_of_child hp, List.getLast?_concat]

end Rooted

theorem path_of_levels {topic : Topic} (h : t.levels id = topic.segments) :
    t.path id = topic.path := by
  rw [path, h, topic.intercalate_segments]

/-- Looking for the path of a topic is going down its levels. -/
theorem find?_path (t : Tree) (topic : Topic) :
    t.find? topic.path = t.descend root topic.segments := by
  unfold find?
  rw [topic.parse_path]
  simp only [Topic.segments_withoutSuffix]

/-! ## Single nodes -/

theorem node_modify (t : Tree) (id : NodeId) (f : Node → Node) (i : NodeId) :
    (t.modify id f).node i = if i = id ∧ i < t.size then f (t.node i) else t.node i := by
  have hget : (t.modify id f).nodes[i]? = (fun n => if id = i then f n else n) <$> t.nodes[i]? :=
    List.getElem?_modify f id t.nodes i
  unfold node
  rw [hget]
  by_cases hi : i < t.size
  · have hlt : i < t.nodes.length := hi
    rw [List.getElem?_eq_getElem hlt]
    by_cases heq : i = id
    · subst heq
      simp [hi]
    · simp [heq, Ne.symm heq]
  · have hle : t.nodes.length ≤ i := Nat.not_lt.mp hi
    rw [List.getElem?_eq_none hle, if_neg (fun hand => hi hand.2)]
    rfl

@[simp] theorem size_modify (t : Tree) (id : NodeId) (f : Node → Node) :
    (t.modify id f).size = t.size := List.length_modify f t.nodes id

/-- The second tree has the nodes of the first in the same places. -/
structure Alike (t t' : Tree) : Prop where
  size_eq : t'.size = t.size
  name_eq : ∀ id, (t'.node id).name = (t.node id).name
  parent_eq : ∀ id, (t'.node id).parent = (t.node id).parent
  children_eq : ∀ id, (t'.node id).children = (t.node id).children

/-- What changes neither the name of a node nor its place gives a tree that is alike. -/
theorem alike_modify (t : Tree) (id : NodeId) {f : Node → Node}
    (hf : ∀ n, (f n).name = n.name ∧ (f n).parent = n.parent ∧ (f n).children = n.children) :
    t.Alike (t.modify id f) := by
  refine ⟨size_modify t id f, ?_, ?_, ?_⟩ <;>
  · intro i
    rw [node_modify]
    split
    · simp [hf]
    · rfl

theorem Alike.rooted (h : t.Alike t') (ht : t.Rooted) : t'.Rooted where
  root_lt := by
    rw [h.size_eq]
    exact ht.root_lt
  parent_root := by
    rw [h.parent_eq]
    exact ht.parent_root
  lt_of_child id c hc := by
    rw [h.children_eq] at hc
    rw [h.size_eq]
    exact ht.lt_of_child id c hc
  parent_of_child id c hc := by
    rw [h.children_eq] at hc
    rw [h.parent_eq]
    exact ht.parent_of_child id c hc
  exists_parent c hc hne := by
    rw [h.size_eq] at hc
    obtain ⟨p, hp⟩ := ht.exists_parent c hc hne
    exact ⟨p, by rwa [h.children_eq]⟩
  increasing id := by
    rw [h.children_eq]
    exact ht.increasing id
  names_nodup id := by
    simp only [h.children_eq, h.name_eq]
    exact ht.names_nodup id

theorem Alike.refl (t : Tree) : t.Alike t := ⟨rfl, fun _ => rfl, fun _ => rfl, fun _ => rfl⟩

theorem Alike.trans (h : t.Alike t') (h' : t'.Alike t'') : t.Alike t'' where
  size_eq := h'.size_eq.trans h.size_eq
  name_eq id := (h'.name_eq id).trans (h.name_eq id)
  parent_eq id := (h'.parent_eq id).trans (h.parent_eq id)
  children_eq id := (h'.children_eq id).trans (h.children_eq id)

/-- Nodes that are in the same places have the same paths. -/
theorem Alike.levels_eq (h : t.Alike t') (id : NodeId) : t'.levels id = t.levels id := by
  have hupwards : ∀ fuel id, t'.upwards fuel id = t.upwards fuel id := by
    intro fuel
    induction fuel with
    | zero => exact fun _ => rfl
    | succ fuel ih =>
      intro id
      unfold upwards
      rw [h.parent_eq, funext ih]
  unfold levels ancestors
  rw [hupwards, h.size_eq]
  simp only [h.name_eq]

/-! ## New nodes -/

theorem node_addChild (t : Tree) (name : String) (hp : p < t.size) (i : NodeId) :
    (t.addChild p name).2.node i =
      if i = t.size then { name, parent := some p }
      else if i = p then { t.node p with children := (t.node p).children ++ [t.size] }
      else t.node i := by
  have hold : i < t.size → (⟨t.nodes ++ [{ name, parent := some p }]⟩ : Tree).node i = t.node i := by
    intro hi
    unfold node
    rw [List.getElem?_append_left hi]
  have hnew : (⟨t.nodes ++ [{ name, parent := some p }]⟩ : Tree).node t.size =
      { name, parent := some p } := by
    unfold node size
    rw [List.getElem?_concat_length]
    rfl
  have hsize : (⟨t.nodes ++ [{ name, parent := some p }]⟩ : Tree).size = t.size + 1 := by
    simp [size]
  show (modify _ p _).node i = _
  rw [node_modify, hsize]
  rcases Nat.lt_trichotomy i t.size with hi | hi | hi
  · rw [hold hi, if_neg (Nat.ne_of_lt hi)]
    by_cases heq : i = p
    · subst heq
      rw [if_pos ⟨rfl, Nat.lt_succ_of_lt hi⟩, if_pos rfl]
      rfl
    · rw [if_neg (fun h => heq h.1), if_neg heq]
  · rw [if_neg (fun h => absurd (h.1.symm.trans hi) (Nat.ne_of_lt hp)), hi, hnew, if_pos rfl]
  · have hp' : i ≠ p := Nat.ne_of_gt (Nat.lt_trans hp hi)
    rw [if_neg (fun h => hp' h.1), if_neg (Nat.ne_of_gt hi), if_neg hp',
      node_of_size_le (Nat.le_of_lt hi), node_of_size_le (by rwa [hsize])]

theorem size_addChild (t : Tree) (p : NodeId) (name : String) :
    (t.addChild p name).2.size = t.size + 1 := by
  show (modify _ p _).size = _
  rw [size_modify]
  simp [size]

/-- The children after a new node was made. -/
theorem mem_children_addChild (hp : p < t.size) :
    c ∈ ((t.addChild p name).2.node id).children ↔
      c ∈ (t.node id).children ∧ id ≠ t.size ∨ id = p ∧ c = t.size := by
  rw [node_addChild t name hp]
  by_cases hnew : id = t.size
  · rw [if_pos hnew]
    simp [hnew, Nat.ne_of_gt hp]
  · rw [if_neg hnew]
    by_cases heq : id = p
    · simp [heq, Nat.ne_of_lt hp]
    · simp [heq, hnew]

theorem Rooted.addChild (h : t.Rooted) (hp : p < t.size) (hname : t.child? p name = none) :
    (t.addChild p name).2.Rooted := by
  have hsize : (t.addChild p name).2.size = t.size + 1 := size_addChild t p name
  have hnode := node_addChild t name hp
  have hname_eq : ∀ i, i ≠ t.size → ((t.addChild p name).2.node i).name = (t.node i).name := by
    intro i hi
    rw [hnode, if_neg hi]
    split
    · rename_i heq
      rw [heq]
    · rfl
  have hparent_eq : ∀ i, i ≠ t.size → ((t.addChild p name).2.node i).parent = (t.node i).parent := by
    intro i hi
    rw [hnode, if_neg hi]
    split
    · rename_i heq
      rw [heq]
    · rfl
  have hlt : ∀ id, ∀ c ∈ (t.node id).children, c ≠ t.size := fun id c hc =>
    Nat.ne_of_lt (h.lt_of_child id c hc).2
  refine ⟨?_, ?_, ?_, ?_, ?_, ?_, ?_⟩
  · rw [hsize]
    exact Nat.succ_pos _
  · rw [hparent_eq root (Nat.ne_of_lt h.root_lt)]
    exact h.parent_root
  · intro id c hc
    rw [hsize]
    rcases (mem_children_addChild hp).mp hc with ⟨hold, -⟩ | ⟨rfl, rfl⟩
    · obtain ⟨hbefore, hafter⟩ := h.lt_of_child id c hold
      exact ⟨hbefore, Nat.lt_succ_of_lt hafter⟩
    · exact ⟨hp, Nat.lt_succ_self _⟩
  · intro id c hc
    rcases (mem_children_addChild hp).mp hc with ⟨hold, -⟩ | ⟨rfl, rfl⟩
    · rw [hparent_eq c (hlt id c hold)]
      exact h.parent_of_child id c hold
    · rw [hnode, if_pos rfl]
  · intro c hc hne
    rw [hsize] at hc
    rcases Nat.lt_succ_iff_lt_or_eq.mp hc with hold | hnew
    · obtain ⟨q, hq⟩ := h.exists_parent c hold hne
      have hq' : q ≠ t.size := Nat.ne_of_lt (h.parent_lt_of_child hq)
      exact ⟨q, (mem_children_addChild hp).mpr (Or.inl ⟨hq, hq'⟩)⟩
    · exact ⟨p, (mem_children_addChild hp).mpr (Or.inr ⟨rfl, hnew⟩)⟩
  · intro id
    rw [hnode]
    split
    · exact List.Pairwise.nil
    · split
      · -- the new node comes after all others
        refine List.pairwise_append.mpr ⟨h.increasing p, List.pairwise_singleton _ _, ?_⟩
        intro c hc c' hc'
        rw [List.mem_singleton.mp hc']
        exact (h.lt_of_child p c hc).2
      · exact h.increasing id
  · intro id
    have hmap : ∀ id, ((t.node id).children.map fun c => ((t.addChild p name).2.node c).name) =
        (t.node id).children.map fun c => (t.node c).name := fun id =>
      List.map_congr_left fun c hc => hname_eq c (hlt id c hc)
    rw [hnode id]
    split
    · exact List.nodup_nil
    · split
      · rw [List.map_append, hmap, List.map_singleton, hnode, if_pos rfl]
        refine List.nodup_append.mpr ⟨h.names_nodup p, List.nodup_singleton _, ?_⟩
        rintro _ hmem _ hnew rfl
        -- no child had the name before
        obtain ⟨c, hc, hname'⟩ := List.mem_map.mp hmem
        rw [List.mem_singleton.mp hnew] at hname'
        rw [h.child?_eq_some_iff.mpr ⟨hc, hname'⟩] at hname
        cases hname
      · rw [hmap]
        exact h.names_nodup id

/-- The new node lies below its parent, and all others are where they were. -/
theorem Rooted.levels_addChild (h : t.Rooted) (hp : p < t.size) (hname : t.child? p name = none) :
    (t.addChild p name).2.levels t.size = t.levels p ++ [name] ∧
      ∀ id < t.size, (t.addChild p name).2.levels id = t.levels id := by
  have h' := h.addChild hp hname
  have hnode := node_addChild t name hp
  have hold : ∀ id < t.size, (t.addChild p name).2.levels id = t.levels id := by
    refine h.induction ?_ ?_
    · rw [h'.levels_root, h.levels_root]
    · intro q c hc ih
      obtain ⟨hlt, hsize⟩ := h.lt_of_child q c hc
      have hq : q ≠ t.size := Nat.ne_of_lt (Nat.lt_trans hlt hsize)
      have hc' : c ∈ ((t.addChild p name).2.node q).children :=
        (mem_children_addChild hp).mpr (Or.inl ⟨hc, hq⟩)
      rw [h'.levels_of_child hc', h.levels_of_child hc, ih, hnode, if_neg (Nat.ne_of_lt hsize)]
      split
      · rename_i heq
        rw [heq]
      · rfl
  refine ⟨?_, hold⟩
  have hnew : t.size ∈ ((t.addChild p name).2.node p).children :=
    (mem_children_addChild hp).mpr (Or.inr ⟨rfl, rfl⟩)
  rw [h'.levels_of_child hnew, hold p hp, hnode, if_pos rfl]

end InstrumentBus.Tree
