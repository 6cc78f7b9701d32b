import Mathlib
import InstrumentBus.Proofs.Tree.Arena

/-!
# A tree as maps from paths

What a tree keeps, and who listens there, are maps from paths: `Tree.contents`. Every operation on
the tree is one on these maps. `Rooted.made` says that going down a path makes what is missing on the
way and changes nothing else; the operations on a node change what is found at its path.
-/

namespace InstrumentBus

/-- The paths that are there, what is kept at them, and who listens. -/
@[ext]
structure Contents where
  known : List String → Bool
  value : List String → Option Envelope
  metadata : List String → Option Envelope
  listeners : List String → List Subscription

namespace Contents

/-- All levels of a path are there. -/
def reach (c : Contents) (path : List String) : Contents :=
  { c with known := fun q => c.known q || q.isPrefixOf path }

/-- Who receives an envelope of a class at a path, and in which order: those who listen at the path
itself come first, then level by level those above it. The sender is left out. -/
def recipients (c : Contents) (path : List String) (k : DeliveryClass)
    (origin : Option SubscriberId) : List SubscriberId :=
  (path.inits.reverse.flatMap c.listeners).filterMap fun s =>
    if s.accepts k && some s.subscriber != origin then some s.subscriber else none

end Contents

namespace Tree

/-- The node that a path leads to. -/
def found? (t : Tree) (path : List String) : Option Node := (t.descend root path).map t.node

def contents (t : Tree) : Contents where
  known path := (t.found? path).isSome
  value path := (t.found? path).bind Node.value
  metadata path := (t.found? path).bind Node.metadata
  listeners path := ((t.found? path).map Node.subscriptions).getD []

variable {t t' : Tree} {id c p : NodeId} {path q : List String}

theorem found?_of_descend (h : t.descend root path = some id) : t.found? path = some (t.node id) := by
  unfold found?
  rw [h]
  rfl

theorem value_of_descend (h : t.descend root path = some id) :
    t.contents.value path = t.value? id := by
  show (t.found? path).bind Node.value = _
  rw [found?_of_descend h]
  rfl

theorem metadata_of_descend (h : t.descend root path = some id) :
    t.contents.metadata path = t.metadata? id := by
  show (t.found? path).bind Node.metadata = _
  rw [found?_of_descend h]
  rfl

theorem listeners_of_descend (h : t.descend root path = some id) :
    t.contents.listeners path = t.subscriptions id := by
  show ((t.found? path).map Node.subscriptions).getD [] = _
  rw [found?_of_descend h]
  rfl

theorem value_of_descend_none (h : t.descend root path = none) : t.contents.value path = none := by
  show (t.found? path).bind Node.value = none
  unfold found?
  rw [h]
  rfl

theorem metadata_of_descend_none (h : t.descend root path = none) :
    t.contents.metadata path = none := by
  show (t.found? path).bind Node.metadata = none
  unfold found?
  rw [h]
  rfl

theorem listeners_of_descend_none (h : t.descend root path = none) :
    t.contents.listeners path = [] := by
  show ((t.found? path).map Node.subscriptions).getD [] = []
  unfold found?
  rw [h]
  rfl

theorem known_eq (t : Tree) (path : List String) :
    t.contents.known path = (t.descend root path).isSome := Option.isSome_map ..

/-- In a new tree there is nothing but the root. -/
theorem contents_empty :
    ({} : Tree).contents =
      ⟨fun path => decide (path = []), fun _ => none, fun _ => none, fun _ => []⟩ := by
  have hroot : ({} : Tree).found? [] = some {} := rfl
  have hbelow : ∀ name path, ({} : Tree).found? (name :: path) = none := fun _ _ => rfl
  ext path <;> cases path <;> simp [contents, hroot, hbelow]

/-! ## Paths that are there -/

/-- With a path, all its beginnings are there. -/
theorem Rooted.known_of_prefix (h : t.Rooted) (hid : id < t.size) (hpath : path <+: t.levels id) :
    t.contents.known path = true := by
  rw [known_eq]
  refine h.induction (motive := fun id =>
    path <+: t.levels id → (t.descend root path).isSome) ?_ ?_ id hid hpath
  · intro hroot
    rw [h.levels_root, List.prefix_nil] at hroot
    rw [hroot]
    rfl
  · intro p c hc ih hchild
    rw [h.levels_of_child hc, List.prefix_concat_iff] at hchild
    rcases hchild with heq | hle
    · rw [heq, ← h.levels_of_child hc, h.descend_levels (h.lt_of_child p c hc).2]
      rfl
    · exact ih hle

/-! ## New nodes -/

/-- A new node changes nothing but that its path is there. -/
theorem Rooted.contents_addChild (h : t.Rooted) (hp : p < t.size) {name : String}
    (hname : t.child? p name = none) :
    (t.addChild p name).2.contents = { t.contents with
      known := fun q => t.contents.known q || decide (q = t.levels p ++ [name]) } := by
  have h' := h.addChild hp hname
  obtain ⟨hnew, hold⟩ := h.levels_addChild hp hname
  have hsize : (t.addChild p name).2.size = t.size + 1 := size_addChild t p name
  have hfound : ∀ q id, t.descend root q = some id →
      ∃ children, (t.addChild p name).2.found? q = some { t.node id with children } := by
    intro q id hq
    obtain ⟨hid, hlevels⟩ := h.descend_eq_some_iff.mp hq
    have hq' : (t.addChild p name).2.descend root q = some id := by
      rw [h'.descend_eq_some_iff, hsize, hold id hid]
      exact ⟨Nat.lt_succ_of_lt hid, hlevels⟩
    rw [found?_of_descend hq', node_addChild t name hp, if_neg (Nat.ne_of_lt hid)]
    split
    · rename_i heq
      rw [heq]
      exact ⟨_, rfl⟩
    · exact ⟨_, rfl⟩
  have hmade : (t.addChild p name).2.found? (t.levels p ++ [name]) =
      some { name, parent := some p } := by
    have hq' : (t.addChild p name).2.descend root (t.levels p ++ [name]) = some t.size := by
      rw [h'.descend_eq_some_iff, hsize, hnew]
      exact ⟨Nat.lt_succ_self _, rfl⟩
    rw [found?_of_descend hq', node_addChild t name hp, if_pos rfl]
  have hmissing : ∀ q, t.descend root q = none → q ≠ t.levels p ++ [name] →
      (t.addChild p name).2.found? q = none := by
    intro q hq hne
    unfold found?
    rw [Option.map_eq_none_iff, Option.eq_none_iff_forall_not_mem]
    intro id hid
    obtain ⟨hlt, hlevels⟩ := h'.descend_eq_some_iff.mp hid
    rw [hsize] at hlt
    rcases Nat.lt_succ_iff_lt_or_eq.mp hlt with hlt | heq
    · rw [hold id hlt] at hlevels
      rw [h.descend_eq_some_iff.mpr ⟨hlt, hlevels⟩] at hq
      cases hq
    · rw [heq, hnew] at hlevels
      exact hne hlevels.symm
  -- what is found at a path, before and after
  have hcases : ∀ q, (∃ n children, t.found? q = some n ∧
        (t.addChild p name).2.found? q = some { n with children }) ∨
      (q = t.levels p ++ [name] ∧ t.found? q = none ∧
        (t.addChild p name).2.found? q = some { name, parent := some p }) ∨
      (q ≠ t.levels p ++ [name] ∧ t.found? q = none ∧ (t.addChild p name).2.found? q = none) := by
    intro q
    cases hq : t.descend root q with
    | some id =>
      obtain ⟨children, hq'⟩ := hfound q id hq
      exact Or.inl ⟨_, children, found?_of_descend hq, hq'⟩
    | none =>
      have hnone : t.found? q = none := by
        unfold found?
        rw [hq]
        rfl
      by_cases heq : q = t.levels p ++ [name]
      · subst heq
        exact Or.inr (Or.inl ⟨rfl, hnone, hmade⟩)
      · exact Or.inr (Or.inr ⟨heq, hnone, hmissing q hq heq⟩)
  refine Contents.ext ?_ ?_ ?_ ?_ <;>
  · funext q
    rcases hcases q with ⟨n, children, hq, hq'⟩ | ⟨heq, hq, hq'⟩ | ⟨hne, hq, hq'⟩
    · simp [contents, hq, hq']
    · simp only [contents, hq, hq']
      simp [heq]
    · simp [contents, hq, hq', hne]

/-- The second tree has been given what was missing on a path, which leads to `id`. -/
structure Made (t : Tree) (path : List String) (id : NodeId) (t' : Tree) : Prop where
  rooted : t'.Rooted
  descend_eq : t'.descend root path = some id
  contents_eq : t'.contents = t.contents.reach path

theorem Rooted.makeLevels (h : t.Rooted) (hid : id < t.size) (names : List String) :
    t.Made (t.levels id ++ names) (t.makeLevels id names).1 (t.makeLevels id names).2 := by
  induction names generalizing t id with
  | nil =>
    rw [List.append_nil]
    refine ⟨h, h.descend_levels hid, Contents.ext (funext fun q => ?_) rfl rfl rfl⟩
    show t.contents.known q = (t.contents.known q || q.isPrefixOf (t.levels id))
    cases hq : q.isPrefixOf (t.levels id) with
    | true => rw [h.known_of_prefix hid (List.isPrefixOf_iff_prefix.mp hq), Bool.or_true]
    | false => rw [Bool.or_false]
  | cons name names ih =>
    unfold Tree.makeLevels
    cases hchild : t.child? id name with
    | some c =>
      obtain ⟨hc, rfl⟩ := h.child?_eq_some_iff.mp hchild
      have hmade := ih h (h.lt_of_child id c hc).2
      rw [h.levels_of_child hc, List.append_assoc] at hmade
      exact hmade
    | none =>
      obtain ⟨hnew, -⟩ := h.levels_addChild hid hchild
      have hlt : t.size < (t.addChild id name).2.size := by
        rw [size_addChild]
        exact Nat.lt_succ_self _
      obtain ⟨hrooted, hdescend, hcontents⟩ := ih (h.addChild hid hchild) hlt
      rw [hnew, List.append_assoc, List.singleton_append] at hdescend hcontents
      refine ⟨hrooted, hdescend, ?_⟩
      rw [h.contents_addChild hid hchild] at hcontents
      refine hcontents.trans (Contents.ext (funext fun q => ?_) rfl rfl rfl)
      simp only [Contents.reach, Bool.or_assoc]
      congr 1
      -- the first of the new nodes lies on the path
      have hfirst : (t.levels id ++ [name]).isPrefixOf (t.levels id ++ name :: names) = true :=
        List.isPrefixOf_iff_prefix.mpr ⟨names, by simp⟩
      by_cases heq : q = t.levels id ++ [name]
      · rw [heq, hfirst, Bool.or_true]
      · rw [decide_eq_false heq, Bool.false_or]

/-- Going down a path from the top makes what is missing on it. -/
theorem Rooted.made (h : t.Rooted) (path : List String) :
    t.Made path (t.makeLevels root path).1 (t.makeLevels root path).2 := by
  have hmade := h.makeLevels h.root_lt path
  rw [h.levels_root] at hmade
  exact hmade

/-- Going down to a node that is there makes nothing. -/
theorem makeLevels_of_descend {node : NodeId} {names : List String}
    (h : t.descend id names = some node) : t.makeLevels id names = (node, t) := by
  induction names generalizing id with
  | nil =>
    cases h
    rfl
  | cons name names ih =>
    obtain ⟨c, hchild, hrest⟩ := Option.bind_eq_some_iff.mp h
    unfold makeLevels
    rw [hchild]
    exact ih hrest

/-! ## Operations on a node -/

theorem Alike.descend_eq (h : t.Alike t') (id : NodeId) (path : List String) :
    t'.descend id path = t.descend id path := by
  induction path generalizing id with
  | nil => rfl
  | cons name path ih =>
    unfold descend child?
    rw [h.children_eq, funext ih]
    simp only [h.name_eq]

section Modify

variable (h : t.Rooted) (hid : t.descend root path = some id)
include hid

/-- An operation on a node leaves it where it is, -/
theorem descend_modify {f : Node → Node}
    (hf : ∀ n, (f n).name = n.name ∧ (f n).parent = n.parent ∧ (f n).children = n.children) :
    (t.modify id f).descend root path = some id := by
  rw [(alike_modify t id hf).descend_eq]
  exact hid

include h

/-- and changes what is found at its path. -/
theorem Rooted.modify (f : Node → Node)
    (hf : ∀ n, (f n).name = n.name ∧ (f n).parent = n.parent ∧ (f n).children = n.children) :
    (t.modify id f).Rooted ∧ (t.modify id f).contents =
      { known := t.contents.known
        value := Function.update t.contents.value path (f (t.node id)).value
        metadata := Function.update t.contents.metadata path (f (t.node id)).metadata
        listeners := Function.update t.contents.listeners path (f (t.node id)).subscriptions } := by
  have hfound : ∀ q, (t.modify id f).found? q =
      if q = path then (t.found? q).map f else t.found? q := by
    intro q
    unfold found?
    rw [(alike_modify t id hf).descend_eq]
    cases hq : t.descend root q with
    | none => simp
    | some i =>
      obtain ⟨hi, hlevels⟩ := h.descend_eq_some_iff.mp hq
      have hiff : i = id ↔ q = path := by
        constructor
        · rintro rfl
          rw [← hlevels, (h.descend_eq_some_iff.mp hid).2]
        · rintro rfl
          rw [hq] at hid
          exact Option.some.inj hid
      simp only [Option.map_some, node_modify, hi, and_true, hiff]
      split <;> rfl
  refine ⟨(alike_modify t id hf).rooted h, Contents.ext ?_ ?_ ?_ ?_⟩ <;>
  · funext q
    by_cases hq : q = path
    · subst hq
      simp [contents, hfound, found?_of_descend hid]
    · simp [contents, hfound, hq]

omit h in
theorem update_value_self :
    Function.update t.contents.value path (t.node id).value = t.contents.value := by
  rw [Function.update_eq_self_iff, value_of_descend hid]
  rfl

omit h in
theorem update_metadata_self :
    Function.update t.contents.metadata path (t.node id).metadata = t.contents.metadata := by
  rw [Function.update_eq_self_iff, metadata_of_descend hid]
  rfl

omit h in
theorem update_listeners_self :
    Function.update t.contents.listeners path (t.node id).subscriptions = t.contents.listeners := by
  rw [Function.update_eq_self_iff, listeners_of_descend hid]
  rfl

theorem Rooted.setRetained (e : Envelope) :
    (t.setRetained id e).Rooted ∧ (t.setRetained id e).contents = { t.contents with
      value := Function.update t.contents.value path (if t.keeps id e then some e else none) } := by
  obtain ⟨hrooted, hcontents⟩ := h.modify hid
    (fun n => { n with value := if t.keeps id e then some e else none }) fun _ => ⟨rfl, rfl, rfl⟩
  rw [update_metadata_self hid, update_listeners_self hid] at hcontents
  exact ⟨hrooted, hcontents⟩

theorem Rooted.setMetadata (e : Envelope) :
    (t.setMetadata id e).Rooted ∧ (t.setMetadata id e).contents =
      { t.contents with metadata := Function.update t.contents.metadata path (some e) } := by
  obtain ⟨hrooted, hcontents⟩ := h.modify hid (fun n => { n with metadata := some e })
    fun _ => ⟨rfl, rfl, rfl⟩
  rw [update_value_self hid, update_listeners_self hid] at hcontents
  exact ⟨hrooted, hcontents⟩

theorem Rooted.addSubscription (s : Subscription) :
    (t.addSubscription id s).Rooted ∧ (t.addSubscription id s).contents = { t.contents with
      listeners := Function.update t.contents.listeners path (t.contents.listeners path ++ [s]) } := by
  obtain ⟨hrooted, hcontents⟩ := h.modify hid
    (fun n => { n with subscriptions := n.subscriptions ++ [s] }) fun _ => ⟨rfl, rfl, rfl⟩
  rw [update_value_self hid, update_metadata_self hid] at hcontents
  rw [listeners_of_descend hid]
  exact ⟨hrooted, hcontents⟩

theorem Rooted.remove (who : SubscriberId) :
    (t.remove id who).2.Rooted ∧ (t.remove id who).2.contents = { t.contents with
      listeners := Function.update t.contents.listeners path
        ((t.contents.listeners path).filter (·.subscriber ≠ who)) } := by
  obtain ⟨hrooted, hcontents⟩ := h.modify hid
    (fun n => { n with subscriptions := n.subscriptions.filter (·.subscriber ≠ who) })
    fun _ => ⟨rfl, rfl, rfl⟩
  rw [update_value_self hid, update_metadata_self hid] at hcontents
  rw [listeners_of_descend hid]
  exact ⟨hrooted, hcontents⟩

end Modify

/-! ## Going up from a node -/

/-- The subscriptions at and above a node, in the order in which they are told. -/
theorem Rooted.flatMap_ancestors (h : t.Rooted) (hid : id < t.size) :
    (t.ancestors id).flatMap t.subscriptions =
      (t.levels id).inits.reverse.flatMap t.contents.listeners := by
  rw [← h.map_levels_ancestors hid, List.flatMap_map]
  refine List.flatMap_congr fun a ha => ?_
  have hlt : ∀ a ∈ t.ancestors id, a < t.size := by
    refine h.induction (motive := fun id => ∀ a ∈ t.ancestors id, a < t.size) ?_ ?_ id hid
    · intro a ha
      rw [h.ancestors_root] at ha
      rw [List.mem_singleton.mp ha]
      exact h.root_lt
    · intro p c hc ih a ha
      rw [h.ancestors_of_child hc] at ha
      rcases List.mem_cons.mp ha with rfl | ha
      · exact (h.lt_of_child p a hc).2
      · exact ih a ha
  exact (listeners_of_descend (h.descend_levels (hlt a ha))).symm

theorem Rooted.recipients_eq (h : t.Rooted) (hid : t.descend root path = some id)
    (k : DeliveryClass) (origin : Option SubscriberId) :
    t.recipients id k origin = t.contents.recipients path k origin := by
  obtain ⟨hlt, hlevels⟩ := h.descend_eq_some_iff.mp hid
  unfold recipients Contents.recipients
  rw [h.flatMap_ancestors hlt, hlevels]

end Tree
end InstrumentBus
