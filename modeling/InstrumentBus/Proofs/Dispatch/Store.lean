import Mathlib
import InstrumentBus.Proofs.Metadata.Check
import InstrumentBus.Proofs.Dispatch.Roster
import InstrumentBus.Proofs.Dispatch.Mirror

/-!
# What the tree keeps

A value is kept where its topic says, if it asks for it and its topic is no action; a metadata
document is kept where its topic says, if it can be read. Clients, backends and the bus itself all
publish by one way, and what they store has these properties when it is stored and keeps them until
it is replaced: `run_store` says so of every node at every moment of a run.
-/

namespace InstrumentBus

/-! ## Paths of nodes -/

namespace Tree

variable {t : Tree} {id : NodeId} {topic : Topic}

theorem Rooted.ne_root_of_levels (h : t.Rooted) (hlevels : t.levels id ≠ []) : id ≠ root := by
  intro heq
  rw [heq, h.levels_root] at hlevels
  exact hlevels rfl

/-- The name of a node is the last level of the topics at the node. -/
theorem Rooted.name_of_levels (h : t.Rooted) (hid : id < t.size) (hlevels : t.levels id = topic.segments)
    (hroot : topic.segments ≠ []) : (t.node id).name = topic.lastSegment := by
  have hname := h.name_eq_getLast hid (by rw [hlevels]; exact hroot)
  rw [hlevels, Topic.getLast?_segments fun hnil => hroot (Topic.segments_of_root hnil)] at hname
  exact (Option.some.inj hname).symm

/-- What is kept at a node belongs there. A value asks to be kept, and the node is neither the root
nor that of an action; metadata can be read. -/
structure InPlace (t : Tree) (id : NodeId) : Prop where
  value : ∀ e, t.value? id = some e →
    e.isRetained = true ∧ e.topic.suffix = none ∧ e.topic.text = t.path id ∧
      id ≠ root ∧ (t.node id).name.toList.head? ≠ some '!'
  metadata : ∀ e, t.metadata? id = some e →
    e.topic.text = t.path id ++ "$" ∧
      ∃ text, (e.value = .str text ∨ e.value = .json text) ∧ Metadata.syntaxCheck text = .ok ()

end Tree

/-! ## What is kept -/

theorem Metadata.isDocument_iff {v : Value} :
    isDocument v = true ↔
      ∃ text, (v = .str text ∨ v = .json text) ∧ syntaxCheck text = .ok () := by
  have hcheck : ∀ text, (syntaxCheck text).isOk = true ↔ syntaxCheck text = .ok () := by
    intro text
    cases hanswer : syntaxCheck text with
    | error e => simp [Except.isOk, Except.toBool]
    | ok u => simp [Except.isOk, Except.toBool]
  cases v <;> simp [isDocument, hcheck]

namespace Contents

variable {c : Contents} {e e' : Envelope} {k : DeliveryClass}

/-- Values and documents are where their topics say; the values ask to be kept, and the documents can
be read. -/
structure Stored (c : Contents) : Prop extends Labelled c where
  kept : ∀ q e, c.value q = some e → q ≠ [] ∧ e.isRetained = true
  readable : ∀ q e, c.metadata q = some e → Metadata.isDocument e.value = true

/-- A document is delivered only if it can be read. -/
theorem isDocument_of_delivered? (h : c.delivered? e = some (e', .metadata)) :
    Metadata.isDocument e'.value = true := by
  unfold delivered? at h
  split at h
  · cases h
  split at h
  case h_2 =>
    split at h
    · cases h
      assumption
    · cases h
  case h_6 =>
    split at h
    · cases h
    · split at h <;> cases h
  all_goals cases h

theorem Stored.nothing : Contents.nothing.Stored where
  toLabelled := .nothing
  kept _ e he := absurd he.symm (Option.some_ne_none e)
  readable _ e he := absurd he.symm (Option.some_ne_none e)

/-- Storing keeps the rest, and what is stored asks for it or can be read. -/
theorem Stored.store (h : c.Stored) (hlabelled : (c.store e k).Labelled) (hroot : e.topic.segments ≠ [])
    (hreadable : k = .metadata → Metadata.isDocument e.value = true) : (c.store e k).Stored := by
  cases k with
  | publish =>
    refine ⟨hlabelled, fun q x hx => ?_, h.readable⟩
    by_cases hq : q = e.topic.segments
    · subst hq
      replace hx : (if e.isRetained && !e.topic.isAction then some e else none) = some x :=
        (Function.update_self e.topic.segments _ c.value).symm.trans hx
      split at hx
      · rename_i hasks
        cases hx
        exact ⟨hroot, (Bool.and_eq_true _ _ ▸ hasks).1⟩
      · cases hx
    · exact h.kept q x ((Function.update_of_ne hq _ c.value).symm.trans hx)
  | metadata =>
    refine ⟨hlabelled, h.kept, fun q x hx => ?_⟩
    by_cases hq : q = e.topic.segments
    · subst hq
      replace hx : some e = some x :=
        (Function.update_self e.topic.segments _ c.metadata).symm.trans hx
      cases hx
      exact hreadable rfl
    · exact h.readable q x ((Function.update_of_ne hq _ c.metadata).symm.trans hx)
  | _ => exact ⟨hlabelled, h.kept, h.readable⟩

/-- Every deed leaves what is kept in order, whoever published it. -/
theorem Stored.after (h : c.Stored) (deed : Deed) : (c.after deed).Stored := by
  have hlabelled := h.toLabelled.after deed
  cases deed with
  | publish e =>
    replace hlabelled : (c.publish e).Labelled := hlabelled
    show (c.publish e).Stored
    cases hdelivered : c.delivered? e with
    | none =>
      rw [publish_of_none hdelivered] at hlabelled ⊢
      exact ⟨hlabelled, h.kept, h.readable⟩
    | some delivered =>
      obtain ⟨e', k⟩ := delivered
      obtain ⟨hroot, htopic, -⟩ := delivered?_eq_some hdelivered
      rw [publish_of_some hdelivered] at hlabelled ⊢
      have hreached : (c.reach e.topic.segments).Stored :=
        ⟨h.toLabelled.reach _, h.kept, h.readable⟩
      refine hreached.store hlabelled ?_ ?_
      · rw [htopic]
        exact hroot
      · rintro rfl
        exact isDocument_of_delivered? hdelivered
  | clear => exact .nothing
  | _ => exact ⟨hlabelled, h.kept, h.readable⟩

theorem Stored.foldl_after (h : c.Stored) (deeds : List Deed) :
    (deeds.foldl Contents.after c).Stored := by
  induction deeds generalizing c with
  | nil => exact h
  | cons deed deeds ih => exact ih (h.after deed)

theorem Stored.reach (h : c.Stored) (path : List String) : (c.reach path).Stored :=
  ⟨h.toLabelled.reach path, h.kept, h.readable⟩

end Contents

namespace Tree

variable {t : Tree} {id : NodeId} {e : Envelope}

/-- What maps say of the paths holds at the nodes. -/
theorem Rooted.inPlace (h : t.Rooted) (hstored : t.contents.Stored) (id : NodeId) : t.InPlace id := by
  by_cases hid : id < t.size
  · have hdescend := h.descend_levels hid
    constructor
    · intro e he
      rw [← value_of_descend hdescend] at he
      obtain ⟨hlevels, hplain, haction⟩ := hstored.value _ e he
      obtain ⟨hne, hretained⟩ := hstored.kept _ e he
      refine ⟨hretained, hplain, ?_, h.ne_root_of_levels hne, ?_⟩
      · rw [e.topic.text_eq_path_append, hplain, path_of_levels hlevels.symm]
        exact String.append_empty
      · rw [h.name_of_levels hid hlevels.symm (hlevels ▸ hne)]
        exact beq_eq_false_iff_ne.mp haction
    · intro e he
      rw [← metadata_of_descend hdescend] at he
      obtain ⟨hlevels, hsuffix⟩ := hstored.metadata _ e he
      refine ⟨?_, Metadata.isDocument_iff.mp (hstored.readable _ e he)⟩
      rw [e.topic.text_eq_path_append, hsuffix, path_of_levels hlevels.symm]
      rfl
  · -- there is nothing where no node is
    have hnothing : t.node id = {} := node_of_size_le (Nat.not_lt.mp hid)
    constructor
    · intro e he
      rw [value?, hnothing] at he
      cases he
    · intro e he
      rw [metadata?, hnothing] at he
      cases he

/-- A value that a new subscription is told is not that of an action. -/
theorem Rooted.isAction_of_mem_replayed (h : t.Rooted) (hstored : t.contents.Stored)
    {flags : SubscribeFlags} (he : e ∈ t.replayed id flags) (hplain : e.topic.suffix = none) :
    e.topic.isAction = false := by
  obtain ⟨q, hvalue | hmetadata⟩ := h.kept_of_mem_replayed he
  · exact (hstored.value q e hvalue).2.2
  · rw [(hstored.metadata q e hmetadata).2] at hplain
    cases hplain

end Tree

namespace Bus

variable {b b' : Bus} {e : Envelope} {t : Topic} {node : NodeId} {s : StatusCode}

/-- A value is refused for what a document says of it, never because there is no reading the
document. -/
theorem exists_document_of_validate (h : b.tree.InPlace node) (hrefused : b.validate node e = .error s) :
    ∃ kept text doc, b.tree.metadata? node = some kept ∧
      (kept.value = .str text ∨ kept.value = .json text) ∧ Metadata.read text = .ok doc ∧
      doc.check e.value = .error s := by
  cases hkept : b.tree.metadata? node with
  | none =>
    rw [validate, hkept] at hrefused
    cases hrefused
  | some kept =>
    obtain ⟨-, text, hvalue, hcheck⟩ := h.metadata kept hkept
    obtain ⟨doc, hread⟩ : ∃ doc, Metadata.read text = .ok doc := by
      unfold Metadata.syntaxCheck at hcheck
      cases hread : Metadata.read text with
      | error s => simp [hread, Except.map] at hcheck
      | ok doc => exact ⟨doc, rfl⟩
    refine ⟨kept, text, doc, rfl, hvalue, hread, ?_⟩
    rw [← Metadata.validate_of_read hread]
    rw [validate, hkept] at hrefused
    -- a text and a document are read alike
    rcases hvalue with hvalue | hvalue <;>
    · simp only [Option.map_some, hvalue] at hrefused
      split at hrefused
      · cases hrefused
        assumption
      · cases hrefused
      · cases hrefused

/-- At an action nothing is kept, so nothing is said again. -/
theorem value?_of_isAction (hrooted : b.tree.Rooted) (h : b.tree.InPlace node)
    (hnode : b.tree.descend Tree.root t.segments = some node) (haction : t.isAction = true) :
    b.tree.value? node = none ∧ ∀ e, b.isDuplicate node e = false := by
  have hnone : b.tree.value? node = none := by
    cases hkept : b.tree.value? node with
    | none => rfl
    | some kept =>
      obtain ⟨-, -, -, hne, hname⟩ := h.value kept hkept
      obtain ⟨hlt, hlevels⟩ := hrooted.descend_eq_some_iff.mp hnode
      have hroot : t.segments ≠ [] := by
        intro hnil
        rw [hnil, Tree.descend, Option.some.injEq] at hnode
        exact hne hnode.symm
      rw [hrooted.name_of_levels hlt hlevels hroot] at hname
      exact absurd (beq_iff_eq.mp haction) hname
  refine ⟨hnone, fun e => ?_⟩
  rw [isDuplicate, hnone]

end Bus

namespace Dispatcher

/-- The states that the bus comes to: between two actions, between two deeds of a step, and when a
deed has looked for the node of a topic. -/
inductive Reached (config : BusConfig) : Bus → Prop
  | between (as : List Action) : Reached config (run config as).bus
  | within (as : List Action) (n : Nat) :
      Reached config ((run config as).plan.bus.performAll ((run config as).plan.deeds.take n))
  | found {b b' : Bus} {t : Topic} {node : NodeId} (h : Reached config b)
      (hnode : b.nodeOf t = .ok (node, b')) : Reached config b'

theorem Reached.stored {config : BusConfig} {b : Bus} (h : Reached config b) :
    b.tree.Rooted ∧ b.tree.contents.Stored := by
  induction h with
  | between as =>
    obtain ⟨hrooted, hcontents⟩ := run_contents config as
    rw [hcontents]
    exact ⟨hrooted, Contents.Stored.nothing.foldl_after _⟩
  | within as n =>
    obtain ⟨hrooted, hcontents⟩ := run_contents_within config as n
    rw [hcontents]
    exact ⟨hrooted, Contents.Stored.nothing.foldl_after _⟩
  | @found b b' t node h hnode ih =>
    obtain ⟨node', tree, hnode', hmade⟩ := Bus.exists_nodeOf ih.1 t
    rw [hnode] at hnode'
    cases hnode'
    refine ⟨hmade.rooted, ?_⟩
    show tree.contents.Stored
    rw [hmade.contents_eq]
    exact ih.2.reach t.segments

/-- In every state that the bus comes to, what is kept at any node belongs there: a value asks to be
kept, has the path of the node as its topic and is not that of the root or of an action; metadata
have the path of the node and `$` as their topic and are text that can be read. So a value is refused
only for what a document says of it, and no action has a value that a new subscription could be told
or that could be said again. -/
theorem run_store {config : BusConfig} {b : Bus} (h : Reached config b) :
    (∀ node, b.tree.InPlace node) ∧
      (∀ node e s, b.validate node e = .error s → ∃ kept text doc,
        b.tree.metadata? node = some kept ∧ (kept.value = .str text ∨ kept.value = .json text) ∧
        Metadata.read text = .ok doc ∧ doc.check e.value = .error s) ∧
      (∀ t : Topic, t.isAction = true → ∀ node, b.tree.find? t.path = some node →
        b.tree.value? node = none ∧ ∀ e, b.isDuplicate node e = false) ∧
      ∀ node flags, ∀ e ∈ b.tree.replayed node flags, e.topic.suffix = none →
        e.topic.isAction = false := by
  obtain ⟨hrooted, hstored⟩ := h.stored
  have hinPlace := hrooted.inPlace hstored
  refine ⟨hinPlace, ?_, ?_, ?_⟩
  · intro node e s hrefused
    exact Bus.exists_document_of_validate (hinPlace node) hrefused
  · intro t haction node hnode
    rw [Bus.find?_eq] at hnode
    exact Bus.value?_of_isAction hrooted (hinPlace node) hnode haction
  · intro node flags e he hplain
    exact hrooted.isAction_of_mem_replayed hstored he hplain

/-- A client describes a topic and sets its value, and asks for an action. -/
def describesAndSets : List Action :=
  [.submit (.request (.publish ⟨"a/x$", Value.json "\x7b\"dtype\": \"u8\"\x7d", {}, 0, 0⟩ 0)),
    setKept 3, .submit (.request (.publish ⟨"a/!go", Value.u8 1, .retained, 0, 0⟩ 0)),
    .advance, .advance, .advance, .advance, .advance, .advance]

/-- The value and the document are at the node of the topic, and nothing is kept of the action. -/
theorem described_in_place :
    ∃ node value document action, let b := (run {} describesAndSets).bus
      b.tree.find? "a/x" = some node ∧
      b.tree.value? node = some value ∧ value.topic.text = b.tree.path node ∧
      b.tree.metadata? node = some document ∧ document.topic.text = b.tree.path node ++ "$" ∧
      b.tree.find? "a/!go" = some action ∧ b.tree.value? action = none := by
  obtain ⟨hplace, -, hactions, -⟩ := run_store (.between describesAndSets : Reached {} _)
  have hkept : (((run {} describesAndSets).bus.tree.find? "a/x").bind fun node =>
      ((run {} describesAndSets).bus.tree.value? node).bind fun _ =>
        (run {} describesAndSets).bus.tree.metadata? node).isSome := by decide +kernel
  have hfound : ((run {} describesAndSets).bus.tree.find? "a/!go").isSome := by decide +kernel
  have hpath : (⟨"a/!go", by decide⟩ : Topic).path = "a/!go" := by decide +kernel
  generalize (run {} describesAndSets).bus = b at hplace hactions hkept hfound
  obtain ⟨document, hkept⟩ := Option.isSome_iff_exists.mp hkept
  obtain ⟨node, hnode, hkept⟩ := Option.bind_eq_some_iff.mp hkept
  obtain ⟨value, hvalue, hdocument⟩ := Option.bind_eq_some_iff.mp hkept
  obtain ⟨action, haction⟩ := Option.isSome_iff_exists.mp hfound
  refine ⟨node, value, document, action, hnode, hvalue, ((hplace node).value value hvalue).2.2.1,
    hdocument, ((hplace node).metadata document hdocument).1, haction, ?_⟩
  exact (hactions _ (by decide) action (hpath.symm ▸ haction)).1

end Dispatcher
end InstrumentBus
