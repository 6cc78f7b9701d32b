import Mathlib
import InstrumentBus.Proofs.Tree.Operations
import InstrumentBus.Proofs.Dispatch.History

/-!
# What a new subscription is told

The trees of a bus are among those that can be made of an empty one, at any moment of a run
(`run_reachable`). In all of them a subscription that asks for what is kept is told of it in one
order, that of `Rooted.preorder`, whatever the subscriber answers: `replay_preorder`.
-/

namespace InstrumentBus

namespace Tree

/-- What is kept at a node and told to a subscription: metadata before the value. -/
def keptAt (t : Tree) (flags : SubscribeFlags) (id : NodeId) : List Envelope :=
  (if flags.metadataRsp then (t.metadata? id).toList else [])
    ++ (if flags.publish then (t.value? id).toList else [])

end Tree

/-! ## The trees of a bus -/

namespace Bus

variable {b b' : Bus} {e : Envelope} {t : Topic} {node : NodeId}

theorem tree_deliver (b : Bus) (node : NodeId) (e : Envelope) (k : DeliveryClass) :
    (b.deliver node e k).2.tree = b.tree :=
  (posted_deliverTo e (b.tree.recipients node k e.origin) b).2

theorem reachable_nodeOf (h : b.tree.Reachable) (hnode : b.nodeOf t = .ok (node, b')) :
    b'.tree.Reachable := by
  obtain ⟨⟨id, tree⟩, hmade, heq⟩ := map_eq_ok_iff.mp hnode
  cases heq
  exact h.findOrCreate hmade

theorem reachable_emitReturnCode (h : b.tree.Reachable) (t : Topic) (code : Int32) :
    (b.emitReturnCode t code).tree.Reachable := by
  unfold emitReturnCode
  simp only
  generalize (b.calls.complete _ _).2 = calls
  cases hnode : ({ b with calls } : Bus).nodeOf t with
  | error _ => exact h
  | ok made =>
    simp only
    rw [tree_deliver]
    exact reachable_nodeOf (b := { b with calls }) h hnode

theorem reachable_publishMetadata (h : b.tree.Reachable) (node : NodeId) (e : Envelope) :
    (b.publishMetadata node e).2.tree.Reachable := by
  rw [publishMetadata_eq]
  split
  · rw [tree_deliver]
    exact h.setMetadata node e
  · exact h

theorem reachable_publishValue (h : b.tree.Reachable) (node : NodeId) (e : Envelope) :
    (b.publishValue node e).2.tree.Reachable := by
  unfold publishValue
  cases b.validate node e with
  | error s => exact reachable_emitReturnCode h e.topic s.code
  | ok e' =>
    simp only
    split
    · exact reachable_emitReturnCode h e'.topic 0
    · have htree := tree_deliver { b with tree := b.tree.setRetained node e' } node e' .publish
      generalize deliver _ node e' .publish = delivered at htree ⊢
      obtain ⟨outcome, b'⟩ := delivered
      have hdelivered : b'.tree.Reachable := by
        rw [htree]
        exact h.setRetained node e'
      cases outcome with
      | none => exact hdelivered
      | some s => exact reachable_emitReturnCode hdelivered e'.topic s.code

theorem reachable_process (h : b.tree.Reachable) (e : Envelope) :
    (b.process e).2.tree.Reachable := by
  unfold process
  split
  · exact h
  · cases hnode : b.nodeOf e.topic with
    | error _ => exact h
    | ok made =>
      obtain ⟨node, b'⟩ := made
      have hmade := reachable_nodeOf h hnode
      have hdelivered : ∀ calls k,
          (({ b' with calls } : Bus).deliver node e k).2.tree.Reachable := by
        intro calls k
        rw [tree_deliver]
        exact hmade
      simp only
      cases e.topic.suffix with
      | none => exact reachable_publishValue hmade node e
      | some suffix =>
        cases suffix with
        | metadataRsp => exact reachable_publishMetadata hmade node e
        | returnCode =>
          unfold publishReturnCode
          simp only
          split <;> exact hdelivered _ .returnCode
        | metadataReq => exact hdelivered b'.calls .metadataReq
        | queryReq => exact hdelivered b'.calls .queryReq
        | queryRsp => exact hdelivered b'.calls .queryRsp

theorem reachable_startSubscription (h : b.tree.Reachable) (t : Topic) (s : Subscription) :
    (b.startSubscription t s).2.tree.Reachable := by
  unfold startSubscription
  cases hnode : b.nodeOf t with
  | error _ => exact h
  | ok made =>
    obtain ⟨node, b'⟩ := made
    have hadded := (reachable_nodeOf h hnode).addSubscription node s
    simp only
    split
    · unfold Tree.replay
      rw [(posted_deliverEach _ _ _).2, (posted_deliverEach _ _ _).2]
      exact hadded
    · exact hadded

theorem reachable_endSubscription (h : b.tree.Reachable) (t : Topic) (who : SubscriberId) :
    (b.endSubscription t who).2.tree.Reachable := by
  unfold endSubscription
  split
  · exact h
  · exact h.remove _ who

theorem reachable_perform (h : b.tree.Reachable) (d : Deed) : (b.perform d).tree.Reachable := by
  unfold perform
  cases d with
  | publish e => exact reachable_process h e
  | announce t code => exact reachable_emitReturnCode h t code
  | enlist t s => exact reachable_startSubscription h t s
  | dismiss t who => exact reachable_endSubscription h t who
  | dismissAll who => exact h.removeSubtree Tree.root who
  | clear => exact .nothing

end Bus

namespace Dispatcher

/-- The dispatcher makes its tree by the operations on trees only. -/
theorem run_reachable (config : BusConfig) (as : List Action) :
    (run config as).bus.tree.Reachable := by
  -- the deeds of the start are those of a run from a bus with an empty tree
  have hperformAll : ∀ (ds : List Deed) (b : Bus), b.tree.Reachable →
      (b.performAll ds).tree.Reachable := by
    intro ds
    induction ds with
    | nil => exact fun b h => h
    | cons d ds ih => exact fun b h => ih (b.perform d) (Bus.reachable_perform h d)
  have hrun := historyFrom_induction (motive := fun _ b => b.tree.Reachable)
    (fun _ b h => h.rooted)
    (fun _ b b' huntold h => by
      rw [huntold.tree_eq]
      exact h)
    (fun _ b deed h => Bus.reachable_perform h deed)
    (d := ⟨.start config, .awake⟩) (h := []) (by
      rw [start_eq]
      exact hperformAll _ _ .nothing) as
  exact hrun

end Dispatcher

/-! ## Replay -/

/-- A receiver next to a list of what it is given. -/
def noting {σ : Type} (receive : Receive σ) : Receive (σ × List Post) := fun who e s =>
  ((receive who e s.1).1, (receive who e s.1).2, s.2 ++ [(who, e)])

/-- Noting what is given changes nothing, and nothing that is answered changes what is given. -/
theorem deliverEach_noting {σ : Type} (receive : Receive σ) (who : SubscriberId)
    (es : List Envelope) (s : σ) (posts : List Post) :
    deliverEach (noting receive) who es (s, posts) =
      (deliverEach receive who es s, posts ++ es.map (who, ·)) := by
  induction es generalizing s posts with
  | nil => rw [List.map_nil, List.append_nil, deliverEach, deliverEach, List.foldl_nil, List.foldl_nil]
  | cons e es ih =>
    have hnext := ih (receive who e s).2 (posts ++ [(who, e)])
    rw [List.append_assoc] at hnext
    exact hnext

/-- A subscription that asks for what is kept is told, node by node, of the metadata and the value
that are kept there, as far as it takes them; any other is told nothing. The nodes are

* a node, and then child by child, in the order of their creation, what is at and below it;
* each of those at and below the first one, once, and none else;
* none of them after a node below it.

It is told all this whatever it answers. -/
theorem Tree.replay_preorder {t : Tree} (h : t.Reachable) {id : NodeId} (hid : id < t.size)
    (sub : Subscription) {σ : Type} (receive : Receive σ) (s : σ) :
    (∀ i, h.rooted.preorder i = i :: (t.node i).children.flatMap h.rooted.preorder) ∧
    (∀ i, (t.node i).children.Pairwise (· < ·)) ∧
    (h.rooted.preorder id).Nodup ∧
    (∀ i, i ∈ h.rooted.preorder id ↔ i < t.size ∧ t.levels id <+: t.levels i) ∧
    (h.rooted.preorder id).Pairwise (fun a b => ¬ t.levels b <+: t.levels a) ∧
    t.replay (noting receive) id sub (s, []) = (t.replay receive id sub s,
      if sub.flags.retain then
        ((h.rooted.preorder id).flatMap (t.keptAt sub.flags)).map (sub.subscriber, ·)
      else []) ∧
    (sub.flags.retain = false → t.replay receive id sub s = s) := by
  have hrooted := h.rooted
  have hreplayed : t.replayed id sub.flags =
      if sub.flags.retain then (hrooted.preorder id).flatMap (t.keptAt sub.flags) else [] := by
    rw [← hrooted.subtree_eq_preorder hid]
    rfl
  refine ⟨hrooted.preorder_eq, hrooted.increasing, hrooted.nodup_preorder id,
    fun i => hrooted.mem_preorder hid, hrooted.pairwise_preorder id, ?_, ?_⟩
  · unfold replay
    rw [deliverEach_noting, List.nil_append, hreplayed]
    split <;> rfl
  · intro hretain
    unfold replay
    rw [hreplayed, if_neg (by rw [hretain]; exact Bool.false_ne_true)]
    rfl

/-! ### A tree of one run -/

namespace Dispatcher

/-- A client sets values at two siblings and below the first of them, which then gets metadata. -/
def growth : List Action :=
  let keep (topic : String) (v : Stored) : Action :=
    .submit (.request (.publish ⟨topic, v, .retained, 0, 0⟩ 0))
  [keep "a/b" (Value.u8 1), keep "a/c" (Value.u8 2), keep "a/b/d" (Value.u8 3),
    keep "a/b$" (Value.str "\x7b\"dtype\":\"u8\"\x7d"),
    .advance, .advance, .advance, .advance, .advance, .advance]

/-- A subscriber that refuses all it is given is told of all that is below the first level. -/
theorem replay_growth :
    let sub : Subscription := ⟨.client 0, { retain := true, publish := true, metadataRsp := true }⟩
    let refuse : Receive Unit := fun _ _ s => (some .timedOut, s)
    4 < (run {} growth).bus.tree.size ∧
    (((run {} growth).bus.tree.replay (noting refuse) 4 sub ((), [])).2.map fun x => x.2.topic.text) =
      ["a/b$", "a/b", "a/b/d", "a/c"] := by
  intro sub refuse
  have hsize : 4 < (run {} growth).bus.tree.size := by decide +kernel
  have hchildren : [4, 5, 6, 7].map (fun i => ((run {} growth).bus.tree.node i).children) =
      [[5, 6], [7], [], []] := by decide +kernel
  obtain ⟨heq, -, -, -, -, htold, -⟩ :=
    Tree.replay_preorder (run_reachable {} growth) hsize sub refuse ()
  simp only [List.map_cons, List.map_nil, List.cons.injEq, and_true] at hchildren
  obtain ⟨h4, h5, h6, h7⟩ := hchildren
  have horder7 : (run_reachable {} growth).rooted.preorder 7 = [7] := by rw [heq, h7]; rfl
  have horder6 : (run_reachable {} growth).rooted.preorder 6 = [6] := by rw [heq, h6]; rfl
  have horder5 : (run_reachable {} growth).rooted.preorder 5 = [5, 7] := by
    rw [heq, h5, List.flatMap_singleton, horder7]
  have horder4 : (run_reachable {} growth).rooted.preorder 4 = [4, 5, 7, 6] := by
    rw [heq, h4, List.flatMap_cons, List.flatMap_singleton, horder5, horder6]
    rfl
  rw [htold, horder4]
  exact ⟨hsize, by decide +kernel⟩

end Dispatcher
end InstrumentBus
