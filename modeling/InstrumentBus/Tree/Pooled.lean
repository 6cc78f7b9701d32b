import InstrumentBus.Envelope.Pool
import InstrumentBus.Tree.Delivery

/-!
A tree whose envelopes come from a pool.

Every envelope that the tree gives up, because another one takes its place or because the tree is
taken down, goes back to the pool; so does one that is only delivered.
-/

namespace InstrumentBus

structure PooledTree where
  tree : Tree := {}
  pool : Pool := .standard

namespace PooledTree

/-- An envelope with a value and flags. -/
def envelope (p : PooledTree) (topic : Topic) (v : Stored) (flags : ValueFlags) :
    Envelope × PooledTree :=
  let (e, pool) := p.pool.envelope topic v flags
  (e, { p with pool })

/-- Gives an envelope back. -/
def release (p : PooledTree) (e : Envelope) : PooledTree := { p with pool := p.pool.release e }

/-- The node of a path, made if it is missing. -/
def findOrCreate (p : PooledTree) (path : String) : Except TopicError (NodeId × PooledTree) :=
  (p.tree.findOrCreate path).map fun (node, tree) => (node, { p with tree })

/-- Puts an envelope in the place of the value of its topic. One that is not kept is handed back. -/
def setRetained (p : PooledTree) (e : Envelope) :
    Except TopicError (Option Envelope × PooledTree) :=
  (p.findOrCreate e.topic.path).map fun (node, p) =>
    (if p.tree.keeps node e then none else some e, {
      tree := p.tree.setRetained node e
      pool := p.pool.releaseAll (p.tree.value? node).toList })

/-- Puts an envelope in the place of the metadata of its topic. -/
def setMetadata (p : PooledTree) (e : Envelope) : Except TopicError PooledTree :=
  (p.findOrCreate e.topic.path).map fun (node, p) => {
    tree := p.tree.setMetadata node e
    pool := p.pool.releaseAll (p.tree.metadata? node).toList }

/-- Delivers an envelope that has reached a node, and gives it back. -/
def deliver {σ : Type} (receive : Receive σ) (p : PooledTree) (node : NodeId) (e : Envelope)
    (c : DeliveryClass) (s : σ) : Option StatusCode × PooledTree × σ :=
  let (error, s) := p.tree.deliver receive node e c s
  (error, p.release e, s)

def addSubscription (p : PooledTree) (node : NodeId) (s : Subscription) : PooledTree :=
  { p with tree := p.tree.addSubscription node s }

/-- Ends the subscriptions of a subscriber at a node, and counts them. -/
def remove (p : PooledTree) (node : NodeId) (who : SubscriberId) : Nat × PooledTree :=
  let (count, tree) := p.tree.remove node who
  (count, { p with tree })

/-- Ends the subscriptions of a subscriber at and below a node, and counts them. -/
def removeSubtree (p : PooledTree) (node : NodeId) (who : SubscriberId) : Nat × PooledTree :=
  let (count, tree) := p.tree.removeSubtree node who
  (count, { p with tree })

/-- Takes the tree down. -/
def finalize (p : PooledTree) : PooledTree where
  tree := p.tree.finalize
  pool := p.pool.releaseAll p.tree.kept

end PooledTree
end InstrumentBus
