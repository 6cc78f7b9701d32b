import InstrumentBus.Envelope.Basic

/-!
The tree of topics, with the values and metadata that it keeps.

Nodes are numbered in the order of their creation, the root is node zero, and a node is never
removed by itself. A node knows its parent and, in the order of their creation, its children.
-/

namespace InstrumentBus

abbrev NodeId := Nat

/-- One level of a path: what is kept there and who listens there. -/
structure Node where
  name : String := ""
  parent : Option NodeId := none
  children : List NodeId := []
  value : Option Envelope := none
  metadata : Option Envelope := none
  subscriptions : List Subscription := []

instance : Inhabited Node := ⟨{}⟩

structure Tree where
  nodes : List Node := [{}]

namespace Tree

def root : NodeId := 0

/-- A node; there is nothing at a number that no node has. -/
def node (t : Tree) (id : NodeId) : Node := (t.nodes[id]?).getD {}

def modify (t : Tree) (id : NodeId) (f : Node → Node) : Tree := ⟨t.nodes.modify id f⟩

def size (t : Tree) : Nat := t.nodes.length

/-- There is only the root. -/
def isEmpty (t : Tree) : Bool := t.nodes.length == 1

/-- The child of a node by its name. -/
def child? (t : Tree) (id : NodeId) (name : String) : Option NodeId :=
  (t.node id).children.find? fun c => (t.node c).name == name

/-- Gives a node another child, the last one. -/
def addChild (t : Tree) (parent : NodeId) (name : String) : NodeId × Tree :=
  let id := t.nodes.length
  let nodes := t.nodes ++ [{ name, parent := some parent }]
  (id, { t with nodes }.modify parent fun n => { n with children := n.children ++ [id] })

/-- Goes down from a node and makes the levels that are missing. -/
def makeLevels (t : Tree) (id : NodeId) : List String → NodeId × Tree
  | [] => (id, t)
  | name :: names =>
    match t.child? id name with
    | some c => t.makeLevels c names
    | none =>
      let (c, t) := t.addChild id name
      t.makeLevels c names

/-- The node of a path, made if it is missing. A text that is no topic makes nothing. -/
def findOrCreate (t : Tree) (path : String) : Except TopicError (NodeId × Tree) :=
  (Topic.parse path).map fun topic => t.makeLevels root topic.segments

/-- Goes down from a node. -/
def descend (t : Tree) (id : NodeId) : List String → Option NodeId
  | [] => some id
  | name :: names => (t.child? id name).bind (t.descend · names)

/-- The node of a path, if there is one. -/
def find? (t : Tree) (path : String) : Option NodeId :=
  match Topic.parse path with
  | .ok topic => t.descend root topic.segments
  | .error _ => none

/-- A node and the nodes above it, at most so many. -/
def upwards (t : Tree) : Nat → NodeId → List NodeId
  | 0, _ => []
  | fuel + 1, id => id :: ((t.node id).parent.map (t.upwards fuel)).getD []

/-- A node and the nodes above it; there are fewer than nodes in the tree. -/
def ancestors (t : Tree) (id : NodeId) : List NodeId := t.upwards t.size id

/-- The names from the top down to a node. -/
def levels (t : Tree) (id : NodeId) : List String :=
  (((t.ancestors id).filter (· ≠ root)).map fun a => (t.node a).name).reverse

def path (t : Tree) (id : NodeId) : String := String.intercalate "/" (t.levels id)

/-- Takes nodes from a stack and puts their children in their place. -/
def walk (t : Tree) : Nat → List NodeId → List NodeId
  | 0, _ => []
  | _ + 1, [] => []
  | fuel + 1, id :: stack => id :: t.walk fuel ((t.node id).children ++ stack)

/-- The nodes at and below a node: each before those below it, children in the order of their
creation. -/
def subtree (t : Tree) (id : NodeId) : List NodeId := t.walk t.size [id]

/-! ### What nodes keep -/

def value? (t : Tree) (id : NodeId) : Option Envelope := (t.node id).value

def metadata? (t : Tree) (id : NodeId) : Option Envelope := (t.node id).metadata

/-- An envelope is kept at a node if it asks for it, and the node is no action. -/
def keeps (t : Tree) (id : NodeId) (e : Envelope) : Bool :=
  e.isRetained && (t.node id).name.toList.head? != some '!'

/-- The tree in which an envelope has taken the place of a node's value, if the node keeps it, or
has just ended it. -/
def setRetained (t : Tree) (id : NodeId) (e : Envelope) : Tree :=
  let value := if t.keeps id e then some e else none
  t.modify id fun n => { n with value }

def setMetadata (t : Tree) (id : NodeId) (e : Envelope) : Tree :=
  t.modify id fun n => { n with metadata := some e }

/-- All envelopes that the tree keeps. -/
def kept (t : Tree) : List Envelope :=
  t.nodes.flatMap fun n => n.value.toList ++ n.metadata.toList

/-! ### Who listens at nodes -/

def subscriptions (t : Tree) (id : NodeId) : List Subscription := (t.node id).subscriptions

def addSubscription (t : Tree) (id : NodeId) (s : Subscription) : Tree :=
  t.modify id fun n => { n with subscriptions := n.subscriptions ++ [s] }

/-- Ends the subscriptions of a subscriber at a node, and counts them. -/
def remove (t : Tree) (id : NodeId) (who : SubscriberId) : Nat × Tree :=
  let count := (t.subscriptions id).countP (·.subscriber = who)
  (count, t.modify id fun n =>
    { n with subscriptions := n.subscriptions.filter (·.subscriber ≠ who) })

/-- Ends the subscriptions of a subscriber at some nodes, and counts them. -/
def removeAt (t : Tree) (who : SubscriberId) : List NodeId → Nat × Tree
  | [] => (0, t)
  | id :: ids =>
    let (here, t) := t.remove id who
    let (there, t) := t.removeAt who ids
    (here + there, t)

/-- Ends the subscriptions of a subscriber at and below a node, and counts them. -/
def removeSubtree (t : Tree) (id : NodeId) (who : SubscriberId) : Nat × Tree :=
  t.removeAt who (t.subtree id)

/-- What is left when the tree is taken down. -/
def finalize (_ : Tree) : Tree := {}

end Tree
end InstrumentBus
