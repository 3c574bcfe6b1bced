import TrafficGraph.Graph.Description
import TrafficGraph.Journal

/-!
# Nodes and their store

A node stands for an endpoint of traffic.  It keeps the reference that created
it, with what was said then, and the policies that refer to it.  The store of
nodes finds or creates the node of each reference; a reference that cannot be
described creates nothing.
-/

namespace TrafficGraph

structure Node where
  id : String
  /-- The reference that created the node. -/
  reference : Reference
  /-- What was said about the endpoint then. -/
  body : String
  /-- The direction of the rule that created the node; none for a policy's own
  pods. -/
  direction : Option Direction
  /-- The names of the policies that refer to the node, in order, each once. -/
  policies : List String

/-- Add a name to a list of names unless it is there. -/
def addName (name : String) (names : List String) : List String :=
  if names.contains name then names else names ++ [name]

namespace Node

def kind (node : Node) : NodeKind := node.reference.kind

def label (node : Node) : String := node.reference.label

def details (node : Node) : Value := node.reference.details

def addPolicy (policy : String) (node : Node) : Node :=
  { node with policies := addName policy node.policies }

/-- The full text about a node: with two or more policies it ends in their
names. -/
def text (node : Node) : String :=
  if node.policies.length < 2 then node.body
  else node.body ++ "\n\nReferenced by policies: " ++ ", ".intercalate node.policies

def toValue (node : Node) : Value :=
  .record
    ([("id", .text node.id), ("type", .text node.kind.name), ("label", .text node.label),
      ("details", node.details), ("detailText", .text node.text),
      ("policies", .texts node.policies)] ++
      (match node.direction with
        | some d => [("direction", .text d.name)]
        | none => []))

end Node

structure NodeStore where
  deduplicate : Bool
  nodes : List Node

namespace NodeStore

def empty (deduplicate : Bool) : NodeStore := ⟨deduplicate, []⟩

def size (store : NodeStore) : Nat := store.nodes.length

def get? (store : NodeStore) (id : String) : Option Node :=
  store.nodes.find? fun node => node.id == id

def contains (store : NodeStore) (id : String) : Bool := (store.get? id).isSome

def update (store : NodeStore) (id : String) (change : Node → Node) : NodeStore :=
  { store with
    nodes := store.nodes.map fun node => if node.id == id then change node else node }

def idOf (store : NodeStore) (r : Reference) (policy : String) : String :=
  r.id store.deduplicate policy

/-- Find or create the node of a reference, and note the policy that refers to
it. -/
def ensure (store : NodeStore) (r : Reference) (policy : String) (direction : Option Direction) :
    Except Fault NodeStore :=
  let id := store.idOf r policy
  if store.contains id then .ok (store.update id (Node.addPolicy policy))
  else
    match r.body with
    | .error fault => .error fault
    | .ok body => .ok { store with nodes := store.nodes ++ [⟨id, r, body, direction, [policy]⟩] }

def ensureEvents (store : NodeStore) (r : Reference) (policy : String) : Journal :=
  match store.get? (store.idOf r policy) with
  | none => [.nodeCreated r.kind.name r.label]
  | some node =>
    if node.policies.contains policy then []
    else [.nodeShared node.label (addName policy node.policies)]

/-- Note that a policy refers to the node of an identity: whether it is news, and
the store. -/
def addPolicy? (store : NodeStore) (id policy : String) : Option (Bool × NodeStore) :=
  (store.get? id).map fun node =>
    (!node.policies.contains policy, store.update id (Node.addPolicy policy))

@[simp] theorem get?_empty (deduplicate : Bool) (id : String) :
    (empty deduplicate).get? id = none := rfl

end NodeStore

end TrafficGraph
