import TrafficGraph.Graph.Inference

/-!
# Graphs

A graph is compiled from policies in two passes: what each policy contributes
on its own, and the links inferred between policies.  The second pass works on
a copy of the registry of the first one.  Where policies share no nodes nothing
is inferred.

A graph can be narrowed to one direction of traffic.
-/

namespace TrafficGraph

structure Graph where
  nodes : List Node
  links : List Link

namespace Build

def graph (b : Build) : Graph := ⟨b.nodes.nodes, b.links.links⟩

/-- The links inferred between policies, in a copy of the registry of the first pass. -/
def inference (b : Build) (policies : List Policy) : Inference :=
  Inference.ofPolicies policies b.nodes b.links.copy

/-- The second pass: its graph, and the first pass as it leaves it.  The copy and the registry
that was copied share a pool, so links that are put into the one are in the pool of the other. -/
def linking (b : Build) (policies : List Policy) : Graph × Build :=
  if b.deduplicate then
    let book := (b.inference policies).book
    (⟨b.nodes.nodes, book.links⟩, { b with links := { b.links with pool := book.pool } })
  else (b.graph, b)

def linkedGraph (b : Build) (policies : List Policy) : Graph := (b.linking policies).1

/-- The first pass behind a second one. -/
def afterLinking (b : Build) (policies : List Policy) : Build := (b.linking policies).2

def linkJournal (b : Build) (policies : List Policy) : Journal :=
  if b.deduplicate then
    let s := b.inference policies
    s.journal ++ [.inferred s.created.length]
  else []

theorem linkedGraph_of_deduplicate {b : Build} (h : b.deduplicate = true)
    (policies : List Policy) :
    b.linkedGraph policies = ⟨b.nodes.nodes, (b.inference policies).book.links⟩ := by
  rw [linkedGraph, linking, if_pos h]

theorem linkedGraph_of_not_deduplicate {b : Build} (h : b.deduplicate = false)
    (policies : List Policy) : b.linkedGraph policies = b.graph := by
  rw [linkedGraph, linking, if_neg (by simp [h])]

end Build

namespace Graph

def empty : Graph := ⟨[], []⟩

def compile (deduplicate : Bool) (policies : List Policy) : Graph :=
  (Build.ofPolicies deduplicate policies).linkedGraph policies

def compileJournal (deduplicate : Bool) (policies : List Policy) : Journal :=
  let b := Build.ofPolicies deduplicate policies
  let graph := b.linkedGraph policies
  b.journal ++ b.linkJournal policies ++
    [.compiled policies.length graph.nodes.length graph.links.length]

def toValue (graph : Graph) : Except Fault Value := do
  let links ← graph.links.mapM Link.toValue
  return .record [("nodes", .list (graph.nodes.map Node.toValue)), ("links", .list links)]

def narrow (graph : Graph) (d : Direction) : Graph :=
  let links := graph.links.filter fun link => link.direction == d
  { nodes := graph.nodes.filter fun node =>
      links.any fun link => link.source == node.id || link.target == node.id
    links := links }

end Graph

inductive DirectionFilter where
  | all
  | only (direction : Direction)
  deriving DecidableEq, Repr

namespace DirectionFilter

def allWord : String := "all"

def ofWord? (s : String) : Option DirectionFilter :=
  if s = allWord then some .all else (Direction.ofName? s).map .only

def apply : DirectionFilter → Graph → Graph
  | .all, graph => graph
  | .only d, graph => graph.narrow d

end DirectionFilter

end TrafficGraph
