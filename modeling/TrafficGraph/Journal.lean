import TrafficGraph.Policy.Basic
import TrafficGraph.Text.Quoted
import TrafficGraph.Value.Basic

/-!
# The journal

What the program notes while it works, for the curious and for those who look
for the reason of a missing link.  Each event has a level, a source and a
wording.
-/

namespace TrafficGraph

inductive Level where
  | debug
  | info
  | warning
  deriving DecidableEq, Repr

namespace Level

def name : Level → String
  | .debug => "DEBUG"
  | .info => "INFO"
  | .warning => "WARNING"

def rank : Level → Nat
  | .debug => 10
  | .info => 20
  | .warning => 30

end Level

inductive Event where
  /-- An item of a document is no mapping. -/
  | itemSkipped (document : Nat)
  /-- An item of a document is of another kind. -/
  | kindSkipped (kind : Value) (document : Nat)
  /-- A node was created. -/
  | nodeCreated (kind label : String)
  /-- A node has become that of one more policy. -/
  | nodeShared (label : String) (policies : List String)
  /-- Two policies open different ports on one link. -/
  | portsDiffer (source target : String) (policies : List String)
  /-- A peer selects nothing. -/
  | peerSkipped (policy : String)
  /-- A policy could not be worked through. -/
  | policySkipped (policy : String)
  /-- A link between two policies was inferred. -/
  | linkInferred (direction : Direction) (label : String)
  /-- The inference from a policy was broken off. -/
  | inferenceSkipped (policy : String)
  /-- So many links were inferred. -/
  | inferred (count : Nat)
  /-- A graph was compiled. -/
  | compiled (policies nodes links : Nat)

namespace Event

def level : Event → Level
  | .policySkipped _ => .warning
  | .inferenceSkipped _ => .warning
  | .compiled _ _ _ => .info
  | _ => .debug

def source : Event → String
  | .itemSkipped _ => "netpolgraph.policy.loader"
  | .kindSkipped _ _ => "netpolgraph.policy.loader"
  | .nodeCreated _ _ => "netpolgraph.graph.nodes"
  | .nodeShared _ _ => "netpolgraph.graph.nodes"
  | .portsDiffer _ _ _ => "netpolgraph.graph.links"
  | .linkInferred _ _ => "netpolgraph.graph.cross_policy"
  | .inferenceSkipped _ => "netpolgraph.graph.cross_policy"
  | .peerSkipped _ => "netpolgraph.graph.compiler"
  | .policySkipped _ => "netpolgraph.graph.compiler"
  | .inferred _ => "netpolgraph.graph.compiler"
  | .compiled _ _ _ => "netpolgraph.graph.compiler"

def message : Event → String
  | .itemSkipped document => "Skipping non-mapping item in document " ++ toString document
  | .kindSkipped kind document =>
    "Skipping " ++ kind.display ++ " in document " ++ toString document
  | .nodeCreated kind label => "Created " ++ kind ++ " node " ++ label
  | .nodeShared label policies =>
    "Node " ++ label ++ " now shared by " ++ Text.quotedList policies
  | .portsDiffer source target policies =>
    "Link " ++ source ++ " -> " ++ target ++ " has differing ports across " ++
      Text.quotedList policies
  | .peerSkipped policy => "Policy " ++ policy ++ " has a peer with no selector, skipping"
  | .policySkipped policy => "Skipping policy " ++ policy ++ " after a build error"
  | .linkInferred direction label => "Inferred " ++ direction.name ++ " link " ++ label
  | .inferenceSkipped policy => "Skipping cross-policy links of " ++ policy
  | .inferred count => "Inferred " ++ toString count ++ " cross-policy links"
  | .compiled policies nodes links =>
    "Compiled " ++ toString policies ++ " policies into " ++ toString nodes ++ " nodes and " ++
      toString links ++ " links"

end Event

abbrev Journal := List Event

def Journal.atLeast (journal : Journal) (level : Level) : Journal :=
  journal.filter fun event => decide (level.rank ≤ event.level.rank)

end TrafficGraph
