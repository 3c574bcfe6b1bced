import TrafficGraph.Fault
import TrafficGraph.Graph.Node
import TrafficGraph.Policy.Export
import TrafficGraph.Policy.Basic

/-!
# Links

A link is traffic that is allowed from one node to another.  It carries the
ports that were named first.  Once a policy names other ports for the same
traffic, the link also carries the breakdown: for each policy that named ports
of its own, the different ports it named, the first policy first.
-/

namespace TrafficGraph

structure Contribution where
  policy : String
  ports : List Ports

/-- Traffic that is allowed. -/
structure Link where
  source : String
  target : String
  direction : Direction
  /-- The ports that were named first. -/
  ports : Ports
  /-- The names of the policies that allow the traffic, in order, each once. -/
  policies : List String
  /-- The place of the rule that allowed it first. -/
  ruleIndex : Option Int
  /-- Whether the link is inferred from two policies. -/
  crossPolicy : Bool
  combinedSelector : Bool
  /-- The breakdown of the ports by policy, where they differ. -/
  breakdown : Option (List Contribution)
  /-- Whether the ports are shown by policy. -/
  detailed : Bool
  /-- A label for the policies, where it is not their names. -/
  label : Option String

/-- Add ports to a policy's contributions: a new policy comes last, and ports
that the policy has named before are not added. -/
def addContribution (policy : String) (ports : Ports) : List Contribution → List Contribution
  | [] => [⟨policy, [ports]⟩]
  | c :: rest =>
    if c.policy = policy then
      { c with ports := if c.ports.any (·.same ports) then c.ports else c.ports ++ [ports] } :: rest
    else c :: addContribution policy ports rest

namespace Link

def ofRule (source target : String) (ports : Ports) (direction : Direction) (policy : String)
    (ruleIndex : Option Int) : Link :=
  { source := source, target := target, direction := direction, ports := ports
    policies := [policy], ruleIndex := ruleIndex, crossPolicy := false
    combinedSelector := false, breakdown := none, detailed := false, label := none }

def breakdownOrFirst (link : Link) : List Contribution :=
  link.breakdown.getD [⟨link.policies.headD "", [link.ports]⟩]

def merge (link : Link) (policy : String) (ports : Ports) : Link :=
  let named := { link with policies := addName policy link.policies }
  if link.ports.same ports then named
  else
    { named with
      breakdown := some (addContribution policy ports named.breakdownOrFirst)
      detailed := true }

/-- What is worth noting when a policy is merged into a link: that its ports are
the first ones that differ. -/
def mergeEvents (link : Link) (policy : String) (ports : Ports) : Journal :=
  if link.ports.same ports || link.breakdown.isSome then []
  else [.portsDiffer link.source link.target (addName policy link.policies)]

def policyText (link : Link) : String :=
  link.label.getD (", ".intercalate link.policies)

/-- The text of the ports that a policy contributed; none if some of them are a
word that stands for no ports. -/
def contributionText? (c : Contribution) : Option String :=
  (c.ports.mapM Ports.text?).map fun texts => c.policy ++ ": " ++ "; ".intercalate texts

/-- The contributions that are shown: those of the breakdown, if the link is marked for it. -/
def shownContributions (link : Link) : List Contribution :=
  if link.detailed then link.breakdown.getD [] else []

def breakdownText? (link : Link) : Except Fault (Option String) :=
  match link.shownContributions with
  | [] => .ok none
  | contributions =>
    match contributions.mapM contributionText? with
    | some texts => .ok (some ("\n".intercalate texts))
    | none => .error .notARecord

def breakdownValue (contributions : List Contribution) : Except Fault Value := do
  let fields ← contributions.mapM fun c => do
    return (c.policy, Value.list (← c.ports.mapM Ports.toValue))
  return .record fields

def breakdownFields (link : Link) : Except Fault (List (String × Value)) :=
  match link.shownContributions with
  | [] => .ok []
  | contributions => do
    let map ← breakdownValue contributions
    let text ← link.breakdownText?
    return [("detailedPorts", .bool true), ("portsMap", map),
      ("portDetails", (text.map Value.text).getD .null)]

def toValue (link : Link) : Except Fault Value := do
  let ports ← link.ports.toValue
  let breakdown ← link.breakdownFields
  return .record
    ([("source", .text link.source), ("target", .text link.target),
      ("direction", .text link.direction.name), ("ports", ports),
      ("policy", .text link.policyText), ("policies", .texts link.policies),
      ("crossPolicy", .bool link.crossPolicy),
      ("combinedSelector", .bool link.combinedSelector)] ++
      (match link.ruleIndex with
        | some n => [("ruleIndex", .int n)]
        | none => []) ++ breakdown)

@[simp] theorem source_merge (link : Link) (policy : String) (ports : Ports) :
    (link.merge policy ports).source = link.source := by
  unfold merge
  split <;> rfl

@[simp] theorem target_merge (link : Link) (policy : String) (ports : Ports) :
    (link.merge policy ports).target = link.target := by
  unfold merge
  split <;> rfl

@[simp] theorem direction_merge (link : Link) (policy : String) (ports : Ports) :
    (link.merge policy ports).direction = link.direction := by
  unfold merge
  split <;> rfl

@[simp] theorem ports_merge (link : Link) (policy : String) (ports : Ports) :
    (link.merge policy ports).ports = link.ports := by
  unfold merge
  split <;> rfl

theorem detailed_merge (link : Link) (policy : String) (ports : Ports) :
    (link.merge policy ports).detailed = (link.detailed || !link.ports.same ports) := by
  unfold merge
  cases link.ports.same ports <;> simp

@[simp] theorem policies_merge (link : Link) (policy : String) (ports : Ports) :
    (link.merge policy ports).policies = addName policy link.policies := by
  unfold merge
  split <;> rfl

end Link

end TrafficGraph
