import TrafficGraph.Graph.Registry

/-!
# The first pass

Every policy contributes nodes and links of its own.  What it contributes is a
list of steps: its own pods; then, for each direction and each of its rules, the
nodes of the rule's peers, followed by a link between each of them and the
policy's pods.  A rule without peers has everybody as its one peer, and a peer
that selects nothing has no node.

The steps of a policy are carried out in order until one fails.  What was done
before stays, and the next policy follows.
-/

namespace TrafficGraph

inductive Step where
  /-- Refer to an endpoint, from a rule of a direction if one is given. -/
  | refer (reference : Reference) (direction : Option Direction)
  /-- Pass over a peer that selects nothing. -/
  | passOver
  /-- Link an endpoint with the policy's pods, on the ports of a rule. -/
  | connect (peer : Reference) (direction : Direction) (ports : Ports) (ruleIndex : Nat)
  /-- Come upon an entry that is no rule or no peer, or a peer that cannot be referred to. -/
  | stumble

/-- The reference that a peer makes from a namespace; none if it selects
nothing. -/
def Peer.reference? (peer : Peer) (ns : String) : Option Reference :=
  match peer.podSelector, peer.namespaceSelector, peer.ipBlock with
  | some pods, some namespaces, _ => some (.combined ns (some namespaces) (some pods))
  | none, some namespaces, _ => some (.namespaces ns (some namespaces))
  | some pods, none, _ => some (.pod ns (some pods) false)
  | none, none, some block => some (.ipBlock ns (some block))
  | none, none, none => none

namespace PeerEntry

def selectsNothing : PeerEntry → Bool
  | .peer p => p.podSelector.isNone && p.namespaceSelector.isNone && p.ipBlock.isNone
  | _ => false

/-- The reference that an entry makes from a namespace, if it can be made. -/
def reference? (ns : String) : PeerEntry → Option Reference
  | .peer p => (p.reference? ns).filter Reference.isWritable
  | _ => none

theorem reference?_eq_some_iff {entry : PeerEntry} {ns : String} {r : Reference} :
    entry.reference? ns = some r ↔
      ∃ p, entry = .peer p ∧ p.reference? ns = some r ∧ r.isWritable = true := by
  cases entry with
  | peer p => simp [reference?, Option.filter_eq_some_iff]
  | _ => simp [reference?]

theorem reference?_peer {p : Peer} {ns : String}
    (h : ∀ r, p.reference? ns = some r -> r.isWritable = true) :
    (PeerEntry.peer p).reference? ns = p.reference? ns := by
  show (p.reference? ns).filter Reference.isWritable = p.reference? ns
  cases hr : p.reference? ns with
  | none => rfl
  | some r => rw [Option.filter_some, if_pos (h r hr)]

theorem selectsNothing_peer (p : Peer) (ns : String) :
    (PeerEntry.peer p).selectsNothing = (p.reference? ns).isNone := by
  rcases p with ⟨_ | pods, _ | spaces, _ | block⟩ <;> rfl

end PeerEntry

namespace Policy

def referStep (policy : Policy) (d : Direction) (entry : PeerEntry) : Step :=
  match entry.reference? policy.namespaceName with
  | some r => .refer r (some d)
  | none => if entry.selectsNothing then .passOver else .stumble

theorem referStep_cases (policy : Policy) (d : Direction) (entry : PeerEntry) :
    (∃ r, entry.reference? policy.namespaceName = some r ∧
        policy.referStep d entry = .refer r (some d)) ∨
      entry.reference? policy.namespaceName = none ∧
        (policy.referStep d entry = .passOver ∨ policy.referStep d entry = .stumble) := by
  unfold referStep
  cases entry.reference? policy.namespaceName with
  | some r => exact .inl ⟨r, rfl, rfl⟩
  | none => cases entry.selectsNothing <;> simp

def connectStep? (policy : Policy) (d : Direction) (ports : Ports) (ruleIndex : Nat)
    (entry : PeerEntry) : Option Step :=
  (entry.reference? policy.namespaceName).map fun r => .connect r d ports ruleIndex

def ruleSteps (policy : Policy) (d : Direction) (ruleIndex : Nat) : RuleEntry → List Step
  | .absent => []
  | .malformed => [.stumble]
  | .rule r =>
    let ports := r.ports.orAll
    if r.peers.isEmpty then
      let everybody := Reference.anywhere policy.namespaceName d
      [.refer everybody (some d), .connect everybody d ports ruleIndex]
    else
      r.peers.map (policy.referStep d) ++ r.peers.filterMap (policy.connectStep? d ports ruleIndex)

/-- The steps of some rules, the first of which has a place in the list. -/
def rulesSteps (policy : Policy) (d : Direction) : Nat → List RuleEntry → List Step
  | _, [] => []
  | ruleIndex, entry :: rest =>
    policy.ruleSteps d ruleIndex entry ++ rulesSteps policy d (ruleIndex + 1) rest

def steps (policy : Policy) : List Step :=
  .refer policy.podReference none ::
    Direction.all.flatMap fun d => policy.rulesSteps d 0 ((policy.rules d).getD [])

end Policy

structure Build where
  nodes : NodeStore
  links : LinkBook
  journal : Journal

namespace Build

def empty (deduplicate : Bool) : Build := ⟨.empty deduplicate, .empty deduplicate, []⟩

def deduplicate (b : Build) : Bool := b.nodes.deduplicate

/-- The link between an endpoint and the pods of a policy: traffic comes from
the endpoint or goes to it. -/
def linkOf (b : Build) (policy : Policy) (peer : Reference) (d : Direction) (ports : Ports)
    (ruleIndex : Nat) : Link :=
  let own := b.nodes.idOf policy.podReference policy.name
  let other := b.nodes.idOf peer policy.name
  match d with
  | .ingress => .ofRule other own ports d policy.name (some ruleIndex)
  | .egress => .ofRule own other ports d policy.name (some ruleIndex)

def step (b : Build) (policy : Policy) : Step → Except Fault Build
  | .refer r d =>
    (b.nodes.ensure r policy.name d).map fun nodes =>
      { b with nodes := nodes, journal := b.journal ++ b.nodes.ensureEvents r policy.name }
  | .passOver => .ok { b with journal := b.journal ++ [.peerSkipped policy.name] }
  | .connect r d ports ruleIndex =>
    let link := b.linkOf policy r d ports ruleIndex
    .ok
      { b with
        links := (b.links.add link policy.name).2
        journal := b.journal ++ b.links.addEvents link policy.name }
  | .stumble => .error .notARecord

/-- Carry out the steps of a policy until one fails.  The fault comes with what
was built until then. -/
def run (policy : Policy) : List Step → Build → Build × Option Fault
  | [], b => (b, none)
  | s :: rest, b =>
    match b.step policy s with
    | .ok b => run policy rest b
    | .error fault => (b, some fault)

def addPolicy (b : Build) (policy : Policy) : Build :=
  match run policy policy.steps b with
  | (b, none) => b
  | (b, some _) => { b with journal := b.journal ++ [.policySkipped policy.name] }

def ofPolicies (deduplicate : Bool) (policies : List Policy) : Build :=
  policies.foldl addPolicy (empty deduplicate)

@[simp] theorem run_nil (policy : Policy) (b : Build) : run policy [] b = (b, none) := rfl

theorem ofPolicies_append (deduplicate : Bool) (ps qs : List Policy) :
    ofPolicies deduplicate (ps ++ qs) = qs.foldl addPolicy (ofPolicies deduplicate ps) := by
  simp [ofPolicies, List.foldl_append]

end Build

end TrafficGraph
