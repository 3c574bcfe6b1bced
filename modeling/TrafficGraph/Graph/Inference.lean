import TrafficGraph.Graph.FirstPass
import TrafficGraph.Selector.Basic

/-!
# Links between policies

If a peer in a rule of one policy picks the pods that another policy governs,
traffic between the two is inferred.  The matching is a heuristic on labels;
namespaces are not resolved.  An inferred link belongs to an ordered pair of
policies, whatever rules lead to it, and only policies whose pods have a node
take part.

What a policy proposes is a list of links.  It ends early at an entry that is
no rule, and at one of which it cannot be told whom it picks.  The links
proposed until then stay registered, but do not count as created.
-/

namespace TrafficGraph

/-- A link that a policy proposes, or an entry on which it stumbles. -/
inductive Proposal where
  | link (id : String) (link : Link)
  | stumble

namespace Policy

def podId (policy : Policy) : String := policy.podReference.sharedId

/-- The link inferred from a peer of `owner` that picks the pods of `target`.
Traffic into the pods of `owner` comes from those of `target`. -/
def pairLink (owner target : Policy) (peer : Peer) (d : Direction) (ports : Ports) :
    String × Link :=
  let (first, second) :=
    match d with
    | .ingress => (target, owner)
    | .egress => (owner, target)
  (linkId first.podId second.podId d false (first.name ++ "->" ++ second.name),
    { source := first.podId, target := second.podId, direction := d, ports := ports
      policies := [first.name, second.name], ruleIndex := none, crossPolicy := true
      combinedSelector := peer.isCombined, breakdown := none, detailed := false
      label := some (first.name ++ " → " ++ second.name) })

/-- What an entry of a list of peers proposes about a policy: nothing about its
own one, and nothing about one that it does not pick or that has no node. -/
def propose? (owner : Policy) (hasNode : String → Bool) (d : Direction) (ports : Ports)
    (entry : PeerEntry) (target : Policy) : Option Proposal :=
  if owner.sameAs target then none
  else
    match entry.seenPeer? with
    | none => if entry.trips owner target then some .stumble else none
    | some p =>
      if p.selects owner target && hasNode target.podId then
        let pair := owner.pairLink target p d ports
        some (.link pair.1 pair.2)
      else none

def ruleProposals (owner : Policy) (policies : List Policy) (hasNode : String → Bool)
    (d : Direction) : RuleEntry → List Proposal
  | .rule r =>
    r.peers.flatMap fun entry => policies.filterMap (owner.propose? hasNode d r.ports.orAll entry)
  | .absent => [.stumble]
  | .malformed => [.stumble]

/-- What a policy proposes.  One without rules proposes nothing, and neither does
one whose pods have no node. -/
def proposals (owner : Policy) (policies : List Policy) (hasNode : String → Bool) :
    List Proposal :=
  if hasNode owner.podId then
    Direction.all.flatMap fun d =>
      ((owner.rules d).getD []).flatMap (owner.ruleProposals policies hasNode d)
  else []

end Policy

/-- What has been inferred: the book of links, the links that count as created,
and the events on the way. -/
structure Inference where
  book : LinkBook
  created : List Link
  journal : Journal

namespace Inference

def start (book : LinkBook) : Inference := ⟨book, [], []⟩

/-- Register the links that a policy proposes until it stumbles: what has been
inferred then, and whether it stumbled. -/
def run : List Proposal → Inference → Inference × Bool
  | [], s => (s, false)
  | .stumble :: _, s => (s, true)
  | .link id link :: rest, s =>
    match s.book.register id link with
    | (true, book) =>
      run rest
        { book := book
          created := s.created ++ [link]
          journal := s.journal ++ [.linkInferred link.direction link.policyText] }
    | (false, book) => run rest { s with book := book }

def addOwner (policies : List Policy) (hasNode : String → Bool) (s : Inference)
    (owner : Policy) : Inference :=
  match run (owner.proposals policies hasNode) s with
  | (after, false) => after
  | (after, true) =>
    { after with
      created := s.created
      journal := after.journal ++ [.inferenceSkipped owner.name] }

def ofPolicies (policies : List Policy) (nodes : NodeStore) (book : LinkBook) : Inference :=
  policies.foldl (addOwner policies nodes.contains) (start book)

end Inference

end TrafficGraph
