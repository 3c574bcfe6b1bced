import TrafficGraph.Policy.Labels
import TrafficGraph.Value.Basic

/-!
# Network policies

A policy governs the pods that its selector picks in its namespace.  Its rules,
one list for each direction of traffic, say who may talk to those pods and whom
they may talk to: a rule names its peers and the ports that are open to them.

Policies may also come from a caller that builds them by hand.  Then an entry
of a list of rules or peers can be missing or be something else altogether, and
the types have a place for such entries.
-/

namespace TrafficGraph

/-- Which way traffic flows as seen from the pods of a policy. -/
inductive Direction where
  | ingress
  | egress
  deriving DecidableEq, Repr

namespace Direction

/-- Both directions, in the order in which they are worked through. -/
def all : List Direction := [.ingress, .egress]

theorem mem_all (d : Direction) : d ∈ Direction.all := by
  cases d <;> decide

def name : Direction → String
  | .ingress => "ingress"
  | .egress => "egress"

def ofName? (s : String) : Option Direction := all.find? fun d => d.name == s

end Direction

/-- A direction that a policy declares to govern. -/
inductive PolicyType where
  | ingress
  | egress
  deriving DecidableEq, Repr

namespace PolicyType

def name : PolicyType → String
  | .ingress => "Ingress"
  | .egress => "Egress"

def ofName? (s : String) : Option PolicyType :=
  [PolicyType.ingress, .egress].find? fun t => t.name == s

end PolicyType

structure Requirement where
  key : String
  operator : String
  values : List String
  deriving DecidableEq, Repr

/-- A selector of pods or namespaces by labels and by requirements.  A part that
is absent differs from one that is there and empty. -/
structure Selector where
  labels : Option Labels
  requirements : Option (List Requirement)
  deriving DecidableEq

namespace Selector

def blank : Selector := ⟨none, none⟩

end Selector

/-- An entry of a list of ports: a port, the last one of a range, and a
protocol.  What is absent is `null`. -/
structure Port where
  port : Value
  endPort : Value
  protocol : Value

inductive Ports where
  /-- Every port. -/
  | all
  /-- The ports of a list. -/
  | listed (ports : List Port)
  /-- Nothing is said about ports. -/
  | unset
  /-- A word that stands for no ports. -/
  | word (text : String)

def Ports.allWord : String := "all"

def Ports.ofWord (text : String) : Ports :=
  if text = allWord then .all else .word text

/-- A range of addresses, and the addresses taken out of it. -/
structure IPBlock where
  cidr : Value
  exceptions : List Value

structure Peer where
  podSelector : Option Selector
  namespaceSelector : Option Selector
  ipBlock : Option IPBlock

def Peer.isCombined (peer : Peer) : Bool :=
  peer.podSelector.isSome && peer.namespaceSelector.isSome

inductive PeerEntry where
  | peer (peer : Peer)
  /-- A peer whose pod selector is none, with or without a namespace selector. -/
  | oddPods (inNamespaces : Bool)
  /-- A peer whose namespace selector is none, or whose range of addresses if it has nothing
  else. -/
  | oddNamespaces (pods : Option Selector)
  /-- Something that is no peer. -/
  | malformed

/-- A rule.  Without peers it is about everybody. -/
structure Rule where
  peers : List PeerEntry
  ports : Ports

inductive RuleEntry where
  | rule (rule : Rule)
  /-- An empty entry. -/
  | absent
  /-- Something that is no rule. -/
  | malformed

/-- A network policy.  `none` stands for a list of rules, or a selector, that is
not there at all. -/
structure Policy where
  name : String
  namespaceName : String
  podSelector : Option Selector
  ingress : Option (List RuleEntry)
  egress : Option (List RuleEntry)
  types : List PolicyType

namespace Policy

def rules (policy : Policy) : Direction → Option (List RuleEntry)
  | .ingress => policy.ingress
  | .egress => policy.egress

/-- Whether two policies are the same one to the program: they have one name in
one namespace. -/
def sameAs (a b : Policy) : Bool :=
  a.name == b.name && a.namespaceName == b.namespaceName

theorem sameAs_comm (a b : Policy) : a.sameAs b = b.sameAs a := by
  unfold sameAs
  rw [BEq.comm (a := a.name), BEq.comm (a := a.namespaceName)]

end Policy

theorem Direction.ofName?_name (d : Direction) : Direction.ofName? d.name = some d := by
  cases d <;> decide

theorem PolicyType.ofName?_name (t : PolicyType) : PolicyType.ofName? t.name = some t := by
  cases t <;> decide

end TrafficGraph

/-!
# Ports as text, and their equality

Ports are shown as a number or a range with the protocol behind it, separated
by commas.  A list without entries is shown as all ports, like the absence of a
list, but the two are not the same ports.
-/

namespace TrafficGraph

namespace Port

/-- The text of a port: `80-90/TCP`.  Where no port is given a star stands. -/
def text (p : Port) : String :=
  let protocol := if p.protocol.isFilled then "/" ++ p.protocol.display else ""
  if p.port.isNull then "*" ++ protocol
  else
    let last := if p.endPort.isNull then "" else "-" ++ p.endPort.display
    p.port.display ++ last ++ protocol

def same (a b : Port) : Bool :=
  a.port.same b.port && a.endPort.same b.endPort && a.protocol.same b.protocol

end Port

namespace Ports

/-- The text of any number of ports; none for a word that stands for none. -/
def text? : Ports → Option String
  | .all => some "All ports"
  | .unset => some "All ports"
  | .listed [] => some "All ports"
  | .listed (p :: rest) => some (", ".intercalate ((p :: rest).map Port.text))
  | .word text => if text = "" then some "All ports" else none

def sameList : List Port → List Port → Bool
  | [], [] => true
  | p :: ps, q :: qs => p.same q && sameList ps qs
  | _, _ => false

def same : Ports → Ports → Bool
  | .all, .all => true
  | .listed ps, .listed qs => sameList ps qs
  | .unset, .unset => true
  | .word s, .word t => s == t
  | _, _ => false

/-- The ports of a rule: all of them if it says nothing about ports. -/
def orAll : Ports → Ports
  | .unset => .all
  | ports => ports

end Ports

end TrafficGraph
