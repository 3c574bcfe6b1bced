import TrafficGraph.Fault
import TrafficGraph.Policy.Basic

/-!
# Policies as documents

The document of a policy has every field that the policy has: parts that are
absent are left out, lists that are empty stay, but for the exceptions of a
range of addresses.  An entry that is no rule or no peer has no document.
-/

namespace TrafficGraph

def Requirement.toValue (r : Requirement) : Value :=
  .record [("key", .text r.key), ("operator", .text r.operator), ("values", .texts r.values)]

def Labels.toValue (labels : Labels) : Value :=
  .record (labels.entries.map fun entry => (entry.1, .text entry.2))

namespace Selector

def fields (s : Selector) : List (String × Value) :=
  (match s.labels with
    | some labels => [("matchLabels", labels.toValue)]
    | none => []) ++
    (match s.requirements with
      | some rs => [("matchExpressions", .list (rs.map Requirement.toValue))]
      | none => [])

def toValue (s : Selector) : Value := .record s.fields

end Selector

def fieldUnlessNull (name : String) (v : Value) : List (String × Value) :=
  if v.isNull then [] else [(name, v)]

def Port.toValue (p : Port) : Value :=
  .record (fieldUnlessNull "port" p.port ++ fieldUnlessNull "endPort" p.endPort ++
    fieldUnlessNull "protocol" p.protocol)

def Ports.toList : Ports → Except Fault (List Value)
  | .listed ports => .ok (ports.map Port.toValue)
  | .all => .error .notARecord
  | .word text => if text = "" then .ok [] else .error .notARecord
  | .unset => .error .notAList

/-- The ports of a link as a document: a word for all of them, or a list. -/
def Ports.toValue : Ports → Except Fault Value
  | .all => .ok (.text Ports.allWord)
  | ports => ports.toList.map .list

namespace IPBlock

def fields (block : IPBlock) : List (String × Value) :=
  ("cidr", block.cidr) ::
    (if block.exceptions.isEmpty then [] else [("except", .list block.exceptions)])

def toValue (block : IPBlock) : Value := .record block.fields

end IPBlock

def partField {α : Type} (name : String) (toValue : α → Value) : Option α → List (String × Value)
  | some a => [(name, toValue a)]
  | none => []

def Peer.toValue (peer : Peer) : Value :=
  .record (partField "podSelector" Selector.toValue peer.podSelector ++
    partField "namespaceSelector" Selector.toValue peer.namespaceSelector ++
    partField "ipBlock" IPBlock.toValue peer.ipBlock)

def PeerEntry.toValue : PeerEntry → Except Fault Value
  | .peer p => .ok p.toValue
  | .oddPods _ => .error .notARecord
  | .oddNamespaces _ => .error .notARecord
  | .malformed => .error .notARecord

def PeerEntry.isCombined : PeerEntry → Except Fault Bool
  | .peer p => .ok p.isCombined
  | .oddPods inNamespaces => .ok inNamespaces
  | .oddNamespaces pods => .ok pods.isSome
  | .malformed => .error .notARecord

def Direction.peersField : Direction → String
  | .ingress => "from"
  | .egress => "to"

namespace Rule

def toValue (d : Direction) (rule : Rule) : Except Fault Value := do
  let peers ← rule.peers.mapM PeerEntry.toValue
  let ports ←
    match rule.ports with
    | .unset => pure []
    | ports => do pure [("ports", Value.list (← ports.toList))]
  return .record ((d.peersField, .list peers) :: ports)

end Rule

def RuleEntry.toValue (d : Direction) : RuleEntry → Except Fault Value
  | .rule r => r.toValue d
  | .absent => .error .notARecord
  | .malformed => .error .notARecord

/-- For each peer of a rule, whether it selects pods and namespaces at once. -/
def RuleEntry.combinedPeers : RuleEntry → Except Fault (List Bool)
  | .rule r => r.peers.mapM PeerEntry.isCombined
  | .absent => .error .notARecord
  | .malformed => .error .notARecord

def rulesValue (d : Direction) : Option (List RuleEntry) → Except Fault Value
  | none => .error .notAList
  | some entries => (entries.mapM (RuleEntry.toValue d)).map .list

namespace Policy

def toValue (policy : Policy) : Except Fault Value := do
  let selector ←
    match policy.podSelector with
    | some s => pure s.toValue
    | none => throw .notARecord
  let ingress ← rulesValue .ingress policy.ingress
  let egress ← rulesValue .egress policy.egress
  return .record
    [("apiVersion", .text "networking.k8s.io/v1"),
      ("kind", .text "NetworkPolicy"),
      ("metadata", .record [("name", .text policy.name), ("namespace", .text policy.namespaceName)]),
      ("spec", .record
        [("podSelector", selector),
          ("policyTypes", .texts (policy.types.map PolicyType.name)),
          ("ingress", ingress),
          ("egress", egress)])]

/-- For each rule and each of its peers, whether the peer selects pods and
namespaces at once: first the ingress rules, then the egress rules. -/
def combinedPeers (policy : Policy) : Except Fault (List (List Bool)) :=
  (Direction.all.flatMap fun d => (policy.rules d).getD []).mapM RuleEntry.combinedPeers

end Policy

end TrafficGraph
