import TrafficGraph.Fault
import TrafficGraph.Policy.Basic
import TrafficGraph.Value.Basic

/-!
# Policies from documents

A decoded document is read as a policy whatever its shape: a field of the wrong
shape counts as absent, an entry of the wrong shape is left out of its list,
and every name, label and value of a requirement is taken as text.  That it can be
written is all that is asked of a document.
-/

namespace TrafficGraph

namespace Value

/-- The text of a scalar the way it was written: truth values in lower case,
and nothing for `null`. -/
def scalarText : Value → String
  | .bool b => if b then "true" else "false"
  | .null => ""
  | v => v.display

def maps (v : Value) : List Value := v.items.filter isMap

end Value

open Value

def Requirement.scalars (v : Value) : List Value :=
  v.field "key" :: v.field "operator" :: (v.field "values").items

def Requirement.ofValue (v : Value) : Requirement :=
  { key := (v.field "key").scalarText
    operator := (v.field "operator").scalarText
    values := (v.field "values").items.map scalarText }

def Labels.scalars (v : Value) : List Value := v.entries.flatMap fun entry => [entry.1, entry.2]

def Labels.ofValue? : Value → Option Labels
  | .map entries =>
    some (Labels.ofList (entries.map fun entry => (entry.1.scalarText, entry.2.scalarText)))
  | _ => none

def Requirement.listOfValue? : Value → Option (List Requirement)
  | .list items => some ((Value.list items).maps.map Requirement.ofValue)
  | _ => none

def Selector.scalars (v : Value) : List Value :=
  Labels.scalars (v.field "matchLabels") ++
    (v.field "matchExpressions").maps.flatMap Requirement.scalars

def Selector.ofValue? : Value → Option Selector
  | .map entries =>
    let v := Value.map entries
    some ⟨Labels.ofValue? (v.field "matchLabels"),
      Requirement.listOfValue? (v.field "matchExpressions")⟩
  | _ => none

def Port.ofValue (v : Value) : Port :=
  ⟨v.field "port", v.field "endPort", v.field "protocol"⟩

/-- Read ports: nothing is said about them unless a list is given. -/
def Ports.ofValue : Value → Ports
  | .list items => .listed ((Value.list items).maps.map Port.ofValue)
  | _ => .unset

def IPBlock.ofValue? : Value → Option IPBlock
  | .map entries =>
    let v := Value.map entries
    some ⟨v.field "cidr", (v.field "except").items⟩
  | _ => none

def Peer.scalars (v : Value) : List Value :=
  Selector.scalars (v.field "podSelector") ++ Selector.scalars (v.field "namespaceSelector")

def Peer.ofValue (v : Value) : Peer :=
  { podSelector := Selector.ofValue? (v.field "podSelector")
    namespaceSelector := Selector.ofValue? (v.field "namespaceSelector")
    ipBlock := IPBlock.ofValue? (v.field "ipBlock") }

def Rule.scalars (peersField : String) (v : Value) : List Value :=
  (v.field peersField).maps.flatMap Peer.scalars

def Rule.ofValue (peersField : String) (v : Value) : Rule :=
  { peers := (v.field peersField).maps.map fun peer => .peer (Peer.ofValue peer)
    ports := Ports.ofValue (v.field "ports") }

def rulesOfValue (peersField : String) (v : Value) : List RuleEntry :=
  v.maps.map fun rule => .rule (Rule.ofValue peersField rule)

/-- Read the declared types of a policy; words that are none are left out. -/
def typesOfValue (v : Value) : List PolicyType :=
  v.items.filterMap fun item =>
    match item with
    | .text s => PolicyType.ofName? s
    | _ => none

def orElseText (s fallback : String) : String := if s = "" then fallback else s

namespace Policy

def scalars (v : Value) : List Value :=
  let metadata := v.field "metadata"
  let spec := v.field "spec"
  [metadata.field "name", metadata.field "namespace"] ++
    Selector.scalars (spec.field "podSelector") ++
    (spec.field "ingress").maps.flatMap (Rule.scalars "from") ++
    (spec.field "egress").maps.flatMap (Rule.scalars "to")

def ofValue (v : Value) : Policy :=
  let metadata := v.field "metadata"
  let spec := v.field "spec"
  { name := orElseText (metadata.field "name").scalarText "unnamed-policy"
    namespaceName := orElseText (metadata.field "namespace").scalarText "default"
    podSelector := some ((Selector.ofValue? (spec.field "podSelector")).getD .blank)
    ingress := some (rulesOfValue "from" (spec.field "ingress"))
    egress := some (rulesOfValue "to" (spec.field "egress"))
    types := typesOfValue (spec.field "policyTypes") }

/-- Read a policy, unless the text of one of its scalars cannot be written. -/
def read (v : Value) : Except Yaml.ConversionFault Policy :=
  if (scalars v).any isLong then .error .tooLongToWrite else .ok (ofValue v)

theorem read_eq_ok_iff {v : Value} {policy : Policy} :
    read v = .ok policy ↔ (∀ s ∈ scalars v, s.isLong = false) ∧ policy = ofValue v := by
  unfold read
  split
  · rename_i hlong
    simp only [reduceCtorEq, false_iff, not_and]
    intro hshort
    rcases List.any_eq_true.mp hlong with ⟨s, hs, hslong⟩
    rw [hshort s hs] at hslong
    cases hslong
  · rename_i hshort
    rw [Except.ok.injEq, eq_comm]
    simp_all

end Policy

end TrafficGraph
