import TrafficGraph.Policy.Basic
import TrafficGraph.Text.Lines
import TrafficGraph.Text.Quoted

/-!
# Canonical text of selectors

Two selectors that differ only in the order of their labels or of their
requirements have the same canonical text.  It is an interchange object of at
most two fields, without spaces and in plain ASCII: the requirements sorted by
key, operator and values, and the labels sorted by key.
-/

namespace TrafficGraph
namespace Selector

/-! ## Order -/

def labelBelow (a b : String × String) : Bool := decide (a.1 < b.1)

def requirementBelow (a b : Requirement) : Bool :=
  decide (a.key < b.key) ||
    (a.key == b.key &&
      (decide (a.operator < b.operator) ||
        (a.operator == b.operator && decide (a.values < b.values))))

/-! ## Writing -/

def enclose (opening closing : Char) (items : List (List Char)) : List Char :=
  opening :: (Text.joinPieces ',' items ++ [closing])

def canonicalField (name value : List Char) : List Char :=
  Json.quote name ++ ':' :: value

def canonicalObject (fields : List (List Char)) : List Char := enclose '\x7b' '\x7d' fields

def canonicalList (items : List (List Char)) : List Char := enclose '[' ']' items

def canonicalLabels (labels : Labels) : List Char :=
  canonicalObject ((Sorting.sort labelBelow labels.entries).map fun entry =>
    canonicalField entry.1.toList (Json.quote entry.2.toList))

def canonicalRequirement (r : Requirement) : List Char :=
  canonicalObject
    [canonicalField "key".toList (Json.quote r.key.toList),
      canonicalField "operator".toList (Json.quote r.operator.toList),
      canonicalField "values".toList
        (canonicalList (r.values.map fun v => Json.quote v.toList))]

def canonicalRequirements (rs : List Requirement) : List Char :=
  canonicalList ((Sorting.sort requirementBelow rs).map canonicalRequirement)

def canonicalFields (s : Selector) : List (List Char) :=
  (match s.requirements with
    | some rs => [canonicalField "matchExpressions".toList (canonicalRequirements rs)]
    | none => []) ++
    (match s.labels with
      | some labels => [canonicalField "matchLabels".toList (canonicalLabels labels)]
      | none => [])

/-- The canonical text of a selector, as characters.  No selector at all counts
as one without any part. -/
def canonicalChars (s : Option Selector) : List Char :=
  canonicalObject (canonicalFields (s.getD blank))

def canonical (s : Option Selector) : String := String.ofList (canonicalChars s)

example : canonical none = "\x7b\x7d" := by decide +kernel

example : canonical (some ⟨some (Labels.ofList [("b", "2"), ("a", "1")]), none⟩) =
    "\x7b\"matchLabels\":\x7b\"a\":\"1\",\"b\":\"2\"\x7d\x7d" := by decide +kernel

end Selector
end TrafficGraph

/-!
# Matching selectors

A peer's selector is taken to pick the pods of another policy when each of its
labels is one of the labels that the policy's own selector asks for.  Both
selectors need to have labels, even if none are listed; requirements take no
part.
-/

namespace TrafficGraph

def Labels.within (labels other : Labels) : Bool :=
  labels.entries.all fun entry => other.get? entry.1 == some entry.2

namespace Selector

def picks (s target : Option Selector) : Bool :=
  match s.bind Selector.labels, target.bind Selector.labels with
  | some labels, some others => labels.within others
  | _, _ => false

end Selector

/-- Whether a peer of a rule of `owner` is taken to pick the pods of `target`.
A peer without a selector of namespaces stays in the namespace of its owner. -/
def Peer.selects (peer : Peer) (owner target : Policy) : Bool :=
  peer.podSelector.isSome &&
    (owner.namespaceName == target.namespaceName || peer.namespaceSelector.isSome) &&
    Selector.picks peer.podSelector target.podSelector

namespace PeerEntry

/-- The peer that an entry is where nothing is asked of its namespace selector but whether it
is there. -/
def seenPeer? : PeerEntry → Option Peer
  | .peer p => some p
  | .oddPods _ => none
  | .oddNamespaces pods => some ⟨pods, some .blank, none⟩
  | .malformed => none

/-- Whether it cannot be told if an entry picks the pods of `target`.  A pod selector is looked
into only where the namespaces allow it and there is something to compare it with. -/
def trips (entry : PeerEntry) (owner target : Policy) : Bool :=
  match entry with
  | .peer _ => false
  | .oddPods inNamespaces =>
    (owner.namespaceName == target.namespaceName || inNamespaces) && target.podSelector.isSome
  | .oddNamespaces _ => false
  | .malformed => true

def selects (entry : PeerEntry) (owner target : Policy) : Option Bool :=
  if entry.trips owner target then none
  else some (entry.seenPeer?.any fun p => p.selects owner target)

end PeerEntry

end TrafficGraph
