import TrafficGraph.Fault
import TrafficGraph.Policy.Basic
import TrafficGraph.Selector.Basic
import TrafficGraph.Value.Basic

/-!
# References to endpoints, and their identities

A rule refers to the endpoints of its traffic: pods, namespaces, pods in some
namespaces, a range of addresses, or everybody.  References with one identity
are references to one endpoint.

The identity of a reference holds what tells endpoints apart, with colons
between its parts and selectors in their canonical text.  When policies do not
share endpoints, the name of the policy belongs to the identity too.  The
identity of a link joins those of its two ends with the direction.
-/

namespace TrafficGraph

inductive NodeKind where
  | pod
  | namespaces
  | ipBlock
  | combined
  | anywhere
  deriving DecidableEq, Repr

namespace NodeKind

def all : List NodeKind := [.pod, .namespaces, .ipBlock, .combined, .anywhere]

def name : NodeKind → String
  | .pod => "pod"
  | .namespaces => "namespace"
  | .ipBlock => "ipBlock"
  | .combined => "combined"
  | .anywhere => "anywhere"

def ofName? (s : String) : Option NodeKind := all.find? fun k => k.name == s

end NodeKind

/-- What is said about an endpoint where it is referred to.  Which parts count
depends on its kind. -/
structure Details where
  podSelector : Option Selector
  namespaceSelector : Option Selector
  ipBlock : Option IPBlock
  direction : Option Direction
  /-- Whether the endpoint is the policy's own pods. -/
  isTarget : Bool

namespace Details

def blank : Details := ⟨none, none, none, none, false⟩

end Details

def IPBlock.isWritable (block : IPBlock) : Bool := !block.cidr.isLong

inductive Reference where
  | pod (namespaceName : String) (selector : Option Selector) (isTarget : Bool)
  | namespaces (namespaceName : String) (selector : Option Selector)
  | ipBlock (namespaceName : String) (block : Option IPBlock)
  | combined (namespaceName : String) (namespaceSelector podSelector : Option Selector)
  | anywhere (namespaceName : String) (direction : Direction)

namespace Reference

def kind : Reference → NodeKind
  | .pod _ _ _ => .pod
  | .namespaces _ _ => .namespaces
  | .ipBlock _ _ => .ipBlock
  | .combined _ _ _ => .combined
  | .anywhere _ _ => .anywhere

def namespaceName : Reference → String
  | .pod ns _ _ => ns
  | .namespaces ns _ => ns
  | .ipBlock ns _ => ns
  | .combined ns _ _ => ns
  | .anywhere ns _ => ns

def isWritable : Reference → Bool
  | .ipBlock _ block => block.all IPBlock.isWritable
  | _ => true

/-- The reference of a kind that details describe.  Everybody can be referred to in a
direction only, and a range only if its addresses can be written. -/
def ofDetails (kind : NodeKind) (ns : String) (d : Details) : Except Fault Reference :=
  match kind with
  | .pod => .ok (.pod ns d.podSelector d.isTarget)
  | .namespaces => .ok (.namespaces ns d.namespaceSelector)
  | .ipBlock =>
    if d.ipBlock.all IPBlock.isWritable then .ok (.ipBlock ns d.ipBlock)
    else .error (.conversion .tooLongToWrite)
  | .combined => .ok (.combined ns d.namespaceSelector d.podSelector)
  | .anywhere =>
    match d.direction with
    | some direction => .ok (.anywhere ns direction)
    | none => .error (.missingField "direction")

end Reference

/-- The text of the addresses of a range; a word stands for missing ones. -/
def cidrText (block : Option IPBlock) : String :=
  match block with
  | some b => if b.cidr.isFilled then b.cidr.display else "unknown"
  | none => "unknown"

/-- The part of an identity that keeps policies apart where they share nothing. -/
def policyPart (deduplicate : Bool) (policy : String) : String :=
  if deduplicate then "" else ":policy:" ++ policy

namespace Reference

def sharedId : Reference → String
  | .pod ns selector _ => "pod:" ++ ns ++ ":" ++ Selector.canonical selector
  | .namespaces _ selector => "namespace:" ++ Selector.canonical selector
  | .ipBlock _ block => "ipBlock:" ++ cidrText block
  | .combined ns spaces pods =>
    "combined:" ++ ns ++ ":" ++ Selector.canonical spaces ++ ":" ++ Selector.canonical pods
  | .anywhere _ direction => "anywhere:" ++ direction.name

def id (r : Reference) (deduplicate : Bool) (policy : String) : String :=
  r.sharedId ++ policyPart deduplicate policy

@[simp] theorem id_shared (r : Reference) (policy : String) : r.id true policy = r.sharedId := by
  simp [id, policyPart]

end Reference

def linkId (source target : String) (direction : Direction) (deduplicate : Bool)
    (policy : String) : String :=
  "link:" ++ source ++ ":" ++ target ++ ":" ++ direction.name ++ policyPart deduplicate policy

def Policy.podReference (policy : Policy) : Reference :=
  .pod policy.namespaceName policy.podSelector true

end TrafficGraph
