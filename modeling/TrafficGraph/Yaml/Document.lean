import TrafficGraph.Value.Basic
import TrafficGraph.Yaml.Node.OfTokens
import TrafficGraph.Yaml.Scalar
import TrafficGraph.Yaml.Token.Stream

/-!
# Values of documents

The tree of a document is turned into a value.  A mapping takes over the pairs
of the mappings that are merged into it, in front of its own; of two equal keys
the first one stays and the last value counts.

If several scalars cannot be converted, the fault of the one in the shallowest
collection counts, and among those at one depth that of the first.
-/

namespace TrafficGraph
namespace Yaml

/-- A fault, and how many collections below the present place it lies. -/
structure DeepFault where
  depth : Nat
  fault : Fault

def DeepFault.here (fault : Fault) : DeepFault := ⟨0, fault⟩

/-- The fault of a node that its tag does not fit.  With a tag of collections it
is found where the items of the collection are looked for. -/
def DeepFault.unfit (tag : Tag) : DeepFault := ⟨if tag.isOfCollections then 1 else 0, .invalid⟩

/-- The same fault as seen from the collection around the present place. -/
def DeepFault.lower (f : DeepFault) : DeepFault := { f with depth := f.depth + 1 }

/-- A value, or the fault that keeps a node from having one. -/
abbrev Evaluated := Except DeepFault Value

def gather : List Evaluated → Except DeepFault (List Value)
  | [] => .ok []
  | .ok v :: rest => (gather rest).map (v :: ·)
  | .error f :: rest =>
    match gather rest with
    | .ok _ => .error f
    | .error g => .error (if g.depth < f.depth then g else f)

def isKey : Value → Bool
  | .list _ => false
  | .map _ => false
  | .set _ => false
  | .loop _ => false
  | _ => true

/-- A key of a map.  A collection is none, whatever it holds. -/
def asKey : Evaluated → Evaluated
  | .ok v => if isKey v then .ok v else .error (.here .invalid)
  | .error f => if f.depth = 0 then .error f else .error (.here .invalid)

/-- Store a value under a key: in place if an equal key is there, at the end if
not. -/
def store (k v : Value) : List (Value × Value) → List (Value × Value)
  | [] => [(k, v)]
  | (k', v') :: rest => if k'.same k then (k', v) :: rest else (k', v') :: store k v rest

def entriesOf : List (Value × Value) → List Value → List (Value × Value)
  | read, k :: v :: rest => entriesOf (store k v read) rest
  | read, _ => read

def pairsOf : List Value → List Value
  | k :: v :: rest => .pair k v :: pairsOf rest
  | _ => []

abbrev EvaluatedPair := Evaluated × Evaluated

def alternate : List EvaluatedPair → List Evaluated
  | [] => []
  | (k, v) :: rest => k :: v :: alternate rest

/-- The keys and values of a mapping by turns, with every key checked. -/
def checkedTurns (pairs : List EvaluatedPair) : List Evaluated :=
  alternate (pairs.map fun pair => (asKey pair.1, pair.2))

/-- The keys and values of a mapping by turns: of the pairs merged into it and of
its own ones. -/
def turns (parts : Option (List EvaluatedPair × List EvaluatedPair)) :
    Except DeepFault (List Value) :=
  match parts with
  | none => .error (.here .invalid)
  | some (merged, own) => gather (checkedTurns (merged ++ own))

/-- A collection of gathered values.  A fault among them lies one collection
further down. -/
def collect {α : Type} (values : Except DeepFault (List Value)) (make : List Value → α) :
    Except DeepFault α :=
  match values with
  | .ok vs => .ok (make vs)
  | .error f => .error f.lower

mutual

def evaluate : Node → Evaluated
  | .scalar tag text =>
    if tag.isOfCollections then .error (.unfit tag)
    else
      match scalarValue tag text with
      | .ok v => .ok v
      | .error fault => .error (.here fault)
  | .sequence tag items =>
    match tag with
    | .sequence => collect (gather (evaluateItems items)) .list
    | .omap => collect (gather (evaluateSingles items)) fun vs => .list (pairsOf vs)
    | .pairs => collect (gather (evaluateSingles items)) fun vs => .list (pairsOf vs)
    | tag => .error (.unfit tag)
  | .mapping tag pairs =>
    match tag with
    | .mapping => collect (turns (evaluatePairs pairs)) fun vs => .map (entriesOf [] vs)
    | .set =>
      collect (turns (evaluatePairs pairs)) fun vs => .set ((entriesOf [] vs).map Prod.fst)
    | tag =>
      if tag.isOfCollections then .error (.unfit tag)
      else
        match Node.scalarText?.ofPairs pairs with
        | none => .error (.here .invalid)
        | some text =>
          match scalarValue tag text with
          | .ok v => .ok v
          | .error fault => .error (.here fault)
  | .loop ofMapping => .ok (.loop ofMapping)
termination_by structural node => node

def evaluateItems : List Node → List Evaluated
  | [] => []
  | node :: rest => evaluate node :: evaluateItems rest
termination_by structural nodes => nodes

/-- The keys and values, by turns, of items that are mappings of one pair each. -/
def evaluateSingles : List Node → List Evaluated
  | [] => []
  | .mapping _ [(k, v)] :: rest => evaluate k :: evaluate v :: evaluateSingles rest
  | _ :: rest => .error (.here .invalid) :: evaluateSingles rest
termination_by structural nodes => nodes

/-- The pairs of a mapping: first those merged into it, then its own.  None if
something is merged that is no mapping. -/
def evaluatePairs : List (Node × Node) → Option (List EvaluatedPair × List EvaluatedPair)
  | [] => some ([], [])
  | (k, v) :: rest =>
    match evaluatePairs rest with
    | none => none
    | some (merged, own) =>
      if k.tag = .merge then (mergedPairs v).map fun pairs => (pairs ++ merged, own)
      else
        let key :=
          match k with
          | .scalar .default text => .ok (.text text)
          | k => evaluate k
        some (merged, (key, evaluate v) :: own)
termination_by structural pairs => pairs

/-- The pairs that a node gives when it is merged: those of a mapping, or of
several mappings, the last one first. -/
def mergedPairs : Node → Option (List EvaluatedPair)
  | .mapping _ pairs => (evaluatePairs pairs).map fun parts => parts.1 ++ parts.2
  | .sequence _ items => mergedItems items
  | _ => none
termination_by structural node => node

/-- The pairs of several mappings that are merged, those of the last one first. -/
def mergedItems : List Node → Option (List EvaluatedPair)
  | [] => some []
  | .mapping _ pairs :: rest =>
    match evaluatePairs pairs, mergedItems rest with
    | some parts, some later => some (later ++ (parts.1 ++ parts.2))
    | _, _ => none
  | _ :: _ => none
termination_by structural nodes => nodes

end

/-- The value of a document.  A text without any node stands for nothing. -/
def decode (text : String) : Except Fault Value := do
  let (ts, fault) := tokens text.toList
  match ← Node.ofTokens? ts (fault.getD .invalid) with
  | none => return .null
  | some node =>
    match evaluate node with
    | .ok v => return v
    | .error f => throw f.fault

end Yaml
end TrafficGraph
