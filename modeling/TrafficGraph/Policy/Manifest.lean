import TrafficGraph.Fault
import TrafficGraph.Journal
import TrafficGraph.Policy.Decode
import TrafficGraph.Text.Characters
import TrafficGraph.Text.Lines
import TrafficGraph.Text.Utf8
import TrafficGraph.Yaml.Document

/-!
# Manifests

A manifest is a text of documents with separators between them: lines of three
hyphens and nothing else.  Documents are trimmed, those that are blank do not
count, and the others are numbered from zero.

A document holds items: those of a list, those under the field `items` of a
mapping, or itself.  An item that is a mapping of the right kind, or of none,
is a policy.  The first document that cannot be decoded ends the reading, and so
does a policy with a scalar that cannot be written.

Reading is defined for any way of decoding a document; `load` and `loadBytes`
use YAML.
-/

namespace TrafficGraph
namespace Manifest

open Text

def separator : List Char := ['-', '-', '-']

def groups : List (List Char) → List (List (List Char))
  | [] => [[]]
  | line :: rest =>
    if line = separator then [] :: groups rest
    else
      match groups rest with
      | [] => [[line]]
      | group :: more => (line :: group) :: more

def documents (cs : List Char) : List (List Char) :=
  ((groups (lines cs)).map fun group => trim (unlines group)).filter fun doc => !doc.isEmpty

def itemsOf (v : Value) : List Value :=
  match v with
  | .null => []
  | .list items => items
  | v =>
    match v.field "items" with
    | .list items => items
    | _ => [v]

def policyKind : Value := .text "NetworkPolicy"

/-- The kind of an item; that of a policy if it has no such field. -/
def kindOf (item : Value) : Value := (Value.find? "kind" item.entries).getD policyKind

/-- What has come of a manifest: its policies, the events on the way, and the
fault that ended the reading, if there was one. -/
structure Loading where
  policies : List Policy
  journal : Journal
  fault : Option Fault

namespace Loading

def nothing : Loading := ⟨[], [], none⟩

/-- One reading in front of another.  What follows a fault is not read. -/
def append (first second : Loading) : Loading :=
  match first.fault with
  | some _ => first
  | none =>
    ⟨first.policies ++ second.policies, first.journal ++ second.journal, second.fault⟩

def result (loading : Loading) : Except Fault (List Policy) :=
  match loading.fault with
  | some fault => .error fault
  | none => .ok loading.policies

end Loading

def readItem (index : Nat) (item : Value) : Loading :=
  if item.isMap then
    let kind := kindOf item
    if kind.same policyKind then
      match Policy.read item with
      | .ok policy => ⟨[policy], [], none⟩
      | .error fault => ⟨[], [], some (.conversion fault)⟩
    else ⟨[], [.kindSkipped kind index], none⟩
  else ⟨[], [.itemSkipped index], none⟩

def readItems (index : Nat) : List Value → Loading
  | [] => .nothing
  | item :: rest => (readItem index item).append (readItems index rest)

/-- Why a document is not read. -/
inductive Refusal where
  /-- It is not valid, as a message tells. -/
  | invalid (message : String)
  /-- A scalar of it cannot be converted. -/
  | conversion (fault : Yaml.ConversionFault)
  deriving DecidableEq, Repr

def faultOf (index : Nat) : Refusal → Fault
  | .invalid message => .invalidDocument index message
  | .conversion fault => .conversion fault

abbrev Decoder := String → Except Refusal Value

/-- Decode YAML.  Nothing more is told of a document that is not valid. -/
def yaml : Decoder := fun doc =>
  (Yaml.decode doc).mapError fun
    | .invalid => .invalid ""
    | .conversion fault => .conversion fault

def readDocument (decode : Decoder) (index : Nat) (doc : List Char) : Loading :=
  match decode (String.ofList doc) with
  | .error refusal => ⟨[], [], some (faultOf index refusal)⟩
  | .ok v => readItems index (itemsOf v)

def readDocuments (decode : Decoder) : Nat → List (List Char) → Loading
  | _, [] => .nothing
  | index, doc :: rest =>
    (readDocument decode index doc).append (readDocuments decode (index + 1) rest)

def loadWith (decode : Decoder) (text : String) : Loading :=
  readDocuments decode 0 (documents text.toList)

def load (text : String) : Loading := loadWith yaml text

/-- Read the bytes of a file as a manifest: as UTF-8, and with line endings of
any kind. -/
def loadBytesWith (decode : Decoder) (bytes : List UInt8) : Loading :=
  match Utf8.decode bytes with
  | none => ⟨[], [], some .notUtf8⟩
  | some cs => loadWith decode (String.ofList (unifyLineEnds cs))

def loadBytes (bytes : List UInt8) : Loading := loadBytesWith yaml bytes

@[simp] theorem readDocuments_nil (decode : Decoder) (index : Nat) :
    readDocuments decode index [] = .nothing := rfl

end Manifest
end TrafficGraph
