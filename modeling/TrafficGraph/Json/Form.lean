import TrafficGraph.Fault
import TrafficGraph.Json.Printer
import TrafficGraph.Text.Utf8
import TrafficGraph.Value.Basic

/-!
# Interchange form of values

A value of any kind is brought into a form that can be written as interchange
text: a date or a moment becomes its text in the international standard form,
bytes become the text that they encode, and sets and pairs become lists.  Keys
become texts in the same way.  An entry whose key starts with the mark of an
internal attribute is left out.

Numbers that are not finite stay, but a value that holds one is not written.
-/

namespace TrafficGraph
namespace Json

def internalMark : List Char := ['_', 's', 'a']

def isInternal : Value → Bool
  | .text s => internalMark.isPrefixOf s.toList
  | _ => false

def bytesForm (bytes : List UInt8) : Except Fault String :=
  match Text.Utf8.decode bytes with
  | some cs => .ok (String.ofList cs)
  | none => .error .notUtf8

def keyForm : Value → Except Fault String
  | .text s => .ok s
  | .null => .ok "null"
  | .bool b => .ok (if b then "true" else "false")
  | .int n =>
    if (Value.int n).isLong then .error (.unwritable .tooLong) else .ok (toString n)
  | .float x => .ok (floatText x)
  | .bytes bs => bytesForm bs
  | .date d => .ok d.text
  | .moment m => .ok m.isoText
  | .loop _ => .error .endless
  | _ => .error .notAText

/-- Store a value under a key: in place if the key is there, at the end if not. -/
def putField (key : String) (v : Value) : List (Value × Value) → List (Value × Value)
  | [] => [(.text key, v)]
  | (k, old) :: rest =>
    if k.isText key then (k, v) :: rest else (k, old) :: putField key v rest

def collect (fields : List (String × Value)) : Value :=
  .map (fields.foldl (fun found f => putField f.1 f.2 found) [])

mutual

def form : Value → Except Fault Value
  | .bytes bs => (bytesForm bs).map .text
  | .date d => .ok (.text d.text)
  | .moment m => .ok (.text m.isoText)
  | .list vs => (formItems vs).map .list
  | .set vs => (formItems vs).map .list
  | .pair a b => (form a).bind fun x => (form b).map fun y => .list [x, y]
  | .map es => (formEntries es).map collect
  | .loop _ => .error .endless
  | v => .ok v
termination_by structural v => v

def formItems : List Value → Except Fault (List Value)
  | [] => .ok []
  | v :: rest => (form v).bind fun x => (formItems rest).map fun xs => x :: xs
termination_by structural vs => vs

def formEntries : List (Value × Value) → Except Fault (List (String × Value))
  | [] => .ok []
  | (k, v) :: rest =>
    if isInternal k then formEntries rest
    else
      (keyForm k).bind fun key =>
        (form v).bind fun x => (formEntries rest).map fun xs => (key, x) :: xs
termination_by structural es => es

end

mutual

/-- Whether all numbers that would be written for a value are finite. -/
def isFinite : Value → Bool
  | .float x => x.isFinite
  | .list vs => areFinite vs
  | .set vs => areFinite vs
  | .pair a b => isFinite a && isFinite b
  | .map es => entriesAreFinite es
  | _ => true
termination_by structural v => v

def areFinite : List Value → Bool
  | [] => true
  | v :: rest => isFinite v && areFinite rest
termination_by structural vs => vs

def entriesAreFinite : List (Value × Value) → Bool
  | [] => true
  | (k, v) :: rest => (isInternal k || (isFinite k && isFinite v)) && entriesAreFinite rest
termination_by structural es => es

end

def writtenForm (v : Value) : Except Fault Value :=
  (form v).bind fun x =>
    if !isFinite v then .error (.unwritable .notFinite)
    else if x.isLong then .error (.unwritable .tooLong)
    else .ok x

example : form (.map [(.bool true, .date ⟨2024, 1, 2⟩), (.text "_sa", .null)]) =
    .ok (.map [(.text "true", .text "2024-01-02")]) := by rfl

end Json
end TrafficGraph
