import TrafficGraph.Graph.Basic
import TrafficGraph.Json.Reader
import TrafficGraph.Text.Numeral
import TrafficGraph.Text.Utf8

/-!
# Routes

The path of a request ends where its query starts, may have any of its bytes
written with a percent sign, and may have slashes at its end.  Two routes answer
requests, each to one method only, and some pages can only be looked at.
-/

namespace TrafficGraph
namespace Http

/-- The path of a target: what stands in front of a query. -/
def pathOf (target : List Char) : List Char :=
  target.takeWhile fun c => c != '?' && c != '#'

/-- The bytes of a path, where two hexadecimal digits behind a percent sign
stand for one byte. -/
def pathBytes : List Char → List UInt8
  | [] => []
  | '%' :: a :: b :: rest =>
    match Text.hexValue? a, Text.hexValue? b with
    | some x, some y => UInt8.ofNat (16 * x + y) :: pathBytes rest
    | _, _ => Text.Utf8.encodeChar '%' ++ pathBytes (a :: b :: rest)
  | c :: rest => Text.Utf8.encodeChar c ++ pathBytes rest

def slash : UInt8 := 0x2F

def dropSlashes (bytes : List UInt8) : List UInt8 :=
  (bytes.reverse.dropWhile (· == slash)).reverse

inductive Route where
  /-- Policies as documents. -/
  | policies
  /-- Policies as a graph. -/
  | graph
  /-- A page to look at. -/
  | page
  deriving DecidableEq, Repr

def routes : List (String × Route) :=
  [("/api/graph", .graph), ("/api/policies/parse", .policies), ("/api/docs", .page),
    ("/openapi.json", .page), ("/redoc", .page), ("/docs/oauth2-redirect", .page)]

def routeOf? (target : String) : Option Route :=
  let bytes := dropSlashes (pathBytes (pathOf target.toList))
  (routes.find? fun route => Text.Utf8.encode route.1.toList == bytes).map Prod.snd

def Route.methods : Route → List String
  | .policies => ["POST"]
  | .graph => ["POST"]
  | .page => ["GET", "HEAD"]

example : routeOf? "/api/gr%61ph/?x=1" = some .graph := by decide +kernel
example : routeOf? "/api" = none := by decide +kernel

end Http
end TrafficGraph

/-!
# Bodies of requests

A body is an interchange object.  Its fields are checked one by one, and every
field that is not in order is complained about, in the order of the fields; a
field of another name is ignored.  Truth values may also be given as words or
numbers.
-/

namespace TrafficGraph
namespace Http

/-- What is wrong with a body or with a field of it. -/
inductive Defect where
  | missing
  | notJson (position : Nat)
  | notAnObject
  | notAText
  | notATruthValue
  | unknownTruthValue
  | unknownWord
  deriving DecidableEq, Repr

def Defect.code : Defect → String
  | .missing => "missing"
  | .notJson _ => "json_invalid"
  | .notAnObject => "model_attributes_type"
  | .notAText => "string_type"
  | .notATruthValue => "bool_type"
  | .unknownTruthValue => "bool_parsing"
  | .unknownWord => "literal_error"

/-- A defect and the field in which it is; none if it is in the body itself. -/
structure Complaint where
  defect : Defect
  field : Option String
  deriving DecidableEq, Repr

namespace Complaint

def place (complaint : Complaint) : List Value :=
  .text "body" ::
    ((match complaint.field with
      | some name => [.text name]
      | none => []) ++
      (match complaint.defect with
        | .notJson position => [.int position]
        | _ => []))

def toValue (complaint : Complaint) : Value :=
  .record [("type", .text complaint.defect.code), ("loc", .list complaint.place)]

end Complaint

/-! ## Fields -/

def trueWords : List String := ["1", "t", "y", "on", "yes", "true"]

def falseWords : List String := ["0", "f", "n", "no", "off", "false"]

def truthOfWord? (word : String) : Option Bool :=
  let lower := String.ofList (word.toList.map Char.toLower)
  if trueWords.contains lower then some true
  else if falseWords.contains lower then some false
  else none

def truthOfInt? (n : Int) : Option Bool :=
  if n = 0 then some false else if n = 1 then some true else none

def fits (n : Int) : Bool := decide (-(Int.pow 2 63) ≤ n) && decide (n < Int.pow 2 63)

def readTruth (v : Value) : Except Defect (Option Bool) :=
  let unknown (b : Option Bool) : Except Defect (Option Bool) :=
    match b with
    | some b => .ok (some b)
    | none => .error .unknownTruthValue
  match v with
  | .null => .ok none
  | .bool b => .ok (some b)
  | .text word => unknown (truthOfWord? word)
  | .int n => if fits n then unknown (truthOfInt? n) else .error .notATruthValue
  | .float x =>
    match x.toInt? with
    | some n => if fits n then unknown (truthOfInt? n) else .error .notATruthValue
    | none => .error .notATruthValue
  | _ => .error .notATruthValue

def readText : Value → Except Defect String
  | .text s => .ok s
  | _ => .error .notAText

def readFilter : Value → Except Defect DirectionFilter
  | .text s =>
    match DirectionFilter.ofWord? s with
    | some filter => .ok filter
    | none => .error .unknownWord
  | _ => .error .unknownWord

def requiredField {α : Type} (name : String) (read : Value → Except Defect α)
    (entries : List (Value × Value)) : Except Defect α :=
  match Value.find? name entries with
  | some v => read v
  | none => .error .missing

def optionalField {α : Type} (name : String) (read : Value → Except Defect α) (default : α)
    (entries : List (Value × Value)) : Except Defect α :=
  match Value.find? name entries with
  | some v => read v
  | none => .ok default

def complaints {α : Type} (name : String) : Except Defect α → List Complaint
  | .ok _ => []
  | .error defect => [⟨defect, some name⟩]

/-! ## Bodies -/

structure GraphQuery where
  manifest : String
  /-- Whether policies share nodes and links; open if the settings decide. -/
  deduplicate : Option Bool
  shown : DirectionFilter
  deriving DecidableEq, Repr

def manifestField : String := "yaml_content"

def readManifest (entries : List (Value × Value)) : Except (List Complaint) String :=
  match requiredField manifestField readText entries with
  | .ok manifest => .ok manifest
  | .error defect => .error [⟨defect, some manifestField⟩]

def readGraphQuery (entries : List (Value × Value)) : Except (List Complaint) GraphQuery :=
  let manifest := requiredField manifestField readText entries
  let deduplicate := optionalField "deduplicate" readTruth none entries
  let shown := optionalField "direction" readFilter .all entries
  match manifest, deduplicate, shown with
  | .ok manifest, .ok deduplicate, .ok shown => .ok ⟨manifest, deduplicate, shown⟩
  | _, _, _ =>
    .error (complaints manifestField manifest ++ complaints "deduplicate" deduplicate ++
      complaints "direction" shown)

/-- The text of a body without the mark of its byte order. -/
def withoutMark : List Char → List Char
  | '\uFEFF' :: cs => cs
  | cs => cs

def readBody (body : String) : Except (List Complaint) (List (Value × Value)) :=
  if body = "" then .error [⟨.missing, none⟩]
  else
    match Json.read (withoutMark body.toList) with
    | .error stop => .error [⟨.notJson stop.position, none⟩]
    | .ok (.map entries) => .ok entries
    | .ok _ => .error [⟨.notAnObject, none⟩]

end Http
end TrafficGraph
