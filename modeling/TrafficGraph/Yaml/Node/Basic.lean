import TrafficGraph.Text.Lines
import TrafficGraph.Yaml.Timestamp

/-!
# Tags

A tag says what a node stands for.  A scalar that is written plainly and has no
tag of its own gets one from its form: a truth value, a number, a date, nothing
at all, or else a text.
-/

namespace TrafficGraph
namespace Yaml

open Text

inductive Tag where
  | null
  | bool
  | int
  | float
  | binary
  | timestamp
  | omap
  | pairs
  | set
  | text
  | sequence
  | mapping
  /-- A key whose value is merged into the mapping around it. -/
  | merge
  /-- A key whose value stands for the mapping around it. -/
  | default
  /-- A tag without a meaning here. -/
  | other
  deriving DecidableEq, Repr

def Tag.isOfCollections : Tag → Bool
  | .omap => true
  | .pairs => true
  | .set => true
  | .sequence => true
  | .mapping => true
  | _ => false

def corePrefix : String := "tag:yaml.org,2002:"

def Tag.ofName (name : String) : Tag :=
  let known : List (String × Tag) :=
    [("null", .null), ("bool", .bool), ("int", .int), ("float", .float), ("binary", .binary),
      ("timestamp", .timestamp), ("omap", .omap), ("pairs", .pairs), ("set", .set),
      ("str", .text), ("seq", .sequence), ("map", .mapping), ("merge", .merge),
      ("value", .default)]
  ((known.find? fun entry => corePrefix ++ entry.1 == name).map Prod.snd).getD .other

/-! ## The forms of plain scalars -/

def truthWords : List (String × Bool) :=
  [("yes", true), ("Yes", true), ("YES", true), ("no", false), ("No", false), ("NO", false),
    ("true", true), ("True", true), ("TRUE", true), ("false", false), ("False", false),
    ("FALSE", false), ("on", true), ("On", true), ("ON", true), ("off", false), ("Off", false),
    ("OFF", false)]

def isDigitOrLine (c : Char) : Bool := isAsciiDigit c || c == '_'

def dropSign : List Char → List Char
  | '-' :: rest => rest
  | '+' :: rest => rest
  | cs => cs

def isDigits : List Char → Bool
  | c :: rest => isAsciiDigit c && rest.all isDigitOrLine
  | [] => false

def isSixtieth : List Char → Bool
  | [a] => isAsciiDigit a
  | [a, b] => decide ('0' ≤ a) && decide (a ≤ '5') && isAsciiDigit b
  | _ => false

def isIntForm (cs : List Char) : Bool :=
  match dropSign cs with
  | '0' :: 'b' :: rest => !rest.isEmpty && rest.all fun c => c == '0' || c == '1' || c == '_'
  | '0' :: 'x' :: rest => !rest.isEmpty && rest.all fun c => (hexValue? c).isSome || c == '_'
  | '0' :: rest => rest.all fun c => (decide ('0' ≤ c) && decide (c ≤ '7')) || c == '_'
  | rest =>
    match pieces ':' rest with
    | first :: places => isDigits first && places.all isSixtieth
    | [] => false

def isPowerForm : List Char → Bool
  | [] => true
  | mark :: sign :: ds =>
    (mark == 'e' || mark == 'E') && (sign == '-' || sign == '+') && !ds.isEmpty &&
      ds.all isAsciiDigit
  | _ => false

def isFloatForm (cs : List Char) : Bool :=
  match dropSign cs with
  | '.' :: rest =>
    [".inf", ".Inf", ".INF"].contains (String.ofList ('.' :: rest)) ||
      (cs.head? == some '.' &&
        ([".nan", ".NaN", ".NAN"].contains (String.ofList cs) ||
          (isDigits (rest.takeWhile isDigitOrLine) &&
            isPowerForm (rest.dropWhile isDigitOrLine))))
  | rest =>
    let whole := rest.takeWhile fun c => c != '.'
    match rest.drop whole.length, pieces ':' whole with
    | '.' :: fraction, [digits] =>
      isDigits digits && isPowerForm (fraction.dropWhile isDigitOrLine)
    | '.' :: fraction, digits :: places =>
      isDigits digits && places.all isSixtieth && fraction.all isDigitOrLine
    | _, _ => false

def dropFinalBreak (cs : List Char) : List Char :=
  if cs.getLast? = some '\n' then cs.dropLast else cs

/-- The tag of a scalar without one, by its form.  A line feed at the end does
not count. -/
def plainTag (cs : List Char) : Tag :=
  let form := dropFinalBreak cs
  let word := String.ofList form
  if cs.isEmpty then .null
  else if (truthWords.map Prod.fst).contains word then .bool
  else if isFloatForm form then .float
  else if isIntForm form then .int
  else if word = "<<" then .merge
  else if ["~", "null", "Null", "NULL"].contains word then .null
  else if ((readDate? form).map DateFields.isPlain).getD false then .timestamp
  else if word = "=" then .default
  else if ["!", "&", "*"].contains word then .other
  else .text

example : plainTag "0777".toList = .int := by decide +kernel
example : plainTag "1:30".toList = .int := by decide +kernel
example : plainTag "1.5e+3".toList = .float := by decide +kernel
example : plainTag "1e3".toList = .text := by decide +kernel
example : plainTag "2024-01-01".toList = .timestamp := by decide +kernel

end Yaml
end TrafficGraph

/-!
# Nodes

A document is a tree of scalars, sequences and mappings, each with its tag.
An alias stands for a copy of the node it names.  An alias inside that very
node would make the tree endless, and becomes a `loop`.
-/

namespace TrafficGraph
namespace Yaml

inductive Node where
  | scalar (tag : Tag) (text : String)
  | sequence (tag : Tag) (items : List Node)
  | mapping (tag : Tag) (pairs : List (Node × Node))
  | loop (ofMapping : Bool)
  deriving Inhabited, Repr

namespace Node

def empty : Node := .scalar .null ""

def tag : Node → Tag
  | .scalar tag _ => tag
  | .sequence tag _ => tag
  | .mapping tag _ => tag
  | .loop ofMapping => if ofMapping then .mapping else .sequence

/-- The text that a node stands for where a scalar is expected: its own, or that
of the value under the default key of a mapping. -/
def scalarText? : Node → Option String
  | .scalar _ text => some text
  | .mapping _ pairs => ofPairs pairs
  | _ => none
where
  /-- The text of the value under the default key. -/
  ofPairs : List (Node × Node) → Option String
    | [] => none
    | (k, v) :: rest => if k.tag = .default then v.scalarText? else ofPairs rest

end Node

end Yaml
end TrafficGraph
