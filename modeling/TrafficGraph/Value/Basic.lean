import TrafficGraph.Calendar
import TrafficGraph.Number.Binary64
import TrafficGraph.Number.Shortest
import TrafficGraph.Text.Numeral
import TrafficGraph.Text.Quoted

/-!
# Decoded values

What a document says once it is decoded: scalars of several kinds, lists, and
maps that keep the order of their entries.  A pair is the item of an ordered
map.  A list or map that contains itself is cut where it repeats, and a
`loop` stands at the cut.
-/

namespace TrafficGraph

inductive Value where
  | null
  | bool (b : Bool)
  | int (n : Int)
  | float (x : Binary64)
  | text (s : String)
  | bytes (bytes : List UInt8)
  | date (d : Date)
  | moment (m : Moment)
  | list (items : List Value)
  | map (entries : List (Value × Value))
  | set (items : List Value)
  | pair (first second : Value)
  | loop (ofMap : Bool)
  deriving Inhabited, Repr

namespace Value

def isNull : Value → Bool
  | .null => true
  | _ => false

/-- Whether a value counts as filled in: not `null`, `false`, a zero or empty. -/
def isFilled : Value → Bool
  | .null => false
  | .bool b => b
  | .int n => n != 0
  | .float x => !x.isZero
  | .text s => s != ""
  | .bytes bs => !bs.isEmpty
  | .date _ => true
  | .moment _ => true
  | .list items => !items.isEmpty
  | .map entries => !entries.isEmpty
  | .set items => !items.isEmpty
  | .pair _ _ => true
  | .loop _ => true

/-- The items of a list; no items if the value is anything else. -/
def items : Value → List Value
  | .list items => items
  | _ => []

def entries : Value → List (Value × Value)
  | .map entries => entries
  | _ => []

def isText (s : String) : Value → Bool
  | .text t => t == s
  | _ => false

def find? (key : String) : List (Value × Value) → Option Value
  | [] => none
  | (k, v) :: rest => if k.isText key then some v else find? key rest

/-- The field of a value: what a map holds under a text.  It is `null` if the
value is no map or holds nothing there. -/
def field (v : Value) (key : String) : Value :=
  (find? key v.entries).getD .null

/-- Whether a value is a map.  So is the cut of a map that contains itself. -/
def isMap : Value → Bool
  | .map _ => true
  | .loop ofMap => ofMap
  | _ => false

def record (fields : List (String × Value)) : Value :=
  .map (fields.map fun f => (.text f.1, f.2))

def texts (ts : List String) : Value :=
  .list (ts.map .text)

@[simp] theorem items_list (vs : List Value) : (Value.list vs).items = vs := rfl

@[simp] theorem entries_map (es : List (Value × Value)) : (Value.map es).entries = es := rfl

theorem find?_cons_text (key k : String) (v : Value) (rest : List (Value × Value)) :
    find? key ((.text k, v) :: rest) = if k == key then some v else find? key rest := rfl

end Value
end TrafficGraph

/-!
# Equality of values

Numbers are compared by what they are worth: the truth values count as one and
zero, and a fraction equals a whole number of the same size.  Lists are
compared in order, maps and sets without regard to order.
-/

namespace TrafficGraph
namespace Value

def asInt? : Value → Option Int
  | .bool b => some (if b then 1 else 0)
  | .int n => some n
  | _ => none

def sameScalar (a b : Value) : Bool :=
  match a, b with
  | .null, .null => true
  | .float x, .float y => x.same y
  | .text s, .text t => s == t
  | .bytes x, .bytes y => x == y
  | .date d, .date e => d == e
  | .moment m, .moment n => m.same n
  | .loop p, .loop q => p == q
  | a, b =>
    match asInt? a, asInt? b with
    | some m, some n => m == n
    | some m, none =>
      match b with
      | .float y => y.sameInt m
      | _ => false
    | none, some n =>
      match a with
      | .float x => x.sameInt n
      | _ => false
    | none, none => false

mutual

def same : Value → Value → Bool
  | .list xs, .list ys => sameItems xs ys
  | .map xs, .map ys => xs.length == ys.length && sameEntries xs ys
  | .set xs, .set ys => xs.length == ys.length && allWithin xs ys
  | .pair a b, .pair c d => same a c && same b d
  | a, b => sameScalar a b
termination_by structural x => x

def sameItems : List Value → List Value → Bool
  | [], [] => true
  | x :: xs, y :: ys => same x y && sameItems xs ys
  | _, _ => false

/-- Whether the second list holds, for every entry of the first, an equal value
under an equal key. -/
def sameEntries : List (Value × Value) → List (Value × Value) → Bool
  | [], _ => true
  | (k, v) :: rest, ys =>
    (match ys.find? fun entry => same k entry.1 with
      | some entry => same v entry.2
      | none => false) && sameEntries rest ys

def allWithin : List Value → List Value → Bool
  | [], _ => true
  | x :: rest, ys => ys.any (same x) && allWithin rest ys

end

end Value
end TrafficGraph

/-!
# Text of values

A value that stands alone is shown by `display`: a text as it is, a date or a
moment by its fields.  Inside a list or a map it is shown by `nested`, where a
text is quoted and every kind of value can be told from every other.
-/

namespace TrafficGraph
namespace Value

mutual

def nested : Value → String
  | .null => "None"
  | .bool b => if b then "True" else "False"
  | .int n => toString n
  | .float x => x.display
  | .text s => Text.quoted s
  | .bytes bs => String.ofList (Text.quoteBytes bs)
  | .date d => d.nested
  | .moment m => m.nested
  | .list vs => "[" ++ ", ".intercalate (nestedItems vs) ++ "]"
  | .map es => "\x7b" ++ ", ".intercalate (nestedEntries es) ++ "\x7d"
  | .set [] => "set()"
  | .set (v :: vs) => "\x7b" ++ ", ".intercalate (nestedItems (v :: vs)) ++ "\x7d"
  | .pair a b => "(" ++ nested a ++ ", " ++ nested b ++ ")"
  | .loop ofMap => if ofMap then "\x7b...\x7d" else "[...]"
termination_by structural v => v

def nestedItems : List Value → List String
  | [] => []
  | v :: rest => nested v :: nestedItems rest
termination_by structural vs => vs

def nestedEntries : List (Value × Value) → List String
  | [] => []
  | (k, v) :: rest => (nested k ++ ": " ++ nested v) :: nestedEntries rest
termination_by structural es => es

end

def display : Value → String
  | .text s => s
  | .date d => d.text
  | .moment m => m.text
  | v => nested v

mutual

/-- Whether a whole number in a value has too many digits to be written.  Such a value has no
text: whoever needs one asks this first. -/
def isLong : Value → Bool
  | .int n => decide (10 ^ Text.maxDigits ≤ n.natAbs)
  | .list vs => anyLong vs
  | .map es => anyLongEntry es
  | .set vs => anyLong vs
  | .pair a b => isLong a || isLong b
  | _ => false
termination_by structural v => v

def anyLong : List Value → Bool
  | [] => false
  | v :: rest => isLong v || anyLong rest
termination_by structural vs => vs

def anyLongEntry : List (Value × Value) → Bool
  | [] => false
  | (k, v) :: rest => isLong k || isLong v || anyLongEntry rest
termination_by structural es => es

end

@[simp] theorem isLong_text (s : String) : (Value.text s).isLong = false := rfl

@[simp] theorem display_text (s : String) : (Value.text s).display = s := rfl

example : (Value.list [.int 1, .text "a", .null]).display = "[1, 'a', None]" := by decide +kernel
example : (Value.float (Binary64.ofDecimal false 80 0)).display = "80.0" := by decide +kernel

end Value
end TrafficGraph
