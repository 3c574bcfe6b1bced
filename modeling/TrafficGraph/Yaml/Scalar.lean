import TrafficGraph.Number.Binary64
import TrafficGraph.Text.Numeral
import TrafficGraph.Value.Basic
import TrafficGraph.Fault
import TrafficGraph.Yaml.Node.Basic

/-!
# Values of scalars

What a scalar stands for, by its tag.  Numbers may have underscores anywhere;
whole numbers may be written in the bases two, eight and sixteen; and both kinds
may be written in places of base sixty with colons between them.
-/

namespace TrafficGraph
namespace Yaml

open Text

def dropUnderscores (cs : List Char) : List Char := cs.filter (· != '_')

def countDigits (cs : List Char) : Nat := cs.countP fun c => (decimalDigit? c).isSome

def readWhole (base : Nat) (cs : List Char) : Except ConversionFault Int :=
  match readInt? base cs with
  | some n =>
    if base = 10 ∧ maxDigits < countDigits cs then .error (.tooManyDigits (countDigits cs))
    else .ok n
  | none => .error (.notAnInteger base (String.ofList cs))

def readFraction (cs : List Char) : Except ConversionFault Binary64 :=
  match Binary64.read? cs with
  | some x => .ok x
  | none => .error (.notAFraction (String.ofList cs))

def splitSign (cs : List Char) : Bool × List Char :=
  (cs.head? == some '-', dropSign cs)

/-- The number whose places in base sixty are given, the highest one first. -/
def sixtieths (places : List Int) : Int :=
  places.foldl (fun n place => n * 60 + place) 0

/-- The number whose places in base sixty are given, the lowest one first, where
`base` is the worth of that one.  Every step is rounded. -/
def fractionSixtieths : Int → Binary64 → List Binary64 → Binary64
  | _, sum, [] => sum
  | base, sum, place :: places =>
    fractionSixtieths (base * 60) (sum.add (place.mul (Binary64.ofInt base))) places

def magnitudeOf (cs : List Char) : Except ConversionFault Int :=
  match cs with
  | [] => .error .emptyNumber
  | ['0'] => .ok 0
  | '0' :: 'b' :: digits => readWhole 2 digits
  | '0' :: 'x' :: digits => readWhole 16 digits
  | '0' :: _ => readWhole 8 cs
  | _ =>
    if cs.contains ':' then do
      let places ← (pieces ':' cs).mapM (readWhole 10)
      return sixtieths places
    else readWhole 10 cs

def intOf (cs : List Char) : Except ConversionFault Int := do
  let cs := dropUnderscores cs
  if cs.isEmpty then throw .emptyNumber
  let (negative, digits) := splitSign cs
  let n ← magnitudeOf digits
  return if negative then -n else n

def fractionOf (cs : List Char) : Except ConversionFault Binary64 :=
  if cs = ['.', 'i', 'n', 'f'] then .ok (.infinite false)
  else if cs = ['.', 'n', 'a', 'n'] then .ok .nan
  else if cs.contains ':' then do
    let places ← (pieces ':' cs).mapM readFraction
    return fractionSixtieths 1 (Binary64.zero false) places.reverse
  else readFraction cs

def floatOf (cs : List Char) : Except ConversionFault Binary64 := do
  let cs := (dropUnderscores cs).map Char.toLower
  if cs.isEmpty then throw .emptyNumber
  let (negative, digits) := splitSign cs
  let x ← fractionOf digits
  return if negative then x.neg else x

def truthOf (cs : List Char) : Except ConversionFault Bool :=
  let word := String.ofList (cs.map Char.toLower)
  match truthWords.find? fun entry => entry.1 == word with
  | some entry => .ok entry.2
  | none => .error (.notATruthValue word)

def timestampOf (cs : List Char) : Except ConversionFault Value :=
  match readDate? (dropFinalBreak cs) with
  | none => .error .notADate
  | some fields =>
    match fields.value? with
    | .ok (_, some moment) => .ok (.moment moment)
    | .ok (date, none) => .ok (.date date)
    | .error fault => .error (.calendar fault)

def converted {α : Type} (make : α → Value) (r : Except ConversionFault α) : Except Fault Value :=
  match r with
  | .ok a => .ok (make a)
  | .error fault => .error (.conversion fault)

/-- The value of a scalar by its tag.  The tags of collections and those without
a meaning fit no scalar. -/
def scalarValue (tag : Tag) (text : String) : Except Fault Value :=
  let cs := text.toList
  match tag with
  | .null => .ok .null
  | .bool => converted .bool (truthOf cs)
  | .int => converted .int (intOf cs)
  | .float => converted .float (floatOf cs)
  | .binary =>
    if cs.all fun c => decide (c.toNat < 0x80) then
      match Base64.decode cs with
      | some bytes => .ok (.bytes bytes)
      | none => .error .invalid
    else .error .invalid
  | .timestamp => converted id (timestampOf cs)
  | .text => .ok (.text text)
  | _ => .error .invalid

end Yaml
end TrafficGraph
