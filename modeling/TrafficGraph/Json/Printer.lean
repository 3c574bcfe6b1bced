import TrafficGraph.Text.Quoted
import TrafficGraph.Number.Shortest
import TrafficGraph.Value.Basic

/-!
# Writing interchange text

Lists, objects and scalars have an interchange form; dates, bytes and sets have
none, and neither has a value that contains itself.  A key that is a number, a
truth value or `null` is written as the text of that value.
-/

namespace TrafficGraph
namespace Json

inductive WriteFault where
  | noForm
  | circular
  | notFinite
  | tooLong
  deriving DecidableEq, Repr

inductive Spacing where
  | compact
  | indented
  deriving DecidableEq, Repr

def floatText (x : Binary64) : String := x.text "Infinity" "NaN"

def wholeText (n : Int) : Except WriteFault String :=
  if (Value.int n).isLong then .error .tooLong else .ok (toString n)

def keyText? : Value → Except WriteFault String
  | .text s => .ok s
  | .int n => wholeText n
  | .bool b => .ok (if b then "true" else "false")
  | .null => .ok "null"
  | .float x => .ok (floatText x)
  | _ => .error .noForm

def Spacing.break : Spacing → Nat → String
  | .compact, _ => ""
  | .indented, depth => "\n" ++ String.ofList (List.replicate (2 * depth) ' ')

def Spacing.colon : Spacing → String
  | .compact => ":"
  | .indented => ": "

def Spacing.enclose (spacing : Spacing) (depth : Nat) (opening closing : String) :
    List String → String
  | [] => opening ++ closing
  | items =>
    opening ++ spacing.break (depth + 1) ++
      ("," ++ spacing.break (depth + 1)).intercalate items ++ spacing.break depth ++ closing

mutual

def write (spacing : Spacing) (depth : Nat) : Value → Except WriteFault String
  | .null => .ok "null"
  | .bool b => .ok (if b then "true" else "false")
  | .int n => wholeText n
  | .float x => .ok (floatText x)
  | .text s => .ok (quoted s)
  | .list vs => (writeItems spacing depth vs).map (spacing.enclose depth "[" "]")
  | .map es => (writeEntries spacing depth es).map (spacing.enclose depth "\x7b" "\x7d")
  | .pair a b =>
    (write spacing (depth + 1) a).bind fun x =>
      (write spacing (depth + 1) b).map fun y => spacing.enclose depth "[" "]" [x, y]
  | .loop _ => .error .circular
  | .bytes _ => .error .noForm
  | .date _ => .error .noForm
  | .moment _ => .error .noForm
  | .set _ => .error .noForm
termination_by structural v => v

def writeItems (spacing : Spacing) (depth : Nat) : List Value → Except WriteFault (List String)
  | [] => .ok []
  | v :: rest =>
    (write spacing (depth + 1) v).bind fun x =>
      (writeItems spacing depth rest).map fun xs => x :: xs
termination_by structural vs => vs

def writeEntries (spacing : Spacing) (depth : Nat) :
    List (Value × Value) → Except WriteFault (List String)
  | [] => .ok []
  | (k, v) :: rest =>
    (keyText? k).bind fun key =>
      (write spacing (depth + 1) v).bind fun x =>
        (writeEntries spacing depth rest).map fun xs => (quoted key ++ spacing.colon ++ x) :: xs
termination_by structural es => es

end

def compact (v : Value) : Except WriteFault String := write .compact 0 v

def indented (v : Value) : Except WriteFault String := write .indented 0 v

end Json
end TrafficGraph
