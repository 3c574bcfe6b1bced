import TrafficGraph.Graph.Reference
import TrafficGraph.Policy.Export
import TrafficGraph.Text.Lines

/-!
# Descriptions of endpoints

A label names an endpoint in a few words, with the keys of labels cut down to
what follows their last slash.  The details hold what was said about it as a
document, and the body says it in sentences.  Exceptions from a range of
addresses have to be texts to be listed in the body.
-/

namespace TrafficGraph

/-- A key without what stands in front of its last slash. -/
def shortKey (key : String) : String :=
  String.ofList (((Text.pieces '/' key.toList).getLast?).getD [])

def Labels.shortText (labels : Labels) : String :=
  ", ".intercalate (labels.entries.map fun entry => shortKey entry.1 ++ ": " ++ entry.2)

def Labels.fullText (separator : String) (labels : Labels) : String :=
  separator.intercalate (labels.entries.map fun entry => entry.1 ++ ": " ++ entry.2)

def Requirement.textWith (key : String) (r : Requirement) : String :=
  key ++ " " ++ r.operator ++ " [" ++ ", ".intercalate r.values ++ "]"

def requirementsShortText (rs : List Requirement) : String :=
  ", ".intercalate (rs.map fun r => r.textWith (shortKey r.key))

def requirementsFullText (rs : List Requirement) : String :=
  "\n".intercalate (rs.map fun r => r.textWith r.key)

/-! ## Labels -/

def podLabel (ns : String) (selector : Option Selector) : String :=
  match selector.bind Selector.labels with
  | some labels =>
    if labels.isEmpty then ns ++ ":pod" else ns ++ ":pod(" ++ labels.shortText ++ ")"
  | none => ns ++ ":pod"

def namespaceLabel (selector : Option Selector) : String :=
  match selector.bind Selector.labels, selector.bind Selector.requirements with
  | some labels, _ => "ns:" ++ labels.shortText
  | none, some rs => "ns:(" ++ requirementsShortText rs ++ ")"
  | none, none => "ns:selector"

def combinedLabel (namespaces pods : Option Selector) : String :=
  let namespaceText :=
    match namespaces.bind Selector.labels, namespaces.bind Selector.requirements with
    | some labels, _ => labels.shortText
    | none, some rs => requirementsShortText rs
    | none, none => "unknown"
  let podText :=
    match pods.bind Selector.labels with
    | some labels => labels.shortText
    | none => "unknown"
  "ns:(" ++ namespaceText ++ ")+pod(" ++ podText ++ ")"

def anywhereLabel : Direction → String
  | .ingress => "Any Source"
  | .egress => "Any Destination"

/-! ## Bodies -/

/-- What is said about pods.  The labels of a policy's own pods stand on one
line, those of other pods on one line each. -/
def podBody (isTarget : Bool) (selector : Option Selector) : String :=
  match selector.bind Selector.labels with
  | some labels =>
    if labels.isEmpty then "No labels specified"
    else "Labels: " ++ labels.fullText (if isTarget then ", " else "\n")
  | none => "No labels specified"

def namespaceBody (selector : Option Selector) : String :=
  match selector.bind Selector.labels, selector.bind Selector.requirements with
  | some labels, _ => "Labels: " ++ labels.fullText "\n"
  | none, some rs => "Expressions: " ++ requirementsFullText rs
  | none, none => ""

/-- The exceptions from a range, if they are all texts. -/
def exceptionTexts : List Value → Option (List String)
  | [] => some []
  | .text s :: rest => (exceptionTexts rest).map (s :: ·)
  | _ :: _ => none

def ipBlockBody (block : Option IPBlock) : Except Fault String :=
  match exceptionTexts ((block.map IPBlock.exceptions).getD []) with
  | none => .error .notAText
  | some [] => .ok ("CIDR: " ++ cidrText block)
  | some texts => .ok ("CIDR: " ++ cidrText block ++ "\nExcept: " ++ ", ".intercalate texts)

def combinedBody (namespaces pods : Option Selector) : String :=
  "\n".intercalate
    (["Combined selector"] ++
      (match namespaces.bind Selector.labels with
        | some labels => ["Namespace Labels: " ++ labels.fullText "\n"]
        | none => []) ++
      (match namespaces.bind Selector.requirements with
        | some rs => ["Namespace Expressions: " ++ requirementsFullText rs]
        | none => []) ++
      (match pods.bind Selector.labels with
        | some labels => ["Pod Labels: " ++ labels.fullText "\n"]
        | none => []))

/-! ## References -/

def selectorValue (selector : Option Selector) : Value := (selector.getD .blank).toValue

def withNamespace (ns : String) (fields : List (String × Value)) : Value :=
  .record (("namespace", .text ns) :: fields)

namespace Reference

def label : Reference → String
  | .pod ns selector _ => podLabel ns selector
  | .namespaces _ selector => namespaceLabel selector
  | .ipBlock _ block => "CIDR:" ++ cidrText block
  | .combined _ spaces pods => combinedLabel spaces pods
  | .anywhere _ direction => anywhereLabel direction

def details : Reference → Value
  | .pod ns selector _ => withNamespace ns [("podSelector", selectorValue selector)]
  | .namespaces ns selector => withNamespace ns ((selector.getD .blank).fields)
  | .ipBlock ns block => withNamespace ns ((block.map IPBlock.fields).getD [])
  | .combined _ spaces pods =>
    .record [("namespace", selectorValue spaces), ("pod", selectorValue pods)]
  | .anywhere ns direction => withNamespace ns [("direction", .text direction.name)]

def body : Reference → Except Fault String
  | .pod _ selector isTarget => .ok (podBody isTarget selector)
  | .namespaces _ selector => .ok (namespaceBody selector)
  | .ipBlock _ block => ipBlockBody block
  | .combined _ spaces pods => .ok (combinedBody spaces pods)
  | .anywhere _ _ => .ok ""

end Reference

end TrafficGraph
