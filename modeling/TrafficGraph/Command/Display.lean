import TrafficGraph.Graph.Basic
import TrafficGraph.Policy.Basic

/-!
# Display of a graph

What is shown on the console is lines and tables of styled text.  Styled text is
written with marks around each styled part, or plainly.

A graph is shown as two tables, one of its nodes and one of its links, and a
line that counts them.
-/

namespace TrafficGraph

inductive Style where
  | bold
  | dim
  | red
  | cyan
  | blue
  | green
  | yellow
  | magenta
  | white
  deriving DecidableEq, Repr

def Style.name : Style → String
  | .bold => "bold"
  | .dim => "dim"
  | .red => "red"
  | .cyan => "cyan"
  | .blue => "blue"
  | .green => "green"
  | .yellow => "yellow"
  | .magenta => "magenta"
  | .white => "white"

/-- A part of a text, with its style if it has one. -/
structure Span where
  style : Option Style
  text : String
  deriving DecidableEq, Repr

abbrev Styled := List Span

namespace Span

def plain (text : String) : Span := ⟨none, text⟩

def styled (style : Style) (text : String) : Span := ⟨some style, text⟩

def markup (span : Span) : String :=
  match span.style with
  | none => span.text
  | some style => "[" ++ style.name ++ "]" ++ span.text ++ "[/" ++ style.name ++ "]"

end Span

namespace Styled

def markup (text : Styled) : String := "".intercalate (text.map Span.markup)

def plain (text : Styled) : String := "".intercalate (text.map Span.text)

end Styled

structure Table where
  title : String
  columns : List String
  rows : List (List Styled)

inductive Notice where
  | line (text : Styled)
  | table (table : Table)

namespace Table

/-- The rows of a table without styles, the names of the columns first. -/
def plainRows (table : Table) : List (List String) :=
  table.columns :: table.rows.map fun row => row.map Styled.plain

def widths : List (List String) → List Nat
  | [] => []
  | row :: rest =>
    let others := widths rest
    row.mapIdx fun i cell => max cell.length (others.getD i 0)

def plainRow (ws : List Nat) (row : List String) : String :=
  "  ".intercalate (row.mapIdx fun i cell =>
    cell ++ String.ofList (List.replicate (ws.getD i 0 - cell.length) ' '))

def plain (table : Table) : String :=
  let rows := table.plainRows
  "\n".intercalate (table.title :: rows.map (plainRow (widths rows)))

end Table

def Notice.plain : Notice → String
  | .line l => l.plain
  | .table t => t.plain

def NodeKind.style : NodeKind → Style
  | .pod => .blue
  | .namespaces => .green
  | .ipBlock => .yellow
  | .combined => .magenta
  | .anywhere => .white

namespace Node

def row (node : Node) : List Styled :=
  [[.styled node.kind.style node.kind.name], [.plain node.label],
    [.plain (", ".intercalate node.policies)]]

end Node

namespace Link

/-- The ports of a link as they are shown: by policy if the link is marked for it. -/
def portsText (link : Link) : Except Fault String := do
  if link.detailed then return (← link.breakdownText?).getD ""
  match link.ports.text? with
  | some text => return text
  | none => throw .notARecord

/-- The policies of a link, coloured if the link is inferred. -/
def policySpan (link : Link) : Span :=
  if link.crossPolicy then .styled .magenta link.policyText else .plain link.policyText

end Link

namespace Graph

def labelOf (graph : Graph) (id : String) : String :=
  ((graph.nodes.find? fun node => node.id == id).map Node.label).getD id

def linkRow (graph : Graph) (link : Link) : Except Fault (List Styled) := do
  let ports ← link.portsText
  return [[.plain link.direction.name], [.plain (graph.labelOf link.source)],
    [.plain (graph.labelOf link.target)], [.plain ports], [link.policySpan]]

def nodeTable (graph : Graph) : Table :=
  { title := "Nodes"
    columns := ["Type", "Label", "Policies"]
    rows := graph.nodes.map Node.row }

def linkTable (graph : Graph) : Except Fault Table := do
  let rows ← graph.links.mapM graph.linkRow
  return {
    title := "Links"
    columns := ["Direction", "From", "To", "Ports", "Policy"]
    rows := rows }

def countText (graph : Graph) : String :=
  "\n" ++ toString graph.nodes.length ++ " nodes, " ++ toString graph.links.length ++ " links (" ++
    toString (graph.links.filter Link.crossPolicy).length ++ " inferred)"

def display (graph : Graph) : Except Fault (List Notice) := do
  if graph.nodes.isEmpty then return [.line [.plain "No policies to show."]]
  let links ← graph.linkTable
  return [.table graph.nodeTable, .table links, .line [.plain graph.countText]]

end Graph
end TrafficGraph
