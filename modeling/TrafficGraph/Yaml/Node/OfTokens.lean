import TrafficGraph.Fault
import TrafficGraph.Yaml.Node.Basic
import TrafficGraph.Yaml.Token.Basic

/-!
# Nodes from tokens

The tokens of a document are read into its tree by recursive descent.  On the
way the nodes that have an anchor are kept, so that an alias finds them; two
nodes of a document may not have the same anchor.
-/

namespace TrafficGraph
namespace Yaml

/-- What the reading of a document's tokens carries along. -/
structure Parser where
  /-- The tokens still to be read. -/
  tokens : List Token
  /-- The fault behind the last token. -/
  fault : Fault
  /-- What the handles of tags stand for. -/
  handles : List (String × String)
  /-- The nodes that have an anchor, by its name. -/
  anchors : List (String × Node)

namespace Parser

def peek (p : Parser) : Except Fault Token :=
  match p.tokens with
  | t :: _ => .ok t
  | [] => .error p.fault

def next (p : Parser) : Parser := { p with tokens := p.tokens.drop 1 }

/-- What stands in front of a node: its anchor and its tag, if it has them. -/
structure Properties where
  anchor : Option String
  tag : Option String

def resolveTag (p : Parser) (handle : Option String) (suffix : String) : Except Fault String :=
  match handle with
  | none => .ok suffix
  | some handle =>
    match p.handles.find? fun entry => entry.1 == handle with
    | some entry => .ok (entry.2 ++ suffix)
    | none => .error .invalid

def readTag (p : Parser) : Except Fault (Option String × Parser) := do
  match ← p.peek with
  | .tag handle suffix => return (some (← p.resolveTag handle suffix), p.next)
  | _ => return (none, p)

def readAnchor (p : Parser) : Except Fault (Option String × Parser) := do
  match ← p.peek with
  | .anchor name => return (some name, p.next)
  | _ => return (none, p)

def readProperties (p : Parser) : Except Fault (Properties × Parser) := do
  match ← p.peek with
  | .anchor _ =>
    let (anchor, p) ← p.readAnchor
    let (tag, p) ← p.readTag
    return (⟨anchor, tag⟩, p)
  | _ =>
    let (tag, p) ← p.readTag
    if tag.isNone then return (⟨none, none⟩, p)
    let (anchor, p) ← p.readAnchor
    return (⟨anchor, tag⟩, p)

def Properties.isOpen (props : Properties) : Bool :=
  props.tag.isNone || props.tag == some "!"

def Properties.collectionTag (props : Properties) (usual : Tag) : Tag :=
  if props.isOpen then usual else (props.tag.map Tag.ofName).getD usual

/-- The tag of a scalar.  One between quotation marks is a text, unless its tag
is left open on purpose. -/
def Properties.scalarTag (props : Properties) (plain : Bool) (text : String) : Tag :=
  if (plain && props.tag.isNone) || props.tag == some "!" then plainTag text.toList
  else (props.tag.map Tag.ofName).getD .text

def keep (p : Parser) (props : Properties) (node : Node) : Parser :=
  match props.anchor with
  | some name => { p with anchors := (name, node) :: p.anchors }
  | none => p

def checkAnchor (p : Parser) (props : Properties) : Except Fault Unit :=
  match props.anchor with
  | some name => if p.anchors.any fun entry => entry.1 == name then .error .invalid else .ok ()
  | none => .ok ()

def readEmpty (p : Parser) (props : Properties) : Except Fault (Node × Parser) :=
  if props.anchor.isNone && props.tag.isNone then .error .invalid
  else
    let node := Node.scalar (props.scalarTag true "") ""
    .ok (node, p.keep props node)

def readComma (p : Parser) : Except Fault Parser := do
  match ← p.peek with
  | .flowEntry => return p.next
  | _ => throw .invalid

/-- Whether a place in a block is empty, by the token that follows: the place
behind a hyphen, a question mark or a colon. -/
def endsBlockPlace : Token → Bool
  | .blockEntry => true
  | .key => true
  | .value => true
  | .blockEnd => true
  | _ => false

mutual

/-- Read a node.  `block` says whether block collections may stand here, and
`indentless` whether a sequence may that is not indented. -/
def readNode (block indentless : Bool) : Nat → Parser → Except Fault (Node × Parser)
  | 0, _ => .error .invalid
  | fuel + 1, p => do
    match ← p.peek with
    | .alias name =>
      match p.anchors.find? fun entry => entry.1 == name with
      | some entry => return (entry.2, p.next)
      | none => throw .invalid
    | _ =>
      let (props, p) ← p.readProperties
      let token ← p.peek
      p.checkAnchor props
      match token with
      | .blockEntry =>
        if indentless then
          let (items, q) ← readIndentless fuel [] (p.keep props (.loop false))
          let node := Node.sequence (props.collectionTag .sequence) items
          return (node, q.keep props node)
        else p.readEmpty props
      | .scalar plain text =>
        let node := Node.scalar (props.scalarTag plain text) text
        return (node, p.next.keep props node)
      | .flowSequenceStart =>
        let (items, q) ← readFlowSequence true fuel [] (p.next.keep props (.loop false))
        let node := Node.sequence (props.collectionTag .sequence) items
        return (node, q.keep props node)
      | .flowMappingStart =>
        let (pairs, q) ← readFlowMapping true fuel [] (p.next.keep props (.loop true))
        let node := Node.mapping (props.collectionTag .mapping) pairs
        return (node, q.keep props node)
      | .blockSequenceStart =>
        if block then
          let (items, q) ← readBlockSequence fuel [] (p.next.keep props (.loop false))
          let node := Node.sequence (props.collectionTag .sequence) items
          return (node, q.keep props node)
        else p.readEmpty props
      | .blockMappingStart =>
        if block then
          let (pairs, q) ← readBlockMapping fuel [] (p.next.keep props (.loop true))
          let node := Node.mapping (props.collectionTag .mapping) pairs
          return (node, q.keep props node)
        else p.readEmpty props
      | _ => p.readEmpty props
termination_by structural fuel => fuel

def readBlockSequence : Nat → List Node → Parser → Except Fault (List Node × Parser)
  | 0, _, _ => .error .invalid
  | fuel + 1, read, p => do
    match ← p.peek with
    | .blockEntry =>
      let p := p.next
      match ← p.peek with
      | .blockEntry => readBlockSequence fuel (.empty :: read) p
      | .blockEnd => readBlockSequence fuel (.empty :: read) p
      | _ =>
        let (node, p) ← readNode true false fuel p
        readBlockSequence fuel (node :: read) p
    | .blockEnd => return (read.reverse, p.next)
    | _ => throw .invalid
termination_by structural fuel => fuel

/-- Read the items of a sequence that is not indented, up to the first token
that is none of its. -/
def readIndentless : Nat → List Node → Parser → Except Fault (List Node × Parser)
  | 0, _, _ => .error .invalid
  | fuel + 1, read, p => do
    match ← p.peek with
    | .blockEntry =>
      let p := p.next
      if endsBlockPlace (← p.peek) then readIndentless fuel (.empty :: read) p
      else
        let (node, p) ← readNode true false fuel p
        readIndentless fuel (node :: read) p
    | _ => return (read.reverse, p)
termination_by structural fuel => fuel

def readBlockMapping : Nat → List (Node × Node) → Parser →
    Except Fault (List (Node × Node) × Parser)
  | 0, _, _ => .error .invalid
  | fuel + 1, read, p => do
    match ← p.peek with
    | .key =>
      let (key, p) ← readBlockPlace fuel p.next
      let (value, p) ← readBlockValue fuel p
      readBlockMapping fuel ((key, value) :: read) p
    | .blockEnd => return (read.reverse, p.next)
    | _ => throw .invalid
termination_by structural fuel => fuel

/-- Read the node behind a question mark or a colon of a block mapping, which
may be empty. -/
def readBlockPlace : Nat → Parser → Except Fault (Node × Parser)
  | 0, _ => .error .invalid
  | fuel + 1, p => do
    match ← p.peek with
    | .key => return (.empty, p)
    | .value => return (.empty, p)
    | .blockEnd => return (.empty, p)
    | _ => readNode true true fuel p
termination_by structural fuel => fuel

def readBlockValue : Nat → Parser → Except Fault (Node × Parser)
  | 0, _ => .error .invalid
  | fuel + 1, p => do
    match ← p.peek with
    | .value => readBlockPlace fuel p.next
    | _ => return (.empty, p)
termination_by structural fuel => fuel

def readFlowSequence (first : Bool) : Nat → List Node → Parser → Except Fault (List Node × Parser)
  | 0, _, _ => .error .invalid
  | fuel + 1, read, p => do
    if (← p.peek) = .flowSequenceEnd then return (read.reverse, p.next)
    let p ← if first then pure p else p.readComma
    match ← p.peek with
    | .flowSequenceEnd => return (read.reverse, p.next)
    | .key =>
      let (pair, p) ← readFlowPair .flowSequenceEnd fuel p.next
      readFlowSequence false fuel (.mapping .mapping [pair] :: read) p
    | _ =>
      let (node, p) ← readNode false false fuel p
      readFlowSequence false fuel (node :: read) p
termination_by structural fuel => fuel

def readFlowMapping (first : Bool) : Nat → List (Node × Node) → Parser →
    Except Fault (List (Node × Node) × Parser)
  | 0, _, _ => .error .invalid
  | fuel + 1, read, p => do
    if (← p.peek) = .flowMappingEnd then return (read.reverse, p.next)
    let p ← if first then pure p else p.readComma
    match ← p.peek with
    | .flowMappingEnd => return (read.reverse, p.next)
    | .key =>
      let (pair, p) ← readFlowPair .flowMappingEnd fuel p.next
      readFlowMapping false fuel (pair :: read) p
    | _ =>
      let (node, p) ← readNode false false fuel p
      readFlowMapping false fuel ((node, .empty) :: read) p
termination_by structural fuel => fuel

/-- Read a key and its value inside brackets that `closing` closes; both may be
empty. -/
def readFlowPair (closing : Token) : Nat → Parser → Except Fault ((Node × Node) × Parser)
  | 0, _ => .error .invalid
  | fuel + 1, p => do
    let (key, p) ←
      if (← p.peek) = .value then pure (Node.empty, p) else readFlowPlace closing fuel p
    match ← p.peek with
    | .value =>
      let (value, p) ← readFlowPlace closing fuel p.next
      return ((key, value), p)
    | _ => return ((key, .empty), p)
termination_by structural fuel => fuel

def readFlowPlace (closing : Token) : Nat → Parser → Except Fault (Node × Parser)
  | 0, _ => .error .invalid
  | fuel + 1, p => do
    let t ← p.peek
    if t = .flowEntry ∨ t = closing then return (.empty, p)
    else readNode false false fuel p
termination_by structural fuel => fuel

end

def coreHandles : List (String × String) := [("!", "!"), ("!!", corePrefix)]

def readDirectives : Bool → List Token → Parser → Except Fault Parser
  | versioned, .version major :: rest, p =>
    if versioned || major != 1 then .error .invalid
    else readDirectives true rest { p with tokens := rest }
  | versioned, .handle handle start :: rest, p =>
    if p.handles.any fun entry => entry.1 == handle then .error .invalid
    else
      readDirectives versioned rest
        { p with tokens := rest, handles := (handle, start) :: p.handles }
  | versioned, .remark :: rest, p => readDirectives versioned rest { p with tokens := rest }
  | _, tokens, p => .ok { p with tokens := tokens, handles := p.handles ++ coreHandles }

def endsDocument : Token → Bool
  | .version _ => true
  | .handle _ _ => true
  | .remark => true
  | .documentStart => true
  | .documentEnd => true
  | .streamEnd => true
  | _ => false

/-- A bound on the depth of the descent: between two tokens it goes down a few
steps only. -/
def fuel (p : Parser) : Nat := 6 * p.tokens.length + 10

/-- Read a document that starts with directives or with the mark of its start. -/
def readMarked (p : Parser) : Except Fault (Node × Parser) := do
  let p ← readDirectives false p.tokens p
  if (← p.peek) = .documentStart then
    let p := p.next
    if endsDocument (← p.peek) then return (.empty, p) else p.readNode true false p.fuel
  else throw .invalid

/-- Read the document, if there is one.  Nothing may follow but marks of its
end. -/
def readDocument (p : Parser) : Except Fault (Option Node) := do
  match ← p.peek with
  | .streamEnd => return none
  | t =>
    let q : Parser := { p with handles := coreHandles }
    let (node, p) ←
      if endsDocument t && t != .documentEnd then p.readMarked else q.readNode true false p.fuel
    match p.tokens.dropWhile (· == .documentEnd) with
    | .streamEnd :: _ => return some node
    | [] => throw p.fault
    | _ => throw .invalid

end Parser

namespace Node

/-- The tree of a document's tokens; `fault` is what stopped the reading of the
tokens, if anything did. -/
def ofTokens? (tokens : List Token) (fault : Fault) : Except Fault (Option Node) :=
  Parser.readDocument { tokens := tokens, fault := fault, handles := [], anchors := [] }

end Node

end Yaml
end TrafficGraph
