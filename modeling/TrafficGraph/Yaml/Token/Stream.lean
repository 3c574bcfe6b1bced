import TrafficGraph.Yaml.Token.Name

/-!
# The tokens of a document

A document is cut into tokens from left to right.  Three things are kept on the
way: the columns at which the open block collections stand, the depth of the
brackets, and for each depth the place at which a key may have begun.  A colon
turns the latter into a key, whose token is put in front of the tokens that
were read since; a key has to end on the line it began on, within 1024
characters.
-/

namespace TrafficGraph
namespace Yaml

structure KeyStart where
  /-- The depth of the brackets around it. -/
  depth : Nat
  /-- The count of tokens in front of it. -/
  position : Nat
  /-- Whether nothing but a key can stand there. -/
  required : Bool
  index : Nat
  line : Nat
  column : Nat
  deriving Repr

/-- What is known in the middle of a document. -/
structure Lexer where
  cursor : Cursor
  /-- The tokens read, last one first. -/
  tokens : List Token
  /-- The depth of the brackets. -/
  depth : Nat
  /-- The column of the innermost block collection, or `-1` outside any. -/
  indent : Int
  /-- The columns of the collections around it. -/
  outer : List Int
  /-- Whether a key may begin at the next token. -/
  keyAllowed : Bool
  keys : List KeyStart
  deriving Repr

namespace Lexer

/-- The start of a document.  A byte order mark there is no part of it. -/
def start (cs : List Char) : Lexer :=
  let c := Cursor.start cs
  { cursor := if c.isAt '\uFEFF' then c.next else c
    tokens := [], depth := 0, indent := -1, outer := [], keyAllowed := true, keys := [] }

def push (s : Lexer) (t : Token) : Lexer := { s with tokens := t :: s.tokens }

def pushAt (s : Lexer) (t : Token) (c : Cursor) : Lexer :=
  { s with tokens := t :: s.tokens, cursor := c }

/-- Put a token behind the first `position` tokens. -/
def insertAt (s : Lexer) (position : Nat) (t : Token) : Lexer :=
  let later := s.tokens.length - position
  { s with tokens := s.tokens.take later ++ t :: s.tokens.drop later }

def inFlow (s : Lexer) : Bool := decide (0 < s.depth)

/-- Step over spaces, comments and line breaks.  Outside brackets a key may
begin on a new line. -/
def skipGap : Nat → Lexer → Lexer
  | 0, s => s
  | fuel + 1, s =>
    let c := s.cursor.skipSpaces.skipComment
    match c.break? with
    | some (_, after) =>
      skipGap fuel { s with cursor := after, keyAllowed := s.keyAllowed || !s.inFlow }
    | none => { s with cursor := c }

def isStale (s : Lexer) (k : KeyStart) : Bool :=
  k.line != s.cursor.line || decide (1024 < s.cursor.index - k.index)

def dropStale (s : Lexer) : Except Fault Lexer :=
  if s.keys.any fun k => s.isStale k && k.required then .error .invalid
  else .ok { s with keys := s.keys.filter fun k => !s.isStale k }

def dropKey (s : Lexer) : Except Fault Lexer :=
  if s.keys.any fun k => k.depth == s.depth && k.required then .error .invalid
  else .ok { s with keys := s.keys.filter fun k => k.depth != s.depth }

def keyStart (s : Lexer) : KeyStart :=
  { depth := s.depth
    position := s.tokens.length
    required := !s.inFlow && decide (s.indent = (s.cursor.column : Int))
    index := s.cursor.index
    line := s.cursor.line
    column := s.cursor.column }

def noteKey (s : Lexer) : Except Fault Lexer := do
  if s.keyAllowed then
    let s ← s.dropKey
    return { s with keys := s.keyStart :: s.keys }
  else return s

/-- Close the block collections that stand to the right of a column. -/
def unwind (column : Int) : List Int → Lexer → Lexer
  | [], s => s
  | around :: outer, s =>
    if column < s.indent then
      unwind column outer { s.push .blockEnd with indent := around, outer := outer }
    else s

def unwindTo (s : Lexer) (column : Int) : Lexer :=
  if s.inFlow then s else unwind column s.outer s

/-- Whether a block collection that begins at a column stands inside the present
one. -/
def opensAt (s : Lexer) (column : Nat) : Bool := decide (s.indent < (column : Int))

def openAt (s : Lexer) (column : Nat) : Lexer :=
  { s with indent := column, outer := s.indent :: s.outer }

/-- Leave all collections at a mark between documents or at the end. -/
def leave (s : Lexer) : Except Fault Lexer := do
  let s ← (s.unwindTo (-1)).dropKey
  return { s with keyAllowed := false }

/-- An entry of a block collection begins here: the collection opens with it if
its column is new. -/
def beginEntry (s : Lexer) (opening : Token) : Except Fault Lexer :=
  if s.inFlow then .ok s
  else if !s.keyAllowed then .error .invalid
  else
    let column := s.cursor.column
    .ok (if s.opensAt column then (s.openAt column).push opening else s)

def openBracket (s : Lexer) (t : Token) : Except Fault Lexer := do
  let s ← s.noteKey
  return { s.pushAt t s.cursor.next with depth := s.depth + 1, keyAllowed := true }

def closeBracket (s : Lexer) (t : Token) : Except Fault Lexer := do
  if s.inFlow then
    let s ← s.dropKey
    return { s.pushAt t s.cursor.next with depth := s.depth - 1, keyAllowed := false }
  else throw .invalid

def readComma (s : Lexer) : Except Fault Lexer := do
  let s ← s.dropKey
  return { s.pushAt .flowEntry s.cursor.next with keyAllowed := true }

def readHyphen (s : Lexer) : Except Fault Lexer := do
  let s ← s.beginEntry .blockSequenceStart
  let s ← s.dropKey
  return { s.pushAt .blockEntry s.cursor.next with keyAllowed := true }

def readQuestion (s : Lexer) : Except Fault Lexer := do
  let s ← s.beginEntry .blockMappingStart
  let s ← s.dropKey
  return { s.pushAt .key s.cursor.next with keyAllowed := !s.inFlow }

/-- A key began at an earlier place: put its token there, and open a block
mapping with it if its column is new. -/
def confirmKey (s : Lexer) (k : KeyStart) : Lexer :=
  let s := { s with keys := s.keys.filter fun other => other.depth != s.depth }
  let s := s.insertAt k.position .key
  if !s.inFlow && s.opensAt k.column then
    (s.openAt k.column).insertAt k.position .blockMappingStart
  else s

/-- Read the colon of a value.  If a key may have begun at this depth, it did. -/
def readColon (s : Lexer) : Except Fault Lexer := do
  match s.keys.find? fun k => k.depth == s.depth with
  | some k =>
    let s := s.confirmKey k
    return { s.pushAt .value s.cursor.next with keyAllowed := false }
  | none =>
    let s ← s.beginEntry .blockMappingStart
    let s ← s.dropKey
    return { s.pushAt .value s.cursor.next with keyAllowed := !s.inFlow }

/-- Read a token at which a key may begin, and behind which none may. -/
def readNode (s : Lexer) (read : Cursor → Except Fault (Token × Cursor)) :
    Except Fault Lexer := do
  let s ← s.noteKey
  let (t, after) ← read s.cursor
  return { s.pushAt t after with keyAllowed := false }

def readAlias (c : Cursor) : Except Fault (Token × Cursor) := do
  let (name, after) ← readAnchor c
  return (.alias name, after)

def readAnchorMark (c : Cursor) : Except Fault (Token × Cursor) := do
  let (name, after) ← readAnchor c
  return (.anchor name, after)

def readQuotedScalar (mark : Char) (escapes : Bool) (c : Cursor) :
    Except Fault (Token × Cursor) := do
  let (text, after) ← readQuoted mark escapes c.fuel [] c.next
  return (.scalar false (String.ofList text), after)

def readBlockScalar (s : Lexer) (folded : Bool) : Except Fault Lexer := do
  let s ← s.dropKey
  let (text, after) ← readBlock folded s.indent s.cursor
  return { s.pushAt (.scalar false (String.ofList text)) after with keyAllowed := true }

/-- Read a plain scalar.  A key may begin behind it if its line was left. -/
def readPlainScalar (s : Lexer) : Except Fault Lexer := do
  let s ← s.noteKey
  let (text, left, after) := readPlain s.inFlow (s.indent + 1) s.cursor.fuel [] [] false s.cursor
  return { s.pushAt (.scalar true (String.ofList text)) after with keyAllowed := left }

def isIndicator (c : Char) : Bool :=
  ['-', '?', ':', ',', '[', ']', '\x7b', '\x7d', '#', '&', '*', '!', '|', '>', '\x27', '\x22',
    '%', '@', '\x60'].contains c

def beginsPlain (inFlow : Bool) (c : Char) (next : Option Char) : Bool :=
  !(endsWord (some c) || isIndicator c) ||
    (!endsWord next && (c == '-' || (!inFlow && (c == '?' || c == ':'))))

def readDirectiveLine (s : Lexer) : Except Fault Lexer := do
  let s ← s.leave
  let (t, after) ← readDirective s.cursor
  return s.pushAt t after

def readDocumentMark (s : Lexer) (t : Token) : Except Fault Lexer := do
  let s ← s.leave
  return s.pushAt t (s.cursor.skip 3)

/-- Read one token that begins with a character, at the place of which all gaps
are skipped and all collections to the right are closed. -/
def readToken (s : Lexer) (char : Char) : Except Fault Lexer :=
  let c := s.cursor
  let next := c.peek 1
  if char = '%' ∧ c.column = 0 then s.readDirectiveLine
  else if c.column = 0 ∧ c.atDocumentMark then
    s.readDocumentMark (if char = '-' then .documentStart else .documentEnd)
  else if char = '[' then s.openBracket .flowSequenceStart
  else if char = '\x7b' then s.openBracket .flowMappingStart
  else if char = ']' then s.closeBracket .flowSequenceEnd
  else if char = '\x7d' then s.closeBracket .flowMappingEnd
  else if char = ',' then s.readComma
  else if char = '-' ∧ endsWord next then s.readHyphen
  else if char = '?' ∧ (s.inFlow ∨ endsWord next) then s.readQuestion
  else if char = ':' ∧ (s.inFlow ∨ endsWord next) then s.readColon
  else if char = '*' then s.readNode readAlias
  else if char = '&' then s.readNode readAnchorMark
  else if char = '!' then s.readNode readTag
  else if char = '|' ∧ !s.inFlow then s.readBlockScalar false
  else if char = '>' ∧ !s.inFlow then s.readBlockScalar true
  else if char = '\x27' then s.readNode (readQuotedScalar '\x27' false)
  else if char = '\x22' then s.readNode (readQuotedScalar '\x22' true)
  else if beginsPlain s.inFlow char next then s.readPlainScalar
  else .error .invalid

/-- Read all tokens: the tokens read, in order, and the fault that stopped the
reading, if there was one. -/
def run : Nat → Lexer → List Token × Option Fault
  | 0, s => (s.tokens.reverse, some .invalid)
  | fuel + 1, s =>
    let s := skipGap s.cursor.fuel s
    match s.dropStale with
    | .error fault => (s.tokens.reverse, some fault)
    | .ok s =>
      let s := s.unwindTo (s.cursor.column : Int)
      match s.cursor.rest with
      | [] =>
        match s.leave with
        | .error fault => (s.tokens.reverse, some fault)
        | .ok s => ((s.push .streamEnd).tokens.reverse, none)
      | char :: _ =>
        match s.readToken char with
        | .error fault => (s.tokens.reverse, some fault)
        | .ok s => run fuel s

end Lexer

/-- The tokens of a text, and the fault that stopped the reading, if there was
one.  Every token takes at least one character. -/
def tokens (cs : List Char) : List Token × Option Fault :=
  if cs.all isAllowed then Lexer.run (cs.length + 2) (Lexer.start cs) else ([], some .invalid)

end Yaml
end TrafficGraph
