/-!
# Places in a document

A cursor holds the text that is still to be read and where its first character
stands.  The document's end is the empty rest.  Five characters break a line,
and a carriage return with a line feed behind it is one break.
-/

namespace TrafficGraph
namespace Yaml

def isAllowed (c : Char) : Bool :=
  let code := c.toNat
  code == 0x09 || code == 0x0A || code == 0x0D || (decide (0x20 ≤ code) && decide (code ≤ 0x7E)) ||
    code == 0x85 || (decide (0xA0 ≤ code) && decide (code ≤ 0xD7FF)) ||
    (decide (0xE000 ≤ code) && decide (code ≤ 0xFFFD)) || decide (0x10000 ≤ code)

def isBreak (c : Char) : Bool :=
  c == '\n' || c == '\r' || c == '\x85' || c == '\u2028' || c == '\u2029'

/-- Whether a name ends here: at a space or where a line ends. -/
def endsName : Option Char → Bool
  | none => true
  | some c => c == ' ' || isBreak c

/-- Whether a word ends here: at a space, at a tab or where a line ends. -/
def endsWord : Option Char → Bool
  | none => true
  | some c => c == ' ' || c == '\t' || isBreak c

def isNameChar (c : Char) : Bool :=
  c.isAlphanum || c == '-' || c == '_'

/-- The text that is still to be read, and the line, the column and the index
of its first character, all counted from zero. -/
structure Cursor where
  rest : List Char
  line : Nat
  column : Nat
  index : Nat
  deriving Repr

namespace Cursor

def start (cs : List Char) : Cursor := ⟨cs, 0, 0, 0⟩

def peek (c : Cursor) (ahead : Nat) : Option Char := c.rest[ahead]?

def isAt (c : Cursor) (char : Char) : Bool := c.peek 0 == some char

/-- Step over one character.  A byte order mark takes no column. -/
def next (c : Cursor) : Cursor :=
  match c.rest with
  | [] => c
  | char :: rest =>
    if isBreak char && !(char == '\r' && rest.head? == some '\n') then
      ⟨rest, c.line + 1, 0, c.index + 1⟩
    else if char == '\uFEFF' then ⟨rest, c.line, c.column, c.index + 1⟩
    else ⟨rest, c.line, c.column + 1, c.index + 1⟩

def skip : Nat → Cursor → Cursor
  | 0, c => c
  | count + 1, c => skip count c.next

def span (p : Char → Bool) (c : Cursor) : List Char × Cursor :=
  let run := c.rest.takeWhile p
  (run, c.skip run.length)

def skipWhile (p : Char → Bool) (c : Cursor) : Cursor := (c.span p).2

def skipSpaces (c : Cursor) : Cursor := c.skipWhile (· == ' ')

/-- Step over a comment, if one starts here. -/
def skipComment (c : Cursor) : Cursor :=
  if c.isAt '#' then c.skipWhile fun char => !isBreak char else c

/-- Step over a line break: the character that stands for it in a scalar, and
the cursor behind it. -/
def break? (c : Cursor) : Option (Char × Cursor) :=
  match c.rest with
  | '\r' :: '\n' :: _ => some ('\n', c.skip 2)
  | char :: _ =>
    if char == '\u2028' || char == '\u2029' then some (char, c.next)
    else if isBreak char then some ('\n', c.next)
    else none
  | [] => none

/-- Whether a mark between documents stands here: three hyphens or three
points, and the end of a word. -/
def atDocumentMark (c : Cursor) : Bool :=
  match c.rest with
  | '-' :: '-' :: '-' :: rest => endsWord rest.head?
  | '.' :: '.' :: '.' :: rest => endsWord rest.head?
  | _ => false

/-- The count of characters that are left bounds every loop over a document. -/
def fuel (c : Cursor) : Nat := c.rest.length + 2

end Cursor

end Yaml
end TrafficGraph

/-!
# Tokens of a document

The words of a document: its marks, brackets and indicators, and its scalars,
anchors and tags.  The start and the end of a block collection have tokens of
their own, which stand for changes of indentation.
-/

namespace TrafficGraph
namespace Yaml

inductive Token where
  /-- A directive that states the version of the format. -/
  | version (major : Nat)
  /-- A directive that lets a handle stand for the start of a tag. -/
  | handle (handle start : String)
  /-- A directive of another name. -/
  | remark
  | documentStart
  | documentEnd
  | streamEnd
  | blockSequenceStart
  | blockMappingStart
  | blockEnd
  | flowSequenceStart
  | flowSequenceEnd
  | flowMappingStart
  | flowMappingEnd
  | blockEntry
  | flowEntry
  | key
  | value
  | alias (name : String)
  | anchor (name : String)
  /-- A tag: its handle, if it has one, and what follows. -/
  | tag (handle : Option String) (suffix : String)
  /-- A scalar, and whether it is written without quotation marks or an
  indicator. -/
  | scalar (plain : Bool) (text : String)
  deriving DecidableEq, Repr

end Yaml
end TrafficGraph
