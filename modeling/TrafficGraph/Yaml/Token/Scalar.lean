import TrafficGraph.Text.Numeral
import TrafficGraph.Yaml.Token.Basic
import TrafficGraph.Fault

/-!
# The text of scalars

A scalar is written plainly, between quotation marks, or as a block of lines
behind an indicator.  In the first two forms a single line break becomes a
space, and of several breaks the first one is dropped.  A block keeps its
breaks, or folds those between lines that start with text.
-/

namespace TrafficGraph
namespace Yaml

open Text

/-! ## Line breaks -/

/-- Step over the end of a line on which nothing but a comment may follow. -/
def endLine (c : Cursor) : Except Fault Cursor :=
  let c := c.skipSpaces.skipComment
  match c.break? with
  | some (_, after) => .ok after
  | none => if c.rest.isEmpty then .ok c else .error .invalid

/-- What a run of line breaks leaves in a folded scalar: the first break, and
the others. -/
def foldBreaks (first : Char) (others : List Char) : List Char :=
  if first ≠ '\n' then first :: others
  else if others.isEmpty then [' ']
  else others

/-! ## Quoted scalars -/

def escapedCode? : Char → Option Nat
  | '0' => some 0x00
  | 'a' => some 0x07
  | 'b' => some 0x08
  | 't' => some 0x09
  | '\t' => some 0x09
  | 'n' => some 0x0A
  | 'v' => some 0x0B
  | 'f' => some 0x0C
  | 'r' => some 0x0D
  | 'e' => some 0x1B
  | ' ' => some 0x20
  | '\x22' => some 0x22
  | '\\' => some 0x5C
  | '/' => some 0x2F
  | 'N' => some 0x85
  | '_' => some 0xA0
  | 'L' => some 0x2028
  | 'P' => some 0x2029
  | _ => none

def codeWidth? : Char → Option Nat
  | 'x' => some 2
  | 'u' => some 4
  | 'U' => some 8
  | _ => none

/-- The number written by hexadecimal digits; none if there are fewer than
`width` or one of them is no digit. -/
def hexNumber? (width : Nat) (cs : List Char) : Option Nat :=
  let ds := cs.take width
  if ds.length = width then
    ds.foldl (fun n d => n.bind fun n => (hexValue? d).map fun v => n * 16 + v) (some 0)
  else none

/-- The text of a sequence of codes.  Two surrogates in a row are one
character, and one that stands alone is replaced. -/
def textOfCodes : List Nat → List Char
  | [] => []
  | [code] => [if code.isValidChar then Char.ofNat code else '\uFFFD']
  | high :: low :: rest =>
    if 0xD800 ≤ high ∧ high < 0xDC00 ∧ 0xDC00 ≤ low ∧ low < 0xE000 then
      Char.ofNat (0x10000 + (high - 0xD800) * 0x400 + (low - 0xDC00)) :: textOfCodes rest
    else (if high.isValidChar then Char.ofNat high else '\uFFFD') :: textOfCodes (low :: rest)

/-- Step over blank lines inside quotation marks, and over the blanks in front
of the text behind them: the breaks met, and the cursor.  A mark between
documents may not start a line here. -/
def quotedBreaks : Nat → List Char → Cursor → Except Fault (List Char × Cursor)
  | 0, read, c => .ok (read.reverse, c)
  | fuel + 1, read, c =>
    if c.atDocumentMark then .error .invalid
    else
      let c := c.skipWhile fun char => char == ' ' || char == '\t'
      match c.break? with
      | some (char, after) => quotedBreaks fuel (char :: read) after
      | none => .ok (read.reverse, c)

/-- Read an escape, whose backslash stands at the cursor: the codes that it
stands for, and the cursor behind it. -/
def readEscape (c : Cursor) : Except Fault (List Nat × Cursor) := do
  let c := c.next
  match c.rest with
  | [] => throw .invalid
  | char :: digits =>
    match escapedCode? char, codeWidth? char, c.break? with
    | some code, _, _ => return ([code], c.next)
    | none, some width, _ =>
      match hexNumber? width digits with
      | none => throw .invalid
      | some code =>
        if 0x10FFFF < code then throw (.conversion .noCharacter)
        else return ([code], c.skip (width + 1))
    | none, none, some (_, after) =>
      let (breaks, after) ← quotedBreaks after.fuel [] after
      return (breaks.map Char.toNat, after)
    | none, none, none => throw .invalid

/-- Read blanks inside quotation marks: what they leave in the scalar, and the
cursor behind them. -/
def readQuotedBlanks (c : Cursor) : Except Fault (List Char × Cursor) := do
  let (blanks, after) := c.span fun char => char == ' ' || char == '\t'
  if after.rest.isEmpty then throw .invalid
  match after.break? with
  | none => return (blanks, after)
  | some (first, after) =>
    let (others, after) ← quotedBreaks after.fuel [] after
    return (foldBreaks first others, after)

/-- Read the inside of a quoted scalar, up to and with its closing mark.
`escapes` says whether a backslash starts an escape; where it does not, two
marks in a row stand for one.  `read` holds the codes read, last one first. -/
def readQuoted (mark : Char) (escapes : Bool) :
    Nat → List Nat → Cursor → Except Fault (List Char × Cursor)
  | 0, _, _ => .error .invalid
  | fuel + 1, read, c =>
    match c.rest with
    | [] => .error .invalid
    | char :: rest =>
      if char = mark then
        if !escapes && rest.head? == some mark then
          readQuoted mark escapes fuel (mark.toNat :: read) (c.skip 2)
        else .ok (textOfCodes read.reverse, c.next)
      else if escapes && char == '\\' then do
        let (codes, after) ← readEscape c
        readQuoted mark escapes fuel (codes.reverse ++ read) after
      else if endsWord (some char) then do
        let (cs, after) ← readQuotedBlanks c
        readQuoted mark escapes fuel ((cs.map Char.toNat).reverse ++ read) after
      else readQuoted mark escapes fuel (char.toNat :: read) c.next

/-! ## Plain scalars -/

def isFlowChar (c : Char) : Bool :=
  [',', '[', ']', '\x7b', '\x7d'].contains c

/-- Whether a colon ends a plain scalar, by the character behind it. -/
def endsKey (inFlow : Bool) (next : Option Char) : Bool :=
  endsWord next ||
    (inFlow && match next with
      | some c => isFlowChar c
      | none => true)

def plainLength (inFlow : Bool) : List Char → Nat
  | [] => 0
  | c :: rest =>
    if endsWord (some c) || (c == ':' && endsKey inFlow rest.head?) ||
        (inFlow && (c == '?' || isFlowChar c)) then 0
    else plainLength inFlow rest + 1

/-- Step over blank lines and indentation inside a plain scalar: the breaks met,
last one first, and the cursor; none if a mark between documents was met. -/
def plainBreaks : Nat → List Char → Cursor → Option (List Char) × Cursor
  | 0, read, c => (some read, c)
  | fuel + 1, read, c =>
    if c.isAt ' ' then plainBreaks fuel read c.next
    else
      match c.break? with
      | none => (some read, c)
      | some (char, after) =>
        if after.atDocumentMark then (none, after) else plainBreaks fuel (char :: read) after

/-- Read the space behind a run of a plain scalar: what it leaves if more of the
scalar follows, nothing if none can follow, whether a line was left, and the
cursor. -/
def readPlainSpace (c : Cursor) : List Char × Bool × Cursor :=
  let (spaces, after) := c.span (· == ' ')
  match after.break? with
  | none => (spaces, false, after)
  | some (first, after) =>
    if after.atDocumentMark then ([], true, after)
    else
      match plainBreaks after.fuel [] after with
      | (none, after) => ([], true, after)
      | (some breaks, after) => (foldBreaks first breaks.reverse, true, after)

/-- Read the runs of a plain scalar and the space between them: its text,
whether a line was left behind the last run, and the cursor. -/
def readPlain (inFlow : Bool) (indent : Int) :
    Nat → List Char → List Char → Bool → Cursor → List Char × Bool × Cursor
  | 0, read, _, left, c => (read, left, c)
  | fuel + 1, read, space, left, c =>
    let length := if c.isAt '#' then 0 else plainLength inFlow c.rest
    if length = 0 then (read, left, c)
    else
      let read := read ++ space ++ c.rest.take length
      let (space, left, c) := readPlainSpace (c.skip length)
      if space.isEmpty || c.isAt '#' || (!inFlow && decide ((c.column : Int) < indent)) then
        (read, left, c)
      else readPlain inFlow indent fuel read space left c

/-! ## Block scalars -/

/-- What happens to the line breaks at the end of a block. -/
inductive Chomping where
  | clip
  | strip
  | keep
  deriving DecidableEq, Repr

def chomping? : Option Char → Option Chomping
  | some '+' => some .keep
  | some '-' => some .strip
  | _ => none

def readIncrement (c : Cursor) : Except Fault (Option Nat × Cursor) :=
  match c.peek 0 with
  | some d =>
    if d = '0' then .error .invalid
    else if isAsciiDigit d then .ok (some (d.toNat - '0'.toNat), c.next)
    else .ok (none, c)
  | none => .ok (none, c)

/-- Read the indicators behind the mark of a block, in either order. -/
def readBlockHeader (c : Cursor) : Except Fault (Chomping × Option Nat × Cursor) := do
  let (chomping, increment, c) ←
    match chomping? (c.peek 0) with
    | some chomping => do
      let (increment, c) ← readIncrement c.next
      pure (chomping, increment, c)
    | none => do
      let (increment, c) ← readIncrement c
      match increment, chomping? (c.peek 0) with
      | some n, some chomping => pure (chomping, some n, c.next)
      | _, _ => pure (.clip, increment, c)
  if endsName (c.peek 0) then return (chomping, increment, c) else throw .invalid

/-- Step over the blank lines in front of a block: the breaks met, last one
first, the largest column reached, and the cursor. -/
def blockIndentation : Nat → List Char → Nat → Cursor → List Char × Nat × Cursor
  | 0, read, widest, c => (read, widest, c)
  | fuel + 1, read, widest, c =>
    if c.isAt ' ' then blockIndentation fuel read (max widest c.next.column) c.next
    else
      match c.break? with
      | some (char, after) => blockIndentation fuel (char :: read) widest after
      | none => (read, widest, c)

def skipIndent (indent : Nat) : Nat → Cursor → Cursor
  | 0, c => c
  | fuel + 1, c =>
    if c.column < indent ∧ c.isAt ' ' then skipIndent indent fuel c.next else c

/-- Step over blank lines and the indentation of the line behind them: the
breaks met, last one first, and the cursor. -/
def blockBreaks (indent : Nat) : Nat → List Char → Cursor → List Char × Cursor
  | 0, read, c => (read, c)
  | fuel + 1, read, c =>
    let c := skipIndent indent indent c
    match c.break? with
    | some (char, after) => blockBreaks indent fuel (char :: read) after
    | none => (read, c)

def startsWithText (c : Cursor) : Bool := !(c.isAt ' ' || c.isAt '\t')

/-- What has been read of a block: its text, the break behind its last line, and
the blank lines behind that. -/
structure Block where
  text : List Char
  lastBreak : List Char
  breaks : List Char
  cursor : Cursor

def readBlockLines (folded : Bool) (indent : Nat) : Nat → Block → Block
  | 0, b => b
  | fuel + 1, b =>
    let c := b.cursor
    if c.column = indent ∧ !c.rest.isEmpty then
      let textFirst := startsWithText c
      let (line, after) := c.span fun char => !isBreak char
      let text := b.text ++ b.breaks ++ line
      let (lastBreak, after) :=
        match after.break? with
        | some (char, after) => ([char], after)
        | none => ([], after)
      let (breaks, after) := blockBreaks indent after.fuel [] after
      let breaks := breaks.reverse
      if after.column = indent ∧ !after.rest.isEmpty then
        let join :=
          if folded && lastBreak == ['\n'] && textFirst && startsWithText after then
            if breaks.isEmpty then [' '] else []
          else lastBreak
        readBlockLines folded indent fuel ⟨text ++ join, [], breaks, after⟩
      else ⟨text, lastBreak, breaks, after⟩
    else { b with lastBreak := [] }

/-- The indentation of a block and the blank lines in front of it: stated by an
increment over the least one, or else that of its first line that is not blank. -/
def readBlockIndent (least : Nat) (increment : Option Nat) (c : Cursor) :
    List Char × Nat × Cursor :=
  match increment with
  | none =>
    let (breaks, widest, after) := blockIndentation c.fuel [] 0 c
    (breaks.reverse, max least widest, after)
  | some n =>
    let (breaks, after) := blockBreaks (least + n - 1) c.fuel [] c
    (breaks.reverse, least + n - 1, after)

/-- Read a block scalar, whose mark stands at the cursor.  `outer` is the
indentation of the collection around it. -/
def readBlock (folded : Bool) (outer : Int) (c : Cursor) : Except Fault (List Char × Cursor) := do
  let (chomping, increment, c) ← readBlockHeader c.next
  let c ← endLine c
  let (breaks, indent, c) := readBlockIndent (max (outer + 1) 1).toNat increment c
  let b := readBlockLines folded indent c.fuel ⟨[], [], breaks, c⟩
  let ending :=
    match chomping with
    | .clip => b.lastBreak
    | .strip => []
    | .keep => b.lastBreak ++ b.breaks
  return (b.text ++ ending, b.cursor)

end Yaml
end TrafficGraph
