import TrafficGraph.Text.Numeral
import TrafficGraph.Text.Utf8
import TrafficGraph.Yaml.Token.Basic
import TrafficGraph.Fault
import TrafficGraph.Yaml.Token.Scalar

/-!
# Names, tags and directives

The tokens that begin with `&`, `*`, `!` or `%`.  A tag is a piece of a URI, in
which a percent sign stands before the two hexadecimal digits of a byte.
-/

namespace TrafficGraph
namespace Yaml

open Text

def readName (c : Cursor) : Except Fault (String × Cursor) :=
  let (name, c) := c.span isNameChar
  if name.isEmpty then .error .invalid else .ok (String.ofList name, c)

def endsAnchor (next : Option Char) : Bool :=
  endsWord next ||
    (match next with
      | some c => ['?', ':', ',', ']', '\x7d', '%', '@', '\x60'].contains c
      | none => true)

def readAnchor (c : Cursor) : Except Fault (String × Cursor) := do
  let (name, after) ← readName c.next
  if endsAnchor (after.peek 0) then return (name, after) else throw .invalid

def isUriChar (c : Char) : Bool :=
  c.isAlphanum ||
    ['-', ';', '/', '?', ':', '@', '&', '=', '+', '$', ',', '_', '.', '!', '~', '*', '\x27', '(',
      ')', '[', ']'].contains c

def readBytes : Nat → List UInt8 → Cursor → Except Fault (List UInt8 × Cursor)
  | 0, read, c => .ok (read.reverse, c)
  | fuel + 1, read, c =>
    match c.rest with
    | '%' :: a :: b :: _ =>
      match hexValue? a, hexValue? b with
      | some x, some y => readBytes fuel (UInt8.ofNat (x * 16 + y) :: read) (c.skip 3)
      | _, _ => .error .invalid
    | '%' :: _ => .error .invalid
    | _ => .ok (read.reverse, c)

/-- Read characters of a tag, up to the first one that cannot stand in it. -/
def readUriChars : Nat → List Char → Cursor → Except Fault (List Char × Cursor)
  | 0, read, c => .ok (read, c)
  | fuel + 1, read, c =>
    if c.isAt '%' then do
      let (bytes, after) ← readBytes c.fuel [] c
      match Utf8.decode bytes with
      | some cs => readUriChars fuel (read ++ cs) after
      | none => throw .invalid
    else
      let (run, after) := c.span isUriChar
      if run.isEmpty then .ok (read, c) else readUriChars fuel (read ++ run) after

def readUri (c : Cursor) : Except Fault (String × Cursor) := do
  let (cs, after) ← readUriChars c.fuel [] c
  if after.index = c.index then throw .invalid else return (String.ofList cs, after)

/-- Read the handle of a tag: one exclamation mark, or a name between two. -/
def readHandle (c : Cursor) : Except Fault (String × Cursor) :=
  if c.isAt '!' then
    let (name, after) := c.next.span isNameChar
    if after.isAt '!' then .ok ("!" ++ String.ofList name ++ "!", after.next)
    else if name.isEmpty && after.isAt ' ' then .ok ("!", after)
    else .error .invalid
  else .error .invalid

/-- Whether the word at the front of a text holds an exclamation mark. -/
def wordHasBang : List Char → Bool
  | [] => false
  | c :: rest => c == '!' || (!endsName (some c) && wordHasBang rest)

/-- Read the two parts of a tag: its handle, if it has one, and what follows. -/
def readTagParts (c : Cursor) : Except Fault ((Option String × String) × Cursor) := do
  if c.peek 1 == some '<' then
    let (uri, after) ← readUri (c.skip 2)
    if after.isAt '>' then return ((none, uri), after.next) else throw .invalid
  else if endsWord (c.peek 1) then return ((none, "!"), c.next)
  else
    let (handle, after) ←
      if wordHasBang (c.rest.drop 1) then readHandle c else pure ("!", c.next)
    let (uri, after) ← readUri after
    return ((some handle, uri), after)

def readTag (c : Cursor) : Except Fault (Token × Cursor) := do
  let ((handle, suffix), after) ← readTagParts c
  if endsName (after.peek 0) then return (.tag handle suffix, after) else throw .invalid

def readVersionNumber (c : Cursor) : Except Fault (Nat × Cursor) :=
  let (digits, after) := c.span isAsciiDigit
  if digits.isEmpty then .error .invalid
  else .ok (digits.foldl (fun n d => n * 10 + (d.toNat - '0'.toNat)) 0, after)

/-- Read the version that a directive states, of which the first number counts. -/
def readVersion (c : Cursor) : Except Fault (Token × Cursor) := do
  let (major, after) ← readVersionNumber c.skipSpaces
  if after.isAt '.' then
    let (_, after) ← readVersionNumber after.next
    if endsName (after.peek 0) then return (.version major, after) else throw .invalid
  else throw .invalid

/-- Read the handle that a directive introduces, and what it stands for. -/
def readHandleDirective (c : Cursor) : Except Fault (Token × Cursor) := do
  let (handle, after) ← readHandle c.skipSpaces
  if after.isAt ' ' then
    let (start, after) ← readUri after.skipSpaces
    if endsName (after.peek 0) then return (.handle handle start, after) else throw .invalid
  else throw .invalid

def readDirective (c : Cursor) : Except Fault (Token × Cursor) := do
  let (name, after) ← readName c.next
  if endsName (after.peek 0) then
    let (token, after) ←
      if name = "YAML" then readVersion after
      else if name = "TAG" then readHandleDirective after
      else pure (.remark, after.skipWhile fun char => !isBreak char)
    return (token, ← endLine after)
  else throw .invalid

end Yaml
end TrafficGraph
