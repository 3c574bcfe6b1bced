import TrafficGraph.Number.Binary64
import TrafficGraph.Text.Numeral
import TrafficGraph.Value.Basic

/-!
# Faults of interchange text

Why a text is not read, with the place where reading stopped, and why a value
is not written.
-/

namespace TrafficGraph
namespace Json

/-- What the reader missed or met. -/
inductive Reason where
  | value
  | extraData
  | propertyName
  | colon
  | comma
  | unterminatedString
  | escape
  | unicodeEscape
  | controlCharacter
  | byteOrderMark
  deriving DecidableEq, Repr

def Reason.message : Reason → String
  | .value => "Expecting value"
  | .extraData => "Extra data"
  | .propertyName => "Expecting property name enclosed in double quotes"
  | .colon => "Expecting ':' delimiter"
  | .comma => "Expecting ',' delimiter"
  | .unterminatedString => "Unterminated string starting at"
  | .escape => "Invalid \\escape"
  | .unicodeEscape => "Invalid \\uXXXX escape"
  | .controlCharacter => "Invalid control character at"
  | .byteOrderMark => "Unexpected UTF-8 BOM (decode using utf-8-sig)"

/-- A place in a text where reading stopped, counted in characters from zero. -/
structure Stop where
  reason : Reason
  position : Nat
  deriving DecidableEq, Repr

/-- The line of a place, counted from one, and its column, counted from one. -/
def lineAndColumn (cs : List Char) (position : Nat) : Nat × Nat :=
  (cs.take position).foldl
    (fun at_ c => if c = '\n' then (at_.1 + 1, 1) else (at_.1, at_.2 + 1)) (1, 1)

def Stop.message (stop : Stop) (cs : List Char) : String :=
  let at_ := lineAndColumn cs stop.position
  stop.reason.message ++ ": line " ++ toString at_.1 ++ " column " ++ toString at_.2 ++
    " (char " ++ toString stop.position ++ ")"

end Json
end TrafficGraph

/-!
# Reading interchange text

A text is read into a value, or reading stops at the first character that
cannot continue it.  A key that is repeated in an object keeps its first place
and takes its last value.  Besides the standard literals the reader knows the
words for the two infinities and for not-a-number.
-/

namespace TrafficGraph
namespace Json

open Text

structure Cursor where
  rest : List Char
  position : Nat

namespace Cursor

def stop {α : Type} (at_ : Cursor) (reason : Reason) : Except Stop α :=
  .error ⟨reason, at_.position⟩

def next (at_ : Cursor) : Cursor := ⟨at_.rest.drop 1, at_.position + 1⟩

def skip (at_ : Cursor) (count : Nat) : Cursor := ⟨at_.rest.drop count, at_.position + count⟩

def isSpace (c : Char) : Bool :=
  c == ' ' || c == '\t' || c == '\n' || c == '\r'

def skipSpace (at_ : Cursor) : Cursor :=
  at_.skip (at_.rest.takeWhile isSpace).length

end Cursor

/-- Store a value under a key: in place if the key is there, at the end if not. -/
def put (key : String) (v : Value) : List (Value × Value) → List (Value × Value)
  | [] => [(.text key, v)]
  | (k, old) :: rest => if k.isText key then (k, v) :: rest else (k, old) :: put key v rest

/-- The number written by four hexadecimal digits at the front of a text. -/
def fourHex? : List Char → Option Nat
  | a :: b :: c :: d :: _ =>
    match hexValue? a, hexValue? b, hexValue? c, hexValue? d with
    | some a, some b, some c, some d => some (((a * 16 + b) * 16 + c) * 16 + d)
    | _, _, _, _ => none
  | _ => none

def shortEscape? : Char → Option Char
  | '\x22' => some '\x22'
  | '\\' => some '\\'
  | '/' => some '/'
  | 'b' => some '\x08'
  | 'f' => some '\x0c'
  | 'n' => some '\n'
  | 'r' => some '\r'
  | 't' => some '\t'
  | _ => none

/-- Whether a code is the first of two surrogates. -/
def isHigh (code : Nat) : Bool := decide (0xD800 ≤ code) && decide (code < 0xDC00)

def isLow (code : Nat) : Bool := decide (0xDC00 ≤ code) && decide (code < 0xE000)

/-- The character of a code; a surrogate that stands alone is replaced. -/
def charOf (code : Nat) : Char :=
  if code.isValidChar then Char.ofNat code else '\uFFFD'

/-- Read the code after the two characters of a code escape at `at_`: the
character and the cursor behind it. -/
def readCode (at_ : Cursor) : Except Stop (Char × Cursor) :=
  let digits := at_.rest.drop 2
  if digits.length < 5 then .error ⟨.unicodeEscape, at_.position + 1⟩
  else
    match fourHex? digits with
    | none => .error ⟨.unicodeEscape, at_.position + 1⟩
    | some code =>
      let after := digits.drop 4
      match isHigh code && decide (6 < after.length), after with
      | true, '\\' :: 'u' :: more =>
        match fourHex? more with
        | none => .error ⟨.unicodeEscape, at_.position + 7⟩
        | some second =>
          if isLow second then
            .ok (charOf (0x10000 + (code - 0xD800) * 0x400 + (second - 0xDC00)), at_.skip 12)
          else .ok (charOf code, at_.skip 6)
      | _, _ => .ok (charOf code, at_.skip 6)

/-- Read the rest of a string, up to its closing mark.  `start` is the place
of the opening one, and `read` holds the characters read, last one first. -/
def readString (start : Nat) : Nat → List Char → Cursor → Except Stop (String × Cursor)
  | 0, _, _ => .error ⟨.unterminatedString, start⟩
  | fuel + 1, read, at_ =>
    match at_.rest with
    | [] => .error ⟨.unterminatedString, start⟩
    | '\x22' :: _ => .ok (String.ofList read.reverse, at_.next)
    | ['\\'] => .error ⟨.unterminatedString, start⟩
    | '\\' :: 'u' :: _ =>
      match readCode at_ with
      | .ok (c, after) => readString start fuel (c :: read) after
      | .error stop => .error stop
    | '\\' :: c :: _ =>
      match shortEscape? c with
      | some meant => readString start fuel (meant :: read) (at_.skip 2)
      | none => at_.stop .escape
    | c :: _ =>
      if c.toNat < 0x20 then at_.stop .controlCharacter
      else readString start fuel (c :: read) at_.next

def digitsValue (ds : List Char) : Nat :=
  ds.foldl (fun n d => n * 10 + (d.toNat - '0'.toNat)) 0

/-- The fraction behind the whole part of a number: its digits, if a point and
a digit follow. -/
def fractionDigits : List Char → List Char
  | '.' :: rest => rest.takeWhile isAsciiDigit
  | _ => []

/-- The power of ten behind a number, and how many characters it takes; none if
no digit follows its mark. -/
def powerOf? : List Char → Option (Int × Nat)
  | e :: rest =>
    if e = 'e' ∨ e = 'E' then
      let (negative, signWidth, digits) :=
        match rest with
        | '-' :: more => (true, 1, more)
        | '+' :: more => (false, 1, more)
        | more => (false, 0, more)
      let ds := digits.takeWhile isAsciiDigit
      if ds.isEmpty then none
      else
        let n : Int := digitsValue ds
        some (if negative then -n else n, 1 + signWidth + ds.length)
    else none
  | [] => none

def readNumber (at_ : Cursor) : Except Stop (Value × Cursor) :=
  let (negative, signWidth, rest) :=
    match at_.rest with
    | '-' :: more => (true, 1, more)
    | more => (false, 0, more)
  let whole :=
    match rest with
    | '0' :: _ => ['0']
    | more => more.takeWhile isAsciiDigit
  if whole.isEmpty then at_.stop .value
  else
    let after := rest.drop whole.length
    let fraction := fractionDigits after
    let fractionWidth := if fraction.isEmpty then 0 else fraction.length + 1
    let power := powerOf? (after.drop fractionWidth)
    let powerWidth := (power.map Prod.snd).getD 0
    let behind := at_.skip (signWidth + whole.length + fractionWidth + powerWidth)
    if fraction.isEmpty && power.isNone then
      let n : Int := digitsValue whole
      .ok (.int (if negative then -n else n), behind)
    else
      let exponent := (power.map Prod.fst).getD 0 - (fraction.length : Int)
      .ok (.float (Binary64.ofDecimal negative (digitsValue (whole ++ fraction)) exponent), behind)

def words : List (String × Value) :=
  [("null", .null), ("true", .bool true), ("false", .bool false), ("NaN", .float .nan),
    ("Infinity", .float (.infinite false)), ("-Infinity", .float (.infinite true))]

def word? (cs : List Char) : Option (String × Value) :=
  words.find? fun w => w.1.toList.isPrefixOf cs

mutual

def readValue : Nat → Cursor → Except Stop (Value × Cursor)
  | 0, at_ => at_.stop .value
  | fuel + 1, at_ =>
    match at_.rest with
    | '\x22' :: _ =>
      match readString at_.position at_.rest.length [] at_.next with
      | .ok (s, after) => .ok (.text s, after)
      | .error stop => .error stop
    | '[' :: _ =>
      let inside := at_.next.skipSpace
      match inside.rest with
      | ']' :: _ => .ok (.list [], inside.next)
      | _ => readItems fuel [] inside
    | '\x7b' :: _ =>
      let inside := at_.next.skipSpace
      match inside.rest with
      | '\x7d' :: _ => .ok (.map [], inside.next)
      | _ => readFields fuel [] inside
    | _ =>
      match word? at_.rest with
      | some (w, v) => .ok (v, at_.skip w.length)
      | none => readNumber at_
termination_by structural fuel => fuel

/-- Read the items of a list up to its closing bracket.  `read` holds the items
read, last one first. -/
def readItems : Nat → List Value → Cursor → Except Stop (Value × Cursor)
  | 0, _, at_ => at_.stop .value
  | fuel + 1, read, at_ =>
    match readValue fuel at_ with
    | .error stop => .error stop
    | .ok (v, after) =>
      let after := after.skipSpace
      match after.rest with
      | ']' :: _ => .ok (.list (v :: read).reverse, after.next)
      | ',' :: _ => readItems fuel (v :: read) after.next.skipSpace
      | _ => after.stop .comma
termination_by structural fuel => fuel

def readFields : Nat → List (Value × Value) → Cursor → Except Stop (Value × Cursor)
  | 0, _, at_ => at_.stop .propertyName
  | fuel + 1, read, at_ =>
    match at_.rest with
    | '\x22' :: _ =>
      match readString at_.position at_.rest.length [] at_.next with
      | .error stop => .error stop
      | .ok (key, after) =>
        let after := after.skipSpace
        match after.rest with
        | ':' :: _ =>
          match readValue fuel after.next.skipSpace with
          | .error stop => .error stop
          | .ok (v, after) =>
            let after := after.skipSpace
            let read := put key v read
            match after.rest with
            | '\x7d' :: _ => .ok (.map read, after.next)
            | ',' :: _ => readFields fuel read after.next.skipSpace
            | _ => after.stop .comma
        | _ => after.stop .colon
    | _ => at_.stop .propertyName
termination_by structural fuel => fuel

end

/-- Read a whole text.  Every value takes at least one character, so the length
of the text bounds the depth of the reading. -/
def read (cs : List Char) : Except Stop Value :=
  match cs with
  | '\uFEFF' :: _ => .error ⟨.byteOrderMark, 0⟩
  | _ =>
    match readValue (2 * cs.length + 2) (Cursor.skipSpace ⟨cs, 0⟩) with
    | .error stop => .error stop
    | .ok (v, after) =>
      let after := after.skipSpace
      if after.rest.isEmpty then .ok v else after.stop .extraData

end Json
end TrafficGraph
