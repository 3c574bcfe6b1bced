import TrafficGraph.Text.Characters

/-!
# Decimal digits

Every script of Unicode with decimal digits has its ten digits in a row, from
zero to nine.  A character is therefore a decimal digit exactly when it lies
less than ten places after one of the zeros, and the distance is its value.
-/

namespace TrafficGraph
namespace Text

/-- The zeros of the scripts of Unicode 14 that have decimal digits. -/
def digitZeros : List Nat :=
  [0x30, 0x660, 0x6F0, 0x7C0, 0x966, 0x9E6, 0xA66, 0xAE6, 0xB66, 0xBE6, 0xC66, 0xCE6, 0xD66,
   0xDE6, 0xE50, 0xED0, 0xF20, 0x1040, 0x1090, 0x17E0, 0x1810, 0x1946, 0x19D0, 0x1A80, 0x1A90,
   0x1B50, 0x1BB0, 0x1C40, 0x1C50, 0xA620, 0xA8D0, 0xA900, 0xA9D0, 0xA9F0, 0xAA50, 0xABF0,
   0xFF10, 0x104A0, 0x10D30, 0x11066, 0x110F0, 0x11136, 0x111D0, 0x112F0, 0x11450, 0x114D0,
   0x11650, 0x116C0, 0x11730, 0x118E0, 0x11950, 0x11C50, 0x11D50, 0x11DA0, 0x16A60, 0x16AC0,
   0x16B50, 0x1D7CE, 0x1D7D8, 0x1D7E2, 0x1D7EC, 0x1D7F6, 0x1E140, 0x1E2F0, 0x1E950, 0x1FBF0]

def decimalDigit? (c : Char) : Option Nat :=
  (digitZeros.find? fun start => decide (start ≤ c.toNat) && decide (c.toNat < start + 10)).map
    fun start => c.toNat - start

def letterDigit? (c : Char) : Option Nat :=
  if 'a' ≤ c ∧ c ≤ 'z' then some (c.toNat - 'a'.toNat + 10)
  else if 'A' ≤ c ∧ c ≤ 'Z' then some (c.toNat - 'A'.toNat + 10)
  else none

def digit? (base : Nat) (c : Char) : Option Nat :=
  ((decimalDigit? c).or (letterDigit? c)).filter fun value => decide (value < base)

def hexDigits : List Char :=
  ['0', '1', '2', '3', '4', '5', '6', '7', '8', '9', 'a', 'b', 'c', 'd', 'e', 'f']

def hex : Nat → Nat → List Char
  | 0, _ => []
  | width + 1, n => hex width (n / 16) ++ [hexDigits.getD (n % 16) '0']

theorem length_hex (width n : Nat) : (hex width n).length = width := by
  induction width generalizing n with
  | zero => rfl
  | succ width ih => simp [hex, ih]

def hexValue? (c : Char) : Option Nat :=
  if '0' ≤ c ∧ c ≤ '9' then some (c.toNat - '0'.toNat)
  else (letterDigit? c).filter fun value => decide (value < 16)

def isAsciiDigit (c : Char) : Bool :=
  decide ('0' ≤ c) && decide (c ≤ '9')

end Text
end TrafficGraph

/-!
# Numerals

Whole numbers as people write them: blank characters at either end, an
optional sign, and digits of any script with single underscores between them.
In the bases two, eight and sixteen the digits may follow the mark `0b`, `0o`
or `0x`.
-/

namespace TrafficGraph
namespace Text

/-- Read digits with single underscores between them.  `value` is the number
read so far, and `afterDigit` says whether the last character was a digit. -/
def readDigits (base : Nat) : Bool → Nat → List Char → Option Nat
  | afterDigit, value, [] => if afterDigit then some value else none
  | afterDigit, value, c :: rest =>
    if c = '_' then
      if afterDigit then readDigits base false value rest else none
    else
      match digit? base c with
      | some d => readDigits base true (value * base + d) rest
      | none => none

/-- The number of decimal digits that a whole number may have where it is read or written. -/
def maxDigits : Nat := 4300

def baseMark? (base : Nat) : Option Char :=
  match base with
  | 2 => some 'b'
  | 8 => some 'o'
  | 16 => some 'x'
  | _ => none

/-- The numeral without the mark of its base, and without the one underscore
that may follow the mark. -/
def dropBaseMark (base : Nat) (cs : List Char) : List Char :=
  match cs with
  | '0' :: mark :: rest =>
    if baseMark? base = some mark.toLower then
      match rest with
      | '_' :: tail => tail
      | _ => rest
    else cs
  | _ => cs

def readNat? (base : Nat) (cs : List Char) : Option Nat :=
  readDigits base false 0 (dropBaseMark base cs)

def readInt? (base : Nat) (cs : List Char) : Option Int :=
  match trimNumeral cs with
  | '-' :: rest => (readNat? base rest).map fun n => -(n : Int)
  | '+' :: rest => (readNat? base rest).map Int.ofNat
  | rest => (readNat? base rest).map Int.ofNat

example : readInt? 10 " -8_080 ".toList = some (-8080) := by decide +kernel
example : readInt? 10 "8__080".toList = none := by decide +kernel
example : readInt? 16 "0x_ff".toList = some 255 := by decide +kernel

end Text
end TrafficGraph

/-!
# Base 64

Bytes are written in groups of four digits of six bits, the last group filled
up with equality signs.  The reader passes over every character that is no
digit, and stops at the sign that fills up a group.
-/

namespace TrafficGraph
namespace Text
namespace Base64

def digit? (c : Char) : Option Nat :=
  if 'A' ≤ c ∧ c ≤ 'Z' then some (c.toNat - 'A'.toNat)
  else if 'a' ≤ c ∧ c ≤ 'z' then some (c.toNat - 'a'.toNat + 26)
  else if '0' ≤ c ∧ c ≤ '9' then some (c.toNat - '0'.toNat + 52)
  else if c = '+' then some 62
  else if c = '/' then some 63
  else none

/-- The bytes that a full group of digits gives when `place` of them were read. -/
def byte? (place last value : Nat) : List UInt8 :=
  match place with
  | 1 => [UInt8.ofNat (last * 4 + value / 16)]
  | 2 => [UInt8.ofNat (last % 16 * 16 + value / 4)]
  | 3 => [UInt8.ofNat (last % 4 * 64 + value)]
  | _ => []

/-- Read digits: `place` of the present group and `fills` equality signs behind
them were read, and `last` is the last digit. -/
def decodeFrom : Nat → Nat → Nat → List Char → Option (List UInt8)
  | place, _, _, [] => if place = 0 then some [] else none
  | place, fills, last, c :: rest =>
    if c = '=' then
      if 2 ≤ place ∧ 4 ≤ place + fills + 1 then some []
      else decodeFrom place (if 2 ≤ place then fills + 1 else fills) last rest
    else
      match digit? c with
      | none => decodeFrom place fills last rest
      | some value =>
        (decodeFrom ((place + 1) % 4) 0 value rest).map (byte? place last value ++ ·)

def decode (cs : List Char) : Option (List UInt8) := decodeFrom 0 0 0 cs

example : decode "aGk=".toList = some [0x68, 0x69] := by decide +kernel
example : decode "aGk".toList = none := by decide +kernel

end Base64
end Text
end TrafficGraph
