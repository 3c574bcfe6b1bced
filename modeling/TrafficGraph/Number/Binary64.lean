import TrafficGraph.Text.Characters
import TrafficGraph.Text.Numeral

/-!
# Binary floating point

A floating-point number of sixty-four bits is an integer below `2 ^ 53` times
a power of two, with a sign, or an infinity, or not a number.  Nothing here
uses machine arithmetic: an operation computes the exact rational result and
rounds it once, to the nearest number and on a tie to the even one.
-/

namespace TrafficGraph

/-- A floating-point number.  The finite ones have the value
`mantissa * 2 ^ exponent`, with a minus sign when `negative`. -/
inductive Binary64 where
  | nan
  | infinite (negative : Bool)
  | finite (negative : Bool) (mantissa : Nat) (exponent : Int)
  deriving DecidableEq, Repr

namespace Binary64

def minExponent : Int := -1074

def maxExponent : Int := 971

def zero (negative : Bool) : Binary64 := .finite negative 0 minExponent

/-- The quotient of two numbers, rounded to the nearest whole number, and on a
tie to the even one. -/
def roundQuotient (num den : Nat) : Nat :=
  let q := num / den
  let r := num % den
  if 2 * r < den then q
  else if den < 2 * r then q + 1
  else q + q % 2

def scale (num den : Nat) (exponent : Int) : Nat × Nat :=
  match exponent with
  | .ofNat n => (num * Nat.pow 2 n, den)
  | .negSucc n => (num, den * Nat.pow 2 (n + 1))

/-- The exponent at which a positive quotient has a whole part of fifty-three
binary digits, or the smallest exponent if that is larger. -/
def exponentOf (num den : Nat) : Int :=
  let low : Int := (num.log2 : Int) - (den.log2 : Int) - 53
  let scaled := scale num den (-low)
  max minExponent (if Nat.pow 2 53 ≤ scaled.1 / scaled.2 then low + 1 else low)

def ofRatio (negative : Bool) (num den : Nat) : Binary64 :=
  if num = 0 then zero negative
  else
    let e := exponentOf num den
    let scaled := scale num den (-e)
    let m := roundQuotient scaled.1 scaled.2
    let (m, e) := if m = Nat.pow 2 53 then (Nat.pow 2 52, e + 1) else (m, e)
    if maxExponent < e then .infinite negative
    else if m = 0 then zero negative
    else .finite negative m e

/-- The number nearest to a signed quotient.  A zero result takes the sign
`negativeZero`. -/
def ofSignedRatio (negativeZero : Bool) (num : Int) (den : Nat) : Binary64 :=
  if num = 0 then zero negativeZero else ofRatio (decide (num < 0)) num.natAbs den

def ofInt (n : Int) : Binary64 := ofSignedRatio false n 1

/-- The number nearest to `digits * 10 ^ exponent`.  Exponents far outside the
range of the finite numbers are cut off before the power is taken. -/
def ofDecimal (negative : Bool) (digits : Nat) (exponent : Int) : Binary64 :=
  if digits = 0 then zero negative
  else
    let magnitude : Int := ((toString digits).length : Int) + exponent
    if 400 < magnitude then .infinite negative
    else if magnitude < -400 then zero negative
    else
      match exponent with
      | .ofNat n => ofRatio negative (digits * Nat.pow 10 n) 1
      | .negSucc n => ofRatio negative digits (Nat.pow 10 (n + 1))

/-- The exact value of a finite number, as a signed numerator over a positive
denominator. -/
def toRatio? : Binary64 → Option (Int × Nat)
  | .finite negative m e =>
    let r := scale m 1 e
    some (if negative then -(r.1 : Int) else r.1, r.2)
  | _ => none

def isNegative : Binary64 → Bool
  | .nan => false
  | .infinite negative => negative
  | .finite negative _ _ => negative

def neg : Binary64 → Binary64
  | .nan => .nan
  | .infinite negative => .infinite (!negative)
  | .finite negative m e => .finite (!negative) m e

def add : Binary64 → Binary64 → Binary64
  | .nan, _ => .nan
  | _, .nan => .nan
  | .infinite s, .infinite t => if s = t then .infinite s else .nan
  | .infinite s, _ => .infinite s
  | _, .infinite t => .infinite t
  | x, y =>
    match toRatio? x, toRatio? y with
    | some (a, b), some (c, d) =>
      ofSignedRatio (x.isNegative && y.isNegative) (a * d + c * b) (b * d)
    | _, _ => .nan

def mul : Binary64 → Binary64 → Binary64
  | .nan, _ => .nan
  | _, .nan => .nan
  | .infinite s, .infinite t => .infinite (s != t)
  | .infinite s, .finite t m _ => if m = 0 then .nan else .infinite (s != t)
  | .finite s m _, .infinite t => if m = 0 then .nan else .infinite (s != t)
  | x, y =>
    match toRatio? x, toRatio? y with
    | some (a, b), some (c, d) => ofRatio (x.isNegative != y.isNegative) (a * c).natAbs (b * d)
    | _, _ => .nan

def isFinite : Binary64 → Bool
  | .finite _ _ _ => true
  | _ => false

def isZero : Binary64 → Bool
  | .finite _ m _ => m == 0
  | _ => false

def toInt? (x : Binary64) : Option Int :=
  (toRatio? x).bind fun r => if r.1 % (r.2 : Int) = 0 then some (r.1 / (r.2 : Int)) else none

/-- Equality of values.  The two zeros are equal; not-a-number counts as equal
to itself, since a document has only one such value. -/
def same : Binary64 → Binary64 → Bool
  | .nan, .nan => true
  | .infinite s, .infinite t => s == t
  | x, y =>
    match toRatio? x, toRatio? y with
    | some (a, b), some (c, d) => a * d == c * b
    | _, _ => false

def sameInt (x : Binary64) (n : Int) : Bool :=
  match toRatio? x with
  | some (a, b) => a == n * b
  | none => false

example : ofRatio false 1 10 = .finite false 7205759403792794 (-56) := by decide +kernel
example : ofDecimal false 1 400 = .infinite false := by decide +kernel
example : (ofDecimal false 80 0).sameInt 80 = true := by decide +kernel

end Binary64
end TrafficGraph

/-!
# Reading decimal fractions

A decimal fraction has digits of any script, an optional point and an optional
power of ten.  The words for infinity and for not-a-number are read in any
case.
-/

namespace TrafficGraph
namespace Binary64

open Text

def takeDigits : Nat → Nat → List Char → Nat × Nat × List Char
  | value, count, [] => (value, count, [])
  | value, count, c :: rest =>
    match decimalDigit? c with
    | some d => takeDigits (value * 10 + d) (count + 1) rest
    | none => (value, count, c :: rest)

/-- Read the power of ten behind a fraction: nothing, or the letter `e` with a
whole number. -/
def readPower? : List Char → Option Int
  | [] => some 0
  | mark :: rest =>
    if mark = 'e' ∨ mark = 'E' then
      let (negative, digits) :=
        match rest with
        | '-' :: digits => (true, digits)
        | '+' :: digits => (false, digits)
        | digits => (false, digits)
      match takeDigits 0 0 digits with
      | (value, _ + 1, []) => some (if negative then -(value : Int) else value)
      | _ => none
    else none

def readMagnitude? (negative : Bool) (cs : List Char) : Option Binary64 :=
  let word := String.ofList (cs.map Char.toLower)
  if word = "inf" ∨ word = "infinity" then some (.infinite negative)
  else if word = "nan" then some .nan
  else
    let (whole, wholeCount, rest) := takeDigits 0 0 cs
    let (value, fractionCount, rest) :=
      match rest with
      | '.' :: fraction => takeDigits whole 0 fraction
      | _ => (whole, 0, rest)
    if wholeCount + fractionCount = 0 then none
    else
      (readPower? rest).map fun power =>
        ofDecimal negative value (power - (fractionCount : Int))

def read? (cs : List Char) : Option Binary64 :=
  match trimNumeral cs with
  | '-' :: rest => readMagnitude? true rest
  | '+' :: rest => readMagnitude? false rest
  | rest => readMagnitude? false rest

example : read? "-12.50e1".toList = some (ofDecimal true 125 0) := by decide +kernel
example : read? ".".toList = none := by decide +kernel

end Binary64
end TrafficGraph
