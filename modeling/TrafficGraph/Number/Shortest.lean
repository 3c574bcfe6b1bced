import TrafficGraph.Number.Binary64

/-!
# Shortest decimal text

A finite floating-point number is written with the fewest decimal digits that
read back as the same number; of two such texts of one length the nearer one
is taken, and of two equally near ones the one that ends in an even digit.

The numbers that read back as a given one form an interval around it, whose
ends belong to it when the mantissa is even.  For each count of digits only
the two neighbours of the number on that decimal grid can be nearest.
-/

namespace TrafficGraph
namespace Binary64

/-- Compare two quotients: whether `a / b` is below `c / d`. -/
def ratioLt (a b c d : Nat) : Bool := decide (a * d < c * b)

/-- A positive number together with the interval that reads back as it.  The
three numerators stand over one denominator. -/
structure Rounding where
  low : Nat
  value : Nat
  high : Nat
  den : Nat
  closed : Bool
  deriving DecidableEq, Repr

def rounding (mantissa : Nat) (exponent : Int) : Rounding :=
  let unit := scale 1 1 (exponent - 2)
  let below := if mantissa = Nat.pow 2 52 ∧ minExponent < exponent then 1 else 2
  { low := (4 * mantissa - below) * unit.1
    value := 4 * mantissa * unit.1
    high := (4 * mantissa + 2) * unit.1
    den := unit.2
    closed := mantissa % 2 == 0 }

def powerOfTen : Int → Nat × Nat
  | .ofNat n => (Nat.pow 10 n, 1)
  | .negSucc n => (1, Nat.pow 10 (n + 1))

def raiseExponent (num den : Nat) : Nat → Int → Int
  | 0, k => k
  | fuel + 1, k =>
    let next := powerOfTen (k + 1)
    if ratioLt num den next.1 next.2 then k else raiseExponent num den fuel (k + 1)

/-- The exponent of the largest power of ten that is not above a positive
quotient. -/
def decimalExponent (num den : Nat) : Int :=
  let binary : Int := (num.log2 : Int) - (den.log2 : Int) - 1
  raiseExponent num den 4 (Int.fdiv (binary * 30103) 100000 - 1)

/-- Whether `c * 10 ^ p` lies in the interval. -/
def Rounding.holds (r : Rounding) (c : Nat) (p : Int) : Bool :=
  let step := powerOfTen p
  let num := c * step.1
  if r.closed then
    !ratioLt num step.2 r.low r.den && !ratioLt r.high r.den num step.2
  else
    ratioLt r.low r.den num step.2 && ratioLt num step.2 r.high r.den

/-- The nearer of the two neighbours of the value on the grid of `10 ^ p`, of
those that lie in the interval. -/
def Rounding.onGrid? (r : Rounding) (p : Int) : Option (Nat × Int) :=
  let step := powerOfTen p
  let scaled := r.value * step.2
  let unit := r.den * step.1
  let c := scaled / unit
  let rest := scaled % unit
  match r.holds c p, r.holds (c + 1) p with
  | true, true =>
    if 2 * rest < unit ∨ (2 * rest = unit ∧ c % 2 = 0) then some (c, p) else some (c + 1, p)
  | true, false => some (c, p)
  | false, true => some (c + 1, p)
  | false, false => none

def shortest (mantissa : Nat) (exponent : Int) : Nat × Int :=
  let r := rounding mantissa exponent
  let k := decimalExponent r.value r.den
  ((List.range 17).findSome? fun (i : Nat) => r.onGrid? (k - (i : Int))).getD (mantissa, exponent)

/-- Strip the zeros at the end of a number's digits.  `fuel` bounds the count
of zeros. -/
def stripZeros : Nat → Nat → Int → Nat × Int
  | 0, digits, p => (digits, p)
  | fuel + 1, digits, p =>
    if digits % 10 = 0 then stripZeros fuel (digits / 10) (p + 1) else (digits, p)

/-- How decimals are laid out: the decimal exponents between which a number is
written without a power of ten, and the least count of digits of the power. -/
structure Layout where
  positionalFrom : Int
  positionalBelow : Int
  exponentWidth : Nat

/-- Numbers from `10 ^ (-4)` to below `10 ^ 16` are written out, with a zero
behind the point if nothing else stands there; all others carry a power of ten
of at least two digits. -/
def layout : Layout := ⟨-4, 16, 2⟩

def zeros (count : Nat) : List Char := List.replicate count '0'

/-- The text of `digits * 10 ^ p`, for positive digits. -/
def Layout.decimal (style : Layout) (digits : Nat) (p : Int) : List Char :=
  let ds := (toString digits).toList
  let lead : Int := p + ds.length - 1
  if style.positionalFrom ≤ lead ∧ lead < style.positionalBelow then
    if 0 ≤ p then ds ++ zeros p.toNat ++ ['.', '0']
    else if 0 ≤ lead then ds.take (lead.toNat + 1) ++ '.' :: ds.drop (lead.toNat + 1)
    else '0' :: '.' :: zeros (-lead - 1).toNat ++ ds
  else
    let power := (toString lead.natAbs).toList
    let mantissa :=
      match ds with
      | d :: [] => [d]
      | d :: more => d :: '.' :: more
      | [] => []
    mantissa ++ 'e' :: (if lead < 0 then '-' else '+') ::
      (zeros (style.exponentWidth - power.length) ++ power)

def text (infinity notANumber : String) : Binary64 → String
  | .nan => notANumber
  | .infinite negative => (if negative then "-" else "") ++ infinity
  | .finite negative m e =>
    let body :=
      if m = 0 then ['0', '.', '0']
      else
        let s := shortest m e
        let t := stripZeros 400 s.1 s.2
        layout.decimal t.1 t.2
    String.ofList (if negative then '-' :: body else body)

def display : Binary64 → String := text "inf" "nan"

example : (ofDecimal false 80 0).display = "80.0" := by decide +kernel
example : (ofDecimal false 1 16).display = "1e+16" := by decide +kernel
example : (ofDecimal false 1 (-5)).display = "1e-05" := by decide +kernel
example : (ofDecimal true 12345 (-3)).display = "-12.345" := by decide +kernel
example : (ofDecimal false 5 (-324)).display = "5e-324" := by decide +kernel
example : (ofDecimal false 112589990684262425 (-2)).display = "1125899906842624.2" := by
  decide +kernel

end Binary64
end TrafficGraph
