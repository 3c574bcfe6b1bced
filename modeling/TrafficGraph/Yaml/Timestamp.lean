import TrafficGraph.Calendar
import TrafficGraph.Text.Numeral

/-!
# Dates and times as scalars

A date is a year of four digits, a month and a day.  A time may follow it: an
hour, a minute, a second, perhaps a fraction of a second, and perhaps the
distance of the clock from universal time.
-/

namespace TrafficGraph
namespace Yaml

open Text

structure TimeFields where
  hour : Nat
  minute : Nat
  second : Nat
  microsecond : Nat
  /-- The distance from universal time in seconds, if one is written. -/
  offset : Option Int
  deriving DecidableEq, Repr

structure DateFields where
  year : Nat
  month : Nat
  day : Nat
  /-- Whether the month and the day have two digits each. -/
  full : Bool
  time : Option TimeFields
  deriving DecidableEq, Repr

def digitField? (least most : Nat) (cs : List Char) : Option (Nat × Nat × List Char) :=
  let ds := (cs.takeWhile isAsciiDigit).take most
  if ds.length < least then none
  else
    some (ds.foldl (fun n d => n * 10 + (d.toNat - '0'.toNat)) 0, ds.length, cs.drop ds.length)

def mark? (mark : Char) : List Char → Option (List Char)
  | c :: rest => if c = mark then some rest else none
  | [] => none

/-- The first six digits of a fraction of a second, with zeros for missing ones. -/
def microseconds (digits : List Char) : Nat :=
  ((digits ++ List.replicate 6 '0').take 6).foldl (fun n d => n * 10 + (d.toNat - '0'.toNat)) 0

def isSpaceOrTab (c : Char) : Bool := c == ' ' || c == '\t'

/-- Read the distance from universal time behind a time; the outer `none` says
that something else stands there. -/
def readOffset? (cs : List Char) : Option (Option Int) :=
  if cs.isEmpty then some none
  else
    match cs.dropWhile isSpaceOrTab with
    | ['Z'] => some (some 0)
    | sign :: rest =>
      if sign = '+' ∨ sign = '-' then do
        let (hours, _, rest) ← digitField? 1 2 rest
        let minutes ←
          match rest with
          | [] => some 0
          | c :: rest =>
            if c = ':' then do
              let (minutes, _, rest) ← digitField? 2 2 rest
              if rest.isEmpty then some minutes else none
            else none
        let seconds : Int := (hours * 3600 + minutes * 60 : Nat)
        return some (if sign = '-' then -seconds else seconds)
      else none
    | [] => none

def readTime? (cs : List Char) : Option TimeFields := do
  let (hour, _, rest) ← digitField? 1 2 cs
  let rest ← mark? ':' rest
  let (minute, _, rest) ← digitField? 2 2 rest
  let rest ← mark? ':' rest
  let (second, _, rest) ← digitField? 2 2 rest
  let (fraction, rest) :=
    match rest with
    | '.' :: more => (more.takeWhile isAsciiDigit, more.dropWhile isAsciiDigit)
    | _ => ([], rest)
  let offset ← readOffset? rest
  return ⟨hour, minute, second, microseconds fraction, offset⟩

/-- Read a date, and the time behind it if there is one. -/
def readDate? (cs : List Char) : Option DateFields := do
  let (year, _, rest) ← digitField? 4 4 cs
  let rest ← mark? '-' rest
  let (month, monthWidth, rest) ← digitField? 1 2 rest
  let rest ← mark? '-' rest
  let (day, dayWidth, rest) ← digitField? 1 2 rest
  let full := monthWidth == 2 && dayWidth == 2
  match rest with
  | [] => return ⟨year, month, day, full, none⟩
  | c :: more =>
    if c = 'T' ∨ c = 't' then return ⟨year, month, day, full, some (← readTime? more)⟩
    else if isSpaceOrTab c then
      return ⟨year, month, day, full, some (← readTime? (rest.dropWhile isSpaceOrTab))⟩
    else none

/-- Whether a plain scalar with these fields is taken for a date: a date alone
has to have two digits in its month and its day. -/
def DateFields.isPlain (fields : DateFields) : Bool :=
  fields.time.isSome || fields.full

/-- The date, or the date and time, that fields stand for.  The distance from
universal time has to be less than a day, and is checked first. -/
def DateFields.value? (fields : DateFields) : Except CalendarFault (Date × Option Moment) := do
  match fields.time with
  | none =>
    let date ← Date.make fields.year fields.month fields.day
    return (date, none)
  | some time =>
    match time.offset with
    | some offset =>
      if offset ≤ -Calendar.secondsPerDay ∨ Calendar.secondsPerDay ≤ offset then
        throw (.offset offset)
    | none => pure ()
    let date ← Date.make fields.year fields.month fields.day
    let moment ← Moment.make date time.hour time.minute time.second time.microsecond time.offset
    return (date, some moment)

example : (readDate? "2024-01-01".toList).map DateFields.isPlain = some true := by
  decide +kernel
example : (readDate? "2024-1-1".toList).map DateFields.isPlain = some false := by
  decide +kernel

end Yaml
end TrafficGraph
