/-!
# Dates and moments

A date of the Gregorian calendar from the year 1 on, and a moment: a date with
a time of day down to the microsecond and, possibly, the distance of its clock
from universal time in seconds.  Building either one checks its fields from
the largest unit down to the smallest.
-/

namespace TrafficGraph

inductive CalendarFault where
  | year (year : Nat)
  | month
  | day
  | hour
  | minute
  | second
  | offset (seconds : Int)
  deriving DecidableEq, Repr

structure Date where
  year : Nat
  month : Nat
  day : Nat
  deriving DecidableEq, Repr

/-- A time of a day, and the distance of the clock from universal time where
it is known. -/
structure Moment where
  date : Date
  hour : Nat
  minute : Nat
  second : Nat
  microsecond : Nat
  offset : Option Int
  deriving DecidableEq, Repr

namespace Calendar

def secondsPerDay : Int := 86400

/-- A number with at least `width` digits. -/
def padded (width n : Nat) : String :=
  let digits := toString n
  String.ofList (List.replicate (width - digits.length) '0') ++ digits

/-- A span of seconds as whole days and the seconds left over, which are never
negative, with fields that are zero left out. -/
def spanFields (seconds : Int) : String :=
  let days := Int.fdiv seconds secondsPerDay
  let rest := Int.fmod seconds secondsPerDay
  let fields :=
    (if days = 0 then [] else ["days=" ++ toString days]) ++
      (if rest = 0 then [] else ["seconds=" ++ toString rest])
  "datetime.timedelta(" ++ (if fields.isEmpty then "0" else ", ".intercalate fields) ++ ")"

end Calendar

namespace CalendarFault

def message : CalendarFault → String
  | .year given => "year " ++ toString given ++ " is out of range"
  | .month => "month must be in 1..12"
  | .day => "day is out of range for month"
  | .hour => "hour must be in 0..23"
  | .minute => "minute must be in 0..59"
  | .second => "second must be in 0..59"
  | .offset seconds =>
    "offset must be a timedelta strictly between -timedelta(hours=24) and timedelta(hours=24), not "
      ++ Calendar.spanFields seconds ++ "."

end CalendarFault

namespace Date

def isLeap (year : Nat) : Bool :=
  year % 4 == 0 && (year % 100 != 0 || year % 400 == 0)

/-- The days of the months of a year without a leap day. -/
def monthLengths : List Nat := [31, 28, 31, 30, 31, 30, 31, 31, 30, 31, 30, 31]

def daysIn (year month : Nat) : Nat :=
  if month = 2 ∧ isLeap year then 29 else monthLengths.getD (month - 1) 0

def make (year month day : Nat) : Except CalendarFault Date :=
  if year < 1 ∨ 9999 < year then .error (.year year)
  else if month < 1 ∨ 12 < month then .error .month
  else if day < 1 ∨ daysIn year month < day then .error .day
  else .ok ⟨year, month, day⟩

/-- The number of days from the first day of the calendar to a date. -/
def ordinal (d : Date) : Nat :=
  let years := d.year - 1
  365 * years + years / 4 - years / 100 + years / 400 +
    ((List.range (d.month - 1)).map fun i => daysIn d.year (i + 1)).foldr Nat.add 0 + d.day

def text (d : Date) : String :=
  Calendar.padded 4 d.year ++ "-" ++ Calendar.padded 2 d.month ++ "-" ++ Calendar.padded 2 d.day

def nested (d : Date) : String :=
  "datetime.date(" ++ ", ".intercalate [toString d.year, toString d.month, toString d.day] ++ ")"

end Date

namespace Moment

def make (date : Date) (hour minute second microsecond : Nat) (offset : Option Int) :
    Except CalendarFault Moment :=
  if 23 < hour then .error .hour
  else if 59 < minute then .error .minute
  else if 59 < second then .error .second
  else .ok ⟨date, hour, minute, second, microsecond, offset⟩

/-- A distance from universal time of less than a day, as hours and minutes
with a sign. -/
def offsetText (offset : Int) : String :=
  (if offset < 0 then "-" else "+") ++ Calendar.padded 2 (offset.natAbs / 3600) ++ ":" ++
    Calendar.padded 2 (offset.natAbs / 60 % 60)

/-- A moment, with `separator` between the date and the time.  A microsecond
of zero is left out. -/
def textWith (separator : String) (m : Moment) : String :=
  m.date.text ++ separator ++ Calendar.padded 2 m.hour ++ ":" ++ Calendar.padded 2 m.minute ++
    ":" ++ Calendar.padded 2 m.second ++
    (if m.microsecond = 0 then "" else "." ++ Calendar.padded 6 m.microsecond) ++
    (match m.offset with
      | some offset => offsetText offset
      | none => "")

def text (m : Moment) : String := m.textWith " "

def isoText (m : Moment) : String := m.textWith "T"

/-- A moment as it is shown inside a list.  The second and the microsecond are
left out when they and all that follows are zero. -/
def nested (m : Moment) : String :=
  let fields := [m.date.year, m.date.month, m.date.day, m.hour, m.minute] ++
    (if m.microsecond = 0 then (if m.second = 0 then [] else [m.second])
      else [m.second, m.microsecond])
  let zone :=
    match m.offset with
    | none => ""
    | some offset =>
      if offset = 0 then ", tzinfo=datetime.timezone.utc"
      else ", tzinfo=datetime.timezone(" ++ Calendar.spanFields offset ++ ")"
  "datetime.datetime(" ++ ", ".intercalate (fields.map toString) ++ zone ++ ")"

/-- The microseconds from the start of the calendar, on the moment's own
clock less its distance from universal time. -/
def instant (m : Moment) : Int :=
  let seconds : Int :=
    (m.date.ordinal : Int) * Calendar.secondsPerDay + (m.hour * 3600 + m.minute * 60 + m.second : Nat)
      - m.offset.getD 0
  seconds * 1000000 + (m.microsecond : Int)

/-- Equality of moments.  A moment on a clock of unknown place equals no moment
on a known one; two on known clocks are equal when they are the same instant. -/
def same (a b : Moment) : Bool :=
  a.offset.isSome == b.offset.isSome && a.instant == b.instant

end Moment

example : (Date.make 2024 2 30).toOption = none := by decide
example : (Date.mk 2024 1 1).text = "2024-01-01" := by decide +kernel

end TrafficGraph
