import Markbook.Decimal.Notation

/-!
# Instants

An instant is a count of milliseconds since the start of 1970, in universal time, and is written as
a date and a time of day.  Dates are counted in the Gregorian calendar, before its introduction as
well. The calendar repeats every 400 years, which are 146097 days; the days of such an era are
counted from the first of March, so that a leap day is the last day of its year.
-/

namespace Markbook

structure Date where
  year : Int
  month : Nat
  day : Nat
deriving DecidableEq, Repr

namespace Date

/-- Days in an era of 400 years. -/
def eraDays : Nat := 146097

/-- The year of an era from a day of the era, both from zero. -/
def yearOfEra (day : Nat) : Nat := (day - day / 1460 + day / 36524 - day / 146096) / 365

/-- The first day of a year of an era. -/
def firstOfYear (year : Nat) : Nat := 365 * year + year / 4 - year / 100

/-- The first day of a month, counted from March as zero, in its year. -/
def firstOfMonth (month : Nat) : Nat := (153 * month + 2) / 5

/-- The date a number of days after the first of January 1970. -/
def ofDays (n : Int) : Date :=
  let sinceMarch := n + 719468
  let day := (sinceMarch % eraDays).toNat
  let year := yearOfEra day
  let rest := day - firstOfYear year
  let month := (5 * rest + 2) / 153
  let isNextYear := 10 ≤ month
  { year := sinceMarch / eraDays * 400 + year + if isNextYear then 1 else 0
    month := if isNextYear then month - 9 else month + 3
    day := rest - firstOfMonth month + 1 }

def isShowable (d : Date) : Bool := -262143 ≤ d.year && d.year ≤ 262142

/-- A number with zeros in front, up to a number of digits. -/
def filled (count n : Nat) : Text :=
  let s := Decimal.digitsOf n
  Decimal.zeros (count - s.length) ++ s

/-- A year takes four digits, and a sign outside of the years 0 to 9999. -/
def yearText (y : Int) : Text :=
  let s := filled 4 y.natAbs
  if y < 0 then '-' :: s else if 9999 < y then '+' :: s else s

def text (d : Date) : Text := yearText d.year ++ '-' :: filled 2 d.month ++ '-' :: filled 2 d.day

end Date

/-- Milliseconds since the start of 1970. -/
abbrev Instant := Int

namespace Instant

/-- Milliseconds in a day. -/
def dayLength : Nat := 86400000

def date (t : Instant) : Date := .ofDays (t / dayLength)

/-- The time of day, with milliseconds unless there are none. -/
def clockText (t : Instant) : Text :=
  let n := (t % dayLength).toNat
  let two : Nat → Text := Date.filled 2
  two (n / 3600000) ++ ':' :: two (n / 60000 % 60) ++ ':' :: two (n / 1000 % 60) ++
    if n % 1000 = 0 then [] else '.' :: Date.filled 3 (n % 1000)

/-- An instant as date and time with the offset of universal time.  Years that are too far off are
not shown. -/
def text? (t : Instant) : Option Text :=
  if t.date.isShowable then
    some (t.date.text ++ 'T' :: t.clockText ++ "+00:00".toList)
  else none

end Instant

end Markbook
