/-
# Wikidown.Calendar -- dates and times of day

The Gregorian calendar, extended to all years: a year has a year before it and one after
it, and the year before year 1 is year 0.  A `Moment` is a date and a time of day;
`Moment.later?` moves it by a number of minutes, which may be negative and amounts to
less than a day.
-/

namespace Wikidown.Calendar

set_option autoImplicit false

/-! ## Dates -/

/-- Every fourth year is a leap year, but of the years that end a century only every
fourth one is. -/
def isLeap (year : Int) : Bool := year % 4 == 0 && (year % 100 != 0 || year % 400 == 0)

/-- The number of days in a month, January being month 1. -/
def monthLength (year : Int) (month : Nat) : Nat :=
  match month with
  | 2 => if isLeap year then 29 else 28
  | 4 | 6 | 9 | 11 => 30
  | _ => 31

/-- A date by its year, month and day of the month, each counted from 1. -/
structure Date where
  year : Int
  month : Nat
  day : Nat
  deriving DecidableEq

namespace Date

/-- The first year that can be written. -/
def firstYear : Int := -262143

/-- The last year that can be written. -/
def lastYear : Int := 262142

/-- Whether the date is in the calendar, and in a year that can be written. -/
def isValid (d : Date) : Bool :=
  decide (firstYear ≤ d.year) && decide (d.year ≤ lastYear) && (1 ≤ d.month && d.month ≤ 12)
    && (1 ≤ d.day && d.day ≤ monthLength d.year d.month)

/-- The day after. -/
def next (d : Date) : Date :=
  if d.day < monthLength d.year d.month then { d with day := d.day + 1 }
  else if d.month < 12 then ⟨d.year, d.month + 1, 1⟩
  else ⟨d.year + 1, 1, 1⟩

/-- The day before. -/
def previous (d : Date) : Date :=
  if 1 < d.day then { d with day := d.day - 1 }
  else if 1 < d.month then ⟨d.year, d.month - 1, monthLength d.year (d.month - 1)⟩
  else ⟨d.year - 1, 12, 31⟩

end Date

/-! ## Moments -/

/-- A date and a time of day.  A leap second is second 60 of its minute. -/
structure Moment where
  date : Date
  hour : Nat
  minute : Nat
  second : Nat
  deriving DecidableEq

namespace Moment

/-- Whether the date exists and the clock can show the time. -/
def isValid (m : Moment) : Bool :=
  m.date.isValid && m.hour < 24 && m.minute < 60 && m.second ≤ 60

/-- The number of minutes in a day. -/
def dayMinutes : Int := 1440

/-- The moment some minutes later, less than a day of them, if it can be written. -/
def later? (m : Moment) (minutes : Int) : Option Moment :=
  let total := (m.hour * 60 + m.minute : Nat) + minutes
  let (date, minutes) :=
    if total < 0 then (m.date.previous, total + dayMinutes)
    else if dayMinutes ≤ total then (m.date.next, total - dayMinutes)
    else (m.date, total)
  let moved : Moment := ⟨date, minutes.toNat / 60, minutes.toNat % 60, m.second⟩
  if moved.date.isValid then some moved else none

end Moment

end Wikidown.Calendar
