/-!
Instants of universal time, to the nanosecond, with their calendar date.  The calendar is the
Gregorian one for all years.  A second may be the sixtieth of its minute, which is a leap second.
-/

namespace ShardVault

namespace Calendar

/-- Whether a year has a 29th of February. -/
def isLeap (year : Int) : Bool :=
  (year % 4 == 0 && year % 100 != 0) || year % 400 == 0

/-- The number of days of a month, and none for a number that is no month. -/
def daysInMonth (year : Int) (month : Nat) : Nat :=
  match month with
  | 1 | 3 | 5 | 7 | 8 | 10 | 12 => 31
  | 4 | 6 | 9 | 11 => 30
  | 2 => if isLeap year then 29 else 28
  | _ => 0

/-- The first and the last year that dates have. -/
def firstYear : Int := -262143

/-- The last year that dates have. -/
def lastYear : Int := 262142

/-- Whether there is such a date. -/
def IsDate (year : Int) (month day : Nat) : Prop :=
  firstYear ≤ year ∧ year ≤ lastYear ∧ 1 ≤ day ∧ day ≤ daysInMonth year month

instance (year : Int) (month day : Nat) : Decidable (IsDate year month day) :=
  inferInstanceAs (Decidable (_ ∧ _))

/-- The date of the next day. -/
def nextDay (year : Int) (month day : Nat) : Int × Nat × Nat :=
  if day < daysInMonth year month then (year, month, day + 1)
  else if month < 12 then (year, month + 1, 1)
  else (year + 1, 1, 1)

/-- The date of the day before. -/
def previousDay (year : Int) (month day : Nat) : Int × Nat × Nat :=
  if 1 < day then (year, month, day - 1)
  else if 1 < month then (year, month - 1, daysInMonth year (month - 1))
  else (year - 1, 12, 31)

end Calendar

/-- An instant of universal time. -/
structure Instant where
  year : Int
  month : Nat
  day : Nat
  hour : Nat
  minute : Nat
  second : Nat
  nanosecond : Nat
  isDate : Calendar.IsDate year month day
  hour_lt : hour < 24
  minute_lt : minute < 60
  second_le : second ≤ 60
  nanosecond_lt : nanosecond < 1000000000
deriving DecidableEq, Repr

namespace Instant

/-- The instant with these fields, if there is such a one. -/
def ofFields? (year : Int) (month day hour minute second nanosecond : Nat) : Option Instant :=
  if h : Calendar.IsDate year month day ∧ hour < 24 ∧ minute < 60 ∧ second ≤ 60 ∧
      nanosecond < 1000000000 then
    some ⟨year, month, day, hour, minute, second, nanosecond, h.1, h.2.1, h.2.2.1, h.2.2.2.1,
      h.2.2.2.2⟩
  else none

/-- The beginning of the year 1970. -/
def epoch : Instant :=
  ⟨1970, 1, 1, 0, 0, 0, 0, by decide, by decide, by decide, by decide, by decide⟩

/-- The instant of a local time that is ahead of universal time by some minutes, fewer than a day
    has.  Both the local and the universal date have to exist. -/
def ofLocal? (year : Int) (month day hour minute second nanosecond : Nat) (ahead : Int) :
    Option Instant :=
  if Calendar.IsDate year month day ∧ hour < 24 ∧ minute < 60 then
    let total := (hour * 60 + minute : Int) - ahead
    let (year, month, day) :=
      if total < 0 then Calendar.previousDay year month day
      else if 1440 ≤ total then Calendar.nextDay year month day
      else (year, month, day)
    let total := (total % 1440).toNat
    ofFields? year month day (total / 60) (total % 60) second nanosecond
  else none

end Instant

end ShardVault
