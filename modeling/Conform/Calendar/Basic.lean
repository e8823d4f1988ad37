/-
  Conform/Calendar/Basic.lean
  ===========================
  **Dates and times** of the proleptic Gregorian calendar, from year 1 to year
  9999, to the microsecond.

  A moment may carry an offset from universal time.  With an offset it is an
  instant, and instants are compared on one line (`DateTime.instant?`);
  without, it is compared by its fields.
-/
import Conform.Number.Rounding

namespace Conform.Calendar

/-- Microseconds of a second. -/
def second : Int := 1000000

/-- Microseconds of a day. -/
def dayLength : Int := 86400 * second

/-- A date of the calendar. -/
structure Date where
  year : Nat
  month : Nat
  day : Nat
deriving DecidableEq, Repr, Inhabited

/-- A time of day. -/
structure Clock where
  hour : Nat
  minute : Nat
  second : Nat
  microsecond : Nat
deriving DecidableEq, Repr, Inhabited

/-- A length of time, in microseconds. -/
structure Duration where
  microseconds : Int
deriving DecidableEq, Repr, Inhabited

/-- An offset from universal time, in microseconds. -/
abbrev Offset := Duration

/-- A time of day, with or without an offset. -/
structure Time where
  clock : Clock
  offset : Option Offset
deriving DecidableEq, Repr, Inhabited

/-- A date and a time of day, with or without an offset. -/
structure DateTime where
  date : Date
  clock : Clock
  offset : Option Offset
deriving DecidableEq, Repr, Inhabited

/-! ### Dates -/

/-- A year with a twenty-ninth of February. -/
def isLeap (year : Nat) : Bool :=
  year % 4 == 0 && (year % 100 != 0 || year % 400 == 0)

/-- The days of a month. -/
def monthLength (year month : Nat) : Nat :=
  match month with
  | 2 => if isLeap year then 29 else 28
  | 4 | 6 | 9 | 11 => 30
  | _ => 31

/-- The days of a year before a month. -/
def daysBeforeMonth (year month : Nat) : Nat :=
  (List.range (month - 1)).foldl (fun days k => days + monthLength year (k + 1)) 0

/-- The days before a year, counted from the first of January of year 1. -/
def daysBeforeYear (year : Nat) : Nat :=
  let y := year - 1
  y * 365 + y / 4 - y / 100 + y / 400

/-- The number of a date; the first of January of year 1 has number one. -/
def Date.ordinal (d : Date) : Nat :=
  daysBeforeYear d.year + daysBeforeMonth d.year d.month + d.day

/-- The fields name a date of the calendar. -/
def Date.isValid (d : Date) : Bool :=
  1 ≤ d.year && d.year ≤ 9999 && 1 ≤ d.month && d.month ≤ 12 &&
    1 ≤ d.day && d.day ≤ monthLength d.year d.month

/-- The month and day of a day of the year, counted from zero. -/
def monthOfDay (year : Nat) : Nat → Nat → Nat × Nat
  | 0, day => (12, day + 1)
  | left + 1, day =>
    let month := 11 - left
    let size := monthLength year month
    if day < size then (month, day + 1) else monthOfDay year left (day - size)

/-- The date with a number, when it is in the calendar. -/
def Date.ofOrdinal? (n : Int) : Option Date :=
  if n < 1 then none
  else
    let days := n.toNat - 1
    -- the estimate is at most one year too early or too late
    let guess := days * 400 / 146097 + 1
    let year := if daysBeforeYear (guess + 1) ≤ days then guess + 1
      else if daysBeforeYear guess ≤ days then guess else guess - 1
    let (month, day) := monthOfDay year 11 (days - daysBeforeYear year)
    if year ≤ 9999 then some ⟨year, month, day⟩ else none

/-- The day of the week of a date, Monday being zero. -/
def Date.weekday (d : Date) : Nat :=
  (d.ordinal + 6) % 7

/-- The day of a numbered week, when there is such a week: weeks begin on Monday, and week one has
the year's first Thursday. -/
def Date.ofWeek? (year week day : Nat) : Option Date :=
  if year < 1 ∨ 9999 < year ∨ day < 1 ∨ 7 < day ∨ week < 1 then none
  else
    let first : Date := ⟨year, 1, 1⟩
    let long := first.weekday == 3 || (first.weekday == 2 && isLeap year)
    if 53 < week ∨ (week = 53 ∧ !long) then none
    else
      let monday : Int := first.ordinal - first.weekday + (if 3 < first.weekday then 7 else 0)
      Date.ofOrdinal? (monday + (week - 1) * 7 + day - 1)

/-! ### Times and moments -/

/-- The fields name a time of day. -/
def Clock.isValid (c : Clock) : Bool :=
  c.hour < 24 && c.minute < 60 && c.second < 60 && c.microsecond < 1000000

/-- Microseconds since midnight. -/
def Clock.toMicroseconds (c : Clock) : Int :=
  ((c.hour * 60 + c.minute) * 60 + c.second : Nat) * Calendar.second + c.microsecond

/-- The time of day that many microseconds after midnight. -/
def Clock.ofMicroseconds (n : Nat) : Clock :=
  ⟨n / 3600000000, n / 60000000 % 60, n / 1000000 % 60, n % 1000000⟩

/-- The start of a day. -/
def Clock.midnight : Clock := ⟨0, 0, 0, 0⟩

/-- Universal time itself. -/
def Offset.utc : Offset := ⟨0⟩

/-- An offset is less than a day in either direction. -/
def Offset.isValid (o : Offset) : Bool :=
  -dayLength < o.microseconds && o.microseconds < dayLength

/-- Microseconds since the start of year 1, less a day, by the fields alone. -/
def DateTime.local (d : DateTime) : Int :=
  d.date.ordinal * dayLength + d.clock.toMicroseconds

/-- The instant of a moment with an offset. -/
def DateTime.instant? (d : DateTime) : Option Int :=
  d.offset.map fun o => d.local - o.microseconds

/-- The moment whose fields are that many microseconds after the start of year 1, less a day. -/
def DateTime.ofLocal? (n : Int) (offset : Option Offset) : Option DateTime :=
  (Date.ofOrdinal? (n / dayLength)).map fun date =>
    ⟨date, Clock.ofMicroseconds (n % dayLength).toNat, offset⟩

/-- The moment from which timestamps are counted. -/
def epoch : DateTime := ⟨⟨1970, 1, 1⟩, .midnight, some Offset.utc⟩

/-- The moment after a length of time, by its fields. -/
def DateTime.after? (d : DateTime) (length : Duration) : Option DateTime :=
  DateTime.ofLocal? (d.local + length.microseconds) d.offset

/-- The most days that a length of time may have. -/
def Duration.maxDays : Int := 999999999

/-- A length of time that is within the limit. -/
def Duration.ofMicroseconds? (n : Int) : Option Duration :=
  let days := n / dayLength
  if -Duration.maxDays ≤ days ∧ days ≤ Duration.maxDays then some ⟨n⟩ else none

/-- Whole days of a length of time, rounded down. -/
def Duration.days (d : Duration) : Int :=
  d.microseconds / dayLength

/-- Seconds past the whole days. -/
def Duration.seconds (d : Duration) : Nat :=
  (d.microseconds % dayLength / second).toNat

/-- Microseconds past the whole seconds. -/
def Duration.fraction (d : Duration) : Nat :=
  (d.microseconds % second).toNat

/-- A key by which two times of day are compared: both with an offset or both without. -/
def Time.key (t : Time) : Int :=
  t.clock.toMicroseconds - (t.offset.map (·.microseconds)).getD 0

end Conform.Calendar
