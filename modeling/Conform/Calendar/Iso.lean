/-
  Conform/Calendar/Iso.lean
  =========================
  **The standard text of dates and times**: year, month and day joined by
  hyphens, a separator, hours, minutes and seconds joined by colons, a
  fraction when it is not zero, and the offset.

  Reading accepts more than is written: dates by week (`2020-W05-3`), forms
  without separators (`20200203`), any single character between date and time,
  times cut short, fractions of any length behind a point or a comma.
-/
import Conform.Calendar.Basic

namespace Conform.Calendar

open Number

/-- A number in at least `width` digits. -/
def padded (width n : Nat) : List Char :=
  let ds := digits n
  List.replicate (width - ds.length) '0' ++ ds

/-! ### Writing -/

/-- Year, month and day. -/
def Date.text (d : Date) : List Char :=
  padded 4 d.year ++ '-' :: padded 2 d.month ++ '-' :: padded 2 d.day

/-- Hours, minutes, seconds, and the fraction unless it is zero. -/
def Clock.text (c : Clock) : List Char :=
  padded 2 c.hour ++ ':' :: padded 2 c.minute ++ ':' :: padded 2 c.second ++
    if c.microsecond = 0 then [] else '.' :: padded 6 c.microsecond

/-- A sign, hours and minutes; seconds and the fraction unless they are zero. -/
def Offset.text (o : Offset) : List Char :=
  let c := Clock.ofMicroseconds o.microseconds.natAbs
  (if o.microseconds < 0 then '-' else '+') :: padded 2 c.hour ++ ':' :: padded 2 c.minute ++
    if c.second = 0 ∧ c.microsecond = 0 then []
    else ':' :: padded 2 c.second ++
      if c.microsecond = 0 then [] else '.' :: padded 6 c.microsecond

/-- The text of an offset; none when there is none. -/
def offsetText (o : Option Offset) : List Char :=
  match o with
  | some o => o.text
  | none => []

/-- The text of a time of day. -/
def Time.text (t : Time) : List Char :=
  t.clock.text ++ offsetText t.offset

/-- The text of a moment, with a separator between date and time. -/
def DateTime.text (separator : Char) (d : DateTime) : List Char :=
  d.date.text ++ separator :: d.clock.text ++ offsetText d.offset

/-- The text of a length of time: days, when there are any, and a time of day. -/
def Duration.text (d : Duration) : List Char :=
  let days := d.days
  let clock := Clock.ofMicroseconds (d.microseconds % dayLength).toNat
  (if days = 0 then []
    else (if days < 0 then ['-'] else []) ++ digits days.natAbs ++
      (if days.natAbs = 1 then " day, " else " days, ").toList) ++
    digits clock.hour ++ ':' :: padded 2 clock.minute ++ ':' :: padded 2 clock.second ++
    if clock.microsecond = 0 then [] else '.' :: padded 6 clock.microsecond

/-! ### Reading -/

/-- The value of an ASCII digit. -/
def asciiDigit? (c : Char) : Option Nat :=
  if '0' ≤ c ∧ c ≤ '9' then some (c.toNat - '0'.toNat) else none

/-- Exactly `n` ASCII digits at the start of a text, as a number, and the rest. -/
def takeNumber? : Nat → List Char → Option (Nat × List Char)
  | 0, s => some (0, s)
  | n + 1, c :: rest =>
    match asciiDigit? c, takeNumber? n rest with
    | some d, some (k, rest) => some (d * tenPow n + k, rest)
    | _, _ => none
  | _ + 1, [] => none

/-- Where the separator between date and time is expected in a text of at least seven characters,
by the form of the date.  A date by week may be followed by its day or by the separator, which the
characters behind it decide. -/
def separatorIndex (s : List Char) : Nat :=
  let digitAt (k : Nat) : Bool := match s[k]? with
    | some c => (asciiDigit? c).isSome
    | none => false
  if s.length = 7 then 7
  else if s[4]? = some '-' then
    if s[5]? = some 'W' then
      if s[8]? = some '-' then (if digitAt 10 then 8 else 10) else 8
    else 10
  else if s[4]? = some 'W' then
    let stop := 7 + ((s.drop 7).takeWhile fun c => (asciiDigit? c).isSome).length
    if stop < 9 then stop else if stop % 2 = 0 then 7 else 8
  else 8

/-- The date at the start of a text, of which `length` characters come before the separator. -/
def parseDate? (s : List Char) (length : Nat) : Option Date := do
  let (year, rest) ← takeNumber? 4 s
  let (hyphens, rest) := match rest with
    | '-' :: rest => (true, rest)
    | rest => (false, rest)
  let skipHyphen (s : List Char) : Option (List Char) :=
    if hyphens then (match s with
      | '-' :: rest => some rest
      | _ => none)
    else some s
  match rest with
  | 'W' :: rest =>
    let (week, rest) ← takeNumber? 2 rest
    if s.length - rest.length < length then
      let rest ← skipHyphen rest
      let (day, _) ← takeNumber? 1 rest
      Date.ofWeek? year week day
    else Date.ofWeek? year week 1
  | _ =>
    let (month, rest) ← takeNumber? 2 rest
    let rest ← skipHyphen rest
    let (day, _) ← takeNumber? 2 rest
    let date : Date := ⟨year, month, day⟩
    if date.isValid then some date else none

/-- The result of reading a clock: its fields (not yet checked to be in range), and whether
characters are left over. -/
structure ClockReading where
  clock : Clock
  leftover : Bool

/-- A fraction of a second: up to six digits of those before the end, then any digits. -/
def parseFraction? (fields : List Nat) (s : List Char) (length : Nat) : Option ClockReading := do
  let places := min 6 length
  let (n, rest) ← takeNumber? places s
  let clock : Clock := ⟨fields[0]?.getD 0, fields[1]?.getD 0, fields[2]?.getD 0, n * tenPow (6 - places)⟩
  some ⟨clock, !(rest.dropWhile fun c => (asciiDigit? c).isSome).isEmpty⟩

/-- Reads the fields after `fields`, of which `left` may follow; `length` characters of the text
come before its end or its offset.  With colons every field but the last is followed by one;
without, they follow each other. -/
def parseFields? : Nat → Bool → List Nat → List Char → Nat → Option ClockReading
  | 0, _, fields, s, length => parseFraction? fields s length
  | left + 1, colons, fields, s, length => do
    let (n, rest) ← takeNumber? 2 s
    let fields := fields ++ [n]
    let colons := if fields.length = 1 then rest.head? == some ':' else colons
    -- the character behind the field is looked at even when it lies behind the end
    if length ≤ 3 then
      some ⟨⟨fields[0]?.getD 0, fields[1]?.getD 0, fields[2]?.getD 0, 0⟩, !rest.isEmpty⟩
    else match rest with
      | c :: after =>
        if colons && c == ':' then parseFields? left colons fields after (length - 3)
        else if c == '.' || c == ',' then parseFraction? fields after (length - 3)
        else if colons then none
        else parseFields? left colons fields rest (length - 2)
      | [] => none

/-- Reads a clock from the first `length` characters of a text. -/
def parseClock? (s : List Char) (length : Nat) : Option ClockReading :=
  parseFields? 3 true [] s length

/-- An offset from the fields behind its sign. -/
def Offset.ofFields? (negative : Bool) (c : Clock) : Option Offset :=
  let seconds : Int := (c.hour * 60 + c.minute) * 60 + c.second
  if seconds = 0 then some Offset.utc
  else
    let n := seconds * Calendar.second + c.microsecond
    let offset : Offset := ⟨if negative then -n else n⟩
    if offset.isValid then some offset else none

/-- A clock and an optional offset. -/
def parseTime? (s : List Char) : Option Time := do
  let marksOffset (c : Char) : Bool := c == '+' || c == '-' || c == 'Z'
  let before := s.takeWhile fun c => !marksOffset c
  let reading ← parseClock? s before.length
  let valid (offset : Option Offset) : Option Time :=
    if reading.clock.isValid then some ⟨reading.clock, offset⟩ else none
  match s.dropWhile fun c => !marksOffset c with
  | [] => if reading.leftover then none else valid none
  | 'Z' :: rest => if rest.isEmpty then valid (some Offset.utc) else none
  | sign :: rest => do
    let offset ← parseClock? rest rest.length
    if offset.leftover then none
    else
      let offset ← Offset.ofFields? (sign == '-') offset.clock
      valid (some offset)

/-- The moment that a text stands for; a date alone is its midnight. -/
def parseDateTime? (s : List Char) : Option DateTime :=
  if s.length < 7 then none
  else do
    let stop := separatorIndex s
    let date ← parseDate? s stop
    match s.drop stop with
    | [] => some ⟨date, .midnight, none⟩
    | _ :: rest =>
      let time ← parseTime? rest
      some ⟨date, time.clock, time.offset⟩

end Conform.Calendar
