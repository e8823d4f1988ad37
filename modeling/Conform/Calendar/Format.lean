/-
  Conform/Calendar/Format.lean
  ============================
  **Dates and times in a given format.**  A format is a text with directives,
  each a percent sign and a letter.  For reading, it is turned into a regular
  expression with one group per directive, which has to match the whole text;
  the fields found are then put together.
-/
import Conform.Calendar.Iso
import Conform.Pattern.Parser

namespace Conform.Calendar

open Text Number

/-! ### The pattern of a format -/

/-- The names of months, in order. -/
def monthNames : List String :=
  ["january", "february", "march", "april", "may", "june", "july", "august", "september",
    "october", "november", "december"]

/-- The names of the days of the week, from Monday on. -/
def dayNames : List String :=
  ["monday", "tuesday", "wednesday", "thursday", "friday", "saturday", "sunday"]

/-- Names cut to three letters. -/
def shortNames (names : List String) : List String :=
  names.map fun name => String.ofList (name.toList.take 3)

/-- A choice of names, the longest first. -/
def namesPattern (names : List String) : String :=
  "|".intercalate (names.mergeSort fun a b => b.length ≤ a.length)

/-- What a directive reads; the directives made of others are not among them. -/
def fieldPattern? : Char → Option String
  | 'd' => some "3[0-1]|[1-2]\\d|0[1-9]|[1-9]| [1-9]"
  | 'f' => some "[0-9]\x7b1,6\x7d"
  | 'H' => some "2[0-3]|[0-1]\\d|\\d"
  | 'I' => some "1[0-2]|0[1-9]|[1-9]"
  | 'G' => some "\\d\\d\\d\\d"
  | 'j' => some "36[0-6]|3[0-5]\\d|[1-2]\\d\\d|0[1-9]\\d|00[1-9]|[1-9]\\d|0[1-9]|[1-9]"
  | 'm' => some "1[0-2]|0[1-9]|[1-9]"
  | 'M' => some "[0-5]\\d|\\d"
  | 'S' => some "6[0-1]|[0-5]\\d|\\d"
  | 'U' => some "5[0-3]|[0-4]\\d|\\d"
  | 'W' => some "5[0-3]|[0-4]\\d|\\d"
  | 'w' => some "[0-6]"
  | 'u' => some "[1-7]"
  | 'V' => some "5[0-3]|0[1-9]|[1-4]\\d|\\d"
  | 'y' => some "\\d\\d"
  | 'Y' => some "\\d\\d\\d\\d"
  | 'z' => some "[+-]\\d\\d:?[0-5]\\d(:?[0-5]\\d(\\.\\d\x7b1,6\x7d)?)?|(?-i:Z)"
  | 'A' => some (namesPattern dayNames)
  | 'a' => some (namesPattern (shortNames dayNames))
  | 'B' => some (namesPattern monthNames)
  | 'b' => some (namesPattern (shortNames monthNames))
  | 'p' => some "am|pm"
  | 'Z' => some "utc|gmt"
  | _ => none

/-- The group of a directive. -/
def fieldGroup? (c : Char) : Option String :=
  (fieldPattern? c).map fun p => "(?P<" ++ String.singleton c ++ ">" ++ p ++ ")"

/-- The directives made of others: a moment, a date and a time in their customary forms. -/
def compoundFormat? : Char → Option String
  | 'c' => some "%a %b %d %H:%M:%S %Y"
  | 'x' => some "%m/%d/%y"
  | 'X' => some "%H:%M:%S"
  | _ => none

/-- Characters with a meaning in patterns. -/
def isPatternSpecial (c : Char) : Bool :=
  "\\.^$*+?()\x7b\x7d[]|".toList.contains c

/-- A format with its characters escaped for a pattern and any white space for a run of it. The flag
says that the characters before are such a run. -/
def escapeFormat : Bool → List Char → List Char
  | _, [] => []
  | inBlank, c :: rest =>
    if isBlank c then (if inBlank then [] else "\\s+".toList) ++ escapeFormat true rest
    else if isPatternSpecial c then '\\' :: c :: escapeFormat false rest
    else c :: escapeFormat false rest

/-- Replaces directives by what `group?` gives; nothing if it gives nothing for some directive, or
if a percent sign ends the format. -/
def expandDirectives (group? : Char → Option (List Char)) : List Char → Option (List Char)
  | [] => some []
  | '%' :: c :: rest => do
    let g ← group? c
    let more ← expandDirectives group? rest
    some (g ++ more)
  | '%' :: [] => none
  | c :: rest => (expandDirectives group? rest).map (c :: ·)

/-- What a directive stands for in a pattern. -/
def directiveGroup? (c : Char) : Option (List Char) :=
  if c == '%' then some ['%']
  else match compoundFormat? c with
    | some format =>
      expandDirectives (fun c => (fieldGroup? c).map String.toList)
        (escapeFormat false format.toList)
    | none => (fieldGroup? c).map String.toList

/-- The pattern of a format. -/
def formatPattern? (format : List Char) : Option (List Char) :=
  expandDirectives directiveGroup? (escapeFormat false format)

/-! ### Putting the fields together -/

/-- The fields of a text read in a format. -/
structure Fields where
  year : Option Nat
  weekYear : Option Nat
  month : Nat
  day : Nat
  hour : Nat
  minute : Nat
  second : Nat
  microsecond : Nat
  /-- Monday is zero. -/
  weekday : Option Nat
  dayOfYear : Option Int
  /-- A week of the year, and whether weeks begin on Monday; otherwise on Sunday. -/
  week : Option (Nat × Bool)
  numberedWeek : Option Nat
  offset : Option Int
deriving Repr

/-- No field is given. -/
def Fields.empty : Fields :=
  ⟨none, none, 1, 1, 0, 0, 0, 0, none, none, none, none, none⟩

/-- The number that digits stand for. -/
def fieldNumber (s : List Char) : Nat :=
  ofDigits (s.filterMap digitValue?)

/-- The place of a name among names. -/
def nameIndex? (names : List String) (s : List Char) : Option Nat :=
  names.findIdx? (·.toList = toLower s)

/-- The hour of a twelve-hour clock, with its half of the day when that is given. -/
def twelveHour (hour : Nat) (half : List Char) : Nat :=
  let half := toLower half
  if half = "pm".toList then (if hour = 12 then 12 else hour + 12)
  else if half = [] ∨ half = "am".toList then (if hour = 12 then 0 else hour)
  else hour

/-- The offset that the text of its directive stands for, in microseconds. -/
def fieldOffset? (s : List Char) : Option Int := do
  if s = ['Z'] then return 0
  let plain ←
    if s[3]? = some ':' then
      let s := s.take 3 ++ s.drop 4
      if 5 < s.length then (if s[5]? = some ':' then some (s.take 5 ++ s.drop 6) else none)
      else some s
    else some s
  let seconds := (plain.drop 5).take 2
  if seconds.contains ':' then none
  else
    let total : Int := (fieldNumber ((plain.drop 1).take 2) * 60 +
      fieldNumber ((plain.drop 3).take 2)) * 60 + fieldNumber seconds
    let places := plain.drop 8
    let fraction := fieldNumber places * tenPow (6 - places.length)
    let n := total * Calendar.second + fraction
    some (if plain.head? = some '-' then -n else n)

/-- Adds the field of a directive; `half` is the half of the day if the text gives one. -/
def Fields.add? (half : List Char) (f : Fields) (directive : Char) (s : List Char) :
    Option Fields :=
  let n := fieldNumber s
  match directive with
  | 'y' => some { f with year := some (if n ≤ 68 then n + 2000 else n + 1900) }
  | 'Y' => some { f with year := some n }
  | 'G' => some { f with weekYear := some n }
  | 'm' => some { f with month := n }
  | 'B' => (nameIndex? monthNames s).map fun k => { f with month := k + 1 }
  | 'b' => (nameIndex? (shortNames monthNames) s).map fun k => { f with month := k + 1 }
  | 'd' => some { f with day := n }
  | 'H' => some { f with hour := n }
  | 'I' => some { f with hour := twelveHour n half }
  | 'M' => some { f with minute := n }
  | 'S' => some { f with second := n }
  | 'f' => some { f with microsecond := n * tenPow (6 - s.length) }
  | 'A' => (nameIndex? dayNames s).map fun k => { f with weekday := some k }
  | 'a' => (nameIndex? (shortNames dayNames) s).map fun k => { f with weekday := some k }
  | 'w' => some { f with weekday := some ((n + 6) % 7) }
  | 'u' => some { f with weekday := some (n - 1) }
  | 'j' => some { f with dayOfYear := some n }
  | 'U' => some { f with week := some (n, false) }
  | 'W' => some { f with week := some (n, true) }
  | 'V' => some { f with numberedWeek := some n }
  | 'z' => (fieldOffset? s).map fun o => { f with offset := some o }
  | _ => some f

/-- The number of the first day of a year, when the year is in the calendar. -/
def newYear? (year : Int) : Option Int :=
  let date : Date := ⟨year.toNat, 1, 1⟩
  if 1 ≤ year ∧ year ≤ 9999 then some date.ordinal else none

/-- The day of the year of a weekday in a week of the year; week zero comes before the first whole
week. -/
def dayOfWeekOfYear? (year : Nat) (week weekday : Nat) (fromMonday : Bool) : Option Int := do
  let start ← newYear? year
  let first := ((start + 6) % 7).toNat
  let first := if fromMonday then first else (first + 1) % 7
  let weekday := if fromMonday then weekday else (weekday + 1) % 7
  if week = 0 then some (1 + weekday - first : Int)
  else some (1 + ((7 - first) % 7 : Nat) + 7 * ((week : Int) - 1) + weekday)

/-- The year and day of the year of a weekday in a numbered week. -/
def dayOfNumberedWeek? (year week weekday : Nat) : Option (Nat × Int) := do
  let start ← newYear? year
  let fourth := ((start + 3 + 6) % 7).toNat + 1
  let ordinal : Int := week * 7 + (weekday + 1) - (fourth + 3)
  if ordinal < 1 then
    let before ← newYear? ((year : Int) - 1)
    some (year - 1, ordinal + start - before)
  else some (year, ordinal)

/-- A numbered week needs its year and its weekday, and excludes the other ways to give a date. -/
def Fields.consistent (f : Fields) : Bool :=
  if f.weekYear.isSome then
    f.dayOfYear.isNone && f.numberedWeek.isSome && f.weekday.isSome
  else f.numberedWeek.isNone

/-- The year, month and day of the fields.  Without a year, the twenty-ninth of February is read in
a leap year and then moved to 1900, as all dates without a year are. -/
def Fields.date? (f : Fields) : Option Date := do
  let leap := f.year.isNone && f.month == 2 && f.day == 29
  let year := f.year.getD (if leap then 1904 else 1900)
  let (year, dayOfYear) ← match f.dayOfYear, f.weekday, f.week, f.weekYear, f.numberedWeek with
    | none, some weekday, some (week, fromMonday), _, _ =>
      (dayOfWeekOfYear? year week weekday fromMonday).map fun d => (year, some d)
    | none, some weekday, none, some weekYear, some week =>
      (dayOfNumberedWeek? weekYear week weekday).map fun (y, d) => (y, some d)
    | given, _, _, _, _ => some (year, given)
  -- a day before the first belongs to the year before
  let (year, dayOfYear) := match dayOfYear, f.dayOfYear with
    | some d, none =>
      if d ≤ 0 then (year - 1, some (d + (if isLeap (year - 1) then 366 else 365)))
      else (year, some d)
    | d, _ => (year, d)
  let date ← match dayOfYear with
    | some d => do
      let start ← newYear? year
      Date.ofOrdinal? (d - 1 + start)
    | none =>
      let date : Date := ⟨year, f.month, f.day⟩
      if date.isValid then some date else none
  if leap then
    let date := { date with year := 1900 }
    if date.isValid then some date else none
  else some date

/-- The moment of the fields. -/
def Fields.toDateTime? (f : Fields) : Option DateTime := do
  if !f.consistent then none
  let date ← f.date?
  let clock : Clock := ⟨f.hour, f.minute, f.second, f.microsecond⟩
  if !clock.isValid then none
  match f.offset with
  | none => some ⟨date, clock, none⟩
  | some o =>
    let offset : Offset := ⟨o⟩
    if offset.isValid then some ⟨date, clock, some offset⟩ else none

/-- Reads a moment in a format.  A format that names a directive twice is no pattern. -/
def parseFormat (s format : List Char) : Except Pattern.Refusal (Option DateTime) :=
  match formatPattern? format with
  | none => .ok none
  | some pattern => do
    let flags := { Pattern.Flags.none with ignoreCase := true }
    let program ← Pattern.compile ⟨pattern.toArray, false⟩ flags
    let text := s.toArray
    match program.matchAt text 0 with
    | none => .ok none
    | some cursor =>
      if cursor.index ≠ text.size then .ok none
      else
        let found := program.named text cursor
        let half := ((found.find? (·.1 = ['p'])).map (·.2)).getD []
        let fields := found.foldlM (fun f (name, value) => match name with
          | [c] => f.add? half c value
          | _ => some f) Fields.empty
        .ok (fields.bind Fields.toDateTime?)

/-! ### Writing -/

/-- A name with a capital letter. -/
def capital (name : String) : List Char :=
  match name.toList with
  | c :: rest => c.toUpper :: rest
  | [] => []

/-- What a directive writes. -/
def directiveText (d : DateTime) : Char → Option (List Char)
  | 'Y' => some (digits d.date.year)
  | 'm' => some (padded 2 d.date.month)
  | 'd' => some (padded 2 d.date.day)
  | 'H' => some (padded 2 d.clock.hour)
  | 'I' => some (padded 2 ((d.clock.hour + 11) % 12 + 1))
  | 'M' => some (padded 2 d.clock.minute)
  | 'S' => some (padded 2 d.clock.second)
  | 'f' => some (padded 6 d.clock.microsecond)
  | 'y' => some (padded 2 (d.date.year % 100))
  | 'j' => some (padded 3 (daysBeforeMonth d.date.year d.date.month + d.date.day))
  | 'p' => some (if d.clock.hour < 12 then "AM".toList else "PM".toList)
  | 'B' => some (capital (monthNames[d.date.month - 1]?.getD ""))
  | 'b' => some ((capital (monthNames[d.date.month - 1]?.getD "")).take 3)
  | 'A' => some (capital (dayNames[d.date.weekday]?.getD ""))
  | 'a' => some ((capital (dayNames[d.date.weekday]?.getD "")).take 3)
  | 'w' => some (digits ((d.date.weekday + 1) % 7))
  | 'u' => some (digits (d.date.weekday + 1))
  | 'F' => some d.date.text
  | 'T' => some { d.clock with microsecond := 0 }.text
  | 'z' => some ((offsetText d.offset).filter (· != ':'))
  | '%' => some ['%']
  | _ => none

/-- A moment in a format; other directives stay as they are. -/
def formatDateTime (d : DateTime) : List Char → List Char
  | [] => []
  | '%' :: c :: rest =>
    (match directiveText d c with
      | some text => text
      | none => ['%', c]) ++ formatDateTime d rest
  | c :: rest => c :: formatDateTime d rest

end Conform.Calendar
