set_option autoImplicit false

/-! # Dates and moments

A configuration can give a day of the Gregorian calendar, or a moment of a day with or without its
distance from universal time. A moment is shown in the order from year to microsecond. Two moments
with a distance are the same when they lie at the same instant. -/

namespace FuzzyLogic.Data

/-! ## Days -/

/-- A day. -/
structure Date where
  year : Nat
  month : Nat
  day : Nat
  deriving Repr, DecidableEq

/-- Whether the year has a twenty-ninth of February. -/
def isLeapYear (year : Nat) : Bool :=
  year % 4 == 0 && (year % 100 != 0 || year % 400 == 0)

/-- The number of days of a month. -/
def monthLength (year month : Nat) : Nat :=
  if month == 2 then if isLeapYear year then 29 else 28
  else if month == 4 || month == 6 || month == 9 || month == 11 then 30
  else 31

namespace Date

/-- Whether the calendar has the day, in a year of one to four digits. -/
def isValid (d : Date) : Bool :=
  1 ≤ d.year && d.year ≤ 9999 && 1 ≤ d.month && d.month ≤ 12 && 1 ≤ d.day
    && d.day ≤ monthLength d.year d.month

/-- The number of days up to the day, counted from the first of January of the year one. -/
def number (d : Date) : Nat :=
  let before := d.year - 1
  let months := (List.range (d.month - 1)).foldl (fun days m => days + monthLength d.year (m + 1)) 0
  365 * before + before / 4 - before / 100 + before / 400 + months + d.day

end Date

/-! ## Moments -/

/-- A moment of a day. -/
structure Moment where
  date : Date
  hour : Nat
  minute : Nat
  second : Nat
  microsecond : Nat
  /-- The minutes by which the clock is ahead of universal time, if that is known. -/
  offset : Option Int
  deriving Repr, DecidableEq

namespace Moment

/-- Whether the clock shows the moment, at less than a day from universal time. -/
def isValid (m : Moment) : Bool :=
  m.date.isValid && m.hour < 24 && m.minute < 60 && m.second < 60
    && m.offset.all fun o => o.natAbs < 24 * 60

/-- The number of microseconds up to the moment by its own clock. -/
def clock (m : Moment) : Int :=
  (((m.date.number * 24 + m.hour) * 60 + m.minute) * 60 + m.second) * 1000000 + m.microsecond

/-- Whether two moments are the same. One whose distance from universal time is unknown is the same
as no other whose distance is known. -/
def same (a b : Moment) : Bool :=
  match a.offset, b.offset with
  | none, none => a.clock == b.clock
  | some o, some p => a.clock - o * 60000000 == b.clock - p * 60000000
  | _, _ => false

end Moment

/-! ## Written form -/

/-- A number with at least so many digits. -/
def padded (width n : Nat) : String :=
  let digits := toString n
  String.ofList (List.replicate (width - digits.length) '0') ++ digits

/-- The day as year, month and day. -/
def Date.text (d : Date) : String :=
  padded 4 d.year ++ "-" ++ padded 2 d.month ++ "-" ++ padded 2 d.day

/-- The day as it stands inside a collection. -/
def Date.quotedForm (d : Date) : String :=
  "datetime.date(" ++ ", ".intercalate ([d.year, d.month, d.day].map toString) ++ ")"

/-- A distance from universal time in hours and minutes. -/
def offsetText (o : Int) : String :=
  (if o < 0 then "-" else "+") ++ padded 2 (o.natAbs / 60) ++ ":" ++ padded 2 (o.natAbs % 60)

/-- A distance from universal time as it stands inside a collection: whole days, which may be
negative, and the seconds beyond them. -/
def offsetQuoted (o : Int) : String :=
  if o == 0 then "datetime.timezone.utc"
  else
    let seconds := toString (o % (24 * 60) * 60)
    "datetime.timezone(datetime.timedelta("
      ++ (if o < 0 then "days=-1, seconds=" ++ seconds else "seconds=" ++ seconds) ++ "))"

/-- The moment as day, time and distance from universal time. Microseconds are left out when there
are none. -/
def Moment.text (m : Moment) : String :=
  m.date.text ++ " " ++ padded 2 m.hour ++ ":" ++ padded 2 m.minute ++ ":" ++ padded 2 m.second
    ++ (if m.microsecond == 0 then "" else "." ++ padded 6 m.microsecond)
    ++ (match m.offset with
        | none => ""
        | some o => offsetText o)

/-- The moment as it stands inside a collection. Microseconds are left out when there are none, and
then seconds too. -/
def Moment.quotedForm (m : Moment) : String :=
  let fine :=
    if m.microsecond != 0 then [m.second, m.microsecond]
    else if m.second != 0 then [m.second]
    else []
  let numbers := [m.date.year, m.date.month, m.date.day, m.hour, m.minute] ++ fine
  "datetime.datetime(" ++ ", ".intercalate (numbers.map toString)
    ++ (match m.offset with
        | none => ""
        | some o => ", tzinfo=" ++ offsetQuoted o)
    ++ ")"

end FuzzyLogic.Data
