/-
**Dates and times** of day, counted in seconds from the beginning of 1970 in universal time.

Main definitions:

* `Calendar.civil` — the year, month and day of a day,
* `Calendar.stamp` — a moment in digits for names of files,
* `Calendar.render` — a moment for people.
-/

namespace SophiaBind.Calendar

/-- The year, month and day of a day, counted from the first of January 1970. The days of four centuries
repeat, and years are counted from March so that the leap day comes last. -/
def civil (day : Int) : Int × Nat × Nat :=
  let shifted := day + 719468
  let era := shifted / 146097
  let dayOfEra := (shifted % 146097).toNat
  let yearOfEra := (dayOfEra - dayOfEra / 1460 + dayOfEra / 36524 - dayOfEra / 146096) / 365
  let dayOfYear := dayOfEra - (365 * yearOfEra + yearOfEra / 4 - yearOfEra / 100)
  let monthFromMarch := (5 * dayOfYear + 2) / 153
  let date := dayOfYear - (153 * monthFromMarch + 2) / 5 + 1
  let month := if monthFromMarch < 10 then monthFromMarch + 3 else monthFromMarch - 9
  (yearOfEra + era * 400 + (if month ≤ 2 then 1 else 0), month, date)

/-- A number in two digits. -/
def twoDigits (n : Nat) : String :=
  if n < 10 then "0" ++ toString n else toString n

/-- The hour, minute and second of a moment. -/
def timeOfDay (seconds : Int) : Nat × Nat × Nat :=
  let s := (seconds % 86400).toNat
  (s / 3600, s / 60 % 60, s % 60)

/-- A moment in digits. -/
def stamp (seconds : Int) : String :=
  let (year, month, date) := civil (seconds / 86400)
  let (hour, minute, second) := timeOfDay seconds
  toString year ++ twoDigits month ++ twoDigits date ++ "_" ++ twoDigits hour ++ twoDigits minute ++
    twoDigits second

/-- A moment for people. -/
def render (seconds : Int) : String :=
  let (year, month, date) := civil (seconds / 86400)
  let (hour, minute, second) := timeOfDay seconds
  toString year ++ "-" ++ twoDigits month ++ "-" ++ twoDigits date ++ " " ++ twoDigits hour ++ ":" ++
    twoDigits minute ++ ":" ++ twoDigits second

end SophiaBind.Calendar
