/-!
# Calendar dates

Times are counted in microseconds since the beginning of 1970. The calendar repeats every 400 years,
which are 146097 days; a year is taken to begin in March, so that a leap day is its last.
-/

namespace CodeAtlas

structure Moment where
  year : Int
  month : Nat
  day : Nat
  hour : Nat
  minute : Nat
  second : Nat
  micros : Nat
deriving DecidableEq, Repr

namespace Moment

/-- The date of a day, counted from the beginning of 1970: year, month and day. -/
def dateOf (days : Int) : Int × Nat × Nat :=
  let z := days + 719468
  let era := z.fdiv 146097
  let doe := (z.fmod 146097).toNat
  let yoe := (doe - doe / 1460 + doe / 36524 - doe / 146096) / 365
  let doy := doe - (365 * yoe + yoe / 4 - yoe / 100)
  let mp := (5 * doy + 2) / 153
  let day := doy - (153 * mp + 2) / 5 + 1
  let month := if mp < 10 then mp + 3 else mp - 9
  let year := (yoe : Int) + era * 400
  (if month ≤ 2 then year + 1 else year, month, day)

/-- The moment of a time from the years 1 to 9999, which are all that a date can have. -/
def ofMicros (t : Int) : Moment :=
  let seconds := t.fdiv 1000000
  let (year, month, day) := dateOf (seconds.fdiv 86400)
  let rest := (seconds.fmod 86400).toNat
  ⟨year, month, day, rest / 3600, rest / 60 % 60, rest % 60, (t.fmod 1000000).toNat⟩

/-- A number with at least `width` digits. -/
def padded (width n : Nat) : String :=
  let ds := toString n
  "".pushn '0' (width - ds.length) ++ ds

/-- The date and the time, with a separator between them. -/
def text (sep : String) (m : Moment) : String :=
  s!"{m.year}-{padded 2 m.month}-{padded 2 m.day}{sep}{padded 2 m.hour}:{padded 2 m.minute}:{padded 2 m.second}"

/-- The date and the time with its fraction, if it has one. -/
def fullText (m : Moment) : String :=
  let year := padded 4 m.year.toNat
  let fraction := if m.micros = 0 then "" else s!".{padded 6 m.micros}"
  s!"{year}-{padded 2 m.month}-{padded 2 m.day}T{padded 2 m.hour}:{padded 2 m.minute}:{padded 2 m.second}{fraction}"

end Moment

end CodeAtlas
