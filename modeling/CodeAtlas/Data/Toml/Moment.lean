import CodeAtlas.Data.Value

/-!
# Dates and times in configuration files

A date, a time of day, or both with or without an offset. Each has a short written form and a form
that spells out its parts.
-/

namespace CodeAtlas.Toml

structure Date where
  year : Nat
  month : Nat
  day : Nat
deriving DecidableEq, Repr

structure Time where
  hour : Nat
  minute : Nat
  second : Nat
  micros : Nat
deriving DecidableEq, Repr

/-- An offset from universal time, in minutes. -/
abbrev Offset := Int

inductive Moment where
  | date (d : Date)
  | time (t : Time)
  | both (d : Date) (t : Time) (offset : Option Offset)
deriving DecidableEq, Repr

def isLeap (year : Nat) : Bool := year % 4 = 0 && (year % 100 ≠ 0 || year % 400 = 0)

def daysIn (year month : Nat) : Nat :=
  if month = 2 then (if isLeap year then 29 else 28)
  else if month = 4 || month = 6 || month = 9 || month = 11 then 30
  else 31

def Date.isValid (d : Date) : Bool :=
  1 ≤ d.year && 1 ≤ d.month && d.month ≤ 12 && 1 ≤ d.day && d.day ≤ daysIn d.year d.month

/-! ### Reading -/

/-- A number of exactly `k` decimal digits. -/
def digits : Nat → List Char → Option (Nat × List Char)
  | 0, cs => some (0, cs)
  | k + 1, c :: cs =>
    if c.isDigit then do
      let (n, rest) ← digits k cs
      return ((c.toNat - 48) * Nat.pow 10 k + n, rest)
    else none
  | _ + 1, [] => none

/-- A number of two digits that is at most `max`. -/
def upTo (max : Nat) (cs : List Char) : Option (Nat × List Char) := do
  let (n, rest) ← digits 2 cs
  if n ≤ max then return (n, rest) else none

/-- One given character. -/
def char (c : Char) : List Char → Option (List Char)
  | d :: cs => if d = c then some cs else none
  | [] => none

/-- A date as it is spelled: the day fits some month. -/
def date? (cs : List Char) : Option (Date × List Char) := do
  let (year, cs) ← digits 4 cs
  let cs ← char '-' cs
  let (month, cs) ← upTo 12 cs
  let cs ← char '-' cs
  let (day, cs) ← upTo 31 cs
  if month = 0 || day = 0 then none else return (⟨year, month, day⟩, cs)

/-- A time of day; of its fraction six digits count. -/
def time? (cs : List Char) : Option (Time × List Char) := do
  let (hour, cs) ← upTo 23 cs
  let cs ← char ':' cs
  let (minute, cs) ← upTo 59 cs
  let cs ← char ':' cs
  let (second, cs) ← upTo 59 cs
  match cs with
  | '.' :: fraction =>
    let ds := fraction.takeWhile Char.isDigit
    if ds.isEmpty then return (⟨hour, minute, second, 0⟩, cs)
    else
      let six := (ds ++ List.replicate 6 '0').take 6
      let micros := six.foldl (fun n c => n * 10 + (c.toNat - 48)) 0
      return (⟨hour, minute, second, micros⟩, fraction.drop ds.length)
  | _ => return (⟨hour, minute, second, 0⟩, cs)

def offset? : List Char → Option (Offset × List Char)
  | 'Z' :: cs | 'z' :: cs => some (0, cs)
  | sign :: cs =>
    if sign = '+' || sign = '-' then do
      let (hours, cs) ← upTo 23 cs
      let cs ← char ':' cs
      let (minutes, cs) ← upTo 59 cs
      let total : Int := hours * 60 + minutes
      return (if sign = '+' then total else -total, cs)
    else none
  | [] => none

def dateTime? (cs : List Char) : Option (Moment × List Char) := do
  let (d, cs) ← date? cs
  match cs with
  | sep :: after =>
    if sep = 'T' || sep = 't' || sep = ' ' then
      match time? after with
      | none => return (.date d, cs)
      | some (t, cs) =>
        match offset? cs with
        | some (offset, cs) => return (.both d t (some offset), cs)
        | none => return (.both d t none, cs)
    else return (.date d, cs)
  | [] => return (.date d, [])

def Moment.isValid : Moment → Bool
  | .date d => d.isValid
  | .time _ => true
  | .both d _ _ => d.isValid

/-! ### Writing -/

/-- A number with at least `width` digits. -/
def padded (width n : Nat) : String :=
  let ds := toString n
  "".pushn '0' (width - ds.length) ++ ds

def Date.text (d : Date) : String := s!"{padded 4 d.year}-{padded 2 d.month}-{padded 2 d.day}"

def Time.text (t : Time) : String :=
  s!"{padded 2 t.hour}:{padded 2 t.minute}:{padded 2 t.second}"
    ++ if t.micros = 0 then "" else s!".{padded 6 t.micros}"

def offsetText (o : Offset) : String :=
  let sign := if o < 0 then "-" else "+"
  s!"{sign}{padded 2 (o.natAbs / 60)}:{padded 2 (o.natAbs % 60)}"

/-- The short form. -/
def Moment.text : Moment → String
  | .date d => d.text
  | .time t => t.text
  | .both d t offset => s!"{d.text} {t.text}" ++ (offset.map offsetText).getD ""

/-- The parts of a time; zeros at the end are left out, but not hour and minute. -/
def Time.parts (t : Time) : List Nat :=
  if t.micros ≠ 0 then [t.hour, t.minute, t.second, t.micros]
  else if t.second ≠ 0 then [t.hour, t.minute, t.second]
  else [t.hour, t.minute]

def numbers (ns : List Nat) : String := ", ".intercalate (ns.map toString)

def offsetDetail (o : Offset) : String :=
  if o = 0 then "datetime.timezone.utc"
  else
    let seconds := o * 60
    let parts := if seconds < 0 then s!"days=-1, seconds={seconds + 86400}"
      else s!"seconds={seconds}"
    s!"datetime.timezone(datetime.timedelta({parts}))"

/-- The form that spells out the parts. -/
def Moment.detail : Moment → String
  | .date d => s!"datetime.date({numbers [d.year, d.month, d.day]})"
  | .time t => s!"datetime.time({numbers t.parts})"
  | .both d t offset =>
    let zone := (offset.map fun o => s!", tzinfo={offsetDetail o}").getD ""
    s!"datetime.datetime({numbers ([d.year, d.month, d.day] ++ t.parts)}{zone})"

def Moment.toValue (m : Moment) : Value := .moment m.text m.detail

end CodeAtlas.Toml
