import CodeAtlas.Session
import CodeAtlas.Text.Case

/-!
# Loggers

A logger passes messages to its handlers and to those of the loggers above it; the root, which has
no name, is above all. A logger and a handler each have a level below which they keep nothing.
-/

namespace CodeAtlas

open CodeAtlas.Action

/-! ### Patterns -/

namespace Pattern

/-- What a slot is filled with. -/
inductive Field where
  | text (s : String)
  | number (n : Int)

/-- How a slot is filled: `conversion` tells texts from numbers, the rest the width. -/
structure Slot where
  key : String
  flags : List Char
  width : Nat
  precision : Option Nat
  conversion : Char
deriving DecidableEq, Repr

def isWordChar (c : Char) : Bool := c.isAlphanum || c == '_' || 0x80 ≤ c.toNat

def number (cs : List Char) : Nat := cs.foldl (fun n c => n * 10 + (c.toNat - 48)) 0

/-- A slot at the beginning of a pattern, after its percent sign, and what follows. -/
def slot? : List Char → Option (Slot × List Char)
  | '(' :: cs =>
    let (key, cs) := cs.span isWordChar
    match cs with
    | ')' :: cs =>
      let (flags, cs) := cs.span "#0+ -".toList.contains
      let (width, cs) := cs.span Char.isDigit
      let (precision, cs) :=
        match cs with
        | '.' :: rest =>
          let (ds, rest') := rest.span Char.isDigit
          if ds.isEmpty then (none, cs) else (some (number ds), rest')
        | _ => (none, cs)
      match cs with
      | c :: rest =>
        if !key.isEmpty && "diouxefgcrsaDIOUXEFGCRSA%".toList.contains c then
          some (⟨String.ofList key, flags, number width, precision, c⟩, rest)
        else none
      | [] => none
    | _ => none
  | _ => none

/-- Whether a pattern has a slot. -/
def isValid : List Char → Bool
  | [] => false
  | '%' :: cs => (slot? cs).isSome || isValid cs
  | _ :: cs => isValid cs

def pad (s : Slot) (text : String) : String :=
  let blanks := "".pushn ' ' (s.width - text.length)
  if s.flags.contains '-' then text ++ blanks else blanks ++ text

def padNumber (s : Slot) (n : Int) : String :=
  let sign := if n < 0 then "-" else if s.flags.contains '+' then "+"
    else if s.flags.contains ' ' then " " else ""
  let ds := toString n.natAbs
  let ds := "".pushn '0' (s.precision.getD 0 - ds.length) ++ ds
  if s.flags.contains '0' && !s.flags.contains '-' then
    sign ++ "".pushn '0' (s.width - ds.length - sign.length) ++ ds
  else pad s (sign ++ ds)

/-- A filled slot, unless the field does not fit. -/
def fillSlot (fields : List (String × Field)) (s : Slot) : Option String :=
  match fields.lookup s.key, s.conversion with
  | some (.text t), 's' => some (pad s (String.ofList (t.toList.take (s.precision.getD t.length))))
  | some (.number n), 's' => some (pad s (toString n))
  | some (.number n), 'd' => some (padNumber s n)
  | some (.number n), 'i' => some (padNumber s n)
  | _, _ => none

/-- Fills the slots of a pattern; the first argument bounds their number. -/
def fillFrom (fields : List (String × Field)) : Nat → List Char → Option (List Char)
  | 0, _ => some []
  | fuel + 1, cs =>
    let (front, rest) := cs.span (· ≠ '%')
    match rest with
    | [] => some front
    | '%' :: '%' :: rest => (fillFrom fields fuel rest).map (front ++ '%' :: ·)
    | _ :: rest => do
      let (s, rest) ← slot? rest
      let text ← fillSlot fields s
      let tail ← fillFrom fields fuel rest
      return front ++ text.toList ++ tail

/-- A pattern with its slots filled, unless a slot cannot be filled. -/
def fill (fields : List (String × Field)) (pattern : String) : Option String :=
  (fillFrom fields (pattern.length + 1) pattern.toList).map String.ofList

/-- The pattern of lines, unless another is asked for. -/
def standard : String := "%(asctime)s - %(name)s - %(levelname)s - %(message)s"

end Pattern

/-! ### Loggers -/

/-- Where a handler writes to. -/
inductive Sink where
  | file (path : Path)
  | console

structure Handler where
  sink : Sink
  level : Int := 0
  pattern : String := Pattern.standard

structure Logger where
  /-- The level below which nothing is kept; zero for none. -/
  level : Int := 0
  handlers : List Handler := []

/-- All loggers that are known, by their names. The root has the empty name. -/
structure Loggers where
  known : List (String × Logger) := [("", { level := 30 })]

namespace Loggers

def find (ls : Loggers) (name : String) : Logger := (ls.known.lookup name).getD {}

def put (ls : Loggers) (name : String) (l : Logger) : Loggers :=
  ⟨(name, l) :: ls.known.filter (·.1 ≠ name)⟩

/-- The names of a logger and those above it, from the parts of its name, the last part first. -/
def chainOf : List String → List String
  | [] => [""]
  | part :: above => ".".intercalate (part :: above).reverse :: chainOf above

/-- The names of a logger and those above it. -/
def chain (name : String) : List String :=
  if name.isEmpty then [""] else chainOf (name.splitOn ".").reverse

def effectiveLevel (ls : Loggers) (name : String) : Int :=
  (((chain name).map fun n => (ls.find n).level).find? (· ≠ 0)).getD 0

def levelText (n : Int) : String :=
  match [Level.debug, .info, .warning, .error, .critical].find? (fun l => (l.number : Int) = n) with
  | some l => l.name
  | none => if n = 0 then "NOTSET" else s!"Level {n}"

def append (path : Path) (text : String) : Action Unit := do
  let old ← attempt (readBytes path)
  let old := match old with
    | .ok bytes => bytes
    | .error _ => []
  writeBytes path (old ++ Text.utf8Bytes text)

/-- A handler for a file, which is made if it is not there. -/
def fileHandler (file : String) : Action Sink := do
  let p := Path.ofString file
  let here := (← tree).here
  let path := Path.mk "/" (Files.collapse (if p.isAbsolute then [] else here) p.parts)
  append path ""
  return .file path

/-- Gives a logger a level and, if it has no handlers, one for a file and one for the console. -/
def setup (ls : Loggers) (name : String) (file : String := "main.log") (level : Int := 10)
    (pattern : Option String := none) : Action Loggers := do
  let old := ls.find name
  if !old.handlers.isEmpty then return ls.put name { old with level }
  let pattern := pattern.getD Pattern.standard
  if !Pattern.isValid pattern.toList then throw (.pattern pattern)
  match ← attempt (fileHandler file) with
  | .ok sink => return ls.put name ⟨level, [⟨sink, level, pattern⟩, ⟨.console, level, pattern⟩]⟩
  | .error (.file .nullCharacter p) => throw (.file .nullCharacter p)
  | .error _ => return ls.put name ⟨level, [⟨.console, level, pattern⟩]⟩

/-- Makes sure that a logger has handlers. -/
def ensure (ls : Loggers) (name : String) : Action Loggers :=
  if (ls.find name).handlers.isEmpty then ls.setup name else return ls

/-- Gives the root a level and handlers, unless it has some. -/
def setupRoot (ls : Loggers) (file : String := "main.log") (level : Int := 10) :
    Action Loggers := do
  let sink ← fileHandler file
  if !(ls.find "").handlers.isEmpty then return ls
  return ls.put "" ⟨level, [{ sink }, { sink := .console }]⟩

/-- Sets the level of a logger and of its handlers by name, in any letter case. -/
def setLevel (ls : Loggers) (name level : String) : Action Loggers := do
  match [Level.debug, .info, .warning, .error, .critical].find? (·.name = Text.upper level) with
  | none => throw (.logLevel level)
  | some l =>
    let n : Int := l.number
    let old := ls.find name
    return ls.put name ⟨n, old.handlers.map fun h => { h with level := n }⟩

/-- Passes a message to a handler. -/
def handle (fields : List (String × Pattern.Field)) (level : Int) (h : Handler) : Action Unit := do
  if level < h.level then return
  match Pattern.fill fields h.pattern, h.sink with
  | none, _ => return
  | some line, .console => print line
  | some line, .file path => append path (line ++ "\n")

def emit (ls : Loggers) (name : String) (level : Int) (message : String) : Action Unit := do
  if level < ls.effectiveLevel name then return
  let fields := [
    ("name", Pattern.Field.text name),
    ("levelname", .text (levelText level)),
    ("levelno", .number level),
    ("message", .text message),
    ("msg", .text message),
    ("asctime", .text (← get).clock)]
  for n in chain name do
    for h in (ls.find n).handlers do handle fields level h

end Loggers

end CodeAtlas
