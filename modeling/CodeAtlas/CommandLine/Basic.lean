import CodeAtlas.Text.Search

/-!
# Command lines

What a command accepts: operands, which are told by their position, and options, which start with
dashes.
-/

namespace CodeAtlas.CommandLine

/-! ### Command lines -/

/-- An operand: a single argument, or all that are left. -/
structure Operand where
  name : String
  /-- Whether it takes any number of arguments. -/
  isMany : Bool := false
  /-- The arguments that are allowed; none means all. -/
  choices : List String := []
  help : String := ""
deriving DecidableEq, Repr

/-- What an option takes. -/
inductive OptionKind where
  | switch
  | text (choices : List String)
  | number (choices : List Nat)
  | help
deriving DecidableEq, Repr

structure Flag where
  names : List String
  kind : OptionKind
  help : String := ""
deriving DecidableEq, Repr

/-- What a command accepts, and what is said about it. -/
structure Spec where
  program : String
  description : String := ""
  operands : List Operand
  flags : List Flag
  epilog : String := ""
deriving DecidableEq, Repr

def helpFlag : Flag := ⟨["-h", "--help"], .help, "show this help message and exit"⟩

/-- The arguments of a command, under the names of operands and options. -/
structure Arguments where
  operands : List (String × List String) := []
  switches : List String := []
  texts : List (String × String) := []
  numbers : List (String × Int) := []
deriving DecidableEq, Repr

namespace Arguments

def all (a : Arguments) (name : String) : List String := (a.operands.lookup name).getD []

/-- The argument of an operand that takes one. It is missing where two dashes stood for it. -/
def one? (a : Arguments) (name : String) : Option String := (a.all name).head?

def isOn (a : Arguments) (flag : String) : Bool := a.switches.contains flag

def textOr (a : Arguments) (flag default : String) : String := (a.texts.lookup flag).getD default

def numberOr (a : Arguments) (flag : String) (default : Int) : Int :=
  (a.numbers.lookup flag).getD default

end Arguments

/-- Why a command does not get its arguments. -/
inductive Stop where
  /-- Help was asked for. -/
  | help
  /-- The command line is wrong. -/
  | wrong (message : String)
deriving DecidableEq, Repr


/-! ### Usage and help -/

def lineWidth : Nat := 78

/-- The column at which explanations start at the latest. -/
def maxHelpColumn : Nat := 24

/-- A text that stands for one of some choices. -/
def choiceText (choices : List String) : String := "\x7b" ++ Text.join "," choices ++ "\x7d"

def Operand.sign (o : Operand) : String :=
  if o.choices.isEmpty then o.name else choiceText o.choices

def Operand.usage (o : Operand) : String := if o.isMany then s!"[{o.sign} ...]" else o.sign

/-- What stands for the argument of an option. -/
def Flag.value? (f : Flag) : Option String :=
  match f.kind with
  | .switch | .help => none
  | .text choices => some (choiceText choices)
  | .number choices => some (choiceText (choices.map toString))

/-- A spelling of an option with what stands for its argument. -/
def Flag.withValue (f : Flag) (name : String) : String :=
  match f.value? with
  | some v => s!"{name} {v}"
  | none => name

def Flag.usage (f : Flag) : String := "[" ++ f.withValue (f.names.headD "") ++ "]"

/-- All spellings of an option. -/
def Flag.sign (f : Flag) : String := Text.join ", " (f.names.map f.withValue)

/-- Puts parts on lines; `used` columns of the first line are taken, by parts that come last to
first. -/
def wrap (indent : Nat) : List String → Nat → List String → List (List String)
  | line, _, [] => if line.isEmpty then [] else [line.reverse]
  | line, used, part :: parts =>
    if lineWidth < used + 1 + part.length && !line.isEmpty then
      line.reverse :: wrap indent [part] (indent + part.length) parts
    else wrap indent (part :: line) (used + part.length + 1) parts

def Spec.usage (s : Spec) : String :=
  let lead := "usage: "
  let options := s.flags.map (·.usage)
  let operands := s.operands.map (·.usage)
  let whole := Text.join " " (s.program :: options ++ operands)
  if lead.length + whole.length ≤ lineWidth then lead ++ whole ++ "\n"
  else
    let indent := lead.length + s.program.length + 1
    let lines := wrap indent [] (lead.length - 1) (s.program :: options) ++
      wrap indent [] (indent - 1) operands
    lead ++ Text.join ("\n" ++ "".pushn ' ' indent) (lines.map (Text.join " ")) ++ "\n"

/-- The lines of an entry of the help, with the explanation at a column. -/
def entryLines (column : Nat) (sign help : String) : String :=
  if sign.length + 4 ≤ column then "  " ++ sign ++ "".pushn ' ' (column - 2 - sign.length) ++
    help ++ "\n"
  else "  " ++ sign ++ "\n" ++ "".pushn ' ' column ++ help ++ "\n"

def Spec.help (s : Spec) : String :=
  let operands := s.operands.map fun o => (o.sign, o.help)
  let options := s.flags.map fun f => (f.sign, f.help)
  let longest := (operands ++ options).foldl (fun n e => max n e.1.length) 0
  let column := min (longest + 4) maxHelpColumn
  let listing (title : String) (entries : List (String × String)) : String :=
    "\n" ++ title ++ ":\n" ++
      String.join (entries.map fun (sign, help) => entryLines column sign help)
  let epilog := if s.epilog.isEmpty then "" else "\n" ++ s.epilog ++ "\n"
  s.usage ++ "\n" ++ s.description ++ "\n"
    ++ listing "positional arguments" operands ++ listing "options" options ++ epilog

/-- What is said about a wrong command line. -/
def Spec.complaint (s : Spec) (message : String) : String :=
  s.usage ++ s!"{s.program}: error: {message}\n"

end CodeAtlas.CommandLine
