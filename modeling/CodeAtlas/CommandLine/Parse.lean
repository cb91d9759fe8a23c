import CodeAtlas.CommandLine.Basic
import CodeAtlas.Text.Lines
import CodeAtlas.Text.Quoted

/-!
# Reading a command line

Options may stand among operands, be cut short as long as they are unambiguous, and carry their
argument after an equals sign. Two dashes end them. Operands are taken as early as they can be.
-/

namespace CodeAtlas.CommandLine

/-- What an argument is taken for. -/
inductive Piece where
  | separator
  | argument
  /-- An option, if it is known, with its full spelling and what follows an equals sign. -/
  | option (flag : Option Flag) (name : String) (value : Option String)

def Spec.spellings (s : Spec) : List (String × Flag) := s.flags.flatMap fun f => f.names.map (·, f)

def cutEquals (arg : String) : String × Option String :=
  let cs := arg.toList
  match cs.dropWhile (· ≠ '=') with
  | '=' :: value => (String.ofList (cs.takeWhile (· ≠ '=')), some (String.ofList value))
  | _ => (arg, none)

/-- The options that a text with dashes can stand for. -/
def Spec.candidates (s : Spec) (arg : String) : List (Flag × String × Option String) :=
  if arg.startsWith "--" then
    let (front, value) := cutEquals arg
    (s.spellings.filter (·.1.startsWith front)).map fun (name, f) => (f, name, value)
  else
    let short := String.ofList (arg.toList.take 2)
    let tail := String.ofList (arg.toList.drop 2)
    s.spellings.filterMap fun (name, f) =>
      if name = short then some (f, name, some tail)
      else if name.startsWith arg then some (f, name, none)
      else none

/-- Whether a text is a negative number; a line may end after it. -/
def isNegativeNumber (arg : String) : Bool :=
  let cs := arg.toList
  let cs := if cs.getLast? = some '\n' then cs.dropLast else cs
  match cs with
  | '-' :: cs =>
    match cs.dropWhile Text.isDecimal with
    | [] => !cs.isEmpty
    | '.' :: ds => !ds.isEmpty && ds.all Text.isDecimal
    | _ => false
  | _ => false

/-- What an argument before a separator is taken for. -/
def Spec.classify (s : Spec) (arg : String) : Except Stop Piece :=
  if !arg.startsWith "-" then .ok .argument
  else
    match s.spellings.lookup arg with
    | some f => .ok (.option f arg none)
    | none =>
      if arg = "-" then .ok .argument
      else
        let (front, value) := cutEquals arg
        match value, s.spellings.lookup front with
        | some v, some f => .ok (.option f front (some v))
        | _, _ =>
          match s.candidates arg with
          | [(f, name, value)] => .ok (.option f name value)
          | [] =>
            if isNegativeNumber arg || Text.contains arg " " then .ok .argument
            else .ok (.option none arg none)
          | many =>
            .error (.wrong (s!"ambiguous option: {arg} could match " ++
              Text.join ", " (many.map (·.2.1))))

/-- What the arguments of a command line are taken for. -/
def Spec.pieces (s : Spec) : List String → Except Stop (List (String × Piece))
  | [] => .ok []
  | arg :: args =>
    if arg = "--" then .ok ((arg, .separator) :: args.map (·, .argument))
    else do
      let piece ← s.classify arg
      let rest ← s.pieces args
      return (arg, piece) :: rest

/-! ### Values -/

def Flag.label (f : Flag) : String := "/".intercalate f.names

/-- The command line is wrong at an argument. -/
def wrongAt {α : Type} (label message : String) : Except Stop α :=
  .error (.wrong s!"argument {label}: {message}")

/-- Refuses what is none of the choices. -/
def wrongChoice {α : Type} (label shown : String) (choices : List String) : Except Stop α :=
  wrongAt label (s!"invalid choice: {shown} (choose from " ++ Text.join ", " choices ++ ")")

/-- The values of digits, between which single underscores may stand. -/
def digits? : List Char → Option (List Nat)
  | [] => none
  | [c] => (Text.decimalValue? c).map ([·])
  | c :: '_' :: cs => do return (← Text.decimalValue? c) :: (← digits? cs)
  | c :: cs => do return (← Text.decimalValue? c) :: (← digits? cs)

def maxDigits : Nat := 4300

/-- The integer that a text is, blanks around it aside. -/
def integer? (text : String) : Option Int :=
  let natural (cs : List Char) : Option Nat := do
    let ds ← digits? cs
    if maxDigits < ds.length then none else return ds.foldl (fun n d => n * 10 + d) 0
  match Text.stripChars text.toList with
  | '-' :: cs => (natural cs).map fun n => -(n : Int)
  | '+' :: cs => (natural cs).map fun n => (n : Int)
  | cs => (natural cs).map fun n => (n : Int)

/-! ### Progress -/

/-- What is read so far. -/
structure Progress where
  /-- The operands that are still to come. -/
  waiting : List Operand
  arguments : Arguments := {}
  /-- Arguments that nothing takes. -/
  extras : List String := []

def Progress.setValue (p : Progress) (f : Flag) (name value : String) : Except Stop Progress :=
  let a := p.arguments
  match f.kind with
  | .text choices =>
    if !choices.contains value then wrongChoice f.label (Text.quoted value)
      (choices.map Text.quoted)
    else .ok { p with arguments := { a with texts := (name, value) :: a.texts } }
  | .number choices =>
    match integer? value with
    | none => wrongAt f.label s!"invalid int value: {Text.quoted value}"
    | some n =>
      if !choices.any (fun c => (c : Int) = n) then wrongChoice f.label (toString n)
        (choices.map toString)
      else .ok { p with arguments := { a with numbers := (name, n) :: a.numbers } }
  | .switch | .help => .ok p

/-- Takes an option that needs no argument. -/
def Progress.switchOn (p : Progress) (f : Flag) (name : String) : Except Stop Progress :=
  match f.kind with
  | .help => .error .help
  | _ => .ok { p with arguments := { p.arguments with switches := name :: p.arguments.switches } }

/-- Reads further short options in the text behind one that takes no argument. -/
def shortOptions (s : Spec) (f : Flag) : List Char → Except Stop (List Flag)
  | [] => .ok []
  | c :: cs =>
    match s.spellings.lookup (String.ofList ['-', c]) with
    | some g => do return g :: (← shortOptions s g cs)
    | none => wrongAt f.label s!"ignored explicit argument {Text.quoted (String.ofList (c :: cs))}"

/-- Takes an option; `rest` is what follows it. -/
def Progress.takeOption (s : Spec) (p : Progress) (f : Flag) (name : String) (value : Option String)
    (rest : List (String × Piece)) : Except Stop (Progress × List (String × Piece)) :=
  let key := f.names.getLastD name
  match f.kind with
  | .text _ | .number _ =>
    match value, rest with
    | some v, _ => do return (← p.setValue f key v, rest)
    | none, (v, .argument) :: rest => do return (← p.setValue f key v, rest)
    | none, _ => wrongAt f.label "expected one argument"
  | .switch | .help =>
    match value with
    | none => do return (← p.switchOn f key, rest)
    | some v =>
      if name.startsWith "--" || v.isEmpty then
        wrongAt f.label s!"ignored explicit argument {Text.quoted v}"
      else do
        let more ← shortOptions s f v.toList
        return (← (f :: more).foldlM (fun p g => p.switchOn g (g.names.getLastD name)) p, rest)

/-- The arguments without the first that is two dashes. -/
def withoutDashes (pieces : List (String × Piece)) : List String := (pieces.map (·.1)).erase "--"

def Piece.isSeparator : Piece → Bool
  | .separator => true
  | _ => false

def Piece.isOption : Piece → Bool
  | .option .. => true
  | _ => false

/-- The arguments that an operand takes from the front, if it can: one, with separators around it,
or all up to the next option. -/
def Operand.front? (o : Operand) (pieces : List (String × Piece)) :
    Option (List String × List (String × Piece)) :=
  if o.isMany then
    some (withoutDashes (pieces.takeWhile (!·.2.isOption)), pieces.dropWhile (!·.2.isOption))
  else
    let lead := pieces.takeWhile (·.2.isSeparator)
    match pieces.dropWhile (·.2.isSeparator) with
    | (arg, .argument) :: rest =>
      some (withoutDashes (lead ++ [(arg, .argument)]), rest.dropWhile (·.2.isSeparator))
    | _ => none

def Operand.check (o : Operand) (args : List String) : Except Stop Unit :=
  if o.choices.isEmpty then .ok ()
  else
    match args.find? (!o.choices.contains ·) with
    | some arg => wrongChoice o.name (Text.quoted arg) (o.choices.map Text.quoted)
    | none => .ok ()

/-- Takes the arguments of operands, of as many as can be. -/
def takeOperands (a : Arguments) :
    List Operand → List (String × Piece) →
      Except Stop (List Operand × Arguments × List (String × Piece))
  | [], pieces => .ok ([], a, pieces)
  | o :: os, pieces =>
    match o.front? pieces with
    | none => .ok (o :: os, a, pieces)
    | some (args, rest) => do
      o.check args
      takeOperands { a with operands := (o.name, args) :: a.operands } os rest

def Progress.takeOperands (p : Progress) (pieces : List (String × Piece)) :
    Except Stop (Progress × List (String × Piece)) := do
  let (waiting, arguments, rest) ← CommandLine.takeOperands p.arguments p.waiting pieces
  return ({ p with waiting, arguments }, rest)

/-- Reads pieces; the first argument bounds the number of steps. -/
def Progress.readFrom (s : Spec) : Nat → Progress → List (String × Piece) → Except Stop Progress
  | 0, p, _ => .ok p
  | fuel + 1, p, pieces =>
    if !pieces.any (·.2.isOption) then do
      let (p, rest) ← p.takeOperands pieces
      return { p with extras := p.extras ++ rest.map (·.1) }
    else
      match pieces with
      | (arg, .option none _ _) :: rest =>
          readFrom s fuel { p with extras := p.extras ++ [arg] } rest
      | (_, .option (some f) name value) :: rest => do
        let (p, rest) ← p.takeOption s f name value rest
        readFrom s fuel p rest
      | _ => do
        let (p, rest) ← p.takeOperands pieces
        if rest.length < pieces.length then readFrom s fuel p rest
        else
          let idle := (rest.takeWhile (!·.2.isOption)).map (·.1)
          readFrom s fuel { p with extras := p.extras ++ idle } (rest.dropWhile (!·.2.isOption))

def Spec.read (s : Spec) (args : List String) : Except Stop Arguments := do
  let pieces ← s.pieces args
  let p ← Progress.readFrom s (2 * pieces.length + 1) { waiting := s.operands } pieces
  if !p.waiting.isEmpty then
    .error (.wrong ("the following arguments are required: " ++
      Text.join ", " (p.waiting.map (·.name))))
  else if !p.extras.isEmpty then
    .error (.wrong ("unrecognized arguments: " ++ Text.join " " p.extras))
  else .ok p.arguments

end CodeAtlas.CommandLine
