import CodeAtlas.Data.Access
import CodeAtlas.Outline.Basic
import CodeAtlas.Text.Lines
import CodeAtlas.Text.Case

/-!
# Rules of an audit
-/

namespace CodeAtlas.Audit

/-! ### Findings -/

/-- What a mutable default is. -/
inductive MutableKind where
  | list
  | dict
  | set
  | unknown
deriving DecidableEq, Repr

def MutableKind.name : MutableKind → String
  | list => "list"
  | dict => "dict"
  | set => "set"
  | unknown => "unknown"

/-- A parameter whose default can be changed by a call. -/
structure MutableDefault where
  function : String
  file : Nat
  line : Int
  parameter : String
  value : String
  kind : MutableKind
deriving DecidableEq, Repr

/-- A database query in a text. -/
structure Query where
  file : Nat
  line : Value
  text : Value
  isSafe : Value

/-- What a secret is for. -/
inductive SecretKind where
  | apiKey
  | secretKey
  | password
  | token
  | auth
  | credential
  | unknown
deriving DecidableEq, Repr

def SecretKind.name : SecretKind → String
  | apiKey => "API_KEY"
  | secretKey => "SECRET_KEY"
  | password => "PASSWORD"
  | token => "TOKEN"
  | auth => "AUTH"
  | credential => "CREDENTIAL"
  | unknown => "UNKNOWN"

/-- A secret that stands in the source. -/
structure Secret where
  name : String
  file : Nat
  line : Value
  kind : SecretKind

/-- A variable of a module. -/
structure Global where
  name : Value
  file : Nat
  hint : Value

/-- Whether a function writes to a log. -/
structure LoggingUse where
  function : String
  file : Nat
  line : Int
  hasLogging : Bool
deriving DecidableEq, Repr

/-- A public function without complete type hints. -/
structure MissingHint where
  function : String
  file : Nat
  line : Int
deriving DecidableEq, Repr

/-- What can lack documentation. -/
inductive Documentable where
  | «class»
  | function
deriving DecidableEq, Repr

def Documentable.name : Documentable → String
  | «class» => "class"
  | function => "function"

/-- A public class or function without documentation. -/
structure MissingDocstring where
  name : String
  kind : Documentable
  file : Nat
  line : Int
deriving DecidableEq, Repr

/-- Whether a class is given its parts when it is made. -/
structure Dependency where
  className : String
  file : Nat
  line : Int
  isInjected : Bool
deriving DecidableEq, Repr


/-! ### Rules of an audit -/

open Outline

/-! ### Defaults -/

/-- Whether the text of a default is that of a list, a table or a set that every call would share.
-/
def isMutable (default : String) : Bool :=
  let t := Text.strip default
  (t.startsWith "[" && t.endsWith "]")
    || (t.startsWith "\x7b" && t.endsWith "\x7d")
    || t.startsWith "set("
    || (t.startsWith "\x7b" && !Text.contains t ":")
    || ["list()", "dict()", "set()"].contains t

/-- What the text of a mutable default makes. -/
def mutableKind (default : String) : MutableKind :=
  let t := Text.strip default
  if t.startsWith "[" || t = "list()" then .list
  else if (t.startsWith "\x7b" && Text.contains t ":") || t = "dict()" then .dict
  else if t.startsWith "\x7b" || t = "set()" || t.startsWith "set(" then .set
  else .unknown

/-! ### Type hints -/

/-- Whether a name is meant for others. -/
def isPublic (name : String) : Bool := !name.startsWith "_"

/-- The parameters that stand for the object or the class. -/
def receiverNames : List String := ["self", "cls"]

/-- The kinds of parameters that take any number of arguments. -/
def openKinds : List String := ["*args", "**kwargs"]

/-- Whether parameters have type hints; receivers and open parameters need none. The kind of a
parameter has to be known, unless it is a receiver. -/
def parametersHinted : List Parameter → Except AccessFault Bool
  | [] => .ok true
  | p :: ps =>
    if receiverNames.contains p.name then parametersHinted ps
    else
      match p.kind with
      | none => .error (.noAttribute "ParameterInfo" "kind")
      | some kind =>
        if openKinds.contains kind then parametersHinted ps
        else if present p.hint then parametersHinted ps
        else .ok false

/-- Whether a function has all its type hints. Special methods need none. -/
def hasHints (f : Function) : Except AccessFault Bool := do
  if f.name.startsWith "__" && f.name.endsWith "__" then return true
  if !(← parametersHinted f.parameters) then return false
  return f.name = "__init__" || present f.returns

/-! ### Secrets -/

def secretKind (name : String) : SecretKind :=
  let n := Text.upper name
  if Text.contains n "API" && Text.contains n "KEY" then .apiKey
  else if Text.contains n "SECRET" then .secretKey
  else if Text.contains n "PASSWORD" then .password
  else if Text.contains n "TOKEN" then .token
  else if Text.contains n "AUTH" then .auth
  else if Text.contains n "CREDENTIAL" then .credential
  else .unknown

/-! ### Logging -/

def loggingCalls : List String := [
  "logger.debug", "logger.info", "logger.warning", "logger.error", "logger.critical",
  "logger.exception",
  "logging.debug", "logging.info", "logging.warning", "logging.error", "logging.critical"]

/-- A position in a list; negative ones count from the end. -/
def clamp (size : Nat) (i : Int) : Nat := if i < 0 then (size + i).toNat else i.toNat

/-- The members of a list from one position up to another. -/
def slice {α : Type} (xs : List α) (start stop : Int) : List α :=
  (xs.take (clamp xs.length stop)).drop (clamp xs.length start)

/-- Whether the lines of a function hold a call that writes to a log. A function that ends behind
the last line holds none. -/
def hasLogging (f : Function) (source : List Char) : Bool :=
  let lines := Text.newlineParts source
  if (lines.length : Int) < f.lastLine then false
  else
    let body := List.intercalate ['\n'] (slice lines (f.firstLine - 1) f.lastLine)
    loggingCalls.any fun c => Text.occursIn c.toList body

/-! ### Dependencies -/

/-- Whether a class is given its parts when it is made: its constructor has parameters. Nothing is
known of a class without a constructor. -/
def isInjected? (c : Outline.Class) : Option Bool :=
  (c.methods.find? (·.name = "__init__")).map fun init =>
    init.parameters.any fun p => !receiverNames.contains p.name

end CodeAtlas.Audit
