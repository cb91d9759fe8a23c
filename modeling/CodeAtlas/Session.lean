import CodeAtlas.Failure

/-!
# Sessions

A session is what commands work on: a file tree, the messages written to the log, and the text
printed. An action changes a session and succeeds or fails; what it did before a failure stays done.
-/

namespace CodeAtlas

/-- How grave a message is. -/
inductive Level where
  | debug
  | info
  | warning
  | error
  | critical
deriving DecidableEq, Repr

namespace Level

def name : Level → String
  | .debug => "DEBUG"
  | .info => "INFO"
  | .warning => "WARNING"
  | .error => "ERROR"
  | .critical => "CRITICAL"

def number : Level → Nat
  | .debug => 10
  | .info => 20
  | .warning => 30
  | .error => 40
  | .critical => 50

end Level

/-- A message of the log, with the failure that it reports. -/
structure Record where
  level : Level
  text : String
  cause : Option Failure := none

structure Session where
  tree : Files.Tree
  /-- The time, as it stands in documents. -/
  clock : String := ""
  /-- The time given to files that are written, in microseconds. -/
  now : Int := 0
  log : List Record := []
  /-- The text printed, in pieces. -/
  printed : List String := []
  /-- The settings in force, once they are read. -/
  settings : Option (List (String × Value)) := none

abbrev Action := ExceptT Failure (StateM Session)

/-- An action on a session and a work in progress, which keeps what was done before a failure. -/
abbrev Work (σ : Type) := ExceptT Failure (StateT σ (StateM Session))

instance {σ : Type} : MonadLift Action (Work σ) where
  monadLift a := fun w s =>
    match a s with
    | (r, s) => ((r, w), s)

/-- A step on a work in progress that fails only if a value has the wrong shape. -/
abbrev Step (σ : Type) := ExceptT AccessFault (StateM σ)

instance {σ : Type} : MonadLift (Step σ) (Work σ) where
  monadLift p := fun w s =>
    match p w with
    | (r, w) => ((r.mapError Failure.access, w), s)

namespace Work

variable {σ α : Type}

def attempt (a : Work σ α) : Work σ (Except Failure α) := fun w s =>
  match a w s with
  | ((r, w), s) => ((.ok r, w), s)

end Work

namespace Action

variable {α : Type}

def log (level : Level) (text : String) (cause : Option Failure := none) : Action Unit :=
  modify fun s => { s with log := s.log ++ [⟨level, text, cause⟩] }

def debug (text : String) : Action Unit := log .debug text

def info (text : String) : Action Unit := log .info text

def warning (text : String) : Action Unit := log .warning text

def error (text : String) : Action Unit := log .error text

/-- Reports a failure: the message ends in what is said about it. -/
def report (text : String) (f : Failure) : Action Unit :=
  log .error (text ++ ": " ++ f.message) (some f)

def put (text : String) : Action Unit := modify fun s => { s with printed := s.printed ++ [text] }

def print (line : String) : Action Unit := put (line ++ "\n")

def attempt (a : Action α) : Action (Except Failure α) := fun s =>
  match a s with
  | (r, s) => (.ok r, s)

/-- Does a work from a start; its failure goes on. -/
def perform {σ : Type} (w : Work σ α) (start : σ) : Action (α × σ) := fun s =>
  match w start s with
  | ((.ok x, done), s) => (.ok (x, done), s)
  | ((.error f, _), s) => (.error f, s)

/-- Runs an action; a failure is passed to `handle` and then goes on. -/
def onFailure (a : Action α) (handle : Failure → Action Unit) : Action α := do
  match ← attempt a with
  | .ok x => return x
  | .error f =>
    handle f
    throw f

/-! ### Files -/

def tree : Action Files.Tree := do return (← get).tree

/-- Succeeds or fails as a file operation does. -/
def ofFiles (r : Except Files.Refusal α) : Action α :=
  match r with
  | .ok x => pure x
  | .error (f, p) => throw (.file f p.text)

/-- Asks a question about a path. -/
def ask (q : Files.Tree → Path → Except Files.Fault Bool) (p : Path) : Action Bool := do
  ofFiles ((q (← tree) p).mapError (·, p))

def isThere (p : Path) : Action Bool := ask Files.Tree.hasEntry p

def isDir (p : Path) : Action Bool := ask Files.Tree.hasDir p

def isFile (p : Path) : Action Bool := ask Files.Tree.hasFile p

def change (f : Files.Tree → Except Files.Refusal Files.Tree) : Action Unit := do
  let t ← ofFiles (f (← tree))
  modify fun s => { s with tree := t }

def readBytes (p : Path) : Action (List UInt8) := do return (← ofFiles ((← tree).read p)).1

def writeBytes (p : Path) (bytes : List UInt8) : Action Unit := do
  let now := (← get).now
  change (·.write p bytes now)

def makeDirs (p : Path) : Action Unit := do
  let (r, t) := (← tree).makeDirs p
  modify fun s => { s with tree := t }
  ofFiles r

/-- The path without links that a path denotes. -/
def resolve (p : Path) : Action Path := do
  match (← tree).resolve p with
  | .ok q => return q
  | .error (.tooManyLinks, q) => throw (.linkLoop q.text)
  | .error (f, q) => throw (.file f q.text)

/-- The characters of bytes in UTF-8. -/
def decode (bytes : List UInt8) : Action (List Char) :=
  match Text.utf8 bytes with
  | .ok cs => pure cs
  | .error f => throw (.decoding f)

/-- Succeeds or fails as an encoding does. -/
def ofEncoding (r : Except Text.EncodeFault α) : Action α :=
  match r with
  | .ok x => pure x
  | .error f => throw (.encoding f)

/-- Makes sure that a text can be encoded. -/
def encode (text : String) : Action Unit :=
  match Text.encodeFault? text with
  | none => pure ()
  | some f => throw (.encoding f)

/-- Reads a text file in UTF-8; its lines end in line feeds. -/
def readText (p : Path) : Action (List Char) := do
  return Text.unifyNewlines (← decode (← readBytes p))

def writeText (p : Path) (text : String) : Action Unit := writeBytes p (Text.utf8Bytes text)

def fileSize (p : Path) : Action Nat := do return (← readBytes p).length

/-! ### Documents -/

def parseJson (cs : List Char) : Action Value :=
  match Json.readChars cs with
  | .ok v => pure v
  | .error e => throw (.json e cs)

def jsonText (style : Json.Style) (v : Value) : Action String :=
  match Json.write style v with
  | .ok t => pure t
  | .error e => throw (.jsonValue e)

/-- What a compressed file holds. -/
def decompress (bytes : List UInt8) : Action (List UInt8) :=
  match Gzip.decompress bytes with
  | .ok content => pure content
  | .error f => throw (.gzip f)

/-- A reading of a value of unknown shape. -/
def access (r : Except AccessFault α) : Action α :=
  match r with
  | .ok x => pure x
  | .error f => throw (.access f)

end Action

end CodeAtlas
