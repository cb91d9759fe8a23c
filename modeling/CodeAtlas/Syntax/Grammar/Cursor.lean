import CodeAtlas.Syntax.Token

/-!
# Reading tokens

A reader takes tokens from the front of a list and gives a result, or refuses and takes nothing. The
number of tokens at first bounds every repetition.
-/

namespace CodeAtlas.Syntax

structure Cursor where
  toks : List Token
  last : Nat := 1
  /-- More than the number of tokens. -/
  bound : Nat := toks.length + 1

def Cursor.start (toks : List Token) : Cursor := { toks }

abbrev Reader := StateT Cursor Option

namespace Reader

def peek : Reader TokenKind := do
  match (← get).toks with
  | t :: _ => return t.kind
  | [] => return .stop

/-- What the token after the next one is. -/
def peekSecond : Reader TokenKind := do
  match (← get).toks with
  | _ :: t :: _ => return t.kind
  | _ => return .stop

/-- The line of the next token. -/
def line : Reader Nat := do
  match (← get).toks with
  | t :: _ => return t.line
  | [] => return 0

def next : Reader TokenKind := do
  let c ← get
  match c.toks with
  | t :: rest =>
    set { c with toks := rest, last := if t.isLayout then c.last else t.endLine }
    return t.kind
  | [] => failure

/-- The result of a reader, or nothing and no token taken if it refuses. -/
def attempt {α : Type} (p : Reader α) : Reader (Option α) := fun c =>
  match p c with
  | some (a, c') => some (some a, c')
  | none => some (none, c)

/-- Takes a token of this kind, if it comes next. -/
def accept (kind : TokenKind) : Reader Bool := do
  if (← peek) = kind then
    let _ ← next
    return true
  else return false

def expect (kind : TokenKind) : Reader Unit := do
  if !(← accept kind) then failure

def op? (s : String) : Reader Bool := accept (.op s)

def op (s : String) : Reader Unit := expect (.op s)

def keyword? (w : String) : Reader Bool := accept (.keyword w)

def keyword (w : String) : Reader Unit := expect (.keyword w)

def identifier : Reader Identifier := do
  match ← next with
  | .ident s _ => return s
  | _ => failure

def ident : Reader String := return (← identifier).text

/-- Whether the next token is this symbol. -/
def atOp (s : String) : Reader Bool := return (← peek) = .op s

def atKeyword (w : String) : Reader Bool := return (← peek) = .keyword w

/-- Whether the next token is a plainly written identifier of this name. -/
def atWord (w : String) : Reader Bool := do
  match ← peek with
  | .ident s plain => return plain && s.text = w
  | _ => return false

def require (b : Bool) : Reader Unit := if b then pure () else failure

/-- Runs a reader until it gives nothing, at most so many times. -/
def untilNone {α : Type} (p : Reader (Option α)) : Nat → Reader (List α)
  | 0 => pure []
  | n + 1 => do
    match ← p with
    | none => return []
    | some a => return a :: (← untilNone p n)

/-- Runs a reader until it gives nothing. Every result takes a token, so the tokens bound it. -/
def many {α : Type} (p : Reader (Option α)) : Reader (List α) := fun c =>
  untilNone p c.bound c

/-- Extends a result step by step until there is nothing to extend it with, at most so many times.
-/
def extendUpTo {α : Type} (step : α → Reader (Option α)) : Nat → α → Reader α
  | 0, a => pure a
  | n + 1, a => do
    match ← step a with
    | none => return a
    | some b => extendUpTo step n b

/-- Extends a result step by step until there is nothing to extend it with. -/
def extend {α : Type} (step : α → Reader (Option α)) (a : α) : Reader α := fun c =>
  extendUpTo step c.bound a c

/-- Items with commas between them, at least one. -/
def commas {α : Type} (item : Reader α) : Reader (List α) := do
  let first ← item
  let rest ← many (attempt (do op ","; item))
  return first :: rest

end Reader

end CodeAtlas.Syntax
