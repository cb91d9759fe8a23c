import CodeAtlas.Syntax.Grammar.Pattern

/-!
# The grammar of statements
-/

namespace CodeAtlas.Syntax.Grammar

open Reader

/-! ### Simple statements -/

/-- The span from a line to the last token taken. -/
def spanFrom (first : Nat) : Reader Span := return ⟨first, (← get).last⟩

def dottedName : Reader String := do
  let first ← ident
  let rest ← many (attempt (do op "."; ident))
  return ".".intercalate (first :: rest)

/-- A name, perhaps with another name to bind it to. -/
def aliased (name : Reader String) : Reader Alias := do
  let n ← name
  if ← keyword? "as" then return ⟨n, some (← ident)⟩ else return ⟨n, none⟩

def importDots : Reader Nat := do
  let dots ← many (do
    if ← op? "." then return some 1
    else if ← op? "..." then return some 3
    else return none)
  return dots.foldl (· + ·) 0

def importedNames : Reader (List Alias) := do
  if ← op? "*" then return [⟨"*", none⟩]
  if ← op? "(" then
    let names ← commas (aliased ident)
    let _ ← op? ","
    op ")"
    return names
  let names ← commas (aliased ident)
  require !(← atOp ",")
  return names

def importStatement (first : Nat) : Reader Stmt := do
  if ← keyword? "import" then
    let names ← commas (aliased dottedName)
    return .importNames (← spanFrom first) names
  keyword "from"
  let level ← importDots
  let module ← attempt dottedName
  require (module.isSome || 0 < level)
  keyword "import"
  let names ← importedNames
  return .importFrom (← spanFrom first) module names level

/-- The right-hand side of an assignment. -/
def assigned : Reader Expr := do
  if ← atKeyword "yield" then yieldExpression full else full.starExpressions

def augmentedSymbols : List String :=
  ["+=", "-=", "*=", "@=", "/=", "%=", "&=", "|=", "^=", "<<=", ">>=", "**=", "//="]

/-- The targets and the value of a chain of assignments after its first target. -/
def assignChain (firstTarget : Expr) : Reader (List Expr × Expr) := do
  require (isTarget firstTarget)
  let (targets, value) ← extend (fun (targets, value) => do
    if ← op? "=" then
      require (isTarget value)
      return some (targets ++ [value], ← assigned)
    else return none) ([firstTarget], ← assigned)
  return (targets, value)

def expressionStatement (first : Nat) : Reader Stmt := do
  let e ← assigned
  match ← peek with
  | .op ":" =>
    let _ ← next
    require (isPlace e)
    let a ← full.expression
    let value ← do
      if ← op? "=" then pure (some (← assigned)) else pure none
    return .annotated (← spanFrom first) e a value
  | .op "=" =>
    let _ ← next
    let (targets, value) ← assignChain e
    return .assign (← spanFrom first) targets value
  | .op s =>
    if augmentedSymbols.contains s then
      let _ ← next
      require (isPlace e)
      let _ ← assigned
      return .other (← spanFrom first)
    else return .expr (← spanFrom first) e
  | _ => return .expr (← spanFrom first) e

def deleted : Reader Unit := do
  let e ← full.primary
  require (isDeletable e)

/-- The parts of a statement that starts with a keyword and holds nothing of interest. -/
def keywordStatement (word : String) : Reader Unit := do
  match word with
  | "pass" | "break" | "continue" => pure ()
  | "return" => let _ ← attempt full.starExpressions
  | "raise" =>
    match ← attempt full.expression with
    | some _ => if ← keyword? "from" then let _ ← full.expression
    | none => pure ()
  | "global" | "nonlocal" => let _ ← commas ident
  | "del" =>
    let _ ← commas deleted
    let _ ← op? ","
    require ((← atOp ";") || (← peek) = .newline)
  | "assert" =>
    let _ ← full.expression
    if ← op? "," then let _ ← full.expression
  | _ => failure

/-- The keywords that start a statement of which only the place is kept. -/
def plainKeywords : List String :=
  ["pass", "break", "continue", "return", "raise", "global", "nonlocal", "del", "assert"]

def simpleStatement : Reader Stmt := do
  let first ← line
  match ← peek with
  | .keyword w =>
    if w = "import" || w = "from" then importStatement first
    else if plainKeywords.contains w then
      let _ ← next
      keywordStatement w
      return .other (← spanFrom first)
    else expressionStatement first
  | _ => expressionStatement first

def simpleStatements : Reader (List Stmt) := do
  let s ← simpleStatement
  let rest ← many (attempt (do op ";"; simpleStatement))
  let _ ← op? ";"
  expect .newline
  return s :: rest

/-! ### Compound statements -/

def children (body : List Stmt) : List Node := body.map .stmt

/-- A condition or a header, and the block after its colon. -/
def colonBlock (block : Reader (List Stmt)) : Reader (List Stmt) := do
  op ":"
  block

def elseBlock (block : Reader (List Stmt)) : Reader (List Stmt) := do
  if ← keyword? "else" then colonBlock block else return []

/-- The rest of a conditional statement after its keyword: further conditions are statements inside
the one before them. -/
def ifRest (block : Reader (List Stmt)) : Nat → Nat → Reader Stmt
  | 0, _ => failure
  | fuel + 1, first => do
    let _ ← namedExpression full
    let body ← colonBlock block
    let next ← line
    if ← keyword? "elif" then
      let inner ← ifRest block fuel next
      return .compound (← spanFrom first) (children body ++ [.stmt inner])
    else
      let orelse ← elseBlock block
      return .compound (← spanFrom first) (children (body ++ orelse))

def whileStatement (block : Reader (List Stmt)) (first : Nat) : Reader Stmt := do
  let _ ← namedExpression full
  let body ← colonBlock block
  let orelse ← elseBlock block
  return .compound (← spanFrom first) (children (body ++ orelse))

def forStatement (block : Reader (List Stmt)) (first : Nat) : Reader Stmt := do
  let _ ← starTargets full
  keyword "in"
  let _ ← full.starExpressions
  let body ← colonBlock block
  let orelse ← elseBlock block
  return .compound (← spanFrom first) (children (body ++ orelse))

def withItem : Reader Unit := do
  let _ ← full.expression
  if ← keyword? "as" then
    let _ ← starTarget full
    require ((← atOp ",") || (← atOp ")") || (← atOp ":"))

/-- The items of a `with`, all in brackets or none. -/
def withItems : Reader Unit := do
  match ← attempt (do
    op "("
    let _ ← commas withItem
    let _ ← op? ","
    op ")"
    require (← atOp ":")) with
  | some () => pure ()
  | none => let _ ← commas withItem

def withStatement (block : Reader (List Stmt)) (first : Nat) : Reader Stmt := do
  withItems
  let body ← colonBlock block
  return .compound (← spanFrom first) (children body)

/-- An exception handler of the plain or of the group kind. -/
def handler (block : Reader (List Stmt)) (group : Bool) : Reader (Option Node) := do
  match ← peek, ← peekSecond with
  | .keyword "except", second =>
    if (second = .op "*") != group then return none
    let _ ← next
    if group then
      let _ ← next
    if !group && (← atOp ":") then return some (.clause (← colonBlock block))
    let _ ← full.expression
    if ← keyword? "as" then
      let _ ← ident
    return some (.clause (← colonBlock block))
  | _, _ => return none

def finallyBlock (block : Reader (List Stmt)) : Reader (List Stmt) := do
  if ← keyword? "finally" then colonBlock block else return []

def tryStatement (block : Reader (List Stmt)) (first : Nat) : Reader Stmt := do
  let body ← colonBlock block
  if ← atKeyword "finally" then
    let final ← finallyBlock block
    return .compound (← spanFrom first) (children (body ++ final))
  let plain ← many (handler block false)
  let handlers ← if plain.isEmpty then many (handler block true) else pure plain
  require !handlers.isEmpty
  let orelse ← elseBlock block
  let final ← finallyBlock block
  return .compound (← spanFrom first) (children body ++ handlers ++ children (orelse ++ final))

/-! ### Definitions -/

/-- The number of open brackets after a token. -/
def bracketDepth (depth : Nat) (k : TokenKind) : Nat :=
  match k with
  | .op "(" | .op "[" | .op "\x7b" => depth + 1
  | .op ")" | .op "]" | .op "\x7d" => depth - 1
  | _ => depth

/-- Whether the first token is an opening bracket that the last one closes. -/
def isEnclosed (depth : Nat) : List Token → Bool
  | [] => false
  | [t] => depth = 1 && t.kind = .op ")"
  | t :: rest =>
    let d := bracketDepth depth t.kind
    if d = 0 then false else isEnclosed d rest

/-- The line on which an expression starts, brackets around the whole of it not counted. -/
def startLine : Nat → List Token → Nat
  | 0, _ => 0
  | _ + 1, [] => 0
  | fuel + 1, t :: rest =>
    if t.kind = .op "(" && isEnclosed 0 (t :: rest) then startLine fuel rest.dropLast else t.line

def decorator : Reader (Option Decorator) := do
  if ← op? "@" then
    let own := (← get).toks.takeWhile (·.kind ≠ .newline)
    let e ← namedExpression full
    expect .newline
    return some ⟨startLine (own.length + 1) own, e⟩
  else return none

def functionDef (block : Reader (List Stmt)) (first : Nat) (isAsync : Bool)
    (decorators : List Decorator) : Reader Stmt := do
  let name ← identifier
  op "("
  let signature ← parameters full true ")"
  op ")"
  let returns ← do
    if ← op? "->" then pure (some (← full.expression)) else pure none
  let body ← colonBlock block
  return .function (← spanFrom first) ⟨name.text, isAsync, signature, decorators, returns,
    name.valid⟩ body

def classDef (block : Reader (List Stmt)) (first : Nat) (decorators : List Decorator) :
    Reader Stmt := do
  let name ← identifier
  let bases ← do
    if ← op? "(" then pure (← arguments full).1 else pure []
  let body ← colonBlock block
  return .classDef (← spanFrom first) ⟨name.text, bases, decorators, name.valid⟩ body

def definition (block : Reader (List Stmt)) (decorators : List Decorator) : Reader Stmt := do
  let first ← line
  if ← keyword? "class" then classDef block first decorators
  else
    let isAsync ← keyword? "async"
    keyword "def"
    functionDef block first isAsync decorators

/-! ### Case distinctions -/

/-- What a case distinction looks at. -/
def subject : Reader Unit := do
  let e ← starNamed full
  if ← op? "," then
    let _ ← attempt (starNamedList full)
  else require !(isStarred e)

/-- The start of a case distinction, up to its first case. -/
def matchHeader : Reader Unit := do
  require (← atWord "match")
  let _ ← next
  subject
  op ":"
  expect .newline
  expect .indent
  require (← atWord "case")

def caseBlock (block : Reader (List Stmt)) : Reader (Option Node) := do
  if ← atWord "case" then
    let _ ← next
    casePatterns
    if ← keyword? "if" then
      let _ ← namedExpression full
    return some (.clause (← colonBlock block))
  else return none

def matchStatement (block : Reader (List Stmt)) (first : Nat) : Reader Stmt := do
  let cases ← many (caseBlock block)
  expect .dedent
  return .compound (← spanFrom first) cases

/-! ### Blocks and modules -/

/-- A statement that starts with a keyword and has a block. -/
def compoundStatement (block : Reader (List Stmt)) (first : Nat) (word : String) : Reader Stmt := do
  match word with
  | "if" => ifRest block (← get).bound first
  | "while" => whileStatement block first
  | "for" => forStatement block first
  | "with" => withStatement block first
  | "try" => tryStatement block first
  | _ => failure

def compoundKeywords : List String := ["if", "while", "for", "with", "try"]

/-- The statements of a line, or one compound statement. -/
def statement (block : Reader (List Stmt)) : Reader (List Stmt) := do
  let first ← line
  match ← peek with
  | .op "@" =>
    let decorators ← many decorator
    return [← definition block decorators]
  | .keyword "async" =>
    match ← peekSecond with
    | .keyword "def" => return [← definition block []]
    | .keyword w =>
      require (w = "with" || w = "for")
      let _ ← next
      let _ ← next
      return [← compoundStatement block first w]
    | _ => failure
  | .keyword w =>
    if w = "def" || w = "class" then return [← definition block []]
    else if compoundKeywords.contains w then
      let _ ← next
      return [← compoundStatement block first w]
    else simpleStatements
  | .ident s true =>
    if s.text = "match" then
      match ← attempt matchHeader with
      | some () => return [← matchStatement block first]
      | none => simpleStatements
    else simpleStatements
  | _ => simpleStatements

/-- Statements up to the end of the block or of the file. -/
def statements (block : Reader (List Stmt)) : Reader (List Stmt) := do
  let groups ← many (do
    match ← peek with
    | .dedent | .stop => return none
    | _ => return some (← statement block))
  return groups.flatten

/-- A block: indented statements, or the rest of the line. -/
def block (deeper : Reader (List Stmt)) : Reader (List Stmt) := do
  if ← accept .newline then
    expect .indent
    let body ← statements deeper
    expect .dedent
    require !body.isEmpty
    return body
  else simpleStatements

/-- The grammar of blocks. Indentation bounds how deep they are nested. -/
def fullBlock : Reader (List Stmt) := Nat.repeat block (maxIndents + 1) failure

end Grammar

/-- The module that a source text is, if it is well formed. -/
def parseModule? (source : List Char) : Option Module := do
  let toks ← tokens? (moduleChars source)
  let (body, c) ← Grammar.statements Grammar.fullBlock (.start toks)
  match c.toks with
  | [t] => if t.kind = .stop then some ⟨body⟩ else none
  | _ => none

/-- The expression that a text is, read by a grammar with so many brackets open, if it is well
formed. -/
def expressionWithin? (room : Nat) (g : Deeper) (source : List Char) : Option Expr := do
  let toks ← tokensWithin? room (Text.unifyNewlines source)
  let (items, c) ← (do
    let items ← Reader.commas g.expression
    let comma ← Reader.op? ","
    pure (items, comma) : Reader (List Expr × Bool)) (.start toks)
  match c.toks.dropWhile (·.kind = .newline) with
  | [t] =>
    if t.kind = .stop then
      match items with
      | ([e], false) => some e
      | (es, _) => some (.tuple es)
    else none
  | _ => none

/-- The expression that a text is, if it is well formed. -/
def parseExpression? (source : List Char) : Option Expr :=
  expressionWithin? maxBrackets Grammar.full source

end CodeAtlas.Syntax
