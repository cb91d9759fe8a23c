import CodeAtlas.Syntax.Grammar.Cursor
import CodeAtlas.Syntax.Literal
import CodeAtlas.Syntax.Statement
import CodeAtlas.Syntax.Token.Lexer

/-!
# The grammar of expressions

Each production is a reader over the productions of the level below it, gathered in `Deeper`. Levels
are stacked a fixed number of times, which bounds how deep an expression may be nested.
-/

namespace CodeAtlas.Syntax

/-- The readers that a production uses for what is nested inside it. -/
structure Deeper where
  expression : Reader Expr
  starExpressions : Reader Expr
  disjunction : Reader Expr
  inversion : Reader Expr
  bitwiseOr : Reader Expr
  factor : Reader Expr
  primary : Reader Expr

namespace Grammar

open Reader

/-! ### Small productions -/

/-- Whether the next tokens bind a name inside an expression. -/
def atBinding : Reader Bool := do
  match ← peek, ← peekSecond with
  | .ident .., .op ":=" => return true
  | _, _ => return false

/-- An expression that may bind a name. -/
def namedExpression (g : Deeper) : Reader Expr := do
  if ← atBinding then
    let name ← ident
    op ":="
    return .named (.name name) (← g.expression)
  else
    let e ← g.expression
    require !(← atOp ":=")
    return e

/-- An expression that may bind a name, or an unpacked one. -/
def starNamed (g : Deeper) : Reader Expr := do
  if ← op? "*" then return .starred (← g.bitwiseOr) else namedExpression g

def isStarred : Expr → Bool
  | .starred _ => true
  | _ => false

/-- Items with commas between and perhaps after them. -/
def starNamedList (g : Deeper) : Reader (List Expr) := do
  let items ← commas (starNamed g)
  let _ ← op? ","
  return items

def yieldExpression (g : Deeper) : Reader Expr := do
  keyword "yield"
  if ← keyword? "from" then return .yieldFrom (← g.expression)
  else return .yield (← attempt g.starExpressions)

/-! ### Targets of assignments -/

mutual

def isTarget : Expr → Bool
  | .name _ | .attribute .. | .subscript .. => true
  | .tuple es => areTargets es
  | .list es => areTargets es
  | .starred (.starred _) => false
  | .starred e => isTarget e
  | _ => false

/-- Whether all of these expressions can be assigned to. -/
def areTargets : List Expr → Bool
  | [] => true
  | e :: es => isTarget e && areTargets es

end

mutual

def isDeletable : Expr → Bool
  | .name _ | .attribute .. | .subscript .. => true
  | .tuple es => areDeletable es
  | .list es => areDeletable es
  | _ => false

/-- Whether all of these expressions can be deleted. -/
def areDeletable : List Expr → Bool
  | [] => true
  | e :: es => isDeletable e && areDeletable es

end

/-- Whether an expression is a single place to assign to. -/
def isPlace : Expr → Bool
  | .name _ | .attribute .. | .subscript .. => true
  | _ => false

def starTarget (g : Deeper) : Reader Expr := do
  let starred ← op? "*"
  let e ← g.primary
  require (isTarget e && !isStarred e)
  return if starred then .starred e else e

def starTargets (g : Deeper) : Reader Expr := do
  let items ← commas (starTarget g)
  let comma ← op? ","
  match items, comma with
  | [e], false => return e
  | es, _ => return .tuple es

/-! ### Comprehensions -/

def atClause : Reader Bool := return (← atKeyword "for") || (← atKeyword "async")

def clause (g : Deeper) : Reader Clause := do
  let isAsync ← keyword? "async"
  keyword "for"
  let target ← starTargets g
  keyword "in"
  let source ← g.disjunction
  let conditions ← many (do
    if ← keyword? "if" then return some (← g.disjunction) else return none)
  return .mk isAsync target source conditions

def clauses (g : Deeper) : Reader (List Clause) := do
  let first ← clause g
  let rest ← many (do if ← atClause then return some (← clause g) else return none)
  return first :: rest

/-! ### Arguments, slices, parameters -/

inductive Argument where
  | positional (e : Expr)
  | keyword (k : Keyword)

def Argument.isPositional : Argument → Bool
  | .positional _ => true
  | .keyword _ => false

def Argument.isTable : Argument → Bool
  | .keyword (.mk none _) => true
  | _ => false

def Argument.isPlain : Argument → Bool
  | .positional e => !isStarred e
  | .keyword _ => false

def argument (g : Deeper) : Reader Argument := do
  if ← op? "*" then return .positional (.starred (← g.expression))
  if ← op? "**" then return .keyword (.mk none (← g.expression))
  match ← peek, ← peekSecond with
  | .ident name _, .op "=" =>
    let _ ← next
    let _ ← next
    return .keyword (.mk (some name.text) (← g.expression))
  | _, _ =>
    let e ← namedExpression g
    require !(← atOp "=")
    return .positional e

/-- Whether arguments come in a permitted order: no plain one after a keyword, and no unpacked list
after an unpacked table. -/
def wellOrdered : List Argument → Bool
  | [] => true
  | a :: rest =>
    (if a.isPositional then true
     else if a.isTable then rest.all (!·.isPositional)
     else rest.all (!·.isPlain)) && wellOrdered rest

/-- The positional arguments and the keywords, each in order. -/
def splitArguments : List Argument → List Expr × List Keyword
  | [] => ([], [])
  | .positional e :: rest => let (es, ks) := splitArguments rest; (e :: es, ks)
  | .keyword k :: rest => let (es, ks) := splitArguments rest; (es, k :: ks)

/-- The arguments after the first one, and the closing bracket. -/
def moreArguments (g : Deeper) (first : Argument) : Reader (List Expr × List Keyword) := do
  let rest ← many (attempt (do op ","; argument g))
  let _ ← op? ","
  op ")"
  require (wellOrdered (first :: rest))
  return splitArguments (first :: rest)

/-- The arguments after an opening bracket, and the closing bracket. -/
def arguments (g : Deeper) : Reader (List Expr × List Keyword) := do
  if ← op? ")" then return ([], [])
  moreArguments g (← argument g)

/-- The arguments of a call: a single generator needs no brackets of its own. -/
def callArguments (g : Deeper) : Reader (List Expr × List Keyword) := do
  if ← op? ")" then return ([], [])
  let first ← argument g
  match first, ← atClause with
  | .positional e, true =>
    require !(isStarred e)
    let cs ← clauses g
    op ")"
    return ([.generator e cs], [])
  | _, _ => moreArguments g first

def slice (g : Deeper) : Reader Expr := do
  let binding ← atBinding
  let lower ← attempt (namedExpression g)
  if !binding && (← op? ":") then
    let upper ← attempt g.expression
    let step ← do
      if ← op? ":" then attempt g.expression else pure none
    return .slice lower upper step
  else
    match lower with
    | some e => return e
    | none => failure

def subscriptItem (g : Deeper) : Reader Expr := do
  if ← op? "*" then return .starred (← g.expression) else slice g

/-- What stands between the brackets of a subscript. -/
def slices (g : Deeper) : Reader Expr := do
  let items ← commas (subscriptItem g)
  let comma ← op? ","
  match items, comma with
  | [e], false => return if isStarred e then .tuple [e] else e
  | es, _ => return .tuple es

/-- Where a parameter list stands: what may still come. -/
inductive ParamPhase where
  | positional
  | afterSlash
  | afterBareStar
  | keywordOnly
  | closed
deriving DecidableEq

/-- The parameters read so far. -/
structure ParamState where
  phase : ParamPhase := .positional
  sig : Signature := {}

/-- The name of a parameter and its type hint. -/
def paramName (hint : Reader (Option Expr)) : Reader Param := do
  let name ← identifier
  return ⟨name.text, ← hint, name.valid⟩

def typeHint (g : Deeper) (allowed : Bool) : Reader (Option Expr) := do
  if allowed then
    if ← op? ":" then return some (← g.expression)
  return none

/-- The type hint of the rest of the positions, which may be unpacked. -/
def starHint (g : Deeper) (allowed : Bool) : Reader (Option Expr) := do
  if allowed then
    if ← op? ":" then
      if ← op? "*" then return some (.starred (← g.bitwiseOr))
      return some (← g.expression)
  return none

/-- A parameter with a name and perhaps a default. -/
def namedParam (g : Deeper) (annotated : Bool) (st : ParamState) : Reader ParamState := do
  let p ← paramName (typeHint g annotated)
  let default ← do
    if ← op? "=" then pure (some (← g.expression)) else pure none
  match st.phase with
  | .positional | .afterSlash =>
    let sig := { st.sig with regular := st.sig.regular ++ [p] }
    match default with
    | some e => return { st with sig := { sig with defaults := sig.defaults ++ [e] } }
    | none =>
      require sig.defaults.isEmpty
      return { st with sig := sig }
  | .afterBareStar | .keywordOnly =>
    return ⟨.keywordOnly, { st.sig with
      kwOnly := st.sig.kwOnly ++ [p], kwDefaults := st.sig.kwDefaults ++ [default] }⟩
  | .closed => failure

/-- One item of a parameter list. -/
def paramItem (g : Deeper) (annotated : Bool) (st : ParamState) : Reader ParamState := do
  if ← op? "/" then
    require (st.phase = .positional && !st.sig.regular.isEmpty)
    return ⟨.afterSlash, { st.sig with posOnly := st.sig.regular, regular := [] }⟩
  else if ← op? "**" then
    require (st.phase ≠ .afterBareStar && st.phase ≠ .closed)
    let p ← paramName (typeHint g annotated)
    return ⟨.closed, { st.sig with kwArg := some p }⟩
  else if ← op? "*" then
    require (st.phase = .positional || st.phase = .afterSlash)
    match ← peek with
    | .ident .. =>
      let p ← paramName (starHint g annotated)
      return ⟨.keywordOnly, { st.sig with varArg := some p }⟩
    | _ =>
      require (← atOp ",")
      return ⟨.afterBareStar, st.sig⟩
  else namedParam g annotated st

/-- A parameter list up to the symbol that closes it, which is not taken. -/
def parameters (g : Deeper) (annotated : Bool) (closer : String) : Reader Signature := do
  if ← atOp closer then return {}
  let first ← paramItem g annotated {}
  let st ← extend (fun st => do
    if ← op? "," then
      if ← atOp closer then return none
      else return some (← paramItem g annotated st)
    else return none) first
  require (st.phase ≠ .afterBareStar)
  require (← atOp closer)
  return st.sig

/-! ### Formatted strings -/

/-- The expression inside a formatted string, given by its characters. -/
def embedded (g : Deeper) (cs : List Char) : Option Expr := do
  if cs.all fun c => c = ' ' || c = '\t' || c = '\n' || c = '\x0c' then none
  else do
    let toks ← tokens? ('(' :: (cs ++ [')', '\n']))
    let (e, c) ← g.primary (.start toks)
    match c.toks with
    | [t, _] => if t.kind = .newline then some e else none
    | _ => none

/-- How far the scan of an embedded expression has got: the quote it is in, if any, with whether it
is tripled, and the open brackets. -/
structure EmbeddedState where
  quote : Option (Char × Bool) := none
  brackets : List Char := []

/-- Finds the end of an embedded expression: its characters and what follows them. `taken` holds the
characters passed, last first. -/
def scanEmbedded : Nat → EmbeddedState → List Char → List Char → Option (List Char × List Char)
  | 0, _, _, _ => none
  | _ + 1, _, _, [] => none
  | fuel + 1, st, taken, c :: cs =>
    if c = '\\' then none
    else match st.quote with
    | some (q, triple) =>
      if c = q then
        if triple then
          match cs with
          | c1 :: c2 :: rest =>
            if c1 = q ∧ c2 = q then
              scanEmbedded fuel { st with quote := none } (c2 :: c1 :: c :: taken) rest
            else scanEmbedded fuel st (c :: taken) cs
          | _ => scanEmbedded fuel st (c :: taken) cs
        else scanEmbedded fuel { st with quote := none } (c :: taken) cs
      else scanEmbedded fuel st (c :: taken) cs
    | none =>
      if c = '\'' || c = '"' then
        match cs with
        | c1 :: c2 :: rest =>
          if c1 = c ∧ c2 = c then
            scanEmbedded fuel { st with quote := some (c, true) } (c2 :: c1 :: c :: taken) rest
          else scanEmbedded fuel { st with quote := some (c, false) } (c :: taken) cs
        | _ => scanEmbedded fuel { st with quote := some (c, false) } (c :: taken) cs
      else if c = '[' || c = '\x7b' || c = '(' then
        if maxBrackets ≤ st.brackets.length then none
        else scanEmbedded fuel { st with brackets := c :: st.brackets } (c :: taken) cs
      else if c = '#' then none
      else if st.brackets.isEmpty
          && (c = '!' || c = ':' || c = '\x7d' || c = '=' || c = '<' || c = '>') then
        if cs.head?.any (· = '=') && (c = '!' || c = '=' || c = '<' || c = '>') then
          scanEmbedded fuel st ('=' :: c :: taken) (cs.drop 1)
        else if c = '<' || c = '>' then scanEmbedded fuel st (c :: taken) cs
        else some (taken.reverse, c :: cs)
      else match openerOf c with
        | none => scanEmbedded fuel st (c :: taken) cs
        | some o =>
          match st.brackets with
          | b :: rest =>
            if b = o then scanEmbedded fuel { st with brackets := rest } (c :: taken) cs else none
          | [] => none

/-- A piece of literal text of a formatted string, as written, and what follows it. At the outer
level doubled braces stand for single ones and a lone closing brace is refused; inside a format a
brace ends the piece. The flag says whether the piece ended at a doubled brace. -/
def scanLiteral (raw outer : Bool) :
    Nat → List Char → List Char → Option (List Char × Bool × List Char)
  | 0, _, _ => none
  | _ + 1, taken, [] => some (taken.reverse, false, [])
  | fuel + 1, taken, '\\' :: 'N' :: '\x7b' :: cs =>
    if raw then scanLiteral raw outer fuel ('N' :: '\\' :: taken) ('\x7b' :: cs)
    else
      let name := cs.takeWhile (· != '\x7d')
      let after := (cs.dropWhile (· != '\x7d')).drop 1
      let closing := if name.length < cs.length then ['\x7d'] else []
      scanLiteral raw outer fuel (closing ++ name.reverse ++ ('\x7b' :: 'N' :: '\\' :: taken)) after
  | fuel + 1, taken, '\\' :: c :: cs =>
    if raw || c = '\x7b' || c = '\x7d' then scanLiteral raw outer fuel ('\\' :: taken) (c :: cs)
    else scanLiteral raw outer fuel (c :: '\\' :: taken) cs
  | fuel + 1, taken, c :: cs =>
    if c = '\x7b' || c = '\x7d' then
      if outer then
        if cs.head?.any (· = c) then some ((c :: taken).reverse, true, cs.drop 1)
        else if c = '\x7d' then none
        else some (taken.reverse, false, c :: cs)
      else some (taken.reverse, false, c :: cs)
    else scanLiteral raw outer fuel (c :: taken) cs

def addText (parts : List FormatPart) (cs : List Char) : List FormatPart :=
  if cs.isEmpty then parts
  else match parts with
    | .text s :: rest => .text (s ++ String.ofList cs) :: rest
    | _ => .text (String.ofList cs) :: parts

/-- The conversion after an exclamation mark. -/
def conversion? : List Char → Option (Option Char × List Char)
  | '!' :: c :: rest =>
    if (c = 's' || c = 'r' || c = 'a') && rest.head?.any (fun d => d = '\x7d' || d = ':') then
      some (some c, rest)
    else none
  | '!' :: [] => none
  | cs => some (none, cs)

/-- The parts of a formatted string, added to `parts` last first, and what follows them. Formats
nest once: `depth` counts how often. -/
def formatParts (g : Deeper) (raw : Bool) :
    Nat → Nat → List FormatPart → List Char → Option (List FormatPart × List Char)
  | 0, _, _, _ => none
  | fuel + 1, depth, parts, cs => do
    let (piece, doubled, rest) ← scanLiteral raw (depth = 0) (cs.length + 1) [] cs
    let text ← textOf? raw piece
    let parts := addText parts text
    if doubled then formatParts g raw fuel depth parts rest
    else match rest with
      | '\x7b' :: inside =>
        if 2 ≤ depth then none
        else do
          let (src, after) ← scanEmbedded (inside.length + 1) {} [] inside
          let e ← embedded g src
          let (shown, after) := match after with
            | '=' :: more =>
              let blanks := more.takeWhile fun c => c = ' ' || ('\t' ≤ c && c ≤ '\r')
              (some (src ++ '=' :: blanks), more.drop blanks.length)
            | _ => (none, after)
          let parts := match shown with
            | some t => addText parts t
            | none => parts
          let (conversion, after) ← conversion? after
          let (format, after) ← match after with
            | ':' :: more => do
              let (inner, more') ← formatParts g raw fuel (depth + 1) [] more
              some (some inner.reverse, more')
            | _ => some (none, after)
          match after with
          | '\x7d' :: more =>
            let conversion :=
              if shown.isSome && format.isNone && conversion.isNone then some 'r' else conversion
            formatParts g raw fuel depth (.value e conversion format :: parts) more
          | _ => none
      | _ => some (parts, rest)

/-- The characters of one string literal of a formatted string, added to the parts. -/
def addLiteral (g : Deeper) (parts : List FormatPart) (mark body : List Char) :
    Option (List FormatPart) := do
  let raw := hasMark mark 'r'
  if hasMark mark 'f' then
    let (parts, rest) ← formatParts g raw (body.length + 1) 0 parts body
    if rest.isEmpty then some parts else none
  else
    let text ← textOf? raw body
    some (addText parts text)

/-- The value of adjacent string literals. -/
def joinLiterals (g : Deeper) (lits : List (List Char × List Char)) : Option Expr := do
  if lits.any (hasMark ·.1 'b') then
    if lits.all (hasMark ·.1 'b') then
      let parts ← lits.mapM fun (mark, body) => bytesOf? (hasMark mark 'r') body
      some (.constant (.bytes parts.flatten))
    else none
  else
    let parts ← lits.foldlM (fun parts (mark, body) => addLiteral g parts mark body) []
    if lits.any (hasMark ·.1 'f') then some (.formatted parts.reverse)
    else
      let text := match parts with
        | [.text s] => s
        | _ => ""
      let marked := lits.head?.any fun l => l.1.head?.any (· = 'u')
      some (.constant (.str text marked))

/-! ### Atoms and what follows them -/

def stringLiterals (g : Deeper) : Reader Expr := do
  let lits ← many (do
    match ← peek with
    | .string mark body =>
      let _ ← next
      return some (mark, body)
    | _ => return none)
  match joinLiterals g lits with
  | some e => return e
  | none => failure

/-- What stands in round brackets, after the opening one. -/
def round (g : Deeper) : Reader Expr := do
  if ← op? ")" then return .tuple []
  if ← atKeyword "yield" then
    let e ← yieldExpression g
    op ")"
    return e
  let e ← starNamed g
  if ← op? "," then
    let rest ← attempt (starNamedList g)
    op ")"
    return .tuple (e :: rest.getD [])
  require !(isStarred e)
  if ← atClause then
    let cs ← clauses g
    op ")"
    return .generator e cs
  op ")"
  return e

/-- What stands in square brackets, after the opening one. -/
def square (g : Deeper) : Reader Expr := do
  if ← op? "]" then return .list []
  let e ← starNamed g
  if (← atClause) && !isStarred e then
    let cs ← clauses g
    op "]"
    return .listComp e cs
  let rest ← many (attempt (do op ","; starNamed g))
  let _ ← op? ","
  op "]"
  return .list (e :: rest)

def dictEntry (g : Deeper) : Reader DictEntry := do
  if ← op? "**" then return .mk none (← g.bitwiseOr)
  let k ← g.expression
  op ":"
  return .mk (some k) (← g.expression)

/-- The entries of a table display after the first one, and the closing brace. -/
def moreEntries (g : Deeper) (first : DictEntry) : Reader Expr := do
  let rest ← many (attempt (do op ","; dictEntry g))
  let _ ← op? ","
  op "\x7d"
  return .dict (first :: rest)

/-- The items of a set display after the first one, and the closing brace. -/
def moreItems (g : Deeper) (first : Expr) : Reader Expr := do
  if (← atClause) && !isStarred first then
    let cs ← clauses g
    op "\x7d"
    return .setComp first cs
  let rest ← many (attempt (do op ","; starNamed g))
  let _ ← op? ","
  op "\x7d"
  return .set (first :: rest)

/-- What stands in braces, after the opening one. -/
def braced (g : Deeper) : Reader Expr := do
  if ← op? "\x7d" then return .dict []
  if ← atOp "**" then moreEntries g (← dictEntry g)
  else if (← atOp "*") || (← atBinding) then moreItems g (← starNamed g)
  else
    let e ← g.expression
    if ← op? ":" then
      let v ← g.expression
      if ← atClause then
        let cs ← clauses g
        op "\x7d"
        return .dictComp e v cs
      else moreEntries g (.mk (some e) v)
    else
      require !(← atOp ":=")
      moreItems g e

def atom (g : Deeper) : Reader Expr := do
  match ← peek with
  | .string .. => stringLiterals g
  | _ =>
    match ← next with
    | .ident s _ => return .name s.text
    | .number c => return .constant c
    | .keyword "None" => return .constant .none
    | .keyword "True" => return .constant .true
    | .keyword "False" => return .constant .false
    | .op "..." => return .constant .ellipsis
    | .op "(" => round g
    | .op "[" => square g
    | .op "\x7b" => braced g
    | _ => failure

/-- One attribute, call or subscript after an expression. -/
def trailer (g : Deeper) (e : Expr) : Reader (Option Expr) := do
  if ← op? "." then return some (.attribute e (← ident))
  else if ← op? "(" then
    let (args, keywords) ← callArguments g
    return some (.call e args keywords)
  else if ← op? "[" then
    let index ← slices g
    op "]"
    return some (.subscript e index)
  else return none

def primary (g : Deeper) : Reader Expr := do extend (trailer g) (← atom g)

/-! ### Operators -/

def awaitPrimary (g : Deeper) : Reader Expr := do
  if ← keyword? "await" then return .await (← primary g) else primary g

def power (g : Deeper) : Reader Expr := do
  let e ← awaitPrimary g
  if ← op? "**" then return .binary e .pow (← g.factor) else return e

def factor (g : Deeper) : Reader Expr := do
  if ← op? "+" then return .unary .plus (← g.factor)
  else if ← op? "-" then return .unary .minus (← g.factor)
  else if ← op? "~" then return .unary .invert (← g.factor)
  else power g

/-- One more operand, behind one of these operators. -/
def joinStep (ops : List (String × BinaryOp)) (operand : Reader Expr) (e : Expr) :
    Reader (Option Expr) := do
  match ← peek with
  | .op s =>
    match ops.lookup s with
    | some o =>
      let _ ← next
      return some (.binary e o (← operand))
    | none => return none
  | _ => return none

/-- Operands joined by operators of one rank, from left to right. -/
def leftJoined (ops : List (String × BinaryOp)) (operand : Reader Expr) : Reader Expr := do
  extend (joinStep ops operand) (← operand)

def term (g : Deeper) : Reader Expr :=
  leftJoined [("*", .mul), ("/", .div), ("//", .floorDiv), ("%", .mod), ("@", .matMul)] (factor g)

def sum (g : Deeper) : Reader Expr := leftJoined [("+", .add), ("-", .sub)] (term g)

def shift (g : Deeper) : Reader Expr :=
  leftJoined [("<<", .shiftLeft), (">>", .shiftRight)] (sum g)

def bitwiseAnd (g : Deeper) : Reader Expr := leftJoined [("&", .bitAnd)] (shift g)

def bitwiseXor (g : Deeper) : Reader Expr := leftJoined [("^", .bitXor)] (bitwiseAnd g)

def bitwiseOr (g : Deeper) : Reader Expr := leftJoined [("|", .bitOr)] (bitwiseXor g)

def compareSymbols : List (String × CompareOp) :=
  [("==", .eq), ("!=", .ne), ("<=", .le), ("<", .lt), (">=", .ge), (">", .gt)]

/-- Takes a comparison operator, if one comes next. -/
def compareOp : Reader (Option CompareOp) := do
  match ← peek with
  | .op s =>
    match compareSymbols.lookup s with
    | some o =>
      let _ ← next
      return some o
    | none => return none
  | .keyword "in" =>
    let _ ← next
    return some .isIn
  | .keyword "is" =>
    let _ ← next
    return some (if ← keyword? "not" then .isNot else .is)
  | .keyword "not" =>
    if (← peekSecond) = .keyword "in" then
      let _ ← next
      let _ ← next
      return some .notIn
    else return none
  | _ => return none

def comparison (g : Deeper) : Reader Expr := do
  let first ← bitwiseOr g
  let rest ← many (do
    match ← compareOp with
    | some o => return some (Comparison.mk o (← bitwiseOr g))
    | none => return none)
  return if rest.isEmpty then first else .compare first rest

def inversion (g : Deeper) : Reader Expr := do
  if ← keyword? "not" then return .unary .not (← g.inversion) else comparison g

def wordJoined (word : String) (o : BoolOp) (operand : Reader Expr) : Reader Expr := do
  let first ← operand
  let rest ← many (do if ← keyword? word then return some (← operand) else return none)
  return if rest.isEmpty then first else .boolean o (first :: rest)

def conjunction (g : Deeper) : Reader Expr := wordJoined "and" .and (inversion g)

def disjunction (g : Deeper) : Reader Expr := wordJoined "or" .or (conjunction g)

def lambdaExpression (g : Deeper) : Reader Expr := do
  let s ← parameters g false ":"
  op ":"
  let body ← g.expression
  return .lambda (s.posOnly.map (·.name)) (s.regular.map (·.name)) s.defaults
    (s.varArg.map (·.name)) (s.kwOnly.map (·.name)) s.kwDefaults (s.kwArg.map (·.name)) body

def expression (g : Deeper) : Reader Expr := do
  if ← keyword? "lambda" then lambdaExpression g
  else
    let e ← disjunction g
    match ← attempt (do
      keyword "if"
      let test ← disjunction g
      keyword "else"
      return (test, ← g.expression)) with
    | some (test, orelse) => return .conditional test e orelse
    | none => return e

def starExpression (g : Deeper) : Reader Expr := do
  if ← op? "*" then return .starred (← bitwiseOr g) else expression g

/-- One expression, or a tuple without brackets. -/
def starExpressions (g : Deeper) : Reader Expr := do
  let items ← commas (starExpression g)
  let comma ← op? ","
  match items, comma with
  | [e], false => return e
  | es, _ => return .tuple es

/-! ### Levels -/

/-- The productions of one level, over those of the level below it. -/
def level (g : Deeper) : Deeper where
  expression := expression g
  starExpressions := starExpressions g
  disjunction := disjunction g
  inversion := inversion g
  bitwiseOr := bitwiseOr g
  factor := factor g
  primary := primary g

/-- The level below all others, at which nothing can be read. -/
def bottom : Deeper := ⟨failure, failure, failure, failure, failure, failure, failure⟩

def maxNesting : Nat := 6000

def full : Deeper := Nat.repeat level maxNesting bottom

end Grammar

end CodeAtlas.Syntax
