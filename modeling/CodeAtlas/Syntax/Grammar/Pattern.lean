import CodeAtlas.Syntax.Grammar.Expression

/-!
# The grammar of case patterns

An index does not look into patterns, so they are only recognised.
-/

namespace CodeAtlas.Syntax.Grammar

open Reader

/-- A name that a pattern binds: not the wildcard, and not the start of something longer. -/
def captureTarget : Reader Unit := do
  require !(← atWord "_")
  let _ ← ident
  require !((← atOp ".") || (← atOp "(") || (← atOp "="))

def numberLiteral : Reader Bool := do
  match ← next with
  | .number (.imaginary _) => return true
  | .number _ => return false
  | _ => failure

/-- A number with its sign, perhaps followed by an imaginary part. -/
def signedNumber : Reader Unit := do
  let _ ← op? "-"
  let imaginary ← numberLiteral
  if (← op? "+") || (← op? "-") then
    require !imaginary
    require (← numberLiteral)

def literalPattern : Reader Unit := do
  match ← peek with
  | .string .. => let _ ← stringLiterals full
  | .keyword "None" | .keyword "True" | .keyword "False" => let _ ← next
  | .number _ => signedNumber
  | .op "-" => signedNumber
  | _ => failure

/-- A name with attributes; gives whether there is any attribute. -/
def dottedPattern : Reader Bool := do
  let _ ← ident
  let attrs ← many (do
    if ← op? "." then
      let _ ← ident
      return some ()
    else return none)
  return !attrs.isEmpty

/-- A rest of a sequence, or a pattern; gives whether it is a rest. -/
def starPattern (pattern : Reader Unit) : Reader Bool := do
  if ← op? "*" then
    if ← atWord "_" then
      let _ ← next
    else captureTarget
    return true
  else
    pattern
    return false

/-- Patterns with commas between and perhaps after them. A rest of a sequence alone needs a comma or
brackets of its own; gives whether that holds. -/
def sequenceItems (pattern : Reader Unit) : Reader Bool := do
  let items ← commas (starPattern pattern)
  let comma ← op? ","
  return comma || items != [true]

/-- An entry of a table pattern; gives whether it takes the rest of the table. -/
def entryPattern (pattern : Reader Unit) : Reader Bool := do
  if ← op? "**" then
    captureTarget
    return true
  match ← peek with
  | .ident .. => require (← dottedPattern)
  | _ => literalPattern
  op ":"
  pattern
  return false

/-- An argument of a class pattern; gives whether it is given by keyword. -/
def argumentPattern (pattern : Reader Unit) : Reader Bool := do
  match ← peek, ← peekSecond with
  | .ident .., .op "=" =>
    let _ ← next
    let _ ← next
    pattern
    return true
  | _, _ =>
    pattern
    return false

/-- Whether no false stands after a true. -/
def falseFirst (bs : List Bool) : Bool := (bs.dropWhile (!·)).all id

/-- The items of a pattern in brackets up to the closing one. -/
def enclosedItems (item : Reader Bool) (closer : String) : Reader (List Bool) := do
  if ← op? closer then return []
  let items ← commas item
  let _ ← op? ","
  op closer
  return items

/-- A pattern that starts with a name: a binding, a value or a class. -/
def namePattern (pattern : Reader Unit) : Reader Unit := do
  if ← atWord "_" then
    match ← peekSecond with
    | .op "." | .op "(" => pure ()
    | _ =>
      let _ ← next
      return
  let _ ← dottedPattern
  if ← op? "(" then
    require (falseFirst (← enclosedItems (argumentPattern pattern) ")"))
  else require !(← atOp "=")

def closedPattern (pattern : Reader Unit) : Reader Unit := do
  match ← peek with
  | .ident .. => namePattern pattern
  | .op "(" =>
    let _ ← next
    if !(← op? ")") then
      require (← sequenceItems pattern)
      op ")"
  | .op "[" =>
    let _ ← next
    if !(← op? "]") then
      let _ ← sequenceItems pattern
      op "]"
  | .op "\x7b" =>
    let _ ← next
    let rests ← enclosedItems (entryPattern pattern) "\x7d"
    require (rests.dropLast.all (!·))
  | _ => literalPattern

/-- Alternatives, and perhaps a name for what matched. -/
def asPattern (pattern : Reader Unit) : Reader Unit := do
  closedPattern pattern
  let _ ← many (do
    if ← op? "|" then
      closedPattern pattern
      return some ()
    else return none)
  if ← keyword? "as" then captureTarget

def fullPattern : Reader Unit := Nat.repeat asPattern maxNesting failure

/-- What a case compares with: a pattern, or an open sequence of patterns. -/
def casePatterns : Reader Unit := do require (← sequenceItems fullPattern)

end CodeAtlas.Syntax.Grammar
