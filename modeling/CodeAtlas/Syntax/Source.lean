import CodeAtlas.Number.Digits
import CodeAtlas.Number.Shortest
import CodeAtlas.Syntax.Expr
import CodeAtlas.Text.Quoted
import CodeAtlas.Text.Search

/-!
# The source text of an expression

An expression is written with the least brackets that keep its meaning. Inside a formatted string no
backslash may stand in an expression, so strings there take whatever quotes avoid one.
-/

namespace CodeAtlas.Syntax

/-- Why an expression has no source text. -/
inductive SourceFault where
  | backslash
  | hugeInteger
deriving DecidableEq, Repr

def SourceFault.message : SourceFault → String
  | backslash => "Unable to avoid backslash in f-string expression part"
  | hugeInteger =>
    "Exceeds the limit (4300 digits) for integer string conversion; "
      ++ "use sys.set_int_max_str_digits() to increase the limit"

/-! ### Ranks -/

/-- How tightly a construct binds; a construct in a tighter place than its own rank is put in
brackets. -/
abbrev Rank := Nat

namespace Rank

def named : Rank := 1
def tuple : Rank := 2
def yield : Rank := 3
def test : Rank := 4
def or : Rank := 5
def and : Rank := 6
def not : Rank := 7
def compare : Rank := 8
def bitOr : Rank := 9
def bitXor : Rank := 10
def bitAnd : Rank := 11
def shift : Rank := 12
def arith : Rank := 13
def term : Rank := 14
def factor : Rank := 15
def power : Rank := 16
def await : Rank := 17
def atom : Rank := 18

def tighter (r : Rank) (steps : Nat) : Rank := min atom (r + steps)

end Rank

def BinaryOp.symbol : BinaryOp → String
  | add => "+" | sub => "-" | mul => "*" | matMul => "@" | div => "/" | mod => "%"
  | shiftLeft => "<<" | shiftRight => ">>" | bitOr => "|" | bitXor => "^" | bitAnd => "&"
  | floorDiv => "//" | pow => "**"

def BinaryOp.rank : BinaryOp → Rank
  | add | sub => Rank.arith
  | mul | matMul | div | mod | floorDiv => Rank.term
  | shiftLeft | shiftRight => Rank.shift
  | bitOr => Rank.bitOr
  | bitXor => Rank.bitXor
  | bitAnd => Rank.bitAnd
  | pow => Rank.power

def UnaryOp.symbol : UnaryOp → String
  | invert => "~" | not => "not " | plus => "+" | minus => "-"

def UnaryOp.rank : UnaryOp → Rank
  | not => Rank.not
  | _ => Rank.factor

def CompareOp.symbol : CompareOp → String
  | eq => "==" | ne => "!=" | lt => "<" | le => "<=" | gt => ">" | ge => ">=" | is => "is"
  | isNot => "is not" | isIn => "in" | notIn => "not in"

/-! ### Literals -/

/-- An infinite number is written as a literal too large to be finite. -/
def floatSource (layout : Binary64.Layout) : Binary64 → String
  | .infinite neg => if neg then "-1e309" else "1e309"
  | .nan => "(1e309-1e309)"
  | x => layout.text x

/-- The four ways to quote, single quotes first. -/
def allQuotes : List String := ["'", "\"", "\"\"\"", "'''"]

/-- A character in a string whose quotes are chosen afterwards. -/
def looseChar (escapeBlanks : Bool) (c : Char) : List Char :=
  if !escapeBlanks && (c = '\n' || c = '\t') then [c]
  else if c = '\\' || !Text.isPrintable c then Text.escapeChar c
  else [c]

/-- The characters to write for a string, and the quotes that can go around them, best first. If no
quotes of the given ones fit, the string is quoted in the ordinary way. -/
def quoteChoices (quotes : List String) (escapeBlanks : Bool) (s : String) :
    List Char × List String :=
  let body := s.toList.flatMap (looseChar escapeBlanks)
  let fitting := quotes.filter fun q =>
    (!body.contains '\n' || q.length = 3) && !Text.occursIn q.toList body
  match fitting with
  | [] =>
    let whole := (Text.quoted s).toList
    let mark := whole.headD '\''
    let quote := (quotes.find? fun q => q.toList.contains mark).getD (String.singleton mark)
    ((whole.drop 1).dropLast, [quote])
  | _ =>
    match body.getLast? with
    | none => (body, fitting)
    | some last =>
      let clash := fun q : String => q.toList.head?.any (· = last)
      let ordered := fitting.filter (!clash ·) ++ fitting.filter clash
      if ordered.head?.any clash then (body.dropLast ++ ['\\', last], ordered)
      else (body, ordered)

/-- A string with the quotes that avoid backslashes best. -/
def looseString (s : String) : String :=
  let (body, quotes) := quoteChoices allQuotes false s
  let q := quotes.headD "'"
  q ++ String.ofList body ++ q

/-- The text of an integer. -/
def intText (n : Int) : Except SourceFault String :=
  match Digits.text? n with
  | some t => .ok t
  | none => .error .hugeInteger

def Constant.source (loose : Bool) : Constant → Except SourceFault String
  | .none => .ok "None"
  | .true => .ok "True"
  | .false => .ok "False"
  | .ellipsis => .ok "..."
  | .int n => intText n
  | .float x => .ok (floatSource Binary64.standardLayout x)
  | .imaginary x => .ok (floatSource Binary64.bareLayout x ++ "j")
  | .str s marked => .ok ((if marked then "u" else "") ++ if loose then looseString s
  else Text.quoted s)
  | .bytes bs => .ok (Text.quotedBytes bs)

/-- Whether an attribute of this literal needs a blank before its dot. -/
def Constant.isInteger : Constant → Bool
  | .int _ | .true | .false => Bool.true
  | _ => Bool.false

/-! ### Formatted strings -/

/-- Doubles the braces of literal text. -/
def doubleBraces (s : String) : String :=
  String.ofList (s.toList.flatMap fun c => if c = '\x7b' || c = '\x7d' then [c, c] else [c])

/-- Finds quotes that fit all parts of a formatted string; a part is marked if it is literal text.
-/
def commonQuotes : List String → List (String × Bool) → Option (List Char × List String)
  | quotes, [] => some ([], quotes)
  | quotes, (s, literal) :: rest => do
    let (body, quotes') := quoteChoices quotes literal s
    if quotes'.all (!quotes.contains ·) then none
    else
      let (more, final) ← commonQuotes quotes' rest
      some (body ++ more, final)

/-- A part quoted as if between tripled single quotes. -/
def tripleQuotedPart (s : String) : List Char :=
  (s.toList.flatMap (Text.quotedChar '\''))

def formattedString (parts : List (String × Bool)) : String :=
  match commonQuotes allQuotes parts with
  | some (body, quotes) =>
    let q := quotes.headD "'"
    "f" ++ q ++ String.ofList body ++ q
  | none => "f'''" ++ String.ofList (parts.flatMap fun p => tripleQuotedPart p.1) ++ "'''"

/-! ### Expressions -/

/-- Brackets, where a place is tighter than the rank of what stands in it. -/
def bracketed (place rank : Rank) (s : String) : String :=
  if rank < place then "(" ++ s ++ ")" else s

/-- Items with commas; a single item has one after it. -/
def itemsText : List String → String
  | [s] => s ++ ","
  | ss => ", ".intercalate ss

/-- Parameter names with their defaults, of which there may be fewer: they belong to the last. -/
def withDefaults (names : List String) (defaults : List String) : List String :=
  let bare := names.length - defaults.length
  names.take bare ++ (names.drop bare).zipWith (fun n d => n ++ "=" ++ d) defaults

/-- The parameters of an anonymous function. -/
def lambdaParams (posOnly regular : List String) (defaults : List String) (varArg : Option String)
    (kwOnly : List String) (kwDefaults : List (Option String)) (kwArg : Option String) : String :=
  let positional := withDefaults (posOnly ++ regular) defaults
  let slash := if posOnly.isEmpty then [] else ["/"]
  let star := match varArg with
    | some v => ["*" ++ v]
    | none => if kwOnly.isEmpty then [] else ["*"]
  let keywords := kwOnly.zipWith (fun n d => match d with | some t => n ++ "=" ++ t | none => n)
    kwDefaults
  let rest := match kwArg with
    | some k => ["**" ++ k]
    | none => []
  ", ".intercalate
    (positional.take posOnly.length ++ slash ++ positional.drop posOnly.length ++ star ++ keywords
      ++ rest)

mutual

/-- The source text of an expression in a place of a rank. With `loose`, strings avoid backslashes.
-/
def Expr.render (loose : Bool) (place : Rank) : Expr → Except SourceFault String
  | .name id => .ok id
  | .constant c => c.source loose
  | .attribute value attr => do
    let v ← value.render loose Rank.atom
    let gap := match value with
      | .constant c => if c.isInteger then " " else ""
      | _ => ""
    .ok (v ++ gap ++ "." ++ attr)
  | .subscript value (.tuple (e :: es)) => do
    let v ← value.render loose Rank.atom
    let t ← e.render loose Rank.test
    let ts ← renderItems loose Rank.test es
    .ok (v ++ "[" ++ itemsText (t :: ts) ++ "]")
  | .subscript value index => do
    let v ← value.render loose Rank.atom
    let i ← index.render loose Rank.test
    .ok (v ++ "[" ++ i ++ "]")
  | .call func args keywords => do
    let f ← func.render loose Rank.atom
    let as ← renderItems loose Rank.test args
    let ks ← renderKeywords loose keywords
    .ok (f ++ "(" ++ ", ".intercalate (as ++ ks) ++ ")")
  | .unary op operand => do
    let t ← operand.render loose op.rank
    .ok (bracketed place op.rank (op.symbol ++ t))
  | .binary left op right => do
    let (l, r) := match op with
      | .pow => (Rank.tighter op.rank 1, op.rank)
      | _ => (op.rank, Rank.tighter op.rank 1)
    let a ← left.render loose l
    let b ← right.render loose r
    .ok (bracketed place op.rank (a ++ " " ++ op.symbol ++ " " ++ b))
  | .boolean op operands => do
    let (rank, word) := match op with
      | .and => (Rank.and, " and ")
      | .or => (Rank.or, " or ")
    let ts ← renderTightening loose rank operands
    .ok (bracketed place rank (word.intercalate ts))
  | .compare left rest => do
    let l ← left.render loose (Rank.tighter Rank.compare 1)
    let rs ← renderComparisons loose rest
    .ok (bracketed place Rank.compare (l ++ rs))
  | .conditional test body orelse => do
    let b ← body.render loose (Rank.tighter Rank.test 1)
    let t ← test.render loose (Rank.tighter Rank.test 1)
    let o ← orelse.render loose Rank.test
    .ok (bracketed place Rank.test (b ++ " if " ++ t ++ " else " ++ o))
  | .lambda posOnly regular defaults varArg kwOnly kwDefaults kwArg body => do
    let ds ← renderItems loose Rank.test defaults
    let ks ← renderOptions loose kwDefaults
    let params := lambdaParams posOnly regular ds varArg kwOnly ks kwArg
    let b ← body.render loose Rank.test
    .ok (bracketed place Rank.test
      ("lambda" ++ (if params.isEmpty then "" else " " ++ params) ++ ": " ++ b))
  | .listComp element cs => do
    .ok ("[" ++ (← element.render loose Rank.test) ++ (← renderClauses loose cs) ++ "]")
  | .setComp element cs => do
    .ok ("\x7b" ++ (← element.render loose Rank.test) ++ (← renderClauses loose cs) ++ "\x7d")
  | .dictComp key value cs => do
    .ok ("\x7b" ++ (← key.render loose Rank.test) ++ ": " ++ (← value.render loose Rank.test)
      ++ (← renderClauses loose cs) ++ "\x7d")
  | .generator element cs => do
    .ok ("(" ++ (← element.render loose Rank.test) ++ (← renderClauses loose cs) ++ ")")
  | .await value => do
    .ok (bracketed place Rank.await ("await " ++ (← value.render loose Rank.atom)))
  | .yield none => .ok (bracketed place Rank.yield "yield")
  | .yield (some value) => do
    .ok (bracketed place Rank.yield ("yield " ++ (← value.render loose Rank.atom)))
  | .yieldFrom value => do
    .ok (bracketed place Rank.yield ("yield from " ++ (← value.render loose Rank.atom)))
  | .starred value => do .ok ("*" ++ (← value.render loose Rank.bitOr))
  | .tuple items => do
    let ts ← renderItems loose Rank.test items
    .ok (if ts.isEmpty then "()" else bracketed place Rank.tuple (itemsText ts))
  | .list items => do
    .ok ("[" ++ ", ".intercalate (← renderItems loose Rank.test items) ++ "]")
  | .set items => do
    .ok ("\x7b" ++ ", ".intercalate (← renderItems loose Rank.test items) ++ "\x7d")
  | .dict entries => do
    .ok ("\x7b" ++ ", ".intercalate (← renderEntries loose entries) ++ "\x7d")
  | .slice lower upper step => do
    let l ← match lower with
      | some e => e.render loose Rank.test
      | none => .ok ""
    let u ← match upper with
      | some e => e.render loose Rank.test
      | none => .ok ""
    let s ← match step with
      | some e => do .ok (":" ++ (← e.render loose Rank.test))
      | none => .ok ""
    .ok (l ++ ":" ++ u ++ s)
  | .named target value => do
    let t ← target.render loose Rank.atom
    let v ← value.render loose Rank.atom
    .ok (bracketed place Rank.named (t ++ " := " ++ v))
  | .formatted parts => do
    let ps ← renderParts parts
    if loose then .ok ("f" ++ looseString (String.join (ps.map (·.1))))
    else .ok (formattedString ps)

/-- The texts of expressions in places of one rank. -/
def renderItems (loose : Bool) (place : Rank) : List Expr → Except SourceFault (List String)
  | [] => .ok []
  | e :: es => do
    let t ← e.render loose place
    let ts ← renderItems loose place es
    .ok (t :: ts)

/-- The texts of operands, each place one step tighter than the one before it. -/
def renderTightening (loose : Bool) (rank : Rank) : List Expr → Except SourceFault (List String)
  | [] => .ok []
  | e :: es => do
    let t ← e.render loose (Rank.tighter rank 1)
    let ts ← renderTightening loose (Rank.tighter rank 1) es
    .ok (t :: ts)

def renderOptions (loose : Bool) : List (Option Expr) → Except SourceFault (List (Option String))
  | [] => .ok []
  | none :: es => do .ok (none :: (← renderOptions loose es))
  | some e :: es => do
    let t ← e.render loose Rank.test
    .ok (some t :: (← renderOptions loose es))

def renderKeywords (loose : Bool) : List Keyword → Except SourceFault (List String)
  | [] => .ok []
  | .mk name value :: ks => do
    let v ← value.render loose Rank.test
    let lead := match name with
      | some n => n ++ "="
      | none => "**"
    .ok ((lead ++ v) :: (← renderKeywords loose ks))

def renderComparisons (loose : Bool) : List Comparison → Except SourceFault String
  | [] => .ok ""
  | .mk op right :: cs => do
    let r ← right.render loose (Rank.tighter Rank.compare 1)
    .ok (" " ++ op.symbol ++ " " ++ r ++ (← renderComparisons loose cs))

def renderClauses (loose : Bool) : List Clause → Except SourceFault String
  | [] => .ok ""
  | .mk isAsync target source conditions :: cs => do
    let t ← target.render loose Rank.tuple
    let s ← source.render loose (Rank.tighter Rank.test 1)
    let ifs ← renderItems loose (Rank.tighter Rank.test 1) conditions
    let head := (if isAsync then " async for " else " for ") ++ t ++ " in " ++ s
    .ok (head ++ String.join (ifs.map (" if " ++ ·)) ++ (← renderClauses loose cs))

def renderEntries (loose : Bool) : List DictEntry → Except SourceFault (List String)
  | [] => .ok []
  | .mk none value :: es => do
    let v ← value.render loose Rank.bitOr
    .ok (("**" ++ v) :: (← renderEntries loose es))
  | .mk (some key) value :: es => do
    let k ← key.render loose Rank.test
    let v ← value.render loose Rank.test
    .ok ((k ++ ": " ++ v) :: (← renderEntries loose es))

/-- The texts of the parts of a formatted string, each marked if it is literal text. -/
def renderParts : List FormatPart → Except SourceFault (List (String × Bool))
  | [] => .ok []
  | .text s :: ps => do .ok ((doubleBraces s, true) :: (← renderParts ps))
  | .value e conversion format :: ps => do
    let t ← e.render true (Rank.tighter Rank.test 1)
    if t.toList.contains '\\' then .error .backslash
    else
      let gap := if t.toList.head?.any (· = '\x7b') then " " else ""
      let conv := match conversion with
        | some c => "!" ++ String.singleton c
        | none => ""
      let spec ← match format with
        | some inner => do .ok (":" ++ String.join ((← renderParts inner).map (·.1)))
        | none => .ok ""
      .ok (("\x7b" ++ gap ++ t ++ conv ++ spec ++ "\x7d", false) :: (← renderParts ps))

end

/-- The source text of an expression that stands alone. -/
def Expr.source (e : Expr) : Except SourceFault String := e.render false Rank.test

end CodeAtlas.Syntax
