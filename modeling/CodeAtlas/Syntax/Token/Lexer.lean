import CodeAtlas.Syntax.Token
import CodeAtlas.Syntax.Token.Number
import CodeAtlas.Text.Compatibility
import CodeAtlas.Text.Lines

/-!
# From characters to tokens

Indentation is measured twice, with tabs to the next multiple of eight columns and with tabs as
single columns; both measures must agree on how two lines compare. Inside brackets lines are joined.
-/

namespace CodeAtlas.Syntax

def maxIndents : Nat := 100

def maxBrackets : Nat := 200

/-- The state of the lexer; `done` holds the tokens so far, last first. -/
structure LexState where
  line : Nat := 1
  indents : List (Nat × Nat) := [(0, 0)]
  brackets : List Char := []
  /-- How many brackets may be open. -/
  room : Nat
  done : List Token := []

def LexState.push (st : LexState) (kind : TokenKind) (endLine : Nat) : LexState :=
  { st with line := endLine, done := ⟨kind, st.line, endLine⟩ :: st.done }

/-- Adds a token that stands on the current line. -/
def LexState.add (st : LexState) (kind : TokenKind) : LexState := st.push kind st.line

/-! ### Indentation -/

/-- The width of the blanks at the head by both measures, the lines passed, and what follows. A line
joined by a backslash keeps the width at which it was first joined. -/
def measureIndent (column alt joined line : Nat) : List Char → Option (Nat × Nat × Nat × List Char)
  | ' ' :: cs => measureIndent (column + 1) (alt + 1) joined line cs
  | '\t' :: cs => measureIndent ((column / 8 + 1) * 8) (alt + 1) joined line cs
  | '\x0c' :: cs => measureIndent 0 0 joined line cs
  | '\\' :: '\n' :: cs =>
    if cs.isEmpty then none
    else measureIndent column alt (if joined = 0 then column else joined) (line + 1) cs
  | '\\' :: _ => none
  | cs => if joined = 0 then some (column, alt, line, cs) else some (joined, joined, line, cs)

/-- Closes indentations that are wider than the line. -/
def closeIndents (column alt : Nat) (st : LexState) : List (Nat × Nat) → Option LexState
  | [] => none
  | (c, a) :: rest =>
    if column < c then closeIndents column alt (st.add .dedent) rest
    else if column = c ∧ alt = a then some { st with indents := (c, a) :: rest }
    else none

/-- Compares a line's indentation with the open ones. -/
def applyIndent (column alt : Nat) (st : LexState) : Option LexState :=
  match st.indents with
  | [] => none
  | (c, a) :: rest =>
    if column = c then (if alt = a then some st else none)
    else if c < column then
      if maxIndents ≤ rest.length + 1 ∨ alt ≤ a then none
      else some { st.add .indent with indents := (column, alt) :: st.indents }
    else closeIndents column alt st st.indents

/-! ### Words, strings, symbols -/

/-- Whether letters before a quote mark a string literal. -/
def isStringMark (w : List Char) : Bool :=
  ["", "r", "u", "b", "f", "br", "rb", "fr", "rf"].contains (String.ofList (w.map Char.toLower))

/-- What follows the closing quote of a literal, or its three closing quotes, if they stand at the
head. -/
def afterQuotes? (quote : Char) (triple : Bool) (cs : List Char) : Option (List Char) :=
  let fence := if triple then [quote, quote, quote] else [quote]
  if fence.isPrefixOf cs then some (cs.drop fence.length) else none

/-- The characters of a string literal up to its closing quote; `body` holds them backwards. -/
def scanString (quote : Char) (triple : Bool) (body : List Char) :
    List Char → Option (List Char × List Char)
  | [] => none
  | '\\' :: c :: cs => scanString quote triple (c :: '\\' :: body) cs
  | c :: cs =>
    match afterQuotes? quote triple (c :: cs) with
    | some rest => some (body.reverse, rest)
    | none => if c = '\n' && !triple then none else scanString quote triple (c :: body) cs

/-- The string literal after its mark, at its opening quote. -/
def readStringBody (cs : List Char) : Option (List Char × List Char) :=
  match cs with
  | a :: b :: c :: rest =>
    if a = b ∧ b = c then scanString a true [] rest
    else scanString a false [] (b :: c :: rest)
  | a :: rest => scanString a false [] rest
  | [] => none

/-- The identifier with these characters. -/
def identifier? (cs : List Char) : Option Identifier :=
  if h : Text.isIdentifier cs then some ⟨String.ofList cs, by rwa [String.toList_ofList]⟩ else none

def wordKind (w : List Char) : Option TokenKind :=
  let s := String.ofList w
  if keywords.contains s then some (.keyword s)
  else if w.all (·.toNat < 128) then (identifier? w).map (.ident · true)
  else if Text.isIdentifier w then (identifier? (Text.normalize w)).map (.ident · false)
  else none

/-- The symbols, longest first. -/
def symbols : List String :=
  ["**=", "//=", ">>=", "<<=", "...", "!=", "%=", "&=", "**", "*=", "+=", "-=", "->", "//", "/=",
   ":=", "<<", "<=", "<>", "==", ">=", ">>", "@=", "^=", "|=", "%", "&", "(", ")", "*", "+", ",",
   "-", ".", "/", ":", ";", "<", "=", ">", "@", "[", "]", "^", "\x7b", "|", "\x7d", "~"]

/-- The longest symbol at the head. -/
def symbol? (cs : List Char) : Option String := symbols.find? fun s => s.toList.isPrefixOf cs

/-- The bracket that a closing bracket closes. -/
def openerOf : Char → Option Char
  | ')' => some '('
  | ']' => some '['
  | '\x7d' => some '\x7b'
  | _ => none

/-- Keeps track of the open brackets, of which there may be `room`. -/
def trackBracket (room : Nat) (c : Char) (brackets : List Char) : Option (List Char) :=
  if c = '(' || c = '[' || c = '\x7b' then
    if room ≤ brackets.length then none else some (c :: brackets)
  else
    match openerOf c with
    | none => some brackets
    | some o =>
      match brackets with
      | b :: rest => if b = o then some rest else none
      | [] => none

/-! ### The lexer -/

/-- Drops a comment, which ends before the line feed. -/
def dropComment (cs : List Char) : List Char := cs.dropWhile (· != '\n')

def isInlineBlank (c : Char) : Bool := c = ' ' || c = '\t' || c = '\x0c'

/-- Reads one token that is not layout at the head of the text. -/
def lexToken (st : LexState) (cs : List Char) : Option (LexState × List Char) :=
  match cs with
  | [] => none
  | c :: rest =>
    if c.isDigit || (c = '.' && rest.head?.any Char.isDigit) then do
      let (v, rest') ← readNumber cs
      some (st.add (.number v), rest')
    else if isWordChar c || c = '\'' || c = '"' then do
      let w := cs.takeWhile isWordChar
      let after := cs.dropWhile isWordChar
      if isStringMark w && after.head?.any (fun q => q = '\'' || q = '"') then
        let (body, rest') ← readStringBody after
        some (st.push (.string w body) (st.line + body.count '\n'), rest')
      else
        let kind ← wordKind w
        some (st.add kind, after)
    else do
      let s ← symbol? cs
      let brackets ← trackBracket st.room c st.brackets
      some ({ st.add (.op s) with brackets := brackets }, cs.drop s.length)

/-- Reads all tokens. The flag says whether the text stands at the start of a line; the first
argument bounds the number of steps. -/
def lexFrom : Nat → Bool → LexState → List Char → Option (List Token)
  | 0, _, _, _ => none
  | fuel + 1, true, st, cs => do
    let (column, alt, line, rest) ← measureIndent 0 0 0 st.line cs
    let st := { st with line := line }
    match rest with
    | '\n' :: rest' => lexFrom fuel true { st with line := line + 1 } rest'
    | '#' :: rest' =>
      match dropComment rest' with
      | _ :: rest'' => lexFrom fuel true { st with line := line + 1 } rest''
      | [] => lexFrom fuel false st []
    | _ =>
      if st.brackets.isEmpty then do
        let st ← applyIndent column alt st
        lexFrom fuel false st rest
      else lexFrom fuel false st rest
  | fuel + 1, false, st, cs =>
    match cs.dropWhile isInlineBlank with
    | [] => if st.brackets.isEmpty then some (st.add .stop).done.reverse else none
    | '#' :: rest => lexFrom fuel false st (dropComment rest)
    | '\n' :: rest =>
      let next := { st with line := st.line + 1 }
      if st.brackets.isEmpty then
        lexFrom fuel true { next with done := ⟨.newline, st.line, st.line⟩ :: st.done } rest
      else lexFrom fuel true next rest
    | '\\' :: '\n' :: rest =>
      if rest.isEmpty then none else lexFrom fuel false { st with line := st.line + 1 } rest
    | rest => do
      let (st', rest') ← lexToken st rest
      lexFrom fuel false st' rest'

/-- The tokens of a text in which so many brackets may be open. -/
def tokensWithin? (room : Nat) (cs : List Char) : Option (List Token) :=
  if cs.contains '\x00' then none
  else lexFrom (2 * cs.length + 2) true { room } cs

def tokens? (cs : List Char) : Option (List Token) := tokensWithin? maxBrackets cs

/-- The text of a file of statements: line endings are line feeds, and the last line has one. -/
def moduleChars (cs : List Char) : List Char :=
  let cs := Text.unifyNewlines cs
  match cs.getLast? with
  | none => ['\n']
  | some '\n' => cs
  | some _ => cs ++ ['\n']

end CodeAtlas.Syntax
