import CodeAtlas.Data.Toml.Moment
import CodeAtlas.Number.Digits
import CodeAtlas.Text.Search

/-!
# Reading configuration files

A table may be opened once, values are never replaced, and what is written as an inline table or
list is closed.
-/

namespace CodeAtlas.Toml

/-- Why a text is no configuration file. -/
inductive Fault where
  | malformed
  /-- An integer with more digits than can be read or shown. -/
  | integerTooLong
deriving DecidableEq, Repr

def Fault.message : Fault → String
  | .malformed => "Invalid statement"
  | .integerTooLong =>
    s!"Exceeds the limit ({Digits.limit} digits) for integer string conversion"

/-- A key: the names from the outermost on. -/
abbrev Key := List String

/-! ### Characters -/

def isBlank (c : Char) : Bool := c = ' ' || c = '\t'

def skipBlanks (cs : List Char) : List Char := cs.dropWhile isBlank

def isBareKeyChar (c : Char) : Bool := c.isAlphanum || c = '-' || c = '_'

/-- Characters that may stand nowhere, tabulators and line ends apart. -/
def isControl (c : Char) : Bool := (c.toNat < 32 && c ≠ '\t') || c.toNat = 127

/-- Skips a comment up to the end of its line. -/
def skipComment : List Char → Except Fault (List Char)
  | '#' :: cs =>
    let body := cs.takeWhile (· ≠ '\n')
    if body.any isControl then .error .malformed else .ok (cs.drop body.length)
  | cs => .ok cs

/-- Skips blanks, line ends and comments; the first argument bounds the number of comments. -/
def skipSpace : Nat → List Char → Except Fault (List Char)
  | 0, cs => .ok cs
  | fuel + 1, cs =>
    match cs.dropWhile fun c => isBlank c || c = '\n' with
    | '#' :: rest => do skipSpace fuel (← skipComment ('#' :: rest))
    | rest => .ok rest

/-! ### Texts -/

/-- The character with a code of `k` hexadecimal digits. -/
def codeChar (k : Nat) (cs : List Char) : Except Fault (Char × List Char) :=
  let ds := cs.take k
  match ds.mapM Text.hexValue? with
  | some ns =>
    let code := ns.foldl (fun n d => n * 16 + d) 0
    if ds.length = k && (code < 0xD800 || (0xE000 ≤ code && code < 0x110000)) then
      .ok (Char.ofNat code, cs.drop k)
    else .error .malformed
  | none => .error .malformed

def escaped : List Char → Except Fault (Char × List Char)
  | 'b' :: cs => .ok ('\x08', cs)
  | 't' :: cs => .ok ('\t', cs)
  | 'n' :: cs => .ok ('\n', cs)
  | 'f' :: cs => .ok ('\x0c', cs)
  | 'r' :: cs => .ok ('\r', cs)
  | '"' :: cs => .ok ('"', cs)
  | '\\' :: cs => .ok ('\\', cs)
  | 'u' :: cs => codeChar 4 cs
  | 'U' :: cs => codeChar 8 cs
  | _ => .error .malformed

def escapedLineEnd? (cs : List Char) : Option (Except Fault (List Char)) :=
  match cs with
  | [] => none
  | c :: _ =>
    if isBlank c || c = '\n' then
      match skipBlanks cs with
      | '\n' :: rest => some (.ok (rest.dropWhile fun c => isBlank c || c = '\n'))
      | [] => some (.ok [])
      | _ => some (.error .malformed)
    else none

/-- A text between double quotes, after the opening ones; the characters read come last first. -/
def quotedText (multi : Bool) : Nat → List Char → List Char → Except Fault (List Char × List Char)
  | 0, _, _ => .error .malformed
  | _ + 1, _, [] => .error .malformed
  | fuel + 1, done, '"' :: cs =>
    if !multi then .ok (done.reverse, cs)
    else
      match cs with
      | '"' :: '"' :: rest => .ok (done.reverse, rest)
      | _ => quotedText multi fuel ('"' :: done) cs
  | fuel + 1, done, '\\' :: cs =>
    match if multi then escapedLineEnd? cs else none with
    | some rest => do quotedText multi fuel done (← rest)
    | none => do
      let (c, cs) ← escaped cs
      quotedText multi fuel (c :: done) cs
  | fuel + 1, done, c :: cs =>
    if isControl c && !(multi && c = '\n') then .error .malformed
    else quotedText multi fuel (c :: done) cs

/-- A text between single quotes, after the opening one. -/
def literalText (cs : List Char) : Except Fault (List Char × List Char) :=
  let body := cs.takeWhile (· ≠ '\'')
  match cs.drop body.length with
  | '\'' :: rest => if body.any isControl then .error .malformed else .ok (body, rest)
  | _ => .error .malformed

/-- A text between three single quotes, after the opening ones; the characters read come last
first. -/
def literalLines : List Char → List Char → Except Fault (List Char × List Char)
  | done, '\'' :: '\'' :: '\'' :: rest => .ok (done.reverse, rest)
  | done, c :: cs =>
    if isControl c && c ≠ '\n' then .error .malformed else literalLines (c :: done) cs
  | _, [] => .error .malformed

/-- Up to two more quotes belong to a text that ends in three. -/
def extraQuotes (quote : Char) (text rest : List Char) : List Char × List Char :=
  let more := (rest.takeWhile (· = quote)).take 2
  (text ++ more, rest.drop more.length)

def dropFirstLineEnd : List Char → List Char
  | '\n' :: cs => cs
  | cs => cs

/-- A text, if one starts here. -/
def text? (cs : List Char) : Option (Except Fault (String × List Char)) :=
  let finish (quote : Char) (r : Except Fault (List Char × List Char)) :
    Except Fault (String × List Char) := do
    let (t, rest) ← r
    let (t, rest) := extraQuotes quote t rest
    return (String.ofList t, rest)
  let single (r : Except Fault (List Char × List Char)) : Except Fault (String × List Char) := do
    let (t, rest) ← r
    return (String.ofList t, rest)
  match cs with
  | '"' :: '"' :: '"' :: rest =>
    some (finish '"' (quotedText true (rest.length + 1) [] (dropFirstLineEnd rest)))
  | '"' :: rest => some (single (quotedText false (rest.length + 1) [] rest))
  | '\'' :: '\'' :: '\'' :: rest => some (finish '\'' (literalLines [] (dropFirstLineEnd rest)))
  | '\'' :: rest => some (single (literalText rest))
  | _ => none

/-! ### Keys -/

def keyPart (cs : List Char) : Except Fault (String × List Char) :=
  match cs with
  | '"' :: rest => do
    let (t, rest) ← quotedText false (rest.length + 1) [] rest
    return (String.ofList t, rest)
  | '\'' :: rest => do
    let (t, rest) ← literalText rest
    return (String.ofList t, rest)
  | _ =>
    let bare := cs.takeWhile isBareKeyChar
    if bare.isEmpty then .error .malformed else .ok (String.ofList bare, cs.drop bare.length)

/-- The parts of a key, each after a dot. -/
def keyRest : Nat → List String → List Char → Except Fault (Key × List Char)
  | 0, _, _ => .error .malformed
  | fuel + 1, done, '.' :: cs => do
    let (part, cs) ← keyPart (skipBlanks cs)
    keyRest fuel (part :: done) (skipBlanks cs)
  | _ + 1, done, cs => .ok (done.reverse, cs)

def key (cs : List Char) : Except Fault (Key × List Char) := do
  let (part, cs) ← keyPart cs
  keyRest (cs.length + 1) [part] (skipBlanks cs)

/-! ### Numbers -/

/-- Digits of a class, in which single underscores may stand between digits. -/
def digitRun (ok : Char → Bool) : List Char → List Char × List Char
  | '_' :: c :: cs =>
    if ok c then
      let (ds, rest) := digitRun ok cs
      (c :: ds, rest)
    else ([], '_' :: c :: cs)
  | c :: cs =>
    if ok c then
      let (ds, rest) := digitRun ok cs
      (c :: ds, rest)
    else ([], c :: cs)
  | [] => ([], [])

def digitRun? (ok : Char → Bool) : List Char → Option (List Char × List Char)
  | c :: cs => if ok c then let (ds, rest) := digitRun ok cs; some (c :: ds, rest) else none
  | [] => none

/-- An integer with a base mark. -/
def based? : List Char → Option (Nat × List Char)
  | '0' :: 'x' :: cs =>
    (digitRun? (fun c => (Text.hexValue? c).isSome) cs).map fun (ds, rest) =>
      (Digits.ofChars 16 ds, rest)
  | '0' :: 'b' :: cs =>
    (digitRun? (fun c => c = '0' || c = '1') cs).map fun (ds, rest) => (Digits.ofChars 2 ds, rest)
  | '0' :: 'o' :: cs =>
    (digitRun? (fun c => '0' ≤ c && c ≤ '7') cs).map fun (ds, rest) => (Digits.ofChars 8 ds, rest)
  | _ => none

/-- The whole part of a decimal number: zero, or digits that do not start with zero. -/
def wholePart? : List Char → Option (List Char × List Char)
  | '0' :: cs => some (['0'], cs)
  | cs => digitRun? Char.isDigit cs

def sign : List Char → Bool × List Char
  | '-' :: cs => (true, cs)
  | '+' :: cs => (false, cs)
  | cs => (false, cs)

/-- The fraction of a number, if there is one. -/
def fraction? : List Char → Option (List Char × List Char)
  | '.' :: cs => digitRun? Char.isDigit cs
  | _ => none

/-- The exponent of a number, if there is one. -/
def exponent? : List Char → Option (Int × List Char)
  | 'e' :: cs | 'E' :: cs => do
    let (neg, cs) := sign cs
    let (ds, rest) ← digitRun? Char.isDigit cs
    let n := Digits.ofChars 10 ds
    return (if neg then -(n : Int) else n, rest)
  | _ => none

/-- A number, if one starts here. -/
def number? (cs : List Char) : Option (Except Fault (Value × List Char)) :=
  match based? cs with
  | some (n, rest) => some (.ok (.int n, rest))
  | none => do
    let (neg, body) := sign cs
    let (whole, rest) ← wholePart? body
    let frac := fraction? rest
    let rest := (frac.map (·.2)).getD rest
    let exp := exponent? rest
    let rest := (exp.map (·.2)).getD rest
    if frac.isNone && exp.isNone then
      if Digits.limit < whole.length then some (.error .integerTooLong)
      else
        let n := Digits.ofChars 10 whole
        some (.ok (.int (if neg then -(n : Int) else n), rest))
    else
      let fracDigits := (frac.map (·.1)).getD []
      let e := (exp.map (·.1)).getD 0
      let x := Binary64.ofDecimal neg (Digits.ofChars 10 (whole ++ fracDigits))
        (e - fracDigits.length)
      some (.ok (.float x, rest))

/-- The numbers that have names. -/
def special? (cs : List Char) : Option (Value × List Char) :=
  let (neg, body) := sign cs
  match body with
  | 'i' :: 'n' :: 'f' :: rest => some (.float (.infinite neg), rest)
  | 'n' :: 'a' :: 'n' :: rest => some (.float .nan, rest)
  | _ => none

/-! ### Tables -/

/-- The table that a nested key leads to is changed by `f`; missing tables are made, and with
`lists` a list of tables stands for its last one. -/
def withTable (lists : Bool) (f : List (String × Value) → Option (List (String × Value))) :
    Key → List (String × Value) → Option (List (String × Value))
  | [], t => f t
  | k :: ks, t =>
    match Value.lookup k t with
    | none => do return Value.putEntry k (.table (← withTable lists f ks [])) t
    | some (.table inner) => do return Value.putEntry k (.table (← withTable lists f ks inner)) t
    | some (.list items) =>
      if lists then
        match items.reverse with
        | .table inner :: before => do
          return Value.putEntry k
            (.list (before.reverse ++ [.table (← withTable lists f ks inner)])) t
        | _ => none
      else none
    | some _ => none

/-- Adds an entry whose key is free. -/
def addNew (k : String) (v : Value) (t : List (String × Value)) : Option (List (String × Value)) :=
  if (Value.lookup k t).isSome then none else some (t ++ [(k, v)])

def addTable (k : String) (t : List (String × Value)) : Option (List (String × Value)) :=
  match Value.lookup k t with
  | none => some (t ++ [(k, .list [.table []])])
  | some (.list items) => some (Value.putEntry k (.list (items ++ [.table []])) t)
  | some _ => none

def isContainer : Value → Bool
  | .list _ | .table _ => true
  | _ => false

/-- A key without its last name, and the last name. -/
def splitKey (key : Key) : Key × String := (key.dropLast, key.getLast?.getD "")

/-- Whether a key is one of the closed keys or lies below one. -/
def isClosed (closed : List Key) (key : Key) : Bool := closed.any fun c => c.isPrefixOf key

/-! ### Values -/

/-- The members of a list, after the opening bracket. -/
def listItems (value : List Char → Except Fault (Value × List Char)) :
    Nat → List Value → List Char → Except Fault (Value × List Char)
  | 0, _, _ => .error .malformed
  | fuel + 1, done, cs => do
    match ← skipSpace (cs.length + 1) cs with
    | ']' :: rest => return (.list done.reverse, rest)
    | cs =>
      let (v, cs) ← value cs
      match ← skipSpace (cs.length + 1) cs with
      | ']' :: rest => return (.list (v :: done).reverse, rest)
      | ',' :: rest => listItems value fuel (v :: done) rest
      | _ => throw .malformed

/-- A key, an equals sign and a value. -/
def pair (value : List Char → Except Fault (Value × List Char)) (cs : List Char) :
    Except Fault ((Key × Value) × List Char) := do
  let (k, cs) ← key cs
  match cs with
  | '=' :: cs =>
    let (v, cs) ← value (skipBlanks cs)
    return ((k, v), cs)
  | _ => throw .malformed

/-- The entries of an inline table, after the opening brace. -/
def inlineEntries (value : List Char → Except Fault (Value × List Char)) :
    Nat → List Key → List (String × Value) → List Char → Except Fault (Value × List Char)
  | 0, _, _, _ => .error .malformed
  | fuel + 1, closed, table, cs => do
    let ((k, v), cs) ← pair value cs
    if isClosed closed k then throw .malformed
    let (parent, last) := splitKey k
    match withTable false (addNew last v) parent table with
    | none => throw .malformed
    | some table =>
      match skipBlanks cs with
      | '\x7d' :: rest => return (.table table, rest)
      | ',' :: rest =>
        inlineEntries value fuel (if isContainer v then k :: closed
          else closed) table (skipBlanks rest)
      | _ => throw .malformed

/-- A value; the first argument bounds how deep values are nested. -/
def value : Nat → List Char → Except Fault (Value × List Char)
  | 0, _ => .error .malformed
  | fuel + 1, cs =>
    match text? cs with
    | some r => do
      let (t, rest) ← r
      return (.str t, rest)
    | none =>
      match cs with
      | 't' :: 'r' :: 'u' :: 'e' :: rest => .ok (.bool true, rest)
      | 'f' :: 'a' :: 'l' :: 's' :: 'e' :: rest => .ok (.bool false, rest)
      | '[' :: rest => listItems (value fuel) (rest.length + 1) [] rest
      | '\x7b' :: rest =>
        match skipBlanks rest with
        | '\x7d' :: rest => .ok (.table [], rest)
        | rest => inlineEntries (value fuel) (rest.length + 1) [] [] rest
      | _ =>
        match dateTime? cs with
        | some (m, rest) => if m.isValid then .ok (m.toValue, rest) else .error .malformed
        | none =>
          match time? cs with
          | some (t, rest) => .ok ((Moment.time t).toValue, rest)
          | none =>
            match number? cs with
            | some r => r
            | none =>
              match special? cs with
              | some r => .ok r
              | none => .error .malformed

/-! ### Documents -/

/-- A document under way. -/
structure Document where
  table : List (String × Value) := []
  /-- The table that is open. -/
  header : Key := []
  /-- Keys of tables that may not be opened again. -/
  opened : List Key := []
  /-- Keys of tables that will not be opened again once the present one ends. -/
  pending : List Key := []
  /-- Keys of inline tables and lists. -/
  closed : List Key := []

namespace Document

/-- The keys of the tables on the way to a dotted key. -/
def waypoints (header key : Key) : List Key :=
  (List.range (key.length - 1)).map fun i => header ++ key.take (i + 1)

def addPair (d : Document) (key : Key) (v : Value) : Except Fault Document :=
  let (parent, last) := splitKey key
  let ways := waypoints d.header key
  if ways.any d.opened.contains || isClosed d.closed (d.header ++ parent) then .error .malformed
  else
    match withTable true (addNew last v) (d.header ++ parent) d.table with
    | none => .error .malformed
    | some table => .ok { d with
        table
        pending := ways ++ d.pending
        closed := if isContainer v then (d.header ++ key) :: d.closed else d.closed }

def endTable (d : Document) : Document := { d with opened := d.pending ++ d.opened, pending := [] }

def openTable (d : Document) (key : Key) : Except Fault Document :=
  if d.opened.contains key || isClosed d.closed key then .error .malformed
  else
    match withTable true some key d.table with
    | none => .error .malformed
    | some table => .ok { d with table, header := key, opened := key :: d.opened }

/-- Opens a new table in a list of tables, below which all may be opened afresh. -/
def openItem (d : Document) (key : Key) : Except Fault Document :=
  if isClosed d.closed key then .error .malformed
  else
    let (parent, last) := splitKey key
    match withTable true (addTable last) parent d.table with
    | none => .error .malformed
    | some table => .ok { d with
        table
        header := key
        opened := key :: d.opened.filter (!key.isPrefixOf ·)
        closed := d.closed.filter (!key.isPrefixOf ·) }

end Document

/-- Reads one statement, of which the first character is not blank. -/
def statement (d : Document) (cs : List Char) : Except Fault (Document × List Char) :=
  match cs with
  | '[' :: '[' :: rest => do
    let (k, rest) ← key (skipBlanks rest)
    let d ← d.endTable.openItem k
    match rest with
    | ']' :: ']' :: rest => return (d, rest)
    | _ => throw .malformed
  | '[' :: rest => do
    let (k, rest) ← key (skipBlanks rest)
    let d ← d.endTable.openTable k
    match rest with
    | ']' :: rest => return (d, rest)
    | _ => throw .malformed
  | '#' :: _ => .ok (d, cs)
  | _ => do
    let ((k, v), rest) ← pair (value (cs.length + 1)) cs
    return (← d.addPair k v, rest)

/-- Reads statements, one a line; the first argument bounds the number of lines. -/
def statements : Nat → Document → List Char → Except Fault Document
  | 0, d, _ => .ok d
  | fuel + 1, d, cs =>
    match skipBlanks cs with
    | [] => .ok d
    | '\n' :: rest => statements fuel d rest
    | cs => do
      let (d, cs) ← statement d cs
      match ← skipComment (skipBlanks cs) with
      | [] => return d
      | '\n' :: rest => statements fuel d rest
      | _ => throw .malformed

/-- Joins the two characters of a line end. -/
def joinLineEnds : List Char → List Char
  | '\r' :: '\n' :: cs => '\n' :: joinLineEnds cs
  | c :: cs => c :: joinLineEnds cs
  | [] => []

def read (text : List Char) : Except Fault (List (String × Value)) := do
  let cs := joinLineEnds text
  return (← statements (cs.length + 1) {} cs).table

end CodeAtlas.Toml
