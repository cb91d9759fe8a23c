import CodeAtlas.Text.Ranges

/-!
# Lines

Three ways to see the lines of a text: after every line feed (`splitOnChar`), at every line boundary
of plain text (`splitLines`), and as a text file is read (`fileLines`).
-/

namespace CodeAtlas.Text

/-! ### Blank characters and stripping -/

def isBlank (c : Char) : Bool :=
  let n := c.toNat
  (0x09 ≤ n && n ≤ 0x0d) || (0x1c ≤ n && n ≤ 0x20) || n == 0x85 || n == 0xa0 || n == 0x1680
    || (0x2000 ≤ n && n ≤ 0x200a) || n == 0x2028 || n == 0x2029 || n == 0x202f || n == 0x205f
    || n == 0x3000

def stripLeft (cs : List Char) : List Char := cs.dropWhile isBlank

def stripRight (cs : List Char) : List Char := (cs.reverse.dropWhile isBlank).reverse

def stripChars (cs : List Char) : List Char := stripRight (stripLeft cs)

def strip (s : String) : String := String.ofList (stripChars s.toList)


/-! ### Lines -/

/-- One character in front of a text whose line endings are line feeds already; the flag says
whether a line feed stood next in the file. -/
def unifyStep (c : Char) (next : Bool × List Char) : Bool × List Char :=
  (c == '\n',
    if c = '\r' then (if next.1 then next.2 else '\n' :: next.2) else c :: next.2)

/-- Turns carriage returns, alone or before a line feed, into line feeds. -/
def unifyNewlines (cs : List Char) : List Char := (cs.foldr unifyStep (false, [])).2

/-- Whether a character ends a line of plain text. -/
def isLineBoundary (c : Char) : Bool :=
  let n := c.toNat
  (0x0a ≤ n && n ≤ 0x0d) || (0x1c ≤ n && n ≤ 0x1e) || n == 0x85 || n == 0x2028 || n == 0x2029

/-- The lines of a plain text, without their ends; `line` holds the current one backwards. -/
def splitLinesFrom (line : List Char) : List Char → List (List Char)
  | [] => if line.isEmpty then [] else [line.reverse]
  | '\r' :: '\n' :: cs => line.reverse :: splitLinesFrom [] cs
  | c :: cs =>
    if isLineBoundary c then line.reverse :: splitLinesFrom [] cs
    else splitLinesFrom (c :: line) cs

/-- The lines of a plain text; a boundary at the very end opens no further line. -/
def splitLines (cs : List Char) : List (List Char) := splitLinesFrom [] cs

/-- The lines of a text file; a line feed at the very end opens no further line. -/
def fileLines (cs : List Char) : List (List Char) :=
  let parts := splitOnChar '\n' cs
  match parts.getLast? with
  | some [] => parts.dropLast
  | _ => parts

/-- The pieces of a text between line feeds. -/
def newlineParts (cs : List Char) : List (List Char) := splitOnChar '\n' cs

/-- Replaces tabs by blanks up to the next multiple of eight columns. -/
def expandTabs (column : Nat) : List Char → List Char
  | [] => []
  | '\t' :: cs =>
    let width := 8 - column % 8
    List.replicate width ' ' ++ expandTabs (column + width) cs
  | c :: cs =>
    if c = '\n' || c = '\r' then c :: expandTabs 0 cs else c :: expandTabs (column + 1) cs

end CodeAtlas.Text
