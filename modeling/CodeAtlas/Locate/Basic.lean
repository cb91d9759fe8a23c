import CodeAtlas.Data.Access
import CodeAtlas.Syntax.Statement
import CodeAtlas.Table
import CodeAtlas.Text.Lines

/-!
# Locations

Where the definitions of a catalog stand. Locations in the catalog are passed on as they are,
whatever values they have.
-/

namespace CodeAtlas.Locate

/-! ### Marked comments -/

inductive Mark where
  | todo
  | fixme
  | note
  | warning
  | hack
  | xxx
  | optimize
deriving DecidableEq, Repr

namespace Mark

/-- All marks, in the order in which they are looked for. -/
def all : List Mark := [todo, fixme, note, warning, hack, xxx, optimize]

def word : Mark → String
  | todo => "TODO"
  | fixme => "FIXME"
  | note => "NOTE"
  | warning => "WARNING"
  | hack => "HACK"
  | xxx => "XXX"
  | optimize => "OPTIMIZE"

def code : Mark → Nat
  | todo => 0
  | fixme => 1
  | note => 2
  | warning => 3
  | hack => 4
  | xxx => 5
  | optimize => 6

end Mark

/-- Whether a character is a given capital letter in any case. The letter I has a form with and one
without a dot in both cases, and the sign for kelvins counts as a K. -/
def isLetter (letter c : Char) : Bool :=
  c.toUpper == letter
    || (letter == 'I' && (c == 'İ' || c == 'ı'))
    || (letter == 'K' && c == 'K')

/-- What follows a word at the beginning of a text. -/
def afterWord? : List Char → List Char → Option (List Char)
  | [], cs => some cs
  | _ :: _, [] => none
  | l :: ls, c :: cs => if isLetter l c then afterWord? ls cs else none

/-- The text of a marked comment, given what follows the hash sign. -/
def remarkAfter? (word cs : List Char) : Option (List Char) :=
  match afterWord? word (Text.stripLeft cs) with
  | some (c :: cs) =>
    if c == ':' || Text.isBlank c then some (Text.stripChars (cs.takeWhile (· != '\n'))) else none
  | _ => none

/-- The text of the first comment in a line with a marking word. -/
def remark? (word : List Char) : List Char → Option (List Char)
  | [] => none
  | c :: cs =>
    match if c == '#' then remarkAfter? word cs else none with
    | some text => some text
    | none => remark? word cs

def remarks (line : List Char) : List (Mark × String) :=
  Mark.all.filterMap fun m => (remark? m.word.toList line).map fun text => (m, String.ofList text)

end CodeAtlas.Locate

namespace CodeAtlas

namespace Locate

/-! ### Locations -/

open Syntax

structure FileRow where
  path : Nat
  lines : Nat
  size : Nat
  modified : Nat
  hash : Nat
deriving DecidableEq, Repr

structure ModuleRow where
  number : Nat
  location : Value
  file : Int
  last : Nat
  docstring : Option Span

structure DefinitionRow where
  number : Nat
  location : Value
  file : Int
  /-- The line of the first recorded decorator, or else of the definition. -/
  first : Nat
  last : Nat
  line : Nat
  /-- The line where the body starts, behind the documentation. -/
  body : Nat
  indentation : Nat
  /-- The recorded decorators with their lines. -/
  decorators : List (Nat × Nat)
  docstring : Option Span

structure ImportRow where
  number : Nat
  file : Int
  line : Nat
  isFrom : Bool
deriving DecidableEq, Repr

structure CommentRow where
  file : Int
  line : Nat
  mark : Mark
  text : Nat
deriving DecidableEq, Repr

/-- The number of entities of each kind. -/
structure Totals where
  modules : Nat := 0
  classes : Nat := 0
  functions : Nat := 0
  imports : Nat := 0
  comments : Nat := 0
deriving DecidableEq, Repr

end Locate

structure Locations where
  paths : Table := {}
  modifieds : Table := {}
  hashes : Table := {}
  decorators : Table := {}
  commentTexts : Table := {}
  files : List Locate.FileRow := []
  modules : List Locate.ModuleRow := []
  classes : List Locate.DefinitionRow := []
  functions : List Locate.DefinitionRow := []
  imports : List Locate.ImportRow := []
  comments : List Locate.CommentRow := []
  /-- The totals of the last build that was finished. -/
  counted : Locate.Totals := {}

namespace Locations

open Locate

def addFile (l : Locations) (path : String) (lines size : Nat) (modified hash : String) :
    Locations × Nat :=
  let (paths, p) := l.paths.add path
  let (modifieds, m) := l.modifieds.add modified
  let (hashes, h) := l.hashes.add hash
  ({ l with paths, modifieds, hashes, files := l.files ++ [⟨p, lines, size, m, h⟩] },
    l.files.length)

def addComment (l : Locations) (file : Int) (line : Nat) (mark : Mark) (text : String) :
    Locations :=
  let (commentTexts, t) := l.commentTexts.add text
  { l with commentTexts, comments := l.comments ++ [⟨file, line, mark, t⟩] }

/-- Records the marked comments of lines, the first of which has number `n`. -/
def addComments (l : Locations) (file : Int) (n : Nat) : List (List Char) → Locations
  | [] => l
  | line :: lines =>
    ((remarks line).foldl (fun l (mark, text) => l.addComment file n mark text) l).addComments file
      (n + 1) lines

/-- Records imports on a line, one for every name. -/
def addImports (l : Locations) (file : Int) (line : Nat) (isFrom : Bool) (count : Nat) :
    Locations :=
  let next := l.imports.length
  { l with imports := l.imports ++ (List.range count).map fun i => ⟨next + i, file, line, isFrom⟩ }

def addModuleImports (file : Int) (l : Locations) : Syntax.Stmt → Locations
  | .importNames span names => l.addImports file span.first false names.length
  | .importFrom span _ names _ => l.addImports file span.first true names.length
  | _ => l

def count (l : Locations) : Totals where
  modules := l.modules.length
  classes := l.classes.length
  functions := l.functions.length
  imports := l.imports.length
  comments := l.comments.length

end Locations

end CodeAtlas
