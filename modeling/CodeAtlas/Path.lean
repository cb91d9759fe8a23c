import CodeAtlas.Text.Quoted

/-!
# Paths

A path is a root and a list of names. Reading a path drops empty names and single dots; double dots
are kept, since they cannot be resolved without looking at the files.
-/

namespace CodeAtlas

/-- A path: `root` is empty for a relative path, else one or two slashes. -/
structure Path where
  root : String
  parts : List String
deriving DecidableEq, Repr, Inhabited

namespace Path

/-- The root of a written path: exactly two slashes are kept, more count as one. -/
def rootOf : List Char → String
  | '/' :: '/' :: '/' :: _ => "/"
  | '/' :: '/' :: _ => "//"
  | '/' :: _ => "/"
  | _ => ""

def ofString (s : String) : Path :=
  let cs := s.toList
  ⟨rootOf cs, ((Text.splitOnChar '/' cs).map String.ofList).filter fun w => w ≠ "" ∧ w ≠ "."⟩

/-- The written form; a path with no names and no root is a dot. -/
def text (p : Path) : String :=
  if p.root.isEmpty && p.parts.isEmpty then "." else p.root ++ "/".intercalate p.parts

def isAbsolute (p : Path) : Bool := !p.root.isEmpty

/-- The path `q` seen from `p`: an absolute one stands for itself. -/
def join (p q : Path) : Path := if q.isAbsolute then q else ⟨p.root, p.parts ++ q.parts⟩

def child (p : Path) (name : String) : Path := p.join (ofString name)

def parent (p : Path) : Path := ⟨p.root, p.parts.dropLast⟩

/-- The last name, empty if there is none. -/
def name (p : Path) : String := p.parts.getLast?.getD ""

/-- Cuts a name before its last dot, unless the dot comes first or last. -/
def splitSuffix (name : String) : String × String :=
  let back := name.toList.reverse
  let tail := back.takeWhile (· != '.')
  match back.dropWhile (· != '.') with
  | '.' :: rest =>
    if tail.isEmpty || rest.isEmpty then (name, "")
    else (String.ofList rest.reverse, String.ofList ('.' :: tail.reverse))
  | _ => (name, "")

/-- The ending of the last name, with its dot. -/
def suffix (p : Path) : String := (splitSuffix p.name).2

/-- The last name without its ending. -/
def stem (p : Path) : String := (splitSuffix p.name).1

/-- The path with the ending of its last name removed. -/
def dropSuffix (p : Path) : Path :=
  match p.parts.getLast? with
  | none => p
  | some n => ⟨p.root, p.parts.dropLast ++ [(splitSuffix n).1]⟩

/-- The names that lead from `base` to `p`. -/
def relativeTo? (p base : Path) : Option Path :=
  if p.root = base.root ∧ base.parts.isPrefixOf p.parts then
    some ⟨"", p.parts.drop base.parts.length⟩
  else none

/-- The order of lists of names: the first difference decides, and what is shorter comes first. -/
def namesLe : List String → List String → Bool
  | [], _ => true
  | _ :: _, [] => false
  | a :: as, b :: bs => if a = b then namesLe as bs else decide (a < b)

def le (p q : Path) : Bool := namesLe (p.root :: p.parts) (q.root :: q.parts)

end Path

end CodeAtlas
