/-!
# Outlines

The outline of a source file lists what an index records of it: classes with their methods,
functions, imports and comments, each with its lines.
-/

namespace CodeAtlas.Outline

structure Comment where
  text : String
  line : Int
deriving DecidableEq, Repr, Inhabited

/-- A parameter. `kind` says how arguments reach it, where that is known. -/
structure Parameter where
  name : String
  hint : Option String := none
  default : Option String := none
  kind : Option String := none
deriving DecidableEq, Repr, Inhabited

structure Function where
  name : String
  firstLine : Int := 1
  lastLine : Int := 1
  docstring : Option String := none
  decorators : List String := []
  parameters : List Parameter := []
  returns : Option String := none
  isAsync : Bool := false
  comments : List Comment := []
deriving DecidableEq, Repr, Inhabited

structure Attribute where
  name : String
  hint : Option String := none
  default : Option String := none
deriving DecidableEq, Repr, Inhabited

structure Class where
  name : String
  firstLine : Int := 1
  lastLine : Int := 1
  bases : List String := []
  docstring : Option String := none
  decorators : List String := []
  methods : List Function := []
  comments : List Comment := []
  attributes : List Attribute := []
deriving DecidableEq, Repr, Inhabited

/-- An import of a module, or of names from it. -/
structure Import where
  module : String
  line : Int := 1
  names : List String := []
  isFrom : Bool := false
deriving DecidableEq, Repr, Inhabited

structure File where
  path : String
  moduleName : String := ""
  docstring : Option String := none
  lineCount : Nat := 0
  classes : List Class := []
  functions : List Function := []
  imports : List Import := []
  comments : List Comment := []
deriving DecidableEq, Repr, Inhabited

/-- Whether an optional text is there and not empty. -/
def present (s : Option String) : Bool := s.any (!·.isEmpty)

/-- An optional text, if it is there and not empty. -/
def present? (s : Option String) : Option String := s.filter (!·.isEmpty)

end CodeAtlas.Outline
