import CodeAtlas.Index.Notes
import CodeAtlas.Index.Skeleton
import CodeAtlas.Outline.Basic

/-!
# The atlas of a project

The four documents are built together from the outlines of the files, one file after the other: the
skeleton gives every entity its location, and the other three refer to it.
-/

namespace CodeAtlas.Index

structure Atlas where
  skeleton : Skeleton := {}
  places : Places := {}
  docstrings : Docstrings := {}
  comments : Comments := {}
deriving Inhabited

namespace Atlas

/-- The number of lines of a docstring. -/
def lineCount (text : String) : Nat := text.toList.count '\n' + 1

/-- The lines that a docstring takes at most, below the line where its entity begins. -/
def docstringLines (line : Int) (text : String) : Int × Int :=
  (line + 1, line + min (lineCount text + 1) 10)

/-- Records the docstring of an entity that begins at a line, if it has one. -/
def addDocstring (a : Atlas) (kind : Ranged) (location : Nat) (path : String) (line : Int)
    (text : Option String) : Atlas :=
  match Outline.present? text with
  | none => a
  | some t =>
    { a with docstrings := Notes.add a.docstrings kind location t path (docstringLines line t) }

def addComments (a : Atlas) (kind : Ranged) (location : Nat) (path : String)
    (comments : List Outline.Comment) : Atlas :=
  { a with comments :=
    comments.foldl (fun cs c => Comments.add cs kind location c.text path c.line) a.comments }

/-- Records where an entity stands. -/
def addRange (a : Atlas) (kind : Ranged) (location : Nat) (path : String) (first last : Int) :
    Atlas :=
  { a with places := a.places.addRange kind location path first last }

/-- Records the decorators of an entity, if it has any. -/
def addDecorators (a : Atlas) (location : Nat) (decorators : List String) : Atlas :=
  if decorators.isEmpty then a
  else { a with skeleton := a.skeleton.addDecorators location decorators }

def hintedParameters (f : Outline.Function) : List (String × String) :=
  f.parameters.filterMap fun p => (Outline.present? p.hint).map (p.name, ·)

/-- Records the type hints of a function that has parameters or a result type. -/
def addHints (a : Atlas) (location : Nat) (f : Outline.Function) : Atlas :=
  if f.parameters.isEmpty && !Outline.present f.returns then a
  else { a with skeleton := a.skeleton.addHints location (hintedParameters f) f.returns }

/-- Records a function, or a method of a class. -/
def addFunction (path : String) (parent : Int) (a : Atlas) (f : Outline.Function) : Atlas :=
  let (skeleton, l) := a.skeleton.addFunction f.name parent path
  let a := { a with skeleton }
  let a := a.addRange .function l path f.firstLine f.lastLine
  let a := a.addDocstring .function l path f.firstLine f.docstring
  let a := a.addComments .function l path f.comments
  let a := a.addDecorators l f.decorators
  a.addHints l f

def addClass (path : String) (a : Atlas) (c : Outline.Class) : Atlas :=
  let (skeleton, l) := a.skeleton.addClass c.name c.bases path
  let a := { a with skeleton }
  let a := a.addRange .class l path c.firstLine c.lastLine
  let a := a.addDocstring .class l path c.firstLine c.docstring
  let a := a.addComments .class l path c.comments
  let a := a.addDecorators l c.decorators
  let parent : Int := a.skeleton.classes.length - 1
  c.methods.foldl (addFunction path parent) a

def addImport (path : String) (a : Atlas) (i : Outline.Import) : Atlas :=
  let (skeleton, l) := a.skeleton.addImport i.module path
  { a with skeleton, places := a.places.addImport l path i.line }

def addFile (a : Atlas) (path : String) (f : Outline.File) : Atlas :=
  let (skeleton, l) := a.skeleton.addModule f.moduleName path
  let a := { a with skeleton }
  let a := a.addRange .module l path 1 f.lineCount
  let a := a.addDocstring .module l path 0 f.docstring
  let a := f.classes.foldl (addClass path) a
  let a := f.functions.foldl (addFunction path (-1)) a
  let a := f.imports.foldl (addImport path) a
  a.addComments .module l path f.comments

/-- The atlas of files, each with its path in the project. -/
def ofFiles (files : List (String × Outline.File)) : Atlas :=
  files.foldl (fun a (path, f) => a.addFile path f) {}

end Atlas

end CodeAtlas.Index
