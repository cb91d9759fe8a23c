import CodeAtlas.Outline.Extract
import CodeAtlas.Session

/-!
# Reading outlines from files

While a reader is at a file, it holds the comments of the file, and classes and functions take
theirs from there. It lets go of them when the file is done, but not when the reading fails.
-/

namespace CodeAtlas.Outline

open CodeAtlas.Action

structure Reader where
  /-- The comments of the file that is read. -/
  comments : List Comment := []
deriving DecidableEq, Repr

abbrev Reading := Work Reader

namespace Reader

/-- The outline of a module, whose classes and functions take their comments from those that are
held. -/
def outline (r : Reader) (path : Path) (source : List Char) (m : Syntax.Module) : File :=
  { ofModule path source m with
    classes := classes r.comments m
    functions := functions r.comments m }

def readOutline (path : Path) : Reading File := do
  let source ← readText path
  match Syntax.parseModule? source with
  | none => throw .ungrammatical
  | some m =>
    set (⟨Outline.comments source⟩ : Reader)
    for note in notes m do debug note
    let file := (← getThe Reader).outline path source m
    debug s!"Parsed {path.text}: {file.classes.length} classes, {file.functions.length} functions"
    set ({} : Reader)
    return file

/-- The outline of the file at a path, if it can be read; why it cannot is said in the log. -/
def read (path : Path) : Reading (Option File) := do
  if !(← isThere path) then
    error s!"File not found: {path.text}"
    return none
  match ← Work.attempt (readOutline path) with
  | .ok file => return some file
  | .error .ungrammatical =>
    report s!"Syntax error in {path.text}" .ungrammatical
    return none
  | .error f =>
    report s!"Error parsing {path.text}" f
    return none

end Reader

/-- The outline of the file at a path, read by a reader of its own. -/
def read (path : Path) : Action (Option File) := do
  return (← perform (Reader.read path) {}).1

end CodeAtlas.Outline
