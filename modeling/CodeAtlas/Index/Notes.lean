import CodeAtlas.Index.Places
import CodeAtlas.Text.Lines
import CodeAtlas.Text.Case
import CodeAtlas.Text.Search

/-!
# The texts of a project

Docstrings and comments are gathered in the same way: every distinct text is kept once, and the
notes of an entity stand together under its location, in the order in which they came.
-/

namespace CodeAtlas.Index

/-- One note: its text and file by number, and its place in the file. -/
structure Note (ρ : Type) where
  text : Nat
  file : Nat
  place : ρ
deriving DecidableEq, Repr

/-- The notes of a project, for each kind of entity grouped by location. -/
structure Notes (ρ : Type) where
  texts : Table := {}
  files : Table := {}
  modules : Keyed Int (List (Note ρ)) := []
  classes : Keyed Int (List (Note ρ)) := []
  functions : Keyed Int (List (Note ρ)) := []
deriving DecidableEq, Repr, Inhabited

namespace Notes

variable {ρ : Type}

def addText (n : Notes ρ) (text : String) : Notes ρ × Nat :=
  let (texts, i) := n.texts.add text
  ({ n with texts }, i)

def addFile (n : Notes ρ) (path : String) : Notes ρ × Nat :=
  let (files, i) := n.files.add path
  ({ n with files }, i)

def add (n : Notes ρ) (kind : Ranged) (location : Int) (text path : String) (place : ρ) : Notes ρ :=
  let (n, t) := n.addText text
  let (n, f) := n.addFile path
  let note := ⟨t, f, place⟩
  match kind with
  | .module => { n with modules := n.modules.addTo location note }
  | .class => { n with classes := n.classes.addTo location note }
  | .function => { n with functions := n.functions.addTo location note }

/-- The number of entities that have notes. -/
def size (n : Notes ρ) : Nat := n.modules.length + n.classes.length + n.functions.length

/-! ### Documents -/

/-- The groups of a section; `place` says how a place is written. -/
def groupRows (place : ρ → List Int) (groups : Keyed Int (List (Note ρ))) : Value :=
  .list (groups.map fun (l, notes) =>
    .list [.int l, .list
      (notes.map fun n => row ([(n.text : Int), (n.file : Int)] ++ place n.place))])

/-- A document of notes, whose texts stand under a key of the document's own. -/
def documentWith (n : Notes ρ) (texts : String) (place : ρ → List Int) (header : Header) : Value :=
  .table [
    ("meta", header.toValue),
    (texts, Value.strings n.texts.items),
    ("modules", groupRows place n.modules),
    ("classes", groupRows place n.classes),
    ("functions", groupRows place n.functions)]

/-- The counts that documents of notes have in common. -/
def counts (n : Notes ρ) : List (String × Value) := [
  count "unique_texts" n.texts.items,
  count "modules" n.modules,
  count "classes" n.classes,
  count "functions" n.functions,
  ("total", Value.nat n.size)]

end Notes

/-- Docstrings, with their first and last lines. -/
abbrev Docstrings := Notes (Int × Int)

namespace Docstrings

def document (d : Docstrings) (header : Header) : Value :=
  d.documentWith "docstrings_text" (fun (first, last) => [first, last]) header

def summary (d : Docstrings) : String :=
  s!"Built TECH-DOCSTRINGS: {d.texts.size} unique texts, {d.size} total docstrings"

def statistics (d : Docstrings) : Value := .table d.counts

end Docstrings

/-- Comments, with their lines. -/
abbrev Comments := Notes Int

namespace Comments

def addText (c : Comments) (text : String) : Comments × Nat := Notes.addText c (Text.strip text)

def add (c : Comments) (kind : Ranged) (location : Int) (text path : String) (line : Int) :
    Comments :=
  Notes.add c kind location (Text.strip text) path line

/-- Whether a text contains a marker, in any letter case. -/
def marked (marker text : String) : Bool := Text.contains (Text.upper text) marker

/-- The texts with a marker and their numbers. -/
def withMarker (c : Comments) (marker : String) : List (String × Nat) :=
  c.texts.items.zipIdx.filter fun (t, _) => marked marker t

def document (c : Comments) (header : Header) : Value :=
  c.documentWith "comments_text" (fun line => [line]) header

def summary (c : Comments) : String :=
  s!"Built TECH-COMMENTS: {c.texts.size} unique texts, {c.size} total comments"

def statistics (c : Comments) : Value :=
  .table (c.counts ++ [
    count "todos" (c.withMarker "TODO"),
    count "fixmes" (c.withMarker "FIXME"),
    count "notes" (c.withMarker "NOTE")])

end Comments

end CodeAtlas.Index
