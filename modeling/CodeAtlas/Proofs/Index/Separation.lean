import CodeAtlas.Project
import CodeAtlas.Proofs.Index.History

/-!
# The skeleton and the places of a project keep apart

Agreement of files is said by a reduction, which takes out of every outline what may differ. It goes
through the roll entity by entity (`Project.documents_noninterfering`).
-/

namespace CodeAtlas

open List

namespace Outline

/-- A change to outlines that goes from a file to its parts and leaves their number and order. -/
structure Reduction where
  file : File → File
  cls : Class → Class
  function : Function → Function
  imp : Import → Import
  classes_file : ∀ f, (file f).classes = f.classes.map cls
  functions_file : ∀ f, (file f).functions = f.functions.map function
  imports_file : ∀ f, (file f).imports = f.imports.map imp
  methods_cls : ∀ c, (cls c).methods = c.methods.map function

/-! ### Outlines without lines and texts -/

/-- A function without its lines, its docstring and its comments. -/
def Function.bare (f : Function) : Function :=
  { f with firstLine := 1, lastLine := 1, docstring := none, comments := [] }

/-- A class without lines, docstrings and comments, also in its methods. -/
def Class.bare (c : Class) : Class :=
  { c with
    firstLine := 1, lastLine := 1, docstring := none, comments := []
    methods := c.methods.map Function.bare }

def Import.bare (i : Import) : Import := { i with line := 1 }

/-- Takes lines, their number, docstrings and comments out of a file. All else is kept. -/
def bare : Reduction where
  file f :=
    { f with
      lineCount := 0, docstring := none, comments := []
      classes := f.classes.map Class.bare
      functions := f.functions.map Function.bare
      imports := f.imports.map Import.bare }
  cls := Class.bare
  function := Function.bare
  imp := Import.bare
  classes_file _ := rfl
  functions_file _ := rfl
  imports_file _ := rfl
  methods_cls _ := rfl

/-! ### Outlines of lines alone -/

def Function.frame (f : Function) : Function :=
  { name := "", firstLine := f.firstLine, lastLine := f.lastLine }

def Class.frame (c : Class) : Class :=
  { name := "", firstLine := c.firstLine, lastLine := c.lastLine
    methods := c.methods.map Function.frame }

def Import.frame (i : Import) : Import := { module := "", line := i.line }

/-- Takes everything out of a file but its path, the number of its lines, and the lines of what is
in it. -/
def frame : Reduction where
  file f :=
    { path := f.path
      lineCount := f.lineCount
      classes := f.classes.map Class.frame
      functions := f.functions.map Function.frame
      imports := f.imports.map Import.frame }
  cls := Class.frame
  function := Function.frame
  imp := Import.frame
  classes_file _ := rfl
  functions_file _ := rfl
  imports_file _ := rfl
  methods_cls _ := rfl

end Outline

namespace Outline.Reduction

open Index

/-- Changes an entity and leaves its file and its class. -/
def listed (r : Reduction) : Listed → Listed
  | ⟨path, .module f⟩ => ⟨path, .module (r.file f)⟩
  | ⟨path, .class c⟩ => ⟨path, .class (r.cls c)⟩
  | ⟨path, .function parent f⟩ => ⟨path, .function parent (r.function f)⟩
  | ⟨path, .import i⟩ => ⟨path, .import (r.imp i)⟩

/-- Changes files and leaves the paths they go by. -/
def files (r : Reduction) (fs : List (String × File)) : List (String × File) :=
  fs.map fun pf => (pf.1, r.file pf.2)

/-! ### The roll of reduced files -/

section Roll

variable (r : Reduction)

lemma classRoll_cls (path : String) (c : Class) (k : Nat) :
    classRoll path (r.cls c) k = (classRoll path c k).map r.listed := by
  unfold classRoll
  rw [r.methods_cls, map_cons, map_map, map_map]
  rfl

lemma fileRoll_file (path : String) (f : File) (k : Nat) :
    fileRoll path (r.file f) k = (fileRoll path f k).map r.listed := by
  have hclasses : ((r.file f).classes.zipIdx k).flatMap (fun ck => classRoll path ck.1 ck.2) =
      ((f.classes.zipIdx k).flatMap fun ck => classRoll path ck.1 ck.2).map r.listed := by
    rw [r.classes_file, zipIdx_map, flatMap_map, map_flatMap]
    exact flatMap_congr fun ck _ => classRoll_cls r path ck.1 ck.2
  unfold fileRoll
  rw [hclasses, r.functions_file, r.imports_file]
  simp only [map_cons, map_append, map_map]
  rfl

variable (fs : List (String × File))

lemma rollFrom_files (k : Nat) : rollFrom k (r.files fs) = (rollFrom k fs).map r.listed := by
  induction fs generalizing k with
  | nil => rfl
  | cons pf fs ih =>
    obtain ⟨path, f⟩ := pf
    have hlength : (r.file f).classes.length = f.classes.length := by
      rw [r.classes_file, length_map]
    show fileRoll path (r.file f) k ++ rollFrom (k + (r.file f).classes.length) (r.files fs) = _
    rw [fileRoll_file, hlength, ih, rollFrom, map_append]

/-- A reduction changes the roll of files entity by entity. -/
lemma roll_files : roll (r.files fs) = (roll fs).map r.listed :=
  rollFrom_files r fs 0

end Roll

variable {r : Reduction}

/-- Reduced files have the skeleton of the files, if it records every entity alike. -/
lemma skeleton_ofFiles (h : ∀ (s : Skeleton) x, s.record (r.listed x) = s.record x)
    (fs : List (String × File)) :
    (Atlas.ofFiles (r.files fs)).skeleton = (Atlas.ofFiles fs).skeleton := by
  rw [Atlas.skeleton_ofFiles, Atlas.skeleton_ofFiles, roll_files, foldl_map]
  simp only [h]

/-- Reduced files have the places of the files, if they record every entity alike. -/
lemma places_ofFiles (h : ∀ (p : Places) x l, p.record (r.listed x, l) = p.record (x, l))
    (fs : List (String × File)) :
    (Atlas.ofFiles (r.files fs)).places = (Atlas.ofFiles fs).places := by
  rw [Atlas.places_ofFiles, Atlas.places_ofFiles, roll_files, zipIdx_map, foldl_map]
  simp only [Prod.map, id_eq, h]

end Outline.Reduction

/-! ### What the documents do not read -/

namespace Index

open Outline

lemma Skeleton.record_bare (s : Skeleton) (x : Listed) : s.record (bare.listed x) = s.record x := by
  obtain ⟨path, entity⟩ := x
  cases entity <;> rfl

lemma Places.record_frame (p : Places) (x : Listed) (l : Nat) :
    p.record (frame.listed x, l) = p.record (x, l) := by
  obtain ⟨path, entity⟩ := x
  cases entity <;> rfl

end Index

namespace Project

open Index Outline

variable {p : Project}

lemma atlas_map {r : Reduction} (hpath : ∀ f, (r.file f).path = f.path) (files : List File) :
    p.atlas (files.map r.file) =
      Atlas.ofFiles (r.files (files.map fun f => (p.inside (Path.ofString f.path), f))) := by
  unfold atlas Reduction.files
  rw [map_map, map_map]
  apply congrArg Atlas.ofFiles
  apply map_congr_left
  intro f _
  show (p.inside (Path.ofString (r.file f).path), r.file f) = _
  rw [hpath]
  rfl

lemma skeleton_atlas_bare (files : List File) :
    (p.atlas (files.map bare.file)).skeleton = (p.atlas files).skeleton := by
  rw [atlas_map fun _ => rfl, Reduction.skeleton_ofFiles Skeleton.record_bare]
  rfl

lemma places_atlas_frame (files : List File) :
    (p.atlas (files.map frame.file)).places = (p.atlas files).places := by
  rw [atlas_map fun _ => rfl, Reduction.places_ofFiles Places.record_frame]
  rfl

/-! ### The main result -/

/-- The documents of two lists of files, made at the same time. Files that agree on everything but
line numbers, line counts, docstrings and comments have the same skeleton. Files that agree on their
paths, on all line numbers and counts and on the number of classes, methods, functions and imports,
but on nothing else, have the same places. -/
theorem documents_noninterfering (p : Project) (files files' : List Outline.File)
    (header : Header) : (files.map bare.file = files'.map bare.file →
      (documents header (p.atlas files)).skeleton = (documents header (p.atlas files')).skeleton) ∧
    (files.map frame.file = files'.map frame.file →
      (documents header (p.atlas files)).places = (documents header (p.atlas files')).places) := by
  constructor
  · intro hagree
    have hskeleton : (p.atlas files).skeleton = (p.atlas files').skeleton := by
      rw [← skeleton_atlas_bare, hagree, skeleton_atlas_bare]
    unfold documents
    rw [hskeleton]
  · intro hagree
    have hplaces : (p.atlas files).places = (p.atlas files').places := by
      rw [← places_atlas_frame, hagree, places_atlas_frame]
    unfold documents
    rw [hplaces]

/-- A file with a class, whose method has a type hint and a decorator. -/
def draft : Outline.File where
  path := "/p/a.py"
  moduleName := "a"
  lineCount := 9
  classes := [{
    name := "A", firstLine := 2, lastLine := 6, bases := ["B"], docstring := some "Draft."
    methods := [{
      name := "f", firstLine := 4, lastLine := 6, decorators := ["property"]
      parameters := [{ name := "self" }, { name := "x", hint := some "int" }]
      returns := some "str" }] }]
  imports := [{ module := "os", line := 1 }]

/-- The same file further down, without its docstring and with a comment. -/
def moved : Outline.File :=
  { draft with
    lineCount := 40
    classes := draft.classes.map fun c =>
      { c with
        firstLine := 30, lastLine := 36, docstring := none
        methods := c.methods.map fun f =>
          { f with firstLine := 33, lastLine := 36, comments := [⟨"later", 35⟩] } } }

/-- The file with other names, without bases, decorators and type hints. -/
def renamed : Outline.File :=
  { draft with
    moduleName := "z"
    classes := draft.classes.map fun c =>
      { c with
        name := "Z", bases := [], docstring := some "Final."
        methods := c.methods.map fun f =>
          { f with name := "g", decorators := [], parameters := [], returns := none } }
    imports := [{ module := "sys", line := 1 }] }

/-- The main result at a file that is moved and at one that is renamed. -/
theorem documents_noninterfering_draft :
    ([draft].map bare.file = [moved].map bare.file ∧ draft ≠ moved) ∧
      ([draft].map frame.file = [renamed].map frame.file ∧ draft ≠ renamed) ∧
      let p : Project := { path := ⟨"/", ["p"]⟩, output := ⟨"/", ["o"]⟩ }
      (documents ⟨"", "p"⟩ (p.atlas [draft])).skeleton =
        (documents ⟨"", "p"⟩ (p.atlas [moved])).skeleton ∧
        (documents ⟨"", "p"⟩ (p.atlas [draft])).places =
          (documents ⟨"", "p"⟩ (p.atlas [renamed])).places := by
  refine ⟨⟨rfl, by decide⟩, ⟨rfl, by decide⟩, ?_⟩
  intro p
  exact ⟨(documents_noninterfering p [draft] [moved] ⟨"", "p"⟩).1 rfl,
    (documents_noninterfering p [draft] [renamed] ⟨"", "p"⟩).2 rfl⟩

end Project

end CodeAtlas
