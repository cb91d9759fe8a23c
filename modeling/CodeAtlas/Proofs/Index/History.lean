import CodeAtlas.Proofs.Index.Skeleton

/-!
# The history of an atlas

Laid out flat, the loops that make an atlas are a list of events (`Atlas.ofFiles_eq_foldl`). The
location of an entity is its position in the roll, so each document is a fold of its own.
-/

namespace CodeAtlas.Index

open List Function Skeleton

variable {k : Nat}

/-! ### Rolls and events -/

/-- A step in the making of an atlas. The comments of a file are recorded after its entities, under
the location that its module got before them. -/
inductive Event where
  | arrival (x : Listed)
  | remarks (location : Nat) (path : String) (comments : List Outline.Comment)

/-- A class with number `k` and its methods. -/
def classRoll (path : String) (c : Outline.Class) (k : Nat) : List Listed :=
  ⟨path, .class c⟩ :: c.methods.map fun f => ⟨path, .function k f⟩

/-- The entities of a file whose first class gets number `k`. -/
def fileRoll (path : String) (f : Outline.File) (k : Nat) : List Listed :=
  ⟨path, .module f⟩ ::
    ((f.classes.zipIdx k).flatMap (fun ck => classRoll path ck.1 ck.2)
      ++ f.functions.map (fun g => ⟨path, .function (-1) g⟩)
      ++ f.imports.map fun i => ⟨path, .import i⟩)

/-- The entities of files, in the order in which they get locations; the first class gets number
`k`. -/
def rollFrom (k : Nat) : List (String × Outline.File) → List Listed
  | [] => []
  | (path, f) :: rest => fileRoll path f k ++ rollFrom (k + f.classes.length) rest

/-- The entities of files, in the order in which they get locations. -/
def roll (files : List (String × Outline.File)) : List Listed := rollFrom 0 files

/-- The events of files whose first entity gets location `n` and whose first class gets number
`k`. -/
def eventsFrom (n k : Nat) : List (String × Outline.File) → List Event
  | [] => []
  | (path, f) :: rest =>
    (fileRoll path f k).map .arrival ++ .remarks n path f.comments ::
      eventsFrom (n + (fileRoll path f k).length) (k + f.classes.length) rest

/-- The entity that arrives at an event. -/
def Event.arrival? : Event → Option Listed
  | .arrival x => some x
  | .remarks .. => none

lemma arrivals_eventsFrom (n k : Nat) (files : List (String × Outline.File)) :
    (eventsFrom n k files).filterMap Event.arrival? = rollFrom k files := by
  induction files generalizing n k with
  | nil => rfl
  | cons pf rest ih =>
    obtain ⟨path, f⟩ := pf
    simp only [eventsFrom, rollFrom, filterMap_append, filterMap_map,
      filterMap_cons, Event.arrival?, ih]
    congr 1
    exact filterMap_some

/-! ### Notes -/

/-- A note that is to be recorded. -/
structure NoteCall (ρ : Type) where
  kind : Ranged
  location : Int
  text : String
  path : String
  place : ρ

def Notes.record {ρ : Type} (n : Notes ρ) (c : NoteCall ρ) : Notes ρ :=
  n.add c.kind c.location c.text c.path c.place

/-- The docstring of an entity that begins at a line, if it has one. -/
def docstringCalls (kind : Ranged) (location : Nat) (path : String) (line : Int)
    (text : Option String) : List (NoteCall (Int × Int)) :=
  (Outline.present? text).toList.map fun t => ⟨kind, location, t, path, Atlas.docstringLines line t⟩

def commentCalls (kind : Ranged) (location : Nat) (path : String)
    (comments : List Outline.Comment) : List (NoteCall Int) :=
  comments.map fun c => ⟨kind, location, Text.strip c.text, path, c.line⟩

namespace Listed

def docstrings : Listed → Nat → List (NoteCall (Int × Int))
  | ⟨path, .module f⟩, l => docstringCalls .module l path 0 f.docstring
  | ⟨path, .class c⟩, l => docstringCalls .class l path c.firstLine c.docstring
  | ⟨path, .function _ f⟩, l => docstringCalls .function l path f.firstLine f.docstring
  | ⟨_, .import _⟩, _ => []

def comments : Listed → Nat → List (NoteCall Int)
  | ⟨path, .class c⟩, l => commentCalls .class l path c.comments
  | ⟨path, .function _ f⟩, l => commentCalls .function l path f.comments
  | ⟨_, .module _⟩, _ | ⟨_, .import _⟩, _ => []

end Listed

/-- The comments recorded at events, the first entity among which gets location `n`. -/
def commentsFrom (n : Nat) : List Event → List (NoteCall Int)
  | [] => []
  | .arrival x :: rest => x.comments n ++ commentsFrom (n + 1) rest
  | .remarks location path comments :: rest =>
    commentCalls .module location path comments ++ commentsFrom n rest

/-- All docstrings of a project, in the order in which they are recorded. -/
def projectDocstrings (files : List (String × Outline.File)) : List (NoteCall (Int × Int)) :=
  (roll files).zipIdx.flatMap fun xl => xl.1.docstrings xl.2

/-- All comments of a project, in the order in which they are recorded. -/
def projectComments (files : List (String × Outline.File)) : List (NoteCall Int) :=
  commentsFrom 0 (eventsFrom 0 0 files)

/-! ### Recording an entity -/

/-- Records where an entity stands, under its location. -/
def Places.record (p : Places) : Listed × Nat → Places
  | (⟨path, .module f⟩, l) => p.addRange .module l path 1 f.lineCount
  | (⟨path, .class c⟩, l) => p.addRange .class l path c.firstLine c.lastLine
  | (⟨path, .function _ f⟩, l) => p.addRange .function l path f.firstLine f.lastLine
  | (⟨path, .import i⟩, l) => p.addImport l path i.line

namespace Atlas

def record (a : Atlas) (x : Listed) : Atlas where
  skeleton := a.skeleton.record x
  places := a.places.record (x, a.skeleton.nextLocation)
  docstrings := (x.docstrings a.skeleton.nextLocation).foldl Notes.record a.docstrings
  comments := (x.comments a.skeleton.nextLocation).foldl Notes.record a.comments

def perform (a : Atlas) : Event → Atlas
  | .arrival x => a.record x
  | .remarks location path comments => a.addComments .module location path comments

variable (a : Atlas)

lemma addDocstring_eq (kind : Ranged) (l : Nat) (path : String) (line : Int)
    (text : Option String) : a.addDocstring kind l path line text =
      { a with docstrings :=
        (docstringCalls kind l path line text).foldl Notes.record a.docstrings } := by
  unfold addDocstring docstringCalls
  rcases Outline.present? text with _ | t <;> rfl

lemma addComments_eq (kind : Ranged) (l : Nat) (path : String) (comments : List Outline.Comment) :
    a.addComments kind l path comments =
      { a with comments := (commentCalls kind l path comments).foldl Notes.record a.comments } := by
  simp only [addComments, commentCalls, foldl_map]
  rfl

lemma addDecorators_eq (l : Nat) (decorators : List String) : a.addDecorators l decorators =
      { a with skeleton := a.skeleton.addDecorators l decorators } := by
  unfold addDecorators Skeleton.addDecorators
  split <;> rfl

variable (path : String) {c : Outline.Class} {cs : List Outline.Class}

lemma addFunction_eq (parent : Int) (a : Atlas) (f : Outline.Function) :
    a.addFunction path parent f = a.record ⟨path, .function parent f⟩ := by
  simp only [addFunction, addRange, addDocstring_eq, addComments_eq, addDecorators_eq, addHints,
    addFunction_snd, record, Skeleton.record, Places.record, Listed.docstrings,
    Listed.comments]
  split <;> rfl

lemma addFunctions_eq (parent : Int) (fs : List Outline.Function) (a : Atlas) :
    fs.foldl (addFunction path parent) a =
      (fs.map fun f => (⟨path, .function parent f⟩ : Listed)).foldl record a := by
  rw [foldl_map]
  congr 1
  funext b f
  exact addFunction_eq path parent b f

lemma addImports_eq (is : List Outline.Import) (a : Atlas) :
    is.foldl (addImport path) a =
      (is.map fun i => (⟨path, .import i⟩ : Listed)).foldl record a := by
  rw [foldl_map]
  rfl

@[simp] lemma skeleton_record (x : Listed) : (a.record x).skeleton = a.skeleton.record x := rfl

lemma skeleton_foldl_record (xs : List Listed) (a : Atlas) :
    (xs.foldl record a).skeleton = xs.foldl Skeleton.record a.skeleton := by
  induction xs generalizing a with
  | nil => rfl
  | cons x xs ih => exact ih (a.record x)

lemma addClass_eq (a : Atlas) :
    a.addClass path c = (classRoll path c a.skeleton.classes.length).foldl record a := by
  have hclass : (a.record ⟨path, .class c⟩).skeleton.classes.length =
      a.skeleton.classes.length + 1 := by
    simpa [Listed.isClass] using
      length_classes_foldl_record [⟨path, .class c⟩]
  have hstep : a.addClass path c =
      c.methods.foldl (addFunction path
        ((a.record ⟨path, .class c⟩).skeleton.classes.length - 1 : Int))
        (a.record ⟨path, .class c⟩) := by
    simp only [addClass, addRange, addDocstring_eq, addComments_eq, addDecorators_eq,
      addClass_snd]
    rfl
  rw [hstep, addFunctions_eq, hclass, classRoll, foldl_cons]
  simp

lemma countP_classRoll : (classRoll path c k).countP (·.isClass) = 1 := by
  simp [classRoll, countP_map, Listed.isClass, comp_def]

lemma addClasses_eq (a : Atlas) : cs.foldl (addClass path) a =
      ((cs.zipIdx a.skeleton.classes.length).flatMap fun ck => classRoll path ck.1 ck.2).foldl
        record a := by
  induction cs generalizing a with
  | nil => rfl
  | cons c cs ih =>
    have hk :
        ((classRoll path c a.skeleton.classes.length).foldl record a).skeleton.classes.length =
          a.skeleton.classes.length + 1 := by
      rw [skeleton_foldl_record, length_classes_foldl_record, countP_classRoll]
    rw [foldl_cons, ih, addClass_eq, hk, zipIdx_cons, flatMap_cons, foldl_append]

lemma addFile_eq (path : String) (f : Outline.File) : a.addFile path f =
      ((fileRoll path f a.skeleton.classes.length).foldl record a).addComments .module
        a.skeleton.nextLocation path f.comments := by
  have hmodule : (a.record ⟨path, .module f⟩).skeleton.classes.length =
      a.skeleton.classes.length := by
    simpa [Listed.isClass] using
      length_classes_foldl_record [⟨path, .module f⟩]
  have hstep : a.addFile path f =
      (f.imports.foldl (addImport path) (f.functions.foldl (addFunction path (-1))
        (f.classes.foldl (addClass path) (a.record ⟨path, .module f⟩)))).addComments .module
          a.skeleton.nextLocation path f.comments := by
    simp only [addFile, addRange, addDocstring_eq, addModule_snd]
    rfl
  rw [hstep, addImports_eq, addFunctions_eq, addClasses_eq, hmodule, fileRoll, foldl_cons,
    foldl_append, foldl_append]

lemma countP_classRolls :
    ((cs.zipIdx k).flatMap fun ck => classRoll path ck.1 ck.2).countP (·.isClass) = cs.length := by
  induction cs generalizing k with
  | nil => rfl
  | cons c cs ih =>
    rw [zipIdx_cons, flatMap_cons, countP_append, countP_classRoll, ih,
      length_cons, Nat.add_comm]

lemma countP_fileRoll (f : Outline.File) :
    (fileRoll path f k).countP (·.isClass) = f.classes.length := by
  rw [fileRoll, countP_cons, countP_append, countP_append, countP_classRolls]
  simp [countP_map, Listed.isClass, comp_def]

/-! ### The making of an atlas, laid out flat -/

variable (files : List (String × Outline.File))

lemma addFiles_eq (a : Atlas) : files.foldl (fun a (path, f) => a.addFile path f) a =
      (eventsFrom a.skeleton.nextLocation a.skeleton.classes.length files).foldl perform a := by
  induction files generalizing a with
  | nil => rfl
  | cons pf files ih =>
    obtain ⟨path, f⟩ := pf
    have hn : (a.addFile path f).skeleton.nextLocation =
        a.skeleton.nextLocation + (fileRoll path f a.skeleton.classes.length).length := by
      rw [addFile_eq]
      simp only [addComments, skeleton_foldl_record, nextLocation_foldl_record]
    have hk : (a.addFile path f).skeleton.classes.length =
        a.skeleton.classes.length + f.classes.length := by
      rw [addFile_eq]
      simp only [addComments, skeleton_foldl_record, length_classes_foldl_record,
        countP_fileRoll]
    rw [foldl_cons, ih, hn, hk, eventsFrom, foldl_append, foldl_cons, foldl_map]
    congr 1
    exact addFile_eq a path f

/-- The nested loops over files, laid out flat. -/
lemma ofFiles_eq_foldl : ofFiles files = (eventsFrom 0 0 files).foldl perform {} :=
  addFiles_eq files {}

/-! ### Four documents, four folds -/

variable (es : List Event)

lemma skeleton_foldl_perform (a : Atlas) :
    (es.foldl perform a).skeleton =
      (es.filterMap Event.arrival?).foldl Skeleton.record a.skeleton := by
  induction es generalizing a with
  | nil => rfl
  | cons e es ih => cases e <;> exact ih _

lemma places_foldl_perform (a : Atlas) : (es.foldl perform a).places =
      ((es.filterMap Event.arrival?).zipIdx a.skeleton.nextLocation).foldl Places.record
        a.places := by
  induction es generalizing a with
  | nil => rfl
  | cons e es ih =>
    cases e with
    | arrival x =>
      rw [foldl_cons, ih]
      simp only [perform, record, record_eq, Event.arrival?, filterMap_cons,
        zipIdx_cons, foldl_cons]
    | remarks => exact ih _

lemma docstrings_foldl_perform (a : Atlas) : (es.foldl perform a).docstrings =
      (((es.filterMap Event.arrival?).zipIdx a.skeleton.nextLocation).flatMap
        fun xl => xl.1.docstrings xl.2).foldl Notes.record a.docstrings := by
  induction es generalizing a with
  | nil => rfl
  | cons e es ih =>
    cases e with
    | arrival x =>
      rw [foldl_cons, ih]
      simp only [perform, record, record_eq, Event.arrival?, filterMap_cons,
        zipIdx_cons, flatMap_cons, foldl_append]
    | remarks => exact ih _

lemma comments_foldl_perform (a : Atlas) : (es.foldl perform a).comments =
      (commentsFrom a.skeleton.nextLocation es).foldl Notes.record a.comments := by
  induction es generalizing a with
  | nil => rfl
  | cons e es ih =>
    cases e with
    | arrival x =>
      rw [foldl_cons, ih]
      simp only [perform, record, record_eq, commentsFrom, foldl_append]
    | remarks location path comments =>
      rw [foldl_cons, ih]
      simp only [perform, addComments_eq, commentsFrom, foldl_append]

lemma skeleton_ofFiles : (ofFiles files).skeleton = (roll files).foldl Skeleton.record {} := by
  rw [ofFiles_eq_foldl, skeleton_foldl_perform, arrivals_eventsFrom]
  rfl

/-- The places are a fold over the roll, every entity under its position. -/
lemma places_ofFiles : (ofFiles files).places = (roll files).zipIdx.foldl Places.record {} := by
  rw [ofFiles_eq_foldl, places_foldl_perform, arrivals_eventsFrom]
  rfl

lemma docstrings_ofFiles :
    (ofFiles files).docstrings = (projectDocstrings files).foldl Notes.record {} := by
  rw [ofFiles_eq_foldl, docstrings_foldl_perform, arrivals_eventsFrom]
  rfl

lemma comments_ofFiles :
    (ofFiles files).comments = (projectComments files).foldl Notes.record {} := by
  rw [ofFiles_eq_foldl, comments_foldl_perform]
  rfl

end Atlas

end CodeAtlas.Index
