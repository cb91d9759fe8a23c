import CodeAtlas.Index.Atlas
import CodeAtlas.Proofs.Table

/-!
# Recording in a skeleton

What one entity does to a skeleton is said once, for all sections (`Skeleton.record_eq`).
-/

namespace CodeAtlas.Index

open List Option Table

variable {path : String} {parent : Int} {f : Outline.Function}

/-! ### Entities -/

/-- What gets a location. A function comes with the number of its class, or with -1. -/
inductive Entity where
  | module (f : Outline.File)
  | «class» (c : Outline.Class)
  | function (parent : Int) (f : Outline.Function)
  | «import» (i : Outline.Import)

/-- An entity and the path of its file. -/
structure Listed where
  path : String
  entity : Entity

def Skeleton.record (s : Skeleton) : Listed → Skeleton
  | ⟨path, .module f⟩ => (s.addModule f.moduleName path).1
  | ⟨path, .class c⟩ =>
    (s.addClass c.name c.bases path).1.addDecorators s.nextLocation c.decorators
  | ⟨path, .function parent f⟩ =>
    let named := (s.addFunction f.name parent path).1.addDecorators s.nextLocation f.decorators
    if f.parameters.isEmpty && !Outline.present f.returns then named
    else named.addHints s.nextLocation (Atlas.hintedParameters f) f.returns
  | ⟨path, .import i⟩ => (s.addImport i.module path).1

namespace Skeleton

variable (s : Skeleton) {name : String}

@[simp] lemma addModule_snd : (s.addModule name path parent).2 = s.nextLocation := rfl

@[simp] lemma addClass_snd (bases : List String) :
    (s.addClass name bases path).2 = s.nextLocation := rfl

@[simp] lemma addFunction_snd : (s.addFunction name parent path).2 = s.nextLocation := rfl

/-! ### Names, decorators and hints -/

lemma addPairs_eq : (ps : List (String × String)) → ∀ s : Skeleton,
    s.addPairs ps = ({ s with names := (s.names.addPairs ps).1 }, (s.names.addPairs ps).2)
  | [], _ => rfl
  | (p, t) :: rest, s => by
    simp only [addPairs, addPairs_eq rest]
    rfl

lemma addName?_eq (name : Option String) : s.addName? name =
      ({ s with names := (s.names.add? (Outline.present? name)).1 },
        (s.names.add? (Outline.present? name)).2) := by
  unfold addName? Outline.present?
  rcases h : name.filter (!·.isEmpty) with _ | n <;> simp only [h] <;> rfl

lemma addDecorators_eq (l : Int) (ds : List String) : s.addDecorators l ds =
      { s with
        names := (s.names.addAll ds).1
        decorators := if ds = [] then s.decorators
          else s.decorators.put l (s.names.addAll ds).2 } := by
  unfold addDecorators
  rcases ds with _ | ⟨d, ds⟩ <;> rfl

lemma addHints_eq (l : Int) (ps : List (String × String)) (r : Option String) :
    s.addHints l ps r =
      { s with
        names := ((s.names.addPairs ps).1.add? (Outline.present? r)).1
        hints := s.hints.put l
          ⟨(s.names.addPairs ps).2, ((s.names.addPairs ps).1.add? (Outline.present? r)).2⟩ } := by
  simp only [addHints, addPairs_eq, addName?_eq]

end Skeleton

/-- Type hints with their texts: the parameters with their types, and the result type. -/
structure HintReading where
  params : List (String × String)
  returns : Option String
deriving DecidableEq, Repr

def typedParameters (f : Outline.Function) : List (String × String) :=
  (f.parameters.filter fun p => Outline.present p.hint).map fun p => (p.name, p.hint.getD "")

/-- The type hints of a function, if it has a parameter or a result type. -/
def hintReading (f : Outline.Function) : Option HintReading :=
  if f.parameters ≠ [] ∨ Outline.present f.returns then
    some ⟨typedParameters f, Outline.present? f.returns⟩
  else none

lemma hintedParameters_eq : Atlas.hintedParameters f = typedParameters f := by
  unfold Atlas.hintedParameters typedParameters Outline.present? Outline.present
  induction f.parameters with
  | nil => rfl
  | cons p ps ih =>
    rcases hp : p.hint with _ | t
    · simp [hp, ih]
    · by_cases ht : t = "" <;> simp [hp, ht, ih]

namespace Listed

open Skeleton (fileName)

/-! ### What an entity brings -/

def isClass : Listed → Bool
  | ⟨_, .class _⟩ => true
  | ⟨_, .module _⟩ | ⟨_, .function ..⟩ | ⟨_, .import _⟩ => false

def decorators : Listed → List String
  | ⟨_, .class c⟩ => c.decorators
  | ⟨_, .function _ f⟩ => f.decorators
  | ⟨_, .module _⟩ | ⟨_, .import _⟩ => []

def hints? : Listed → Option HintReading
  | ⟨_, .function _ f⟩ => hintReading f
  | ⟨_, .module _⟩ | ⟨_, .class _⟩ | ⟨_, .import _⟩ => none

def rowNames : Listed → List String
  | ⟨_, .module f⟩ => [f.moduleName]
  | ⟨_, .class c⟩ => c.name :: c.bases
  | ⟨_, .function _ f⟩ => [f.name]
  | ⟨_, .import i⟩ => [i.module]

def hintNames (x : Listed) : List String :=
  (x.hints?.map fun h => Table.pairTexts h.params ++ h.returns.toList).getD []

/-- The names of an entity, in the order in which they are numbered. -/
def names (x : Listed) : List String := x.rowNames ++ x.decorators ++ x.hintNames

/-! ### What a skeleton makes of it -/

def moduleRows : Listed → Skeleton → List ModuleEntry
  | ⟨path, .module f⟩, s =>
    [⟨(s.names.add f.moduleName).2, (s.files.add (fileName path)).2, -1, s.nextLocation⟩]
  | ⟨_, .class _⟩, _ | ⟨_, .function ..⟩, _ | ⟨_, .import _⟩, _ => []

def classRows : Listed → Skeleton → List ClassEntry
  | ⟨path, .class c⟩, s =>
    [⟨(s.names.add c.name).2, ((s.names.add c.name).1.addAll c.bases).2,
      (s.files.add (fileName path)).2, s.nextLocation⟩]
  | ⟨_, .module _⟩, _ | ⟨_, .function ..⟩, _ | ⟨_, .import _⟩, _ => []

def functionRows : Listed → Skeleton → List FunctionEntry
  | ⟨path, .function parent f⟩, s =>
    [⟨(s.names.add f.name).2, parent, (s.files.add (fileName path)).2, s.nextLocation⟩]
  | ⟨_, .module _⟩, _ | ⟨_, .class _⟩, _ | ⟨_, .import _⟩, _ => []

def importRows : Listed → Skeleton → List ImportEntry
  | ⟨path, .import i⟩, s =>
    [⟨(s.names.add i.module).2, (s.files.add (fileName path)).2, s.nextLocation⟩]
  | ⟨_, .module _⟩, _ | ⟨_, .class _⟩, _ | ⟨_, .function ..⟩, _ => []

/-- The numbers of the decorators of an entity, if it has any. -/
def decoratorEntry (x : Listed) (s : Skeleton) : Option (List Nat) :=
  if x.decorators = [] then none else some ((s.names.addAll x.rowNames).1.addAll x.decorators).2

/-- The numbers of the type hints of an entity, if they are recorded. -/
def hintEntry (x : Listed) (s : Skeleton) : Option Hints :=
  let t := (s.names.addAll (x.rowNames ++ x.decorators)).1
  x.hints?.map fun h => ⟨(t.addPairs h.params).2, ((t.addPairs h.params).1.add? h.returns).2⟩

end Listed

namespace Skeleton

variable {s : Skeleton}

/-! ### Recording -/

lemma record_function : s.record ⟨path, .function parent f⟩ =
      let named := (s.addFunction f.name parent path).1.addDecorators s.nextLocation f.decorators
      if f.parameters ≠ [] ∨ Outline.present f.returns then
        named.addHints s.nextLocation (Atlas.hintedParameters f) f.returns
      else named := by
  simp only [record]
  by_cases hp : f.parameters = [] <;> by_cases hr : Outline.present f.returns <;> simp [hp, hr]

/-- A skeleton after one more entity, part by part. -/
lemma record_eq (s : Skeleton) (x : Listed) : s.record x =
      { names := (s.names.addAll x.names).1
        files := (s.files.add (fileName x.path)).1
        nextLocation := s.nextLocation + 1
        modules := s.modules ++ x.moduleRows s
        classes := s.classes ++ x.classRows s
        functions := s.functions ++ x.functionRows s
        imports := s.imports ++ x.importRows s
        attributes := s.attributes
        hints := (x.hintEntry s).elim s.hints (s.hints.put s.nextLocation ·)
        decorators := (x.decoratorEntry s).elim s.decorators
          (s.decorators.put s.nextLocation ·) } := by
  obtain ⟨path, entity⟩ := x
  cases entity <;> simp only [Listed.names, Listed.rowNames, Listed.decorators, Listed.hintNames,
    Listed.hints?,
    Listed.moduleRows, Listed.classRows, Listed.functionRows, Listed.importRows, Listed.hintEntry,
    Listed.decoratorEntry]
  case module | «import» =>
    simp [record, addModule, addImport, addName, addFile, takeLocation, Table.addAll]
  case «class» c =>
    simp only [record, addDecorators_eq, addClass, addName, addNames, addFile, takeLocation,
      Table.addAll, addAll_append_fst, cons_append, map_none, getD_none, append_nil, elim_none]
    by_cases hd : c.decorators = [] <;> simp [hd]
  case function parent f =>
    rw [record_function]
    simp only [addDecorators_eq, addFunction, addName, addFile, takeLocation, Table.addAll,
      addAll_append_fst,
      cons_append, nil_append, append_nil, addHints_eq, hintReading, hintedParameters_eq]
    by_cases hh : f.parameters ≠ [] ∨ Outline.present f.returns <;> by_cases hd :
      f.decorators = [] <;> simp [hh, hd, Table.addAll, addPairs_fst, add?_fst, addAll_append_fst]

section sections

variable (s : Skeleton) (x : Listed)

lemma names_record : (s.record x).names = (s.names.addAll x.names).1 := by rw [record_eq]

lemma files_record : (s.record x).files = (s.files.add (fileName x.path)).1 := by rw [record_eq]

@[simp] lemma nextLocation_record : (s.record x).nextLocation = s.nextLocation + 1 := by
  rw [record_eq]

lemma modules_record : (s.record x).modules = s.modules ++ x.moduleRows s := by rw [record_eq]

lemma classes_record : (s.record x).classes = s.classes ++ x.classRows s := by rw [record_eq]

lemma functions_record : (s.record x).functions = s.functions ++ x.functionRows s := by
  rw [record_eq]

lemma imports_record : (s.record x).imports = s.imports ++ x.importRows s := by rw [record_eq]

lemma hints_record : (s.record x).hints =
    (x.hintEntry s).elim s.hints (s.hints.put s.nextLocation ·) := by
  rw [record_eq]

lemma decorators_record : (s.record x).decorators =
      (x.decoratorEntry s).elim s.decorators (s.decorators.put s.nextLocation ·) := by
  rw [record_eq]

end sections

/-! ### Recording a roll -/

lemma nextLocation_foldl_record (xs : List Listed) :
    (xs.foldl record s).nextLocation = s.nextLocation + xs.length := by
  induction xs generalizing s with
  | nil => rfl
  | cons x xs ih =>
    rw [foldl_cons, ih, nextLocation_record, length_cons]
    omega

lemma length_classes_foldl_record (xs : List Listed) :
    (xs.foldl record s).classes.length = s.classes.length + xs.countP (·.isClass) := by
  induction xs generalizing s with
  | nil => rfl
  | cons x xs ih =>
    obtain ⟨path, entity⟩ := x
    rw [foldl_cons, ih, classes_record, countP_cons]
    cases entity <;> simp [Listed.classRows, Listed.isClass]
    omega

end Skeleton

end CodeAtlas.Index
