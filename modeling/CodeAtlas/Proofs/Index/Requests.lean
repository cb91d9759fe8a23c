import CodeAtlas.Data.Access
import CodeAtlas.Proofs.Index.Names

/-!
# Any run of requests to a skeleton

A skeleton is built by requests of ten kinds, in any order and with any arguments. What every order
keeps (`Skeleton.Kept`) follows from one equation (`Skeleton.handle_eq`).
-/

namespace CodeAtlas.Index

open List Option Table Keyed

variable {s : Skeleton} {α : Type} {i : Nat} {x : HintReading} {l : Int}

/-! ### Requests and answers -/

/-- What a skeleton can be asked to do. -/
inductive Request where
  | name (name : String)
  | file (path : String)
  | location
  | module (name path : String) (parent : Int)
  | «class» (name : String) (bases : List String) (path : String)
  | function (name : String) (parent : Int) (path : String)
  | «import» (name path : String)
  | hints (location : Int) (params : List (String × String)) (returns : Option String)
  | decorators (location : Int) (names : List String)
  | «attribute» (name : String) (parent : Int) (hint : Option String)
deriving DecidableEq, Repr

variable {r : Request}

/-- What a request is answered with: the number of a name or of a file, a location, or nothing. -/
inductive Answer where
  | number (i : Nat)
  | location (l : Nat)
  | done
deriving DecidableEq, Repr

variable {a b : Answer}

def Answer.location? : Answer → Option Nat
  | .location l => some l
  | .number _ | .done => none

namespace Request

/-- The names that a request brings, in the order in which they are numbered. -/
@[simp] def names : Request → List String
  | .name x => [x]
  | .file _ | .location => []
  | .module x _ _ | .function x _ _ | .import x _ => [x]
  | .class x bases _ => x :: bases
  | .hints _ params returns => Table.pairTexts params ++ (Outline.present? returns).toList
  | .decorators _ xs => xs
  | .attribute x _ hint => x :: (Outline.present? hint).toList

@[simp] def path? : Request → Option String
  | .file path | .module _ path _ | .class _ _ path | .function _ _ path | .import _ path =>
  some path
  | .name _ | .location | .hints .. | .decorators .. | .attribute .. => none

def hintsAt? (l : Int) : Request → Option HintReading
  | .hints k params returns => if k = l then some ⟨params, Outline.present? returns⟩ else none
  | _ => none

/-- The decorators that a request sets at a location: an empty list sets none. -/
def decoratorsAt? (l : Int) : Request → Option (List String)
  | .decorators k xs => if k = l then decoratorReading xs else none
  | _ => none

end Request

/-- Requests with their answers, in the order in which they were made. -/
abbrev Log := List (Request × Answer)

def Log.last? {α : Type} (set? : Request → Option α) (log : Log) : Option α :=
  log.reverse.findSome? fun e => set? e.1

lemma Log.last?_concat (set? : Request → Option α) (log : Log) :
    Log.last? set? (log ++ [(r, a)]) = (set? r).or (log.last? set?) := by
  unfold Log.last?
  rw [reverse_append]
  rcases h : set? r with _ | x <;> simp [h]

namespace Skeleton

/-- Does what it is asked to, and answers. -/
def handle (s : Skeleton) : Request → Skeleton × Answer
  | .name x => ((s.addName x).1, .number (s.addName x).2)
  | .file path => ((s.addFile path).1, .number (s.addFile path).2)
  | .location => (s.takeLocation.1, .location s.takeLocation.2)
  | .module name path parent =>
    ((s.addModule name path parent).1, .location (s.addModule name path parent).2)
  | .class name bases path =>
    ((s.addClass name bases path).1, .location (s.addClass name bases path).2)
  | .function name parent path =>
    ((s.addFunction name parent path).1, .location (s.addFunction name parent path).2)
  | .import name path => ((s.addImport name path).1, .location (s.addImport name path).2)
  | .hints location params returns => (s.addHints location params returns, .done)
  | .decorators location names => (s.addDecorators location names, .done)
  | .attribute name parent hint => (s.addAttribute name parent hint, .done)

/-- Does what it is asked to, request by request, and keeps a log. -/
def handleAll (s : Skeleton) : List Request → Skeleton × Log
  | [] => (s, [])
  | r :: rs =>
    (((s.handle r).1.handleAll rs).1, (r, (s.handle r).2) :: ((s.handle r).1.handleAll rs).2)

/-! ### What a skeleton stores -/

/-- The numbers of names in a skeleton: in its rows, with the bases of classes, and in its type
hints and decorators. -/
def nameNumbers (s : Skeleton) : List Nat :=
  s.references ++ s.attributes.flatMap fun e => e.name :: e.hint.toList

def fileNumbers (s : Skeleton) : List Nat :=
  s.modules.map (·.file) ++ s.classes.map (·.file) ++ s.functions.map (·.file) ++
    s.imports.map (·.file)

/-- Type hints with their texts, if they can be read. -/
def recallHints (s : Skeleton) (h : Hints) : Option HintReading := do
  let params ← s.names.getPairs? h.params
  let returns ← s.names.getOption? h.returns
  return ⟨params, returns⟩

/-- An answer holds in a skeleton: a number denotes the name or the file that was asked about, a
location stands in a row that reads as what was asked for, and an attribute has its row. -/
def Honours (s : Skeleton) : Request → Answer → Prop
  | .name x, a => ∃ i, a = .number i ∧ s.names.get? i = some x
  | .file path, a => ∃ i, a = .number i ∧ s.files.get? i = some (fileName path)
  | .location, a => ∃ l, a = .location l
  | .module name path parent, a =>
    ∃ e ∈ s.modules, a = .location e.location ∧ e.parent = parent ∧
      s.names.get? e.name = some name ∧ s.files.get? e.file = some (fileName path)
  | .class name bases path, a =>
    ∃ e ∈ s.classes, a = .location e.location ∧ s.names.get? e.name = some name ∧
      s.names.getAll? e.bases = some bases ∧ s.files.get? e.file = some (fileName path)
  | .function name parent path, a =>
    ∃ e ∈ s.functions, a = .location e.location ∧ e.parent = parent ∧
      s.names.get? e.name = some name ∧ s.files.get? e.file = some (fileName path)
  | .import name path, a =>
    ∃ e ∈ s.imports, a = .location e.location ∧
      s.names.get? e.name = some name ∧ s.files.get? e.file = some (fileName path)
  | .attribute name parent hint, a =>
    a = .done ∧ ∃ e ∈ s.attributes, e.parent = parent ∧
      s.names.get? e.name = some name ∧ s.names.getOption? e.hint = some (Outline.present? hint)
  | .hints .., a | .decorators .., a => a = .done

/-- What holds of a skeleton whose requests have been answered as the log says. -/
structure Kept (s : Skeleton) (log : Log) : Prop where
  names : s.names.Numbers
  files : s.files.Numbers
  name_lt : ∀ i ∈ s.nameNumbers, i < s.names.size
  file_lt : ∀ i ∈ s.fileNumbers, i < s.files.size
  honours : ∀ e ∈ log, s.Honours e.1 e.2
  /-- Type hints are those of the last request for the location. -/
  hints : ∀ l, (s.hints.get? l).map s.recallHints = (log.last? (·.hintsAt? l)).map some
  decorators : ∀ l, (s.decorators.get? l).map s.names.getAll? =
    (log.last? (·.decoratorsAt? l)).map some
  /-- Locations have been given out as 0, 1, 2, ... -/
  locations : log.filterMap (·.2.location?) = range s.nextLocation

/-! ### What one request does -/

end Skeleton

namespace Request

open Skeleton (fileName)

@[simp] def locates : Request → Bool
  | .location | .module .. | .class .. | .function .. | .import .. => true
  | .name _ | .file _ | .hints .. | .decorators .. | .attribute .. => false

@[simp] def moduleRows : Request → Skeleton → List ModuleEntry
  | .module x path parent, s =>
    [⟨(s.names.add x).2, (s.files.add (fileName path)).2, parent, s.nextLocation⟩]
  | _, _ => []

@[simp] def classRows : Request → Skeleton → List ClassEntry
  | .class x bases path, s =>
    [⟨(s.names.add x).2, ((s.names.add x).1.addAll bases).2, (s.files.add (fileName path)).2,
      s.nextLocation⟩]
  | _, _ => []

@[simp] def functionRows : Request → Skeleton → List FunctionEntry
  | .function x parent path, s =>
    [⟨(s.names.add x).2, parent, (s.files.add (fileName path)).2, s.nextLocation⟩]
  | _, _ => []

@[simp] def importRows : Request → Skeleton → List ImportEntry
  | .import x path, s => [⟨(s.names.add x).2, (s.files.add (fileName path)).2, s.nextLocation⟩]
  | _, _ => []

@[simp] def attributeRows : Request → Skeleton → List AttributeEntry
  | .attribute x parent hint, s =>
    [⟨(s.names.add x).2, parent, ((s.names.add x).1.add? (Outline.present? hint)).2⟩]
  | _, _ => []

@[simp] def hintEntry : Request → Skeleton → Option (Int × Hints)
  | .hints l params returns, s =>
    some (l, ⟨(s.names.addPairs params).2,
      ((s.names.addPairs params).1.add? (Outline.present? returns)).2⟩)
  | _, _ => none

@[simp] def decoratorEntry : Request → Skeleton → Option (Int × List Nat)
  | .decorators l xs, s => if xs = [] then none else some (l, (s.names.addAll xs).2)
  | _, _ => none

def references (r : Request) (s : Skeleton) : List Nat :=
  (r.moduleRows s).map (·.name) ++ (r.classRows s).flatMap (fun e => e.name :: e.bases)
    ++ (r.functionRows s).map (·.name) ++ (r.importRows s).map (·.name)
    ++ (r.attributeRows s).flatMap (fun e => e.name :: e.hint.toList)
    ++ ((r.decoratorEntry s).map (·.2)).getD [] ++ ((r.hintEntry s).map (·.2.references)).getD []

def fileReferences (r : Request) (s : Skeleton) : List Nat :=
  (r.moduleRows s).map (·.file) ++ (r.classRows s).map (·.file) ++ (r.functionRows s).map (·.file)
    ++ (r.importRows s).map (·.file)

/-- What a request stores are numbers of names that it brings. -/
lemma mem_addAll_of_references (h : i ∈ r.references s) : i ∈ (s.names.addAll r.names).2 := by
  unfold references at h
  cases r with
  | hints l params returns =>
    rw [names, addAll_append_snd, ← addPairs_snd, ← addPairs_fst, ← add?_snd]
    simpa [Hints.references] using h
  | decorators l xs =>
    rcases xs with _ | ⟨x, xs⟩
    · simp at h
    · simpa using h
  | «attribute» x parent hint => simpa [Table.addAll, add?_snd] using h
  | module | «class» | function | «import» => simpa [Table.addAll] using h
  | name | file | location => simp at h

lemma mem_addAll_of_fileReferences (h : i ∈ r.fileReferences s) :
    i ∈ (s.files.addAll (r.path?.toList.map fileName)).2 := by
  unfold fileReferences at h
  cases r with
  | module | «class» | function | «import» => simpa [Table.addAll] using h
  | name | file | location | hints | decorators | «attribute» => simp at h

end Request

namespace Skeleton

/-- All that a request does to a skeleton. -/
lemma handle_eq : (s.handle r).1 =
      { names := (s.names.addAll r.names).1
        files := (s.files.addAll (r.path?.toList.map fileName)).1
        nextLocation := s.nextLocation + r.locates.toNat
        modules := s.modules ++ r.moduleRows s
        classes := s.classes ++ r.classRows s
        functions := s.functions ++ r.functionRows s
        imports := s.imports ++ r.importRows s
        attributes := s.attributes ++ r.attributeRows s
        hints := (r.hintEntry s).elim s.hints fun e => s.hints.put e.1 e.2
        decorators := (r.decoratorEntry s).elim s.decorators fun e =>
          s.decorators.put e.1 e.2 } := by
  cases r with
  | hints l params returns =>
    simp [handle, addHints_eq, addPairs_fst, add?_fst, addAll_append_fst, Table.addAll]
  | decorators l xs =>
    by_cases hxs : xs = []
    · simp [handle, addDecorators_eq, Table.addAll, hxs]
    · simp [handle, addDecorators_eq, Table.addAll, hxs]
  | «attribute» x parent hint =>
    simp [handle, addAttribute, addName, addName?_eq, add?_fst, Table.addAll]
  | name | file | location | module | «class» | function | «import» =>
    simp [handle, addName, addNames, addFile, takeLocation, addModule, addClass, addFunction,
      addImport, Table.addAll]

section sections

variable (s : Skeleton) (r : Request)

lemma names_handle : (s.handle r).1.names = (s.names.addAll r.names).1 := by rw [handle_eq]

lemma files_handle : (s.handle r).1.files = (s.files.addAll (r.path?.toList.map fileName)).1 := by
  rw [handle_eq]

lemma attributes_handle : (s.handle r).1.attributes = s.attributes ++ r.attributeRows s := by
  rw [handle_eq]

lemma hints_handle : (s.handle r).1.hints =
    (r.hintEntry s).elim s.hints fun e => s.hints.put e.1 e.2 := by rw [handle_eq]

lemma decorators_handle : (s.handle r).1.decorators =
    (r.decoratorEntry s).elim s.decorators fun e => s.decorators.put e.1 e.2 := by rw [handle_eq]

lemma location?_handle : range (s.handle r).1.nextLocation =
      range s.nextLocation ++ (s.handle r).2.location?.toList := by
  rw [handle_eq]
  cases r with
  | location | module | «class» | function | «import» => exact range_succ
  | name | file | hints | decorators | «attribute» => exact (append_nil _).symm

end sections

/-! ### What a request leaves -/

/-- What stood in a skeleton stays. -/
structure Keeps (s s' : Skeleton) : Prop where
  names : s.names.Grows s'.names
  files : s.files.Grows s'.files
  modules : s.modules ⊆ s'.modules
  classes : s.classes ⊆ s'.classes
  functions : s.functions ⊆ s'.functions
  imports : s.imports ⊆ s'.imports
  attributes : s.attributes ⊆ s'.attributes

variable {s s' : Skeleton} {log : Log}

lemma keeps_handle : s.Keeps (s.handle r).1 := by
  rw [handle_eq]
  constructor
  · exact grows_addAll
  · exact grows_addAll
  all_goals exact subset_append_left _ _

lemma Keeps.honours (h : s.Keeps s') (hr : s.Honours r a) : s'.Honours r a := by
  cases r with
  | name x =>
    obtain ⟨i, ha, hi⟩ := hr
    exact ⟨i, ha, h.names.old.get? hi⟩
  | file path =>
    obtain ⟨i, ha, hi⟩ := hr
    exact ⟨i, ha, h.files.old.get? hi⟩
  | location => exact hr
  | module x path parent =>
    obtain ⟨e, he, ha, hparent, hname, hfile⟩ := hr
    exact ⟨e, h.modules he, ha, hparent, h.names.old.get? hname, h.files.old.get? hfile⟩
  | «class» x bases path =>
    obtain ⟨e, he, ha, hname, hbases, hfile⟩ := hr
    exact ⟨e, h.classes he, ha, h.names.old.get? hname, h.names.old.getAll? hbases,
      h.files.old.get? hfile⟩
  | function x parent path =>
    obtain ⟨e, he, ha, hparent, hname, hfile⟩ := hr
    exact ⟨e, h.functions he, ha, hparent, h.names.old.get? hname, h.files.old.get? hfile⟩
  | «import» x path =>
    obtain ⟨e, he, ha, hname, hfile⟩ := hr
    exact ⟨e, h.imports he, ha, h.names.old.get? hname, h.files.old.get? hfile⟩
  | «attribute» x parent hint =>
    obtain ⟨ha, e, he, hparent, hname, hhint⟩ := hr
    exact ⟨ha, e, h.attributes he, hparent, h.names.old.get? hname, h.names.old.getOption? hhint⟩
  | hints | decorators => exact hr

lemma honours_handle : (s.handle r).1.Honours r (s.handle r).2 := by
  cases r with
  | name x => exact ⟨_, rfl, get?_add _ _⟩
  | file path => exact ⟨_, rfl, get?_add _ _⟩
  | location => exact ⟨_, rfl⟩
  | module x path parent =>
    exact ⟨_, mem_append_right _ mem_cons_self, rfl, rfl, get?_add _ _, get?_add _ _⟩
  | «class» x bases path =>
    have hname := (extends_addAll bases (s.names.add x).1).get? (get?_add s.names x)
    exact ⟨_, mem_append_right _ mem_cons_self, rfl, hname, getAll?_addAll _ _,
      get?_add _ _⟩
  | function x parent path =>
    exact ⟨_, mem_append_right _ mem_cons_self, rfl, rfl, get?_add _ _, get?_add _ _⟩
  | «import» x path =>
    exact ⟨_, mem_append_right _ mem_cons_self, rfl, get?_add _ _, get?_add _ _⟩
  | hints | decorators => rfl
  | «attribute» x parent hint =>
    have hname := (extends_add? (s.names.add x).1 (Outline.present? hint)).get?
      (get?_add s.names x)
    have hrow : (s.handle (.attribute x parent hint)).1.attributes = s.attributes ++ _ :=
      attributes_handle s _
    refine ⟨rfl, _, by rw [hrow]; exact mem_append_right _ mem_cons_self, rfl, ?_, ?_⟩
    · rw [names_handle]
      simpa [Table.addAll, ← add?_fst] using hname
    · rw [names_handle]
      simpa [Table.addAll, ← add?_fst] using getOption?_add? (s.names.add x).1 _

lemma mem_flatMap_elim_put (k : Keyed Int α) (entry : Option (Int × α)) (refs : α → List Nat)
    (h : i ∈ (entry.elim k fun e => k.put e.1 e.2).flatMap fun e => refs e.2) :
    i ∈ k.flatMap (fun e => refs e.2) ∨ i ∈ (entry.map fun e => refs e.2).getD [] := by
  rcases entry with _ | ⟨l, a⟩
  · exact .inl h
  · obtain ⟨e, he, hi⟩ := mem_flatMap.mp h
    rcases mem_of_mem_put he with rfl | he
    · exact .inr hi
    · exact .inl (mem_flatMap.mpr ⟨e, he, hi⟩)

lemma mem_nameNumbers_handle (hi : i ∈ (s.handle r).1.nameNumbers) :
    i ∈ s.nameNumbers ∨ i ∈ r.references s := by
  have hdecorators := mem_flatMap_elim_put (i := i) s.decorators (r.decoratorEntry s) fun is => is
  have hhints := mem_flatMap_elim_put (i := i) s.hints (r.hintEntry s) Hints.references
  simp only [nameNumbers, Skeleton.references, Request.references, handle_eq, map_append,
    flatMap_append, mem_append] at hi ⊢
  grind only

lemma mem_fileNumbers_handle (hi : i ∈ (s.handle r).1.fileNumbers) :
    i ∈ s.fileNumbers ∨ i ∈ r.fileReferences s := by
  simp only [fileNumbers, Request.fileReferences, handle_eq, map_append, mem_append] at hi ⊢
  tauto

/-! ### Type hints and decorators: the last request counts -/

lemma map_eq_of_reads {β : Type} {f g : α → Option β} {o : Option α} {x : Option β}
    (hfg : ∀ {a b}, f a = some b → g a = some b) (h : o.map f = x.map some) :
    o.map g = x.map some := by
  rcases o with _ | a <;> rcases x with _ | b
  · rfl
  · simp at h
  · simp at h
  · simp only [Option.map_some, Option.some.injEq] at h ⊢
    exact hfg h

lemma Keeps.recallHints (h : s.Keeps s') {e : Hints} (hx : s.recallHints e = some x) :
    s'.recallHints e = some x := by
  simp only [Skeleton.recallHints, Option.bind_eq_bind, Option.bind_eq_some_iff, Option.pure_def,
    Option.some.injEq] at hx ⊢
  obtain ⟨params, hparams, returns, hreturns, rfl⟩ := hx
  exact ⟨params, h.names.old.getPairs? hparams, returns, h.names.old.getOption? hreturns, rfl⟩

lemma recallHints_handle (hr : r.hintsAt? l = some x) :
    ((s.handle r).1.hints.get? l).map (s.handle r).1.recallHints = some (some x) := by
  cases r with
  | hints k params returns =>
    obtain ⟨rfl, rfl⟩ : k = l ∧ ⟨params, Outline.present? returns⟩ = x := by
      simpa [Request.hintsAt?] using hr
    have hparams := (extends_add? _ (Outline.present? returns)).getPairs?
      (getPairs?_addPairs params s.names)
    simp [handle, addHints_eq, get?_put, Skeleton.recallHints, hparams, getOption?_add?]
  | name | file | location | module | «class» | function | «import» | decorators | «attribute» =>
    simp [Request.hintsAt?] at hr

lemma get?_hints_handle (hr : r.hintsAt? l = none) :
    (s.handle r).1.hints.get? l = s.hints.get? l := by
  rw [hints_handle]
  cases r with
  | hints k params returns =>
    have hkl : k ≠ l := by simpa [Request.hintsAt?] using hr
    rw [Request.hintEntry, elim_some, get?_put, if_neg (Ne.symm hkl)]
  | name | file | location | module | «class» | function | «import» | decorators | «attribute» =>
      rfl

lemma getAll?_decorators_handle {xs : List String} (hr : r.decoratorsAt? l = some xs) :
    ((s.handle r).1.decorators.get? l).map (s.handle r).1.names.getAll? = some (some xs) := by
  cases r with
  | decorators k ys =>
    obtain ⟨rfl, hys, rfl⟩ : k = l ∧ ys ≠ [] ∧ ys = xs := by
      simpa [Request.decoratorsAt?, decoratorReading] using hr
    simp [handle, addDecorators_eq, get?_put, hys, getAll?_addAll]
  | name | file | location | module | «class» | function | «import» | hints | «attribute» =>
    simp [Request.decoratorsAt?] at hr

lemma get?_decorators_handle (hr : r.decoratorsAt? l = none) :
    (s.handle r).1.decorators.get? l = s.decorators.get? l := by
  rw [decorators_handle]
  cases r with
  | decorators k ys =>
    by_cases hys : ys = []
    · simp [hys]
    · have hkl : k ≠ l := by
        rintro rfl
        simp [Request.decoratorsAt?, decoratorReading, hys] at hr
      simp [hys, get?_put, Ne.symm hkl]
  | name | file | location | module | «class» | function | «import» | hints | «attribute» => rfl

/-! ### Steps and runs -/

/-- One request keeps it all. -/
lemma Kept.handle (h : s.Kept log) (r : Request) :
    (s.handle r).1.Kept (log ++ [(r, (s.handle r).2)]) where
  names := numbers_of_nodup (keeps_handle.names.nodup h.names.nodup)
  files := numbers_of_nodup (keeps_handle.files.nodup h.files.nodup)
  name_lt i hi := by
    rcases mem_nameNumbers_handle hi with hi | hi
    · exact Nat.lt_of_lt_of_le (h.name_lt i hi) keeps_handle.names.size_le
    · rw [names_handle]
      exact addAll_lt i (Request.mem_addAll_of_references hi)
  file_lt i hi := by
    rcases mem_fileNumbers_handle hi with hi | hi
    · exact Nat.lt_of_lt_of_le (h.file_lt i hi) keeps_handle.files.size_le
    · rw [files_handle]
      exact addAll_lt i (Request.mem_addAll_of_fileReferences hi)
  honours e he := by
    rcases mem_append.mp he with he | he
    · exact keeps_handle.honours (h.honours e he)
    · obtain rfl := mem_singleton.mp he
      exact honours_handle
  hints l := by
    rw [Log.last?_concat]
    rcases hr : r.hintsAt? l with _ | x
    · rw [get?_hints_handle hr, none_or]
      exact map_eq_of_reads keeps_handle.recallHints (h.hints l)
    · rw [recallHints_handle hr]
      rfl
  decorators l := by
    rw [Log.last?_concat]
    rcases hr : r.decoratorsAt? l with _ | xs
    · rw [get?_decorators_handle hr, none_or]
      exact map_eq_of_reads keeps_handle.names.old.getAll? (h.decorators l)
    · rw [getAll?_decorators_handle hr]
      rfl
  locations := by
    rw [location?_handle, filterMap_append, h.locations]
    rcases (s.handle r).2 with i | l | _ <;> rfl

lemma kept_empty : ({} : Skeleton).Kept [] where
  names := numbers_of_nodup nodup_nil
  files := numbers_of_nodup nodup_nil
  name_lt i hi := by simp [nameNumbers, Skeleton.references] at hi
  file_lt i hi := by simp [fileNumbers] at hi
  honours e he := by simp at he
  hints l := rfl
  decorators l := rfl
  locations := rfl

/-- A run of requests keeps it all. -/
lemma Kept.handleAll (h : s.Kept log) (rs : List Request) :
    (s.handleAll rs).1.Kept (log ++ (s.handleAll rs).2) := by
  induction rs generalizing s log with
  | nil => simpa [Skeleton.handleAll] using h
  | cons r rs ih =>
    have hrest := ih (h.handle r)
    rwa [append_assoc] at hrest

lemma map_fst_handleAll (s : Skeleton) (rs : List Request) :
    (s.handleAll rs).2.map Prod.fst = rs := by
  induction rs generalizing s with
  | nil => rfl
  | cons r rs ih => exact congrArg (r :: ·) (ih (s.handle r).1)

lemma Kept.number_name (h : s.Kept log) {x y : String} (hx : (.name x, a) ∈ log)
    (hy : (.name y, b) ∈ log) : a = b ↔ x = y := by
  obtain ⟨i, ha, hi⟩ : ∃ i, a = .number i ∧ _ := h.honours _ hx
  obtain ⟨j, hb, hj⟩ : ∃ j, b = .number j ∧ _ := h.honours _ hy
  rw [ha, hb, Answer.number.injEq]
  exact h.names.eq_iff hi hj

lemma Kept.number_file (h : s.Kept log) {p q : String} (hp : (.file p, a) ∈ log)
    (hq : (.file q, b) ∈ log) : a = b ↔ fileName p = fileName q := by
  obtain ⟨i, ha, hi⟩ : ∃ i, a = .number i ∧ _ := h.honours _ hp
  obtain ⟨j, hb, hj⟩ : ∃ j, b = .number j ∧ _ := h.honours _ hq
  rw [ha, hb, Answer.number.injEq]
  exact h.files.eq_iff hi hj

lemma Kept.attributes_document (h : s.Kept log) (header : Header) :
    ∃ rows, (s.document header).field "attributes" = .ok (.list rows) ∧
      ∀ v ∈ rows, ∃ name parent type : Int, v = row [name, parent, type] ∧
        (0 ≤ name ∧ name < s.names.size) ∧ (type = -1 ∨ 0 ≤ type ∧ type < s.names.size) := by
  refine ⟨_, rfl, ?_⟩
  intro v hv
  obtain ⟨e, he, rfl⟩ := mem_map.mp hv
  have hlt : ∀ i ∈ e.name :: e.hint.toList, i < s.names.size := by
    intro i hi
    exact h.name_lt i (mem_append_right _ (mem_flatMap.mpr ⟨e, he, hi⟩))
  have hname := hlt e.name mem_cons_self
  refine ⟨_, _, _, rfl, ⟨by omega, by omega⟩, ?_⟩
  rcases hhint : e.hint with _ | t
  · exact .inl rfl
  · have ht := hlt t (by simp [hhint])
    right
    simp only [map_some, getD_some, Int.ofNat_eq_natCast]
    omega

/-- In every state that requests lead to, whatever they are: names and files are numbered without
repetition, all numbers that are stored have their texts, in the written rows of attributes too, and
the answers so far hold. Locations have been given out in order, and the same name, or the same path
however it is spelled, has always been answered with the same number. -/
theorem requests_keep_tables (rs : List Request) (header : Header) :
    let s := (({} : Skeleton).handleAll rs).1
    let log := (({} : Skeleton).handleAll rs).2
    log.map Prod.fst = rs ∧ s.Kept log ∧
      (∃ rows, (s.document header).field "attributes" = .ok (.list rows) ∧
        ∀ v ∈ rows, ∃ name parent type : Int, v = row [name, parent, type] ∧
          (0 ≤ name ∧ name < s.names.size) ∧ (type = -1 ∨ 0 ≤ type ∧ type < s.names.size)) ∧
      (∀ x y a b, (.name x, a) ∈ log → (.name y, b) ∈ log → (a = b ↔ x = y)) ∧
      ∀ p q a b, (.file p, a) ∈ log → (.file q, b) ∈ log → (a = b ↔ fileName p = fileName q) := by
  intro s log
  have hkept : s.Kept log := kept_empty.handleAll rs
  refine ⟨map_fst_handleAll _ rs, hkept, hkept.attributes_document header, ?_, ?_⟩
  · intro x y a b hx hy
    exact hkept.number_name hx hy
  · intro p q a b hp hq
    exact hkept.number_file hp hq

end Skeleton

end CodeAtlas.Index
