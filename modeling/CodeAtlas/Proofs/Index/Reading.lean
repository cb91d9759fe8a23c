import CodeAtlas.Proofs.Index.History
import Mathlib.Data.List.Forall2

/-!
# Reading a skeleton back

A row that could be read reads the same ever after (`Skeleton.Grows`), so a skeleton reads back as
the roll it was made from (`Skeleton.Faithful`).
-/

namespace CodeAtlas.Index

open List Table Keyed

variable {l : Nat} {β ε : Type} {what? : Listed → Option β} {x : Listed} {n : String}
  {ns : List String} {location : ε → Nat} {read : Skeleton → ε → Option β} {rows : List ε}
  {xs : List (Nat × β)}

/-! ### Readings -/

structure ClassReading where
  name : String
  bases : List String
  file : String
  decorators : Option (List String)
deriving DecidableEq, Repr

structure FunctionReading where
  name : String
  file : String
  hints : Option HintReading
  decorators : Option (List String)
deriving DecidableEq, Repr

namespace Skeleton

/-- The decorators at a location, if there are any; the outer option says whether they can be read.
-/
def readDecorators (s : Skeleton) (location : Nat) : Option (Option (List String)) :=
  match s.decorators.get? (location : Int) with
  | none => some none
  | some is => (s.names.getAll? is).map some

/-- The type hints at a location, if there are any; the outer option says whether they can be read.
-/
def readHints (s : Skeleton) (location : Nat) : Option (Option HintReading) :=
  match s.hints.get? (location : Int) with
  | none => some none
  | some h => do
    let params ← s.names.getPairs? h.params
    let returns ← s.names.getOption? h.returns
    return some ⟨params, returns⟩

def readModule (s : Skeleton) (e : ModuleEntry) : Option (String × String) := do
  let name ← s.names.get? e.name
  let file ← s.files.get? e.file
  return (name, file)

def readClass (s : Skeleton) (e : ClassEntry) : Option ClassReading := do
  let name ← s.names.get? e.name
  let bases ← s.names.getAll? e.bases
  let file ← s.files.get? e.file
  let decorators ← s.readDecorators e.location
  return ⟨name, bases, file, decorators⟩

/-- A function without its class. -/
def readFunction (s : Skeleton) (e : FunctionEntry) : Option FunctionReading := do
  let name ← s.names.get? e.name
  let file ← s.files.get? e.file
  let hints ← s.readHints e.location
  let decorators ← s.readDecorators e.location
  return ⟨name, file, hints, decorators⟩

/-- The class of a function: its number and what is read there, or none for -1. -/
def readParent (s : Skeleton) (parent : Int) : Option (Option (Nat × ClassReading)) :=
  if parent = -1 then some none
  else if parent < 0 then none
  else do
    let e ← s.classes[parent.toNat]?
    let c ← s.readClass e
    return some (parent.toNat, c)

def readMember (s : Skeleton) (e : FunctionEntry) :
    Option (Option (Nat × ClassReading) × FunctionReading) := do
  let owner ← s.readParent e.parent
  let f ← s.readFunction e
  return (owner, f)

def readImport (s : Skeleton) (e : ImportEntry) : Option (String × String) := do
  let name ← s.names.get? e.name
  let file ← s.files.get? e.file
  return (name, file)

end Skeleton

/-- The decorators of an entity as they are read: none if the list is empty. -/
def decoratorReading (decorators : List String) : Option (List String) :=
  if decorators = [] then none else some decorators

def classReading (file : String) (c : Outline.Class) : ClassReading :=
  ⟨c.name, c.bases, file, decoratorReading c.decorators⟩

def functionReading (file : String) (f : Outline.Function) : FunctionReading :=
  ⟨f.name, file, hintReading f, decoratorReading f.decorators⟩

namespace Listed

open Skeleton (fileName)

def module? : Listed → Option (String × String)
  | ⟨path, .module f⟩ => some (f.moduleName, fileName path)
  | ⟨_, .class _⟩ | ⟨_, .function ..⟩ | ⟨_, .import _⟩ => none

def class? : Listed → Option ClassReading
  | ⟨path, .class c⟩ => some (classReading (fileName path) c)
  | ⟨_, .module _⟩ | ⟨_, .function ..⟩ | ⟨_, .import _⟩ => none

/-- The number of the class of a function, and what is read of the function. -/
def function? : Listed → Option (Int × FunctionReading)
  | ⟨path, .function parent f⟩ => some (parent, functionReading (fileName path) f)
  | ⟨_, .module _⟩ | ⟨_, .class _⟩ | ⟨_, .import _⟩ => none

def import? : Listed → Option (String × String)
  | ⟨path, .import i⟩ => some (i.module, fileName path)
  | ⟨_, .module _⟩ | ⟨_, .class _⟩ | ⟨_, .function ..⟩ => none

end Listed

/-! ### Old rows keep their meaning -/

namespace Skeleton

/-- `s'` has grown out of `s`: numbers keep their texts, and locations that were given out keep
their hints and decorators. -/
structure Grows (s s' : Skeleton) : Prop where
  names : s.names.Extends s'.names
  files : s.files.Extends s'.files
  hints : ∀ l < s.nextLocation, s'.hints.get? (l : Int) = s.hints.get? (l : Int)
  decorators : ∀ l < s.nextLocation, s'.decorators.get? (l : Int) = s.decorators.get? (l : Int)

variable {s s' : Skeleton}

lemma readModule_eq_some_iff {e : ModuleEntry} {r : String × String} : s.readModule e = some r ↔
    s.names.get? e.name = some r.1 ∧ s.files.get? e.file = some r.2 := by
  obtain ⟨name, file⟩ := r
  simp [readModule, Option.bind_eq_some_iff]

lemma readClass_eq_some_iff {e : ClassEntry} {r : ClassReading} : s.readClass e = some r ↔
    s.names.get? e.name = some r.name ∧ s.names.getAll? e.bases = some r.bases ∧
      s.files.get? e.file = some r.file ∧ s.readDecorators e.location = some r.decorators := by
  obtain ⟨name, bases, file, ds⟩ := r
  simp [readClass, Option.bind_eq_some_iff]

lemma readFunction_eq_some_iff {e : FunctionEntry} {r : FunctionReading} :
    s.readFunction e = some r ↔
    s.names.get? e.name = some r.name ∧ s.files.get? e.file = some r.file ∧
      s.readHints e.location = some r.hints ∧ s.readDecorators e.location = some r.decorators := by
  obtain ⟨name, file, hints, ds⟩ := r
  simp [readFunction, Option.bind_eq_some_iff]

lemma readImport_eq_some_iff {e : ImportEntry} {r : String × String} : s.readImport e = some r ↔
    s.names.get? e.name = some r.1 ∧ s.files.get? e.file = some r.2 := by
  obtain ⟨name, file⟩ := r
  simp [readImport, Option.bind_eq_some_iff]

section

variable (h : s.Grows s')

include h

lemma Grows.readDecorators (hl : l < s.nextLocation) {ds : Option (List String)}
    (hds : s.readDecorators l = some ds) : s'.readDecorators l = some ds := by
  unfold Skeleton.readDecorators at hds ⊢
  rw [h.decorators l hl]
  rcases hget : s.decorators.get? (l : Int) with _ | is
  · simpa [hget] using hds
  · simp only [hget, Option.map_eq_some_iff] at hds ⊢
    obtain ⟨names, hnames, rfl⟩ := hds
    exact ⟨names, h.names.getAll? hnames, rfl⟩

lemma Grows.readHints (hl : l < s.nextLocation) {hs : Option HintReading}
    (hhs : s.readHints l = some hs) : s'.readHints l = some hs := by
  unfold Skeleton.readHints at hhs ⊢
  rw [h.hints l hl]
  rcases hget : s.hints.get? (l : Int) with _ | e
  · simpa [hget] using hhs
  · simp only [hget, Option.bind_eq_bind, Option.bind_eq_some_iff, Option.pure_def,
      Option.some.injEq] at hhs ⊢
    obtain ⟨params, hparams, returns, hreturns, rfl⟩ := hhs
    exact ⟨params, h.names.getPairs? hparams, returns, h.names.getOption? hreturns, rfl⟩

lemma Grows.readModule {e : ModuleEntry} {r : String × String}
    (hr : s.readModule e = some r) : s'.readModule e = some r := by
  obtain ⟨hname, hfile⟩ := readModule_eq_some_iff.mp hr
  exact readModule_eq_some_iff.mpr ⟨h.names.get? hname, h.files.get? hfile⟩

lemma Grows.readClass {e : ClassEntry} (he : e.location < s.nextLocation)
    {r : ClassReading} (hr : s.readClass e = some r) : s'.readClass e = some r := by
  obtain ⟨hname, hbases, hfile, hds⟩ := readClass_eq_some_iff.mp hr
  exact readClass_eq_some_iff.mpr
    ⟨h.names.get? hname, h.names.getAll? hbases, h.files.get? hfile, h.readDecorators he hds⟩

lemma Grows.readFunction {e : FunctionEntry} (he : e.location < s.nextLocation)
    {r : FunctionReading} (hr : s.readFunction e = some r) : s'.readFunction e = some r := by
  obtain ⟨hname, hfile, hhs, hds⟩ := readFunction_eq_some_iff.mp hr
  exact readFunction_eq_some_iff.mpr
    ⟨h.names.get? hname, h.files.get? hfile, h.readHints he hhs, h.readDecorators he hds⟩

lemma Grows.readImport {e : ImportEntry} {r : String × String}
    (hr : s.readImport e = some r) : s'.readImport e = some r := by
  obtain ⟨hname, hfile⟩ := readImport_eq_some_iff.mp hr
  exact readImport_eq_some_iff.mpr ⟨h.names.get? hname, h.files.get? hfile⟩

end

/-- Recording keeps what numbers and locations stand for. -/
lemma grows_record : s.Grows (s.record x) where
  names := by rw [names_record]; exact extends_addAll _ _
  files := by rw [files_record]; exact extends_add _ _
  hints l hl := by
    rw [hints_record]
    rcases x.hintEntry s with _ | h
    · rfl
    · rw [Option.elim_some, get?_put, if_neg (by omega)]
  decorators l hl := by
    rw [decorators_record]
    rcases x.decoratorEntry s with _ | ds
    · rfl
    · rw [Option.elim_some, get?_put, if_neg (by omega)]

end Skeleton

/-! ### What a new row says -/

/-- The members of a roll that have something of a kind, with their locations. -/
def located {β : Type} (what? : Listed → Option β) (r : List Listed) : List (Nat × β) :=
  r.zipIdx.filterMap fun xl => (what? xl.1).map (xl.2, ·)

lemma located_concat (r : List Listed) :
    located what? (r ++ [x]) = located what? r ++ (what? x).toList.map (r.length, ·) := by
  rcases h : what? x with _ | b <;> simp [located, zipIdx_append, h]

lemma lt_of_mem_located {r : List Listed} {lb : Nat × β} (h : lb ∈ located what? r) :
    lb.1 < r.length := by
  obtain ⟨⟨x, l⟩, hx, hb⟩ := mem_filterMap.mp h
  obtain ⟨b, -, rfl⟩ := Option.map_eq_some_iff.mp hb
  simpa using snd_lt_of_mem_zipIdx hx

namespace Skeleton

/-- Row `e` stands for `x`: it has the location of `x`, which was given out, and reads as `x`. -/
def Shows {ε β : Type} (s : Skeleton) (location : ε → Nat) (read : Skeleton → ε → Option β) (e : ε)
    (x : Nat × β) : Prop :=
  location e = x.1 ∧ x.1 < s.nextLocation ∧ read s e = some x.2

/-- The number of the class of a function, and what is read of the function. -/
def readOwned (s : Skeleton) (e : FunctionEntry) : Option (Int × FunctionReading) :=
  (s.readFunction e).map (e.parent, ·)

/-- A skeleton is faithful to a roll: its rows stand for the members of the roll, kind by kind, and
hints and decorators stand under the locations of the members that have some. -/
structure Faithful (r : List Listed) (s : Skeleton) : Prop where
  count : s.nextLocation = r.length
  hints : s.hints.keys = (located Listed.hints? r).map fun lh => (lh.1 : Int)
  decorators : s.decorators.keys =
    (located (fun x => decoratorReading x.decorators) r).map fun ld => (ld.1 : Int)
  modules : Forall₂ (s.Shows ModuleEntry.location readModule) s.modules (located Listed.module? r)
  classes : Forall₂ (s.Shows ClassEntry.location readClass) s.classes (located Listed.class? r)
  functions :
    Forall₂ (s.Shows FunctionEntry.location readOwned) s.functions (located Listed.function? r)
  imports : Forall₂ (s.Shows ImportEntry.location readImport) s.imports (located Listed.import? r)

variable {r : List Listed} {s : Skeleton}

lemma notMem_keys_of_located {β : Type} {what? : Listed → Option β} {n : Nat} (hn : n = r.length) :
    (n : Int) ∉ (located what? r).map fun lb => (lb.1 : Int) := by
  intro h
  obtain ⟨lb, hlb, hl⟩ := mem_map.mp h
  have := lt_of_mem_located hlb
  omega

lemma nodup_located : ((located what? r).map fun lb => (lb.1 : Int)).Nodup := by
  induction r using reverseRecOn with
  | nil => exact nodup_nil
  | append_singleton r x ih =>
    have hfresh := @notMem_keys_of_located r β what? _ rfl
    rw [located_concat, map_append]
    rcases what? x with _ | b
    · simpa using ih
    · exact nodup_append_comm.mp (nodup_cons.mpr ⟨hfresh, ih⟩)

lemma Faithful.hints_fresh (h : Faithful r s) : s.hints.get? (s.nextLocation : Int) = none := by
  rw [get?_eq_none_iff, h.hints]
  exact notMem_keys_of_located h.count

lemma Faithful.decorators_fresh (h : Faithful r s) :
    s.decorators.get? (s.nextLocation : Int) = none := by
  rw [get?_eq_none_iff, h.decorators]
  exact notMem_keys_of_located h.count

lemma Faithful.readHints_record (h : Faithful r s) (x : Listed) :
    (s.record x).readHints s.nextLocation = some x.hints? := by
  unfold readHints
  rw [hints_record]
  rcases hx : x.hints? with _ | ⟨params, returns⟩
  · simp [Listed.hintEntry, hx, h.hints_fresh]
  · have hnames : (s.record x).names =
        (((s.names.addAll (x.rowNames ++ x.decorators)).1.addPairs params).1.add? returns).1 := by
      rw [names_record, Listed.names, Listed.hintNames, hx, addAll_append_fst,
        add?_fst, addPairs_fst]
      exact addAll_append_fst _ _
    have hparams := (extends_add? _ returns).getPairs?
      (getPairs?_addPairs params (s.names.addAll (x.rowNames ++ x.decorators)).1)
    simp [Listed.hintEntry, hx, get?_put, hnames, hparams, getOption?_add?]

lemma Faithful.readDecorators_record (h : Faithful r s) (x : Listed) :
    (s.record x).readDecorators s.nextLocation = some (decoratorReading x.decorators) := by
  unfold readDecorators decoratorReading
  rw [decorators_record]
  by_cases hx : x.decorators = []
  · simp [Listed.decoratorEntry, hx, h.decorators_fresh]
  · have hext : (s.names.addAll (x.rowNames ++ x.decorators)).1.Extends (s.record x).names := by
      rw [names_record, Listed.names, addAll_append_fst (x.rowNames ++ x.decorators)]
      exact extends_addAll _ _
    have hds := getAll?_addAll x.decorators (s.names.addAll x.rowNames).1
    rw [← addAll_append_fst] at hds
    simp [Listed.decoratorEntry, hx, get?_put, hext.getAll? hds]

lemma extends_names_record (h : x.rowNames = n :: ns) :
    (((s.names.add n).1.addAll ns).1).Extends (s.record x).names := by
  rw [names_record, Listed.names, h, append_assoc, addAll_append_fst]
  exact extends_addAll _ _

lemma get?_names_record (h : x.rowNames = n :: ns) :
    (s.record x).names.get? (s.names.add n).2 = some n :=
  ((extends_addAll ns _).trans (extends_names_record h)).get? (get?_add s.names n)

lemma get?_files_record (s : Skeleton) (path : String) (entity : Entity) :
    (s.record ⟨path, entity⟩).files.get? (s.files.add (fileName path)).2 =
      some (fileName path) := by
  rw [files_record]
  exact get?_add _ _

/-! ### Rows of an entity -/

section

variable (h : Faithful r s) (x : Listed)

include h

lemma Faithful.moduleRows : Forall₂ ((s.record x).Shows ModuleEntry.location readModule)
    (x.moduleRows s)
      (x.module?.toList.map (r.length, ·)) := by
  obtain ⟨path, entity⟩ := x
  cases entity with
  | module f =>
    refine .cons ⟨h.count, by simp [h.count], ?_⟩ .nil
    simp [readModule, get?_names_record (x := ⟨path, .module f⟩) rfl, get?_files_record]
  | «class» c => exact .nil
  | function parent f => exact .nil
  | «import» i => exact .nil

lemma Faithful.classRows : Forall₂ ((s.record x).Shows ClassEntry.location readClass)
    (x.classRows s)
      (x.class?.toList.map (r.length, ·)) := by
  obtain ⟨path, entity⟩ := x
  cases entity with
  | module f => exact .nil
  | «class» c =>
    refine .cons ⟨h.count, by simp [h.count], ?_⟩ .nil
    have hbases := (extends_names_record (x := ⟨path, .class c⟩) rfl).getAll?
      (getAll?_addAll c.bases (s.names.add c.name).1)
    simp [readClass, get?_names_record (x := ⟨path, .class c⟩) rfl, hbases, get?_files_record,
      h.readDecorators_record ⟨path, .class c⟩, classReading, Listed.decorators]
  | function parent f => exact .nil
  | «import» i => exact .nil

lemma Faithful.functionRows : Forall₂ ((s.record x).Shows FunctionEntry.location readOwned)
    (x.functionRows s)
      (x.function?.toList.map (r.length, ·)) := by
  obtain ⟨path, entity⟩ := x
  cases entity with
  | module f => exact .nil
  | «class» c => exact .nil
  | function parent f =>
    refine .cons ⟨h.count, by simp [h.count], ?_⟩ .nil
    simp [readOwned, readFunction, get?_names_record (x := ⟨path, .function parent f⟩) rfl,
      get?_files_record, h.readHints_record ⟨path, .function parent f⟩,
      h.readDecorators_record ⟨path, .function parent f⟩, functionReading, Listed.decorators,
      Listed.hints?]
  | «import» i => exact .nil

lemma Faithful.importRows : Forall₂ ((s.record x).Shows ImportEntry.location readImport)
    (x.importRows s)
      (x.import?.toList.map (r.length, ·)) := by
  obtain ⟨path, entity⟩ := x
  cases entity with
  | module f => exact .nil
  | «class» c => exact .nil
  | function parent f => exact .nil
  | «import» i =>
    refine .cons ⟨h.count, by simp [h.count], ?_⟩ .nil
    simp [readImport, get?_names_record (x := ⟨path, .import i⟩) rfl, get?_files_record]

end

/-! ### Faithfulness -/

lemma forall₂_shows_append {rows' : List ε} {xs' : List (Nat × β)}
    (hold : Forall₂ (s.Shows location read) rows xs)
    (hkeep : ∀ {e b}, location e < s.nextLocation → read s e = some b →
      read (s.record x) e = some b)
    (hnew : Forall₂ ((s.record x).Shows location read) rows' xs') :
    Forall₂ ((s.record x).Shows location read) (rows ++ rows') (xs ++ xs') := by
  refine rel_append (hold.imp ?_) hnew
  rintro e lb ⟨hl, hlt, hread⟩
  refine ⟨hl, ?_, hkeep (hl ▸ hlt) hread⟩
  rw [nextLocation_record]
  omega

lemma keys_elim_put {α : Type} {k : Keyed Int α} {entry : Option α} {n : Nat} (hn : n = r.length)
    (hkeys : k.keys = (located what? r).map fun lb => (lb.1 : Int))
    (hentry : entry.isSome = (what? x).isSome) :
    (entry.elim k (k.put n ·)).keys = (located what? (r ++ [x])).map fun lb => (lb.1 : Int) := by
  rw [located_concat, map_append, ← hkeys]
  rcases entry with _ | a <;> rcases hx : what? x with _ | b <;> simp only [hx] at hentry
  · simp
  · simp at hentry
  · simp at hentry
  · rw [Option.elim_some, put_of_notMem (by rw [hkeys]; exact notMem_keys_of_located hn)]
    simp [Keyed.keys, hn]

/-- One more entity keeps a skeleton faithful. -/
lemma Faithful.record (h : Faithful r s) (x : Listed) : Faithful (r ++ [x]) (s.record x) where
  count := by simp [h.count]
  hints := by
    rw [hints_record]
    exact keys_elim_put h.count h.hints (by simp [Listed.hintEntry])
  decorators := by
    rw [decorators_record]
    refine keys_elim_put h.count h.decorators ?_
    by_cases hx : x.decorators = [] <;> simp [Listed.decoratorEntry, decoratorReading, hx]
  modules := by
    rw [modules_record, located_concat]
    exact forall₂_shows_append h.modules (fun _ => grows_record.readModule) (h.moduleRows x)
  classes := by
    rw [classes_record, located_concat]
    exact forall₂_shows_append h.classes (fun hl => grows_record.readClass hl) (h.classRows x)
  functions := by
    rw [functions_record, located_concat]
    refine forall₂_shows_append h.functions (fun hl hread => ?_) (h.functionRows x)
    obtain ⟨b, hb, rfl⟩ := Option.map_eq_some_iff.mp hread
    simp [readOwned, grows_record.readFunction hl hb]
  imports := by
    rw [imports_record, located_concat]
    exact forall₂_shows_append h.imports (fun _ => grows_record.readImport) (h.importRows x)

lemma faithful_empty : Faithful [] {} where
  count := rfl
  hints := rfl
  decorators := rfl
  modules := .nil
  classes := .nil
  functions := .nil
  imports := .nil

/-- A skeleton made from a roll is faithful to it. -/
lemma faithful_foldl_record (r : List Listed) : Faithful r (r.foldl Skeleton.record {}) := by
  induction r using reverseRecOn with
  | nil => exact faithful_empty
  | append_singleton r x ih =>
    rw [foldl_concat]
    exact ih.record x

/-! ### What follows for the rows -/

lemma map_read_of_shows (h : Forall₂ (s.Shows location read) rows xs) :
    rows.map (read s) = (xs.map Prod.snd).map some := by
  rw [map_map]
  exact map_eq_map_of_forall₂ (fun hshow => hshow.2.2) h

lemma map_location_of_shows (h : Forall₂ (s.Shows location read) rows xs) :
    rows.map location = xs.map Prod.fst :=
  map_eq_map_of_forall₂ (fun hshow => hshow.1) h

lemma readParent_of_getElem? {cs : List ClassReading} (h : s.classes.map s.readClass = cs.map some)
    {k : Nat} {c : ClassReading} (hk : cs[k]? = some c) : s.readParent k = some (some (k, c)) := by
  have hread : (s.classes[k]?).map s.readClass = some (some c) := by
    rw [← getElem?_map, h, getElem?_map, hk, Option.map_some]
  obtain ⟨e, he, hc⟩ := Option.map_eq_some_iff.mp hread
  have hne : (k : Int) ≠ -1 := by omega
  have hle : ¬ (k : Int) < 0 := by omega
  simp [readParent, hne, hle, he, hc]

lemma readMember_eq_bind (e : FunctionEntry) :
    s.readMember e = (s.readOwned e).bind fun g => (s.readParent g.1).map (·, g.2) := by
  unfold readMember readOwned
  rcases s.readFunction e with _ | f
  · rcases s.readParent e.parent with _ | owner <;> simp
  · rcases h : s.readParent e.parent with _ | owner <;> simp [h]

end Skeleton

end CodeAtlas.Index
