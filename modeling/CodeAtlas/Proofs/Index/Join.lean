import CodeAtlas.Proofs.Index.Fidelity
import CodeAtlas.Proofs.Index.Names
import CodeAtlas.Proofs.Index.Notes

/-!
# The documents of an atlas join by location

Every entity has one location, every location one entity, and all documents keep to it
(`Atlas.Joinable`).
-/

namespace CodeAtlas.Index

open List Table Skeleton

variable {β ε : Type} {what? : Listed → Option β} {l : Nat} {location : ε → Int} {places : List ε}
  {read : Places → ε → Option β} {xs : List (Nat × β)} {x : Listed}

/-! ### Locations in a roll -/

lemma mem_located_fst {r : List Listed} :
    l ∈ (located what? r).map Prod.fst ↔ ∃ x, (x, l) ∈ r.zipIdx ∧ (what? x).isSome := by
  constructor
  · intro h
    obtain ⟨⟨l, b⟩, hb, rfl⟩ := mem_map.mp h
    obtain ⟨⟨x, l'⟩, hx, hxb⟩ := mem_filterMap.mp hb
    obtain ⟨b, hwhat, hlb⟩ := Option.map_eq_some_iff.mp hxb
    obtain ⟨rfl, rfl⟩ := Prod.mk.inj hlb
    exact ⟨x, hx, by simp [hwhat]⟩
  · rintro ⟨x, hx, hwhat⟩
    obtain ⟨b, hb⟩ := Option.isSome_iff_exists.mp hwhat
    exact mem_map.mpr ⟨(l, b), mem_filterMap.mpr ⟨(x, l), hx, by simp [hb]⟩, rfl⟩

lemma located_fst_congr {γ : Type} {f : Listed → Option β} {g : Listed → Option γ}
    (h : ∀ x, (f x).isSome = (g x).isSome) (r : List Listed) :
    (located f r).map Prod.fst = (located g r).map Prod.fst := by
  induction r using reverseRecOn with
  | nil => rfl
  | append_singleton r x ih =>
    have hx := h x
    rw [located_concat, located_concat, map_append, map_append, ih]
    rcases hf : f x with _ | b <;> rcases hg : g x with _ | c <;> simp_all

lemma perm_range_located (r : List Listed) :
    ((located Listed.module? r).map Prod.fst ++ (located Listed.class? r).map Prod.fst
      ++ (located Listed.function? r).map Prod.fst ++ (located Listed.import? r).map Prod.fst).Perm
      (List.range r.length) := by
  induction r using reverseRecOn with
  | nil => exact .nil
  | append_singleton r x ih =>
    rw [length_append, length_singleton, range_succ, perm_iff_count]
    intro l
    have hl := perm_iff_count.mp ih l
    obtain ⟨path, entity⟩ := x
    simp only [located_concat, map_append, count_append] at hl ⊢
    cases entity <;>
      simp only [Listed.module?, Listed.class?, Listed.function?, Listed.import?,
      Option.toList_some,
        Option.toList_none, map_cons, map_nil, count_nil] <;>
      omega

/-! ### Places -/

namespace Listed

def moduleLines? : Listed → Option (Int × Int)
  | ⟨_, .module f⟩ => some (1, f.lineCount)
  | ⟨_, .class _⟩ | ⟨_, .function ..⟩ | ⟨_, .import _⟩ => none

def classLines? : Listed → Option (Int × Int)
  | ⟨_, .class c⟩ => some (c.firstLine, c.lastLine)
  | ⟨_, .module _⟩ | ⟨_, .function ..⟩ | ⟨_, .import _⟩ => none

def functionLines? : Listed → Option (Int × Int)
  | ⟨_, .function _ f⟩ => some (f.firstLine, f.lastLine)
  | ⟨_, .module _⟩ | ⟨_, .class _⟩ | ⟨_, .import _⟩ => none

def importLine? : Listed → Option Int
  | ⟨_, .import i⟩ => some i.line
  | ⟨_, .module _⟩ | ⟨_, .class _⟩ | ⟨_, .function ..⟩ => none

/-- Lines with the path of the entity. -/
def sited {β : Type} (lines? : Listed → Option β) (x : Listed) : Option (String × β) :=
  (lines? x).map (x.path, ·)

end Listed

namespace Places

def readRange (p : Places) (e : RangePlace) : Option (String × Int × Int) :=
  (p.files.get? e.file).map (·, e.first, e.last)

def readLine (p : Places) (e : LinePlace) : Option (String × Int) :=
  (p.files.get? e.file).map (·, e.line)

/-- All that an entity does to the places. -/
lemma record_eq (p : Places) (x : Listed) (l : Nat) :
    let range (b : Int × Int) : RangePlace := ⟨l, (p.files.add x.path).2, b.1, b.2⟩
    let line (b : Int) : LinePlace := ⟨l, (p.files.add x.path).2, b⟩
    p.record (x, l) =
      { files := (p.files.add x.path).1
        modules := p.modules ++ x.moduleLines?.toList.map range
        classes := p.classes ++ x.classLines?.toList.map range
        functions := p.functions ++ x.functionLines?.toList.map range
        imports := p.imports ++ x.importLine?.toList.map line } := by
  obtain ⟨path, entity⟩ := x
  cases entity <;>
    simp [record, addRange, addImport, addFile, Listed.moduleLines?, Listed.classLines?,
      Listed.functionLines?, Listed.importLine?]

/-- Place `e` stands for `x`: it has the location of `x` and reads as `x`. -/
def Shows {ε β : Type} (p : Places) (location : ε → Int) (read : Places → ε → Option β) (e : ε)
    (x : Nat × β) : Prop :=
  location e = x.1 ∧ read p e = some x.2

/-- Places are faithful to a roll: they stand for its members, kind by kind. -/
structure Faithful (r : List Listed) (p : Places) : Prop where
  modules : Forall₂ (p.Shows RangePlace.location readRange) p.modules
    (located (Listed.sited Listed.moduleLines?) r)
  classes : Forall₂ (p.Shows RangePlace.location readRange) p.classes
    (located (Listed.sited Listed.classLines?) r)
  functions : Forall₂ (p.Shows RangePlace.location readRange) p.functions
    (located (Listed.sited Listed.functionLines?) r)
  imports : Forall₂ (p.Shows LinePlace.location readLine) p.imports
    (located (Listed.sited Listed.importLine?) r)

variable {r : List Listed} {p : Places}

lemma files_record (p : Places) (x : Listed) (l : Nat) :
    (p.record (x, l)).files = (p.files.add x.path).1 := by
  rw [record_eq]

lemma forall₂_shows_append {read : Places → ε → Option (String × β)} {lines? : Listed → Option β}
    (h : Forall₂ (p.Shows location read) places (located (Listed.sited lines?) r)) (x : Listed)
    (hkeep : ∀ {e b}, read p e = some b → read (p.record (x, r.length)) e = some b) {place : β → ε}
    (hnew : ∀ b, (p.record (x, r.length)).Shows location read (place b) (r.length, x.path, b)) :
    Forall₂ ((p.record (x, r.length)).Shows location read)
      (places ++ (lines? x).toList.map place) (located (Listed.sited lines?) (r ++ [x])) := by
  rw [located_concat]
  refine rel_append (h.imp fun e b hb => ⟨hb.1, hkeep hb.2⟩) ?_
  rcases hx : lines? x with _ | b
  · simp [Listed.sited, hx]
  · simpa [Listed.sited, hx] using hnew b

lemma readRange_record {e : RangePlace} {b : String × Int × Int} (h : p.readRange e = some b)
    (l : Nat) : (p.record (x, l)).readRange e = some b := by
  obtain ⟨file, hfile, rfl⟩ := Option.map_eq_some_iff.mp h
  rw [readRange, files_record, (extends_add _ _).get? hfile, Option.map_some]

lemma readLine_record {e : LinePlace} {b : String × Int} (h : p.readLine e = some b)
    (x : Listed) : (p.record (x, l)).readLine e = some b := by
  obtain ⟨file, hfile, rfl⟩ := Option.map_eq_some_iff.mp h
  rw [readLine, files_record, (extends_add _ _).get? hfile, Option.map_some]

lemma forall₂_shows_ranges {lines? : Listed → Option (Int × Int)} {places : List RangePlace}
    (h : Forall₂ (p.Shows RangePlace.location readRange) places (located (Listed.sited lines?) r))
    (x : Listed) : Forall₂ ((p.record (x, r.length)).Shows RangePlace.location readRange)
      (places ++ (lines? x).toList.map fun b => ⟨r.length, (p.files.add x.path).2, b.1, b.2⟩)
      (located (Listed.sited lines?) (r ++ [x])) := by
  refine forall₂_shows_append h x (fun hb => readRange_record hb _) fun b => ⟨rfl, ?_⟩
  rw [readRange, files_record, get?_add, Option.map_some]

/-- Recording an entity at its position keeps places faithful. -/
lemma Faithful.record (h : Faithful r p) (x : Listed) :
    Faithful (r ++ [x]) (p.record (x, r.length)) where
  modules := by
    have hnew := forall₂_shows_ranges h.modules x
    rw [record_eq] at hnew ⊢
    exact hnew
  classes := by
    have hnew := forall₂_shows_ranges h.classes x
    rw [record_eq] at hnew ⊢
    exact hnew
  functions := by
    have hnew := forall₂_shows_ranges h.functions x
    rw [record_eq] at hnew ⊢
    exact hnew
  imports := by
    have hline : ∀ b : Int, (p.record (x, r.length)).Shows LinePlace.location readLine
        ⟨r.length, (p.files.add x.path).2, b⟩ (r.length, x.path, b) := by
      intro b
      refine ⟨rfl, ?_⟩
      rw [readLine, files_record, get?_add, Option.map_some]
    have hnew := forall₂_shows_append h.imports x (fun hb => readLine_record hb x) hline
    rw [record_eq] at hnew ⊢
    exact hnew

lemma faithful_foldl_record (r : List Listed) : Faithful r (r.zipIdx.foldl Places.record {}) := by
  induction r using reverseRecOn with
  | nil => exact ⟨.nil, .nil, .nil, .nil⟩
  | append_singleton r x ih =>
    rw [zipIdx_append, foldl_append]
    simpa using ih.record x

lemma map_location_of_shows (h : Forall₂ (p.Shows location read) places xs) :
    places.map location = (xs.map Prod.fst).map Int.ofNat := by
  rw [map_map]
  exact map_eq_map_of_forall₂ (fun hshow => hshow.1) h

lemma map_read_of_shows (h : Forall₂ (p.Shows location read) places xs) :
    places.map (read p) = (xs.map Prod.snd).map some := by
  rw [map_map]
  exact map_eq_map_of_forall₂ (fun hshow => hshow.2) h

end Places

/-! ### Joining -/

/-- The locations of the entities of a kind that can have notes. -/
def Skeleton.ids (s : Skeleton) : Ranged → List Nat
  | .module => s.modules.map (·.location)
  | .class => s.classes.map (·.location)
  | .function => s.functions.map (·.location)

structure Atlas.Joinable (a : Atlas) : Prop where
  /-- The entities have the locations that were given out, each one of them. -/
  locations : (a.skeleton.ids .module ++ a.skeleton.ids .class ++ a.skeleton.ids .function
    ++ a.skeleton.imports.map (·.location)).Perm (List.range a.skeleton.nextLocation)
  modules : a.places.modules.map (·.location) = (a.skeleton.ids .module).map Int.ofNat
  classes : a.places.classes.map (·.location) = (a.skeleton.ids .class).map Int.ofNat
  functions : a.places.functions.map (·.location) = (a.skeleton.ids .function).map Int.ofNat
  imports : a.places.imports.map (·.location) = (a.skeleton.imports.map (·.location)).map Int.ofNat
  docstrings (kind : Ranged) : (a.docstrings.groups kind).keys.Nodup ∧
    ∀ l ∈ (a.docstrings.groups kind).keys, l ∈ (a.skeleton.ids kind).map Int.ofNat
  comments (kind : Ranged) : (a.comments.groups kind).keys.Nodup ∧
    ∀ l ∈ (a.comments.groups kind).keys, l ∈ (a.skeleton.ids kind).map Int.ofNat
  hints : ∀ l ∈ a.skeleton.hints.keys, l ∈ (a.skeleton.ids .function).map Int.ofNat
  decorators : ∀ l ∈ a.skeleton.decorators.keys,
    l ∈ (a.skeleton.ids .class ++ a.skeleton.ids .function).map Int.ofNat
  names_nodup : a.skeleton.names.items.Nodup
  names_used : ∀ i < a.skeleton.names.size, i ∈ a.skeleton.references

namespace Atlas

variable (files : List (String × Outline.File))

lemma placesFaithful_ofFiles : Places.Faithful (roll files) (ofFiles files).places := by
  rw [places_ofFiles]
  exact Places.faithful_foldl_record (roll files)

variable {files}

/-- An entity of a kind has one of the locations of the kind. -/
lemma mem_ids_of_kind? {kind : Ranged} (hx : (x, l) ∈ (roll files).zipIdx)
    (hkind : x.kind? = some kind) : l ∈ (ofFiles files).skeleton.ids kind := by
  have hfaithful := faithful_ofFiles files
  obtain ⟨path, entity⟩ := x
  cases entity with
  | module f =>
    obtain rfl : Ranged.module = kind := Option.some.inj hkind
    rw [Skeleton.ids, map_location_of_shows hfaithful.modules, mem_located_fst]
    exact ⟨_, hx, rfl⟩
  | «class» c =>
    obtain rfl : Ranged.class = kind := Option.some.inj hkind
    rw [Skeleton.ids, map_location_of_shows hfaithful.classes, mem_located_fst]
    exact ⟨_, hx, rfl⟩
  | function parent f =>
    obtain rfl : Ranged.function = kind := Option.some.inj hkind
    rw [Skeleton.ids, map_location_of_shows hfaithful.functions, mem_located_fst]
    exact ⟨_, hx, rfl⟩
  | «import» i => simp [Listed.kind?] at hkind

lemma keys_groups_of_attached {ρ : Type} {calls : List (NoteCall ρ)}
    (h : ∀ c ∈ calls, ∃ xl ∈ (roll files).zipIdx, c.BelongsTo xl) (kind : Ranged) :
    ((calls.foldl Notes.record {}).groups kind).keys.Nodup ∧
      ∀ l ∈ ((calls.foldl Notes.record {}).groups kind).keys,
        l ∈ ((ofFiles files).skeleton.ids kind).map Int.ofNat := by
  rw [Notes.groups_foldl_record, Keyed.keys_group]
  refine ⟨nodup_eraseDups _, fun l hl => ?_⟩
  simp only [mem_eraseDups, map_map, mem_map, mem_filter,
    decide_eq_true_eq] at hl
  obtain ⟨c, ⟨hc, hkind⟩, rfl⟩ := hl
  obtain ⟨⟨x, l⟩, hx, hlocation, hx?, -⟩ := h c hc
  rw [hkind] at hx?
  exact mem_map.mpr ⟨l, mem_ids_of_kind? hx hx?, hlocation.symm⟩

lemma exists_of_mem_keys {l : Int}
    (h : l ∈ (located what? (roll files)).map fun lb => (lb.1 : Int)) :
    ∃ x n, (x, n) ∈ (roll files).zipIdx ∧ (what? x).isSome ∧ l = Int.ofNat n := by
  obtain ⟨⟨n, b⟩, hb, rfl⟩ := mem_map.mp h
  obtain ⟨x, hx, hwhat⟩ := mem_located_fst.mp (mem_map.mpr ⟨_, hb, rfl⟩)
  exact ⟨x, n, hx, hwhat, rfl⟩

lemma kind?_of_hints? (h : x.hints?.isSome) : x.kind? = some .function := by
  obtain ⟨path, entity⟩ := x
  cases entity with
  | function parent f => rfl
  | _ => simp [Listed.hints?] at h

lemma kind?_of_decorators (h : (decoratorReading x.decorators).isSome) :
    x.kind? = some .class ∨ x.kind? = some .function := by
  obtain ⟨path, entity⟩ := x
  cases entity with
  | «class» c => exact Or.inl rfl
  | function parent f => exact Or.inr rfl
  | _ => simp [Listed.decorators, decoratorReading] at h

lemma map_location_eq {ε₁ ε₂ β₁ β₂ : Type} {s : Skeleton} {p : Places} {r : List Listed}
    {location1 : ε₁ → Int} {location2 : ε₂ → Nat} {read1 : Places → ε₁ → Option (String × β₁)}
    {read2 : Skeleton → ε₂ → Option β₂} {rows1 : List ε₁} {rows2 : List ε₂}
    {lines? : Listed → Option β₁} {what? : Listed → Option β₂}
    (h1 : Forall₂ (p.Shows location1 read1) rows1 (located (Listed.sited lines?) r))
    (h2 : Forall₂ (s.Shows location2 read2) rows2 (located what? r))
    (h : ∀ x, (lines? x).isSome = (what? x).isSome) :
    rows1.map location1 = (rows2.map location2).map Int.ofNat := by
  rw [Places.map_location_of_shows h1, map_location_of_shows h2]
  refine congrArg (List.map Int.ofNat) (located_fst_congr (fun x => ?_) r)
  rw [Listed.sited, Option.isSome_map, h]

variable (files)

lemma joinable_ofFiles : (ofFiles files).Joinable := by
  have hs := faithful_ofFiles files
  have hp := placesFaithful_ofFiles files
  refine ⟨?_, ?_, ?_, ?_, ?_, ?_, ?_, ?_, ?_, ?_, ?_⟩
  · simp only [Skeleton.ids]
    rw [hs.count, map_location_of_shows hs.modules, map_location_of_shows hs.classes,
      map_location_of_shows hs.functions, map_location_of_shows hs.imports]
    exact perm_range_located (roll files)
  · exact map_location_eq hp.modules hs.modules fun ⟨_, entity⟩ => by cases entity <;> rfl
  · exact map_location_eq hp.classes hs.classes fun ⟨_, entity⟩ => by cases entity <;> rfl
  · exact map_location_eq hp.functions hs.functions fun ⟨_, entity⟩ => by cases entity <;> rfl
  · exact map_location_eq hp.imports hs.imports fun ⟨_, entity⟩ => by cases entity <;> rfl
  · rw [docstrings_ofFiles]
    exact keys_groups_of_attached fun c hc => attached_projectDocstrings hc
  · rw [comments_ofFiles]
    exact keys_groups_of_attached fun c hc => attached_projectComments hc
  · intro l hl
    rw [hs.hints] at hl
    obtain ⟨x, n, hx, hhints, rfl⟩ := exists_of_mem_keys hl
    exact mem_map_of_mem (mem_ids_of_kind? hx (kind?_of_hints? hhints))
  · intro l hl
    rw [hs.decorators] at hl
    obtain ⟨x, n, hx, hdecorators, rfl⟩ := exists_of_mem_keys hl
    refine mem_map_of_mem (mem_append.mpr ?_)
    exact (kind?_of_decorators hdecorators).imp (mem_ids_of_kind? hx) (mem_ids_of_kind? hx)
  · rw [skeleton_ofFiles]
    exact nodup_names_foldl_record (roll files)
  · rw [skeleton_ofFiles]
    exact mem_references_foldl_record (roll files)

/-! ### What the places say -/

lemma readRange_modules_ofFiles :
    (ofFiles files).places.modules.map (ofFiles files).places.readRange =
      files.map fun pf => some (pf.1, 1, (pf.2.lineCount : Int)) := by
  rw [Places.map_read_of_shows (placesFaithful_ofFiles files).modules, located_snd, roll,
    filterMap_rollFrom (g := fun path f => [(path, 1, (f.lineCount : Int))]), ← map_eq_flatMap,
    map_map]
  · rfl
  · intro path f k
    simp [filterMap_fileRoll, Listed.sited, Listed.moduleLines?]

lemma readRange_classes_ofFiles :
    (ofFiles files).places.classes.map (ofFiles files).places.readRange =
      (files.flatMap fun pf => pf.2.classes.map fun c => (pf.1, c.firstLine, c.lastLine)).map
        some := by
  rw [Places.map_read_of_shows (placesFaithful_ofFiles files).classes, located_snd, roll,
    filterMap_rollFrom (g := fun path f => f.classes.map fun c => (path, c.firstLine, c.lastLine))]
  intro path f k
  simp only [filterMap_fileRoll, Listed.sited, Listed.classLines?, Option.map_some, Option.map_none,
    Option.toList_some, Option.toList_none, filterMap_none, append_nil, nil_append]
  rw [flatMap_zipIdx_fst f.classes fun c => [(path, c.firstLine, c.lastLine)], ← map_eq_flatMap]

lemma readRange_functions_ofFiles :
    (ofFiles files).places.functions.map (ofFiles files).places.readRange =
      (files.flatMap fun pf => (pf.2.classes.flatMap (·.methods) ++ pf.2.functions).map fun g =>
        (pf.1, g.firstLine, g.lastLine)).map some := by
  rw [Places.map_read_of_shows (placesFaithful_ofFiles files).functions, located_snd, roll,
    filterMap_rollFrom (g := fun path f =>
      (f.classes.flatMap (·.methods) ++ f.functions).map fun g => (path, g.firstLine, g.lastLine))]
  intro path f k
  simp only [filterMap_fileRoll, Listed.sited, Listed.functionLines?, Option.map_some,
    Option.map_none, Option.toList_none, filterMap_none, filterMap_eq_map', append_nil,
    nil_append, map_append, map_flatMap]
  rw [flatMap_zipIdx_fst f.classes fun c => c.methods.map fun g => (path, g.firstLine, g.lastLine)]

lemma readLine_imports_ofFiles :
    (ofFiles files).places.imports.map (ofFiles files).places.readLine =
      (files.flatMap fun pf => pf.2.imports.map fun i => (pf.1, i.line)).map some := by
  rw [Places.map_read_of_shows (placesFaithful_ofFiles files).imports, located_snd, roll,
    filterMap_rollFrom (g := fun path f => f.imports.map fun i => (path, i.line))]
  intro path f k
  simp [filterMap_fileRoll, Listed.sited, Listed.importLine?]

end Atlas

end CodeAtlas.Index

namespace CodeAtlas.Project

open Index

/-- The documents of a project join by location, and the places give, in the order of the skeleton,
the file and the lines of every module, class, function and import. -/
theorem atlas_joinable (p : Project) (files : List Outline.File) : let a := p.atlas files
    let path (f : Outline.File) := p.inside (Path.ofString f.path)
    a.Joinable ∧
      a.places.modules.map a.places.readRange =
        files.map (fun f => some (path f, 1, (f.lineCount : Int))) ∧
      a.places.classes.map a.places.readRange =
        (files.flatMap fun f => f.classes.map fun c => (path f, c.firstLine, c.lastLine)).map some ∧
      a.places.functions.map a.places.readRange =
        (files.flatMap fun f => (f.classes.flatMap (·.methods) ++ f.functions).map fun g =>
          (path f, g.firstLine, g.lastLine)).map some ∧
      a.places.imports.map a.places.readLine =
        (files.flatMap fun f => f.imports.map fun i => (path f, i.line)).map some := by
  intro a path
  refine ⟨Atlas.joinable_ofFiles _, ?_, ?_, ?_, ?_⟩ <;> unfold a atlas
  · rw [Atlas.readRange_modules_ofFiles, List.map_map]
    rfl
  · rw [Atlas.readRange_classes_ofFiles, List.flatMap_map]
  · rw [Atlas.readRange_functions_ofFiles, List.flatMap_map]
  · rw [Atlas.readLine_imports_ofFiles, List.flatMap_map]

end CodeAtlas.Project
