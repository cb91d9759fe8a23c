import CodeAtlas.Locate.Place
import CodeAtlas.Proofs.Index.Join
import CodeAtlas.Proofs.Index.NoteFiles
import CodeAtlas.Proofs.Outline

/-!
# Where docstrings stand

The lines of a docstring are not looked up but estimated, from the head of its definition and the
length of its cleaned text (`Project.docstring_inPlace_iff_fits`).
-/

namespace CodeAtlas

open List Syntax Index Skeleton
open Outline (File Class)

variable {lines : Int × Int} {s : Stmt}

/-! ### Definitions in a source file -/

/-- A source file that parses. -/
structure ParsedFile where
  path : Path
  text : List Char
  module : Module
  parsed : parseModule? text = some module

/-- A definition that can have a docstring. -/
structure Definition where
  kind : Ranged
  span : Span
  body : List Stmt

variable {d : Definition}

namespace Definition

/-- The line of the head of a definition; that of a module comes before all lines. -/
def line (d : Definition) : Nat :=
  match d.kind with
  | .module => 0
  | _ => d.span.first

def text? (d : Definition) : Option String := Outline.present? (docstring? d.body)

def ofFunction : Stmt → List Definition
  | .function span _ body => [⟨.function, span, body⟩]
  | _ => []

/-- The definitions that a statement is, if it is one of a class: the class and its methods. -/
def ofClass : Stmt → List Definition
  | .classDef span _ body => ⟨.class, span, body⟩ :: body.flatMap ofFunction
  | _ => []

end Definition

namespace ParsedFile

def outline (f : ParsedFile) : File := Outline.ofModule f.path f.text f.module

/-- The definitions in a file: the module, its classes with their methods, and its functions. -/
def definitions (f : ParsedFile) : List Definition :=
  ⟨.module, ⟨1, f.text.count '\n' + 1⟩, f.module.body⟩ ::
    (f.module.body.flatMap Definition.ofClass ++ f.module.body.flatMap Definition.ofFunction)

end ParsedFile

/-! ### What an atlas is told of a definition -/

/-- What an atlas is told of a definition: its lines, the line of its head, and its docstring. -/
structure Outlined where
  kind : Ranged
  first : Int
  last : Int
  line : Int
  docstring : Option String

namespace Outlined

def ofFunction (g : Outline.Function) : Outlined :=
  ⟨.function, g.firstLine, g.lastLine, g.firstLine, g.docstring⟩

/-- A class apart from its methods. -/
def ofClassHead (c : Outline.Class) : Outlined :=
  ⟨.class, c.firstLine, c.lastLine, c.firstLine, c.docstring⟩

def ofClass (c : Outline.Class) : List Outlined := ofClassHead c :: c.methods.map ofFunction

/-- A module apart from what is defined in it. -/
def ofModule (f : File) : Outlined := ⟨.module, 1, f.lineCount, 0, f.docstring⟩

def ofFile (f : File) : List Outlined :=
  ofModule f :: (f.classes.flatMap ofClass ++ f.functions.map ofFunction)

def ofDefinition (d : Definition) : Outlined :=
  ⟨d.kind, d.span.first, d.span.last, d.line, docstring? d.body⟩

variable (cs : List Outline.Comment)

lemma map_functionsIn (body : List Stmt) :
    (Outline.functionsIn cs body).map ofFunction =
      (body.flatMap Definition.ofFunction).map ofDefinition := by
  induction body with
  | nil => rfl
  | cons s body ih =>
    unfold Outline.functionsIn at ih ⊢
    rw [flatMap_cons, map_append, ← ih]
    cases s <;> rfl

lemma flatMap_classes (m : Module) :
    (Outline.classes cs m).flatMap ofClass =
      (m.body.flatMap Definition.ofClass).map ofDefinition := by
  unfold Outline.classes
  rw [Outline.topLevel_eq]
  induction m.body with
  | nil => rfl
  | cons s body ih =>
    rw [flatMap_cons, map_append, ← ih]
    cases s with
    | classDef span head inner =>
      have hclass : ofClass (Outline.classOutline cs span head inner) =
          (Definition.ofClass (.classDef span head inner)).map ofDefinition :=
        congrArg (List.cons _) (map_functionsIn cs inner)
      rw [← hclass]
      rfl
    | _ => rfl

lemma ofFile_outline (f : ParsedFile) : ofFile f.outline = f.definitions.map ofDefinition := by
  have hfunctions : (Outline.functions (Outline.comments f.text) f.module).map ofFunction =
      (f.module.body.flatMap Definition.ofFunction).map ofDefinition := by
    unfold Outline.functions
    rw [Outline.topLevel_eq, map_functionsIn]
  unfold ParsedFile.definitions
  rw [map_cons, map_append, ← hfunctions, ← flatMap_classes (Outline.comments f.text)]
  rfl

end Outlined

namespace Index

def Listed.outlined? : Listed → Option Outlined
  | ⟨_, .module f⟩ => some (.ofModule f)
  | ⟨_, .class c⟩ => some (.ofClassHead c)
  | ⟨_, .function _ g⟩ => some (.ofFunction g)
  | ⟨_, .import _⟩ => none

lemma filterMap_outlined?_roll (files : List (String × File)) :
    (roll files).filterMap Listed.outlined? = files.flatMap fun pf => Outlined.ofFile pf.2 := by
  refine filterMap_rollFrom (g := fun _ f => Outlined.ofFile f) (fun path f k => ?_) files 0
  rw [filterMap_fileRoll]
  simp only [Listed.outlined?, Option.toList_some, filterMap_none, filterMap_eq_map', append_nil]
  exact congrArg (fun classes =>
    Outlined.ofModule f :: (classes ++ f.functions.map Outlined.ofFunction))
    (flatMap_zipIdx_fst f.classes Outlined.ofClass)

/-! ### What an atlas says of a definition -/

def Places.rows (p : Places) : Ranged → List RangePlace
  | .module => p.modules
  | .class => p.classes
  | .function => p.functions

namespace Atlas

/-- The places give an entity these lines. -/
def Placed (a : Atlas) (kind : Ranged) (l : Nat) (lines : Int × Int) : Prop :=
  ∃ e ∈ a.places.rows kind, e.location = l ∧ (e.first, e.last) = lines

/-- The docstrings give the docstring of an entity these lines. -/
def Noted (a : Atlas) (kind : Ranged) (l : Nat) (lines : Int × Int) : Prop :=
  ∃ group ∈ a.docstrings.groups kind, group.1 = l ∧ ∃ note ∈ group.2, note.place = lines

variable {r : List Listed} {files : List (String × File)} {x : Listed} {l : Nat}
  {o : Outlined}

lemma eq_of_mem_zipIdx {y : Listed} (hx : (x, l) ∈ r.zipIdx) (hy : (y, l) ∈ r.zipIdx) : y = x := by
  rw [mk_mem_zipIdx_iff_getElem?] at hx hy
  exact Option.some.inj (hy.symm.trans hx)

lemma mem_located_iff {β : Type} {what? : Listed → Option β} {b : β} :
    (l, b) ∈ located what? r ↔ ∃ y, (y, l) ∈ r.zipIdx ∧ what? y = some b := by
  constructor
  · intro h
    obtain ⟨⟨y, m⟩, hy, hb⟩ := mem_filterMap.mp h
    obtain ⟨b', hwhat, heq⟩ := Option.map_eq_some_iff.mp hb
    obtain ⟨rfl, rfl⟩ := Prod.mk.inj heq
    exact ⟨y, hy, hwhat⟩
  · rintro ⟨y, hy, hwhat⟩
    exact mem_filterMap.mpr ⟨(y, l), hy, by rw [hwhat]; rfl⟩

lemma mem_docstrings_iff (ho : x.outlined? = some o) (l : Nat) (c : NoteCall (Int × Int)) :
    c ∈ x.docstrings l ↔ ∃ text, Outline.present? o.docstring = some text ∧
      c = ⟨o.kind, l, text, x.path, docstringLines o.line text⟩ := by
  obtain ⟨path, entity⟩ := x
  cases entity with
  | «import» i => simp [Listed.outlined?] at ho
  | _ =>
    cases ho
    simp [Listed.docstrings, docstringCalls, eq_comm, Outlined.ofModule, Outlined.ofClassHead,
      Outlined.ofFunction]

lemma noted_iff (hx : (x, l) ∈ (roll files).zipIdx) (ho : x.outlined? = some o) :
    (ofFiles files).Noted o.kind l lines ↔
      ∃ text, Outline.present? o.docstring = some text ∧ lines = docstringLines o.line text := by
  unfold Noted
  rw [docstrings_ofFiles]
  constructor
  · rintro ⟨⟨-, notes⟩, hgroup, rfl, note, hnote, rfl⟩
    obtain ⟨c, hc, -, hlocation, rfl⟩ := Notes.exists_call_of_mem hgroup hnote
    obtain ⟨⟨y, m⟩, hy, hcy⟩ := mem_flatMap.mp hc
    obtain rfl : m = l := by
      have := (belongsTo_of_mem_docstrings hcy).1
      simp only at this hlocation
      omega
    obtain rfl := eq_of_mem_zipIdx hx hy
    obtain ⟨text, htext, rfl⟩ := (mem_docstrings_iff ho m c).mp hcy
    exact ⟨text, htext, rfl⟩
  · rintro ⟨text, htext, rfl⟩
    have hc := (mem_docstrings_iff ho l _).mpr ⟨text, htext, rfl⟩
    have hmem : _ ∈ projectDocstrings files := mem_flatMap.mpr ⟨(x, l), hx, hc⟩
    obtain ⟨notes, hgroup, hnote⟩ := Notes.exists_group_of_mem hmem
    exact ⟨_, hgroup, rfl, _, hnote, rfl⟩

lemma mem_rows_iff {p : Places} {rows : List RangePlace} {lines? : Listed → Option (Int × Int)}
    (h : Forall₂ (p.Shows RangePlace.location Places.readRange) rows
      (located (Listed.sited lines?) r))
    (hx : (x, l) ∈ r.zipIdx) :
    (∃ e ∈ rows, e.location = l ∧ (e.first, e.last) = lines) ↔ lines? x = some lines := by
  have hrows : rows.map (fun e => (e.location, e.first, e.last)) =
      (located (Listed.sited lines?) r).map fun lb => ((lb.1 : Int), lb.2.2) := by
    refine map_eq_map_of_forall₂ (fun hshows => ?_) h
    obtain ⟨hlocation, hread⟩ := hshows
    obtain ⟨file, -, hlines⟩ := Option.map_eq_some_iff.mp hread
    rw [hlocation, ← hlines]
  have hmem : (∃ e ∈ rows, e.location = l ∧ (e.first, e.last) = lines) ↔
      ((l : Int), lines) ∈ rows.map fun e => (e.location, e.first, e.last) := by
    simp only [mem_map, Prod.mk.injEq]
  rw [hmem, hrows]
  constructor
  · intro hlines
    obtain ⟨⟨m, path, b⟩, hb, heq⟩ := mem_map.mp hlines
    obtain ⟨hm, rfl⟩ := Prod.mk.inj heq
    obtain rfl : m = l := Int.ofNat.inj hm
    obtain ⟨y, hy, hsited⟩ := mem_located_iff.mp hb
    obtain rfl := eq_of_mem_zipIdx hx hy
    obtain ⟨b', hb', heq⟩ := Option.map_eq_some_iff.mp hsited
    rw [hb', (Prod.mk.inj heq).2]
  · intro hlines
    have hb : (l, x.path, lines) ∈ located (Listed.sited lines?) r :=
      mem_located_iff.mpr ⟨x, hx, by rw [Listed.sited, hlines]; rfl⟩
    exact mem_map.mpr ⟨_, hb, rfl⟩

lemma placed_iff (hx : (x, l) ∈ (roll files).zipIdx) (ho : x.outlined? = some o) :
    (ofFiles files).Placed o.kind l lines ↔ lines = (o.first, o.last) := by
  have hfaithful := placesFaithful_ofFiles files
  obtain ⟨path, entity⟩ := x
  cases entity with
  | module f =>
    cases ho
    refine (mem_rows_iff hfaithful.modules hx).trans ?_
    simp [Listed.moduleLines?, Outlined.ofModule, eq_comm]
  | «class» c =>
    cases ho
    refine (mem_rows_iff hfaithful.classes hx).trans ?_
    simp [Listed.classLines?, Outlined.ofClassHead, eq_comm]
  | function parent g =>
    cases ho
    refine (mem_rows_iff hfaithful.functions hx).trans ?_
    simp [Listed.functionLines?, Outlined.ofFunction, eq_comm]
  | «import» i => simp [Listed.outlined?] at ho

variable (files : List (String × File))

lemma map_fst_located_outlined? (kind : Ranged) :
    (located (fun x => x.outlined?.filter (·.kind = kind)) (roll files)).map Prod.fst =
      (ofFiles files).skeleton.ids kind := by
  have hfaithful := faithful_ofFiles files
  cases kind with
  | module =>
    rw [Skeleton.ids, map_location_of_shows hfaithful.modules]
    exact located_fst_congr (fun x => by obtain ⟨_, _ | _ | _ | _⟩ := x <;> rfl) _
  | «class» =>
    rw [Skeleton.ids, map_location_of_shows hfaithful.classes]
    exact located_fst_congr (fun x => by obtain ⟨_, _ | _ | _ | _⟩ := x <;> rfl) _
  | function =>
    rw [Skeleton.ids, map_location_of_shows hfaithful.functions]
    exact located_fst_congr (fun x => by obtain ⟨_, _ | _ | _ | _⟩ := x <;> rfl) _

lemma forall₂_outlined_ids (kind : Ranged) : Forall₂ (fun o l => o.kind = kind ∧
        (∀ lines, (ofFiles files).Placed kind l lines ↔ lines = (o.first, o.last)) ∧
        ∀ lines, (ofFiles files).Noted kind l lines ↔
          ∃ text, Outline.present? o.docstring = some text ∧ lines = docstringLines o.line text)
      ((files.flatMap fun pf => Outlined.ofFile pf.2).filter (·.kind = kind))
        ((ofFiles files).skeleton.ids kind) := by
  rw [← filterMap_outlined?_roll, filter_filterMap, ← located_snd, ← map_fst_located_outlined?,
    forall₂_map_left_iff, forall₂_map_right_iff, forall₂_same]
  rintro ⟨l, o⟩ hl
  obtain ⟨x, hx, hfilter⟩ := mem_located_iff.mp hl
  obtain ⟨ho, hkind⟩ := Option.filter_eq_some_iff.mp hfilter
  obtain rfl : o.kind = kind := of_decide_eq_true hkind
  exact ⟨rfl, fun _ => placed_iff hx ho, fun _ => noted_iff hx ho⟩

/-- The lines that an atlas gives the docstring of a definition lie inside the lines that it gives
the definition, and the docstring stands on them. -/
def InPlace (a : Atlas) (d : Definition) (l : Nat) : Prop :=
  ∃ noted placed, a.Noted d.kind l noted ∧ a.Placed d.kind l placed ∧ placed.1 ≤ noted.1 ∧
    noted.2 ≤ placed.2 ∧
    ∃ doc ∈ Locate.docstringSpan? d.body, noted.1 ≤ doc.first ∧ doc.last ≤ noted.2

end Atlas

end Index

namespace Definition

/-- The docstring of a definition, of this text, begins below the head and ends within the lines
that are estimated, and so far the definition goes on. -/
def Fits (d : Definition) (text : String) : Prop :=
  ∃ doc ∈ Locate.docstringSpan? d.body, d.line < doc.first ∧
    doc.last ≤ d.line + min (Atlas.lineCount text + 1) 10 ∧
    d.line + min (Atlas.lineCount text + 1) 10 ≤ d.span.last

instance (d : Definition) (text : String) : Decidable (d.Fits text) := by
  unfold Fits
  infer_instance

lemma inPlace_iff {a : Atlas} {l : Nat} {text : String} (hhead : d.span.first ≤ d.line + 1)
    (hplaced : ∀ lines, a.Placed d.kind l lines ↔ lines = (↑d.span.first, ↑d.span.last))
    (hnoted : ∀ lines, a.Noted d.kind l lines ↔
      ∃ text, d.text? = some text ∧ lines = Atlas.docstringLines d.line text)
    (htext : d.text? = some text) : a.InPlace d l ↔ d.Fits text := by
  unfold Atlas.InPlace Fits
  simp only [hplaced, hnoted, Atlas.docstringLines]
  constructor
  · rintro ⟨-, -, ⟨text', htext', rfl⟩, rfl, -, hlast, doc, hdoc, hfirst, hcover⟩
    obtain rfl := Option.some.inj (htext'.symm.trans htext)
    exact ⟨doc, hdoc, by omega, by omega, by omega⟩
  · rintro ⟨doc, hdoc, hfirst, hcover, hlast⟩
    exact ⟨_, _, ⟨text, htext, rfl⟩, rfl, by omega, by omega, doc, hdoc, by omega, by omega⟩

lemma first_le_of_mem_ofFunction (h : d ∈ ofFunction s) : d.span.first ≤ d.line + 1 := by
  cases s with
  | function span head body =>
    obtain rfl := mem_singleton.mp h
    exact Nat.le_succ _
  | _ => cases h

lemma first_le_of_mem_ofClass (h : d ∈ ofClass s) : d.span.first ≤ d.line + 1 := by
  cases s with
  | classDef span head body =>
    rcases mem_cons.mp h with rfl | hmethod
    · exact Nat.le_succ _
    · obtain ⟨t, -, ht⟩ := mem_flatMap.mp hmethod
      exact first_le_of_mem_ofFunction ht
  | _ => cases h

lemma first_le_of_mem {f : ParsedFile} (h : d ∈ f.definitions) : d.span.first ≤ d.line + 1 := by
  rcases mem_cons.mp h with rfl | h
  · exact Nat.le_refl _
  rcases mem_append.mp h with h | h
  · obtain ⟨s, -, hs⟩ := mem_flatMap.mp h
    exact first_le_of_mem_ofClass hs
  · obtain ⟨s, -, hs⟩ := mem_flatMap.mp h
    exact first_le_of_mem_ofFunction hs

end Definition

namespace Project

lemma forall₂_definitions_ids (p : Project) (files : List ParsedFile) (kind : Ranged) :
    let a := p.atlas (files.map ParsedFile.outline)
    Forall₂ (fun d l => d.span.first ≤ d.line + 1 ∧ d.kind = kind ∧
        (∀ lines, a.Placed kind l lines ↔ lines = (↑d.span.first, ↑d.span.last)) ∧
        ∀ lines, a.Noted kind l lines ↔ ∃ text, d.text? = some text ∧
        lines = Atlas.docstringLines d.line text)
      ((files.flatMap ParsedFile.definitions).filter (·.kind = kind)) (a.skeleton.ids kind) := by
  have hdefinitions : ((files.map ParsedFile.outline).map fun o =>
      (p.inside (Path.ofString o.path), o)).flatMap
        (fun pf => Outlined.ofFile pf.2) =
          (files.flatMap ParsedFile.definitions).map Outlined.ofDefinition := by
    simp only [flatMap_map, Outlined.ofFile_outline, map_flatMap]
  have h := Atlas.forall₂_outlined_ids
    ((files.map ParsedFile.outline).map fun o => (p.inside (Path.ofString o.path), o)) kind
  rw [hdefinitions, filter_map, forall₂_map_left_iff] at h
  refine (forall₂_and_left _ _).mpr ⟨fun d hd => ?_, h⟩
  obtain ⟨f, -, hf⟩ := mem_flatMap.mp (mem_of_mem_filter hd)
  exact Definition.first_le_of_mem hf

/-- For the definitions of a kind in files that parse, which are those that have the identifiers of
the kind: the places give each its own lines, and the docstrings, if it has one that is not empty,
the lines that are estimated. These lie inside the lines of the definition and cover its docstring
when the docstring fits, and only then. -/
theorem docstring_inPlace_iff_fits (p : Project) (files : List ParsedFile) (kind : Ranged) :
    let a := p.atlas (files.map ParsedFile.outline)
    Forall₂ (fun d l =>
        (∀ lines, a.Placed kind l lines ↔ lines = (↑d.span.first, ↑d.span.last)) ∧
        (∀ lines, a.Noted kind l lines ↔ ∃ text, d.text? = some text ∧
        lines = Atlas.docstringLines d.line text) ∧
        ∀ text, d.text? = some text → (a.InPlace d l ↔ d.Fits text))
      ((files.flatMap ParsedFile.definitions).filter (·.kind = kind)) (a.skeleton.ids kind) := by
  intro a
  refine (forall₂_definitions_ids p files kind).imp ?_
  rintro d l ⟨hhead, rfl, hplaced, hnoted⟩
  exact ⟨hplaced, hnoted, fun text htext => Definition.inPlace_iff hhead hplaced hnoted htext⟩

/-- A function that goes on after its docstring, which has four lines. -/
def roomyFile : ParsedFile where
  path := ⟨"/", ["p", "a.py"]⟩
  text := "def f():\n    '''Reads.\n\n    Twice.\n    '''\n    return 1\n".toList
  module := (parseModule?
    "def f():\n    '''Reads.\n\n    Twice.\n    '''\n    return 1\n".toList).get (by decide +kernel)
  parsed := (Option.some_get _).symm

theorem docstring_inPlace_roomyFile :
    let p : Project := { path := ⟨"/", ["p"]⟩, output := ⟨"/", ["o"]⟩ }
    let a := p.atlas [roomyFile.outline]
    let functions := roomyFile.definitions.filter (·.kind = .function)
    functions.length = 1 ∧ Forall₂ a.InPlace functions (a.skeleton.ids .function) := by
  intro p a functions
  have hfits : ∀ d ∈ functions, ∃ text ∈ d.text?, d.Fits text := by decide +kernel
  refine ⟨by decide +kernel, ?_⟩
  have h := docstring_inPlace_iff_fits p [roomyFile] .function
  rw [flatMap_singleton] at h
  refine ((forall₂_and_left _ _).mpr ⟨hfits, h⟩).imp ?_
  rintro d l ⟨⟨text, htext, hd⟩, -, -, hiff⟩
  exact (hiff text htext).mpr hd

/-- A function that ends with its docstring, which has one line. -/
def shortFile : ParsedFile where
  path := ⟨"/", ["p", "a.py"]⟩
  text := "def f():\n    'doc'\n".toList
  module := (parseModule? "def f():\n    'doc'\n".toList).get (by decide +kernel)
  parsed := (Option.some_get _).symm

/-- The docstring on the second line of a function that ends there is said to go on to the third
line. -/
theorem docstring_past_end : let p : Project := { path := ⟨"/", ["p"]⟩, output := ⟨"/", ["o"]⟩ }
    let a := p.atlas [shortFile.outline]
    let functions := shortFile.definitions.filter (·.kind = .function)
    functions.length = 1 ∧ Forall₂ (fun d l => d.text? = some "doc" ∧ a.Noted .function l (2, 3) ∧
      a.Placed .function l (1, 2) ∧ ¬ a.InPlace d l) functions (a.skeleton.ids .function) := by
  intro p a functions
  have hshort : ∀ d ∈ functions, d.text? = some "doc" ∧ ¬ d.Fits "doc" ∧
      Atlas.docstringLines d.line "doc" = (2, 3) ∧ (d.span.first, d.span.last) = (1, 2) :=
      by decide +kernel
  refine ⟨by decide +kernel, ?_⟩
  have h := forall₂_definitions_ids p [shortFile] .function
  rw [flatMap_singleton] at h
  refine ((forall₂_and_left _ _).mpr ⟨hshort, h⟩).imp ?_
  rintro d l ⟨⟨htext, hd, hlines, hspan⟩, hhead, hkind, hplaced, hnoted⟩
  obtain ⟨hfirst, hlast⟩ := Prod.mk.inj hspan
  refine ⟨htext, (hnoted _).mpr ⟨_, htext, hlines.symm⟩,
    (hplaced _).mpr (by rw [hfirst, hlast]; rfl), ?_⟩
  rw [← hkind] at hplaced hnoted
  exact fun hin => hd ((Definition.inPlace_iff hhead hplaced hnoted htext).mp hin)

end Project

end CodeAtlas
