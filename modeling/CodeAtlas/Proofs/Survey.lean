import CodeAtlas.Proofs.Catalog.Sound
import CodeAtlas.Proofs.Index.Fidelity
import CodeAtlas.Proofs.Outline

/-!
# Two indexes of one program

A survey is what is left of an index when all numbers are resolved. The skeleton is made from
outlines, class by class, the catalog from statements, in their order; both survey the program.
-/

namespace CodeAtlas

open List Syntax Function

variable {e : FunctionEntry} {α γ ρ : Type} {rows : List ρ} {i k : Nat}
  {sources : List (String × Module)} {files : List Source}

/-! ### Surveys -/

structure Survey where
  /-- The classes: the file, the name, and the names of the methods. -/
  classes : List (String × String × List String)
  /-- The functions at the top of modules: the file and the name. -/
  functions : List (String × String)
deriving DecidableEq, Repr

namespace Survey

/-- The classes of a file, with their methods. -/
def classesIn (v : Survey) (file : String) : List (String × List String) :=
  (v.classes.filter (·.1 = file)).map (·.2)

def functionsIn (v : Survey) (file : String) : List String :=
  (v.functions.filter (·.1 = file)).map (·.2)

end Survey

/-- A source file: its place below the directory of its project, its text, the module that it holds,
and its digest. -/
structure Source where
  place : List String
  named : ∀ w ∈ place, Path.IsName w
  text : List Char
  module : Module
  digest : String

namespace Source

/-- The path of a file as seen from its project. -/
def path (x : Source) : Path := ⟨"", x.place⟩

/-- The path of a file, spelled with slashes only. -/
def spelling (x : Source) : String := (Path.ofString (Text.replaceAll x.path.text "\\" "/")).text

/-- The classes that stand in a file, with the names of their methods. -/
def classes (x : Source) : List (String × List String) :=
  (Outline.classBodies x.module.body).map fun nb => (nb.1, Catalog.methodNames nb.2)

/-- The functions that stand in a file. -/
def functions (x : Source) : List String := Catalog.methodNames x.module.body

end Source

/-- The survey of a program whose files go by `name`. -/
def Survey.ofSources (name : Source → String) (files : List Source) : Survey where
  classes := files.flatMap fun x => x.classes.map (name x, ·)
  functions := files.flatMap fun x => x.functions.map (name x, ·)

/-! ### What an index says, with its numbers resolved -/

namespace Index

/-- The number of the class of a function. -/
def FunctionEntry.owner (e : FunctionEntry) : Option Nat :=
  match e.parent with
  | .ofNat k => some k
  | .negSucc _ => none

namespace Skeleton

variable (s : Skeleton)

/-- The class with a number: its file, its name, and the names of the functions that it owns. -/
def surveyClass? (ek : ClassEntry × Nat) : Option (String × String × List String) := do
  let file ← s.files.get? ek.1.file
  let name ← s.names.get? ek.1.name
  let methods ← (s.functions.filter (·.owner = some ek.2)).mapM fun e => s.names.get? e.name
  return (file, name, methods)

/-- The file and the name of a function. -/
def surveyFunction? (e : FunctionEntry) : Option (String × String) := do
  let file ← s.files.get? e.file
  let name ← s.names.get? e.name
  return (file, name)

/-- The survey of a skeleton, if all numbers have their texts. -/
def survey? : Option Survey := do
  let classes ← s.classes.zipIdx.mapM s.surveyClass?
  let functions ← (s.functions.filter (·.owner = none)).mapM s.surveyFunction?
  return ⟨classes, functions⟩

end Skeleton

end Index

namespace Catalog

variable (c : Catalog)

def pathOf? (module : Nat) : Option String := do
  let row ← c.modules[module]?
  c.files.get? row.file

def functionName? (function : Nat) : Option String := do
  let row ← c.functions[function]?
  c.names.get? row.name

/-- A class: the path of its module, its name, and the names of the functions that it lists. -/
def surveyClass? (r : ClassRow) : Option (String × String × List String) := do
  let file ← c.pathOf? r.module
  let name ← c.names.get? r.name
  let methods ← r.methods.mapM c.functionName?
  return (file, name, methods)

/-- The path of the module of a function, and its name. -/
def surveyFunction? (r : FunctionRow) : Option (String × String) := do
  let file ← c.pathOf? r.module
  let name ← c.names.get? r.name
  return (file, name)

/-- The survey of a catalog, if all numbers have their rows and texts. -/
def survey? : Option Survey := do
  let classes ← c.classes.mapM c.surveyClass?
  let functions ← (c.functions.filter (·.parent = none)).mapM c.surveyFunction?
  return ⟨classes, functions⟩

end Catalog

/-! ### Numbered groups -/

/-- The members of groups that are numbered from `n`, each with the number of its group. -/
def tagged {β : Type} (n : Nat) (groups : List (List β)) : List (Nat × β) :=
  (groups.zipIdx n).flatMap fun gk => gk.1.map (gk.2, ·)

/-- What has an owner, with its owner. -/
def owned {β : Type} (fs : List (Option Nat × β)) : List (Nat × β) :=
  fs.filterMap fun f => f.1.map (·, f.2)

section groups

variable {β : Type} {n : Nat} {groups : List (List β)}

lemma tagged_cons (g : List β) :
    tagged n (g :: groups) = g.map (n, ·) ++ tagged (n + 1) groups := by
  simp [tagged, zipIdx_cons]

lemma tagged_append (xs ys : List (List β)) :
    tagged n (xs ++ ys) = tagged n xs ++ tagged (n + xs.length) ys := by
  simp [tagged, zipIdx_append]

lemma le_of_mem_tagged {n : Nat} {groups : List (List β)} {p : Nat × β} (h : p ∈ tagged n groups) :
    n ≤ p.1 := by
  obtain ⟨gk, hgk, hp⟩ := mem_flatMap.mp h
  obtain ⟨b, -, rfl⟩ := mem_map.mp hp
  exact le_snd_of_mem_zipIdx hgk

/-- The members with the number of a group are the group. -/
lemma filter_tagged (n : Nat) :
    ∀ gk ∈ groups.zipIdx n, ((tagged n groups).filter (·.1 = gk.2)).map (·.2) = gk.1 := by
  induction groups generalizing n with
  | nil => simp
  | cons g groups ih =>
    intro gk hgk
    rw [tagged_cons, filter_append, map_append]
    rcases mem_cons.mp (zipIdx_cons ▸ hgk) with rfl | hgk
    · have hlater : (tagged (n + 1) groups).filter (·.1 = n) = [] := by
        rw [filter_eq_nil_iff]
        intro p hp
        have hle := le_of_mem_tagged hp
        simp only [decide_eq_true_eq]
        omega
      simp [hlater, filter_map, comp_def]
    · have hne : n ≠ gk.2 := by
        have := le_snd_of_mem_zipIdx hgk
        omega
      rw [ih (n + 1) gk hgk]
      simp [filter_map, comp_def, hne]

lemma filter_owned (fs : List (Option Nat × β)) :
    (fs.filter (·.1 = some k)).map (·.2) = ((owned fs).filter (·.1 = k)).map (·.2) := by
  induction fs with
  | nil => rfl
  | cons f fs ih =>
    obtain ⟨_ | j, b⟩ := f
    · simpa [owned] using ih
    · by_cases hj : j = k
      · simpa [owned, hj] using ih
      · simpa [owned, hj] using ih

lemma mapM_filter_of_forall₂ {owner : ρ → Option Nat} {read : ρ → Option β}
    {fs : List (Option Nat × β)}
    (h : Forall₂ (fun r f => owner r = f.1 ∧ read r = some f.2) rows fs) (o : Option Nat) :
    (rows.filter (owner · = o)).mapM read = some ((fs.filter (·.1 = o)).map (·.2)) := by
  induction h with
  | nil => rfl
  | @cons r f rows fs hrf _ ih =>
    obtain ⟨howner, hread⟩ := hrf
    by_cases ho : f.1 = o
    · simp [howner, ho, hread, ih]
    · simp [howner, ho, ih]

lemma mapM_owner_of_forall₂ {ρ : Type} {owner : ρ → Option Nat} {read : ρ → Option β}
    {rows : List ρ} {fs : List (Option Nat × β)} {groups : List (List β)}
    (h : Forall₂ (fun r f => owner r = f.1 ∧ read r = some f.2) rows fs)
    (hgroups : owned fs = tagged 0 groups) {g : List β} {k : Nat} (hg : (g, k) ∈ groups.zipIdx) :
    (rows.filter (owner · = some k)).mapM read = some g := by
  rw [mapM_filter_of_forall₂ h, filter_owned, hgroups, filter_tagged 0 (g, k) hg]

lemma mapM_zipIdx_of_forall₂ {R : ρ → α → Prop} {read : ρ × Nat → Option γ} {g : α → γ}
    {xs : List α} (h : Forall₂ R rows xs) :
    ∀ n, (∀ r x k, (r, k) ∈ rows.zipIdx n → (x, k) ∈ xs.zipIdx n → R r x →
      read (r, k) = some (g x)) → (rows.zipIdx n).mapM read = some (xs.map g) := by
  induction h with
  | nil => exact fun _ _ => rfl
  | @cons r x rows xs hrx _ ih =>
    intro n hread
    have hhead := hread r x n (by simp [zipIdx_cons]) (by simp [zipIdx_cons]) hrx
    have htail := ih (n + 1) fun r' x' k hr hx =>
      hread r' x' k (by rw [zipIdx_cons]; exact mem_cons_of_mem _ hr)
        (by rw [zipIdx_cons]; exact mem_cons_of_mem _ hx)
    rw [zipIdx_cons, mapM_cons, hhead, htail]
    rfl

end groups

/-! ### The survey of a skeleton -/

namespace Index

open Skeleton (fileName)

/-- A function of files with the number of its class, and what is taken of it. -/
def labelled {β : Type} (take : FunctionReading → β)
    (g : Option (Nat × ClassReading) × FunctionReading) : Option Nat × β :=
  (g.1.map (·.1), take g.2)

section

variable {β : Type} (take : FunctionReading → β) (files : List (String × Outline.File)) (n : Nat)

lemma owned_functionsFrom :
    owned ((functionsFrom n files).map (labelled take)) =
      tagged n (files.flatMap fun pf => pf.2.classes.map fun c =>
        c.methods.map fun m => take (functionReading pf.1 m)) := by
  induction files generalizing n with
  | nil => rfl
  | cons pf files ih =>
    obtain ⟨path, f⟩ := pf
    have ih := ih (n + f.classes.length)
    unfold owned at ih ⊢
    rw [functionsFrom, map_append, filterMap_append, ih, flatMap_cons, tagged_append,
      length_map]
    congr 1
    rw [map_append, filterMap_append]
    simp [tagged, labelled, filterMap_map, filterMap_flatMap, map_flatMap, zipIdx_map,
      flatMap_map, comp_def]

lemma unowned_functionsFrom :
    (((functionsFrom n files).map (labelled take)).filter (·.1 = none)).map (·.2) =
      files.flatMap fun pf => pf.2.functions.map fun m => take (functionReading pf.1 m) := by
  induction files generalizing n with
  | nil => rfl
  | cons pf files ih =>
    obtain ⟨path, f⟩ := pf
    have ih := ih (n + f.classes.length)
    rw [functionsFrom, map_append, filter_append, map_append, ih, flatMap_cons]
    congr 1
    rw [map_append, filter_append]
    simp [labelled, filter_map, filter_flatMap, map_flatMap, comp_def]

end

namespace Skeleton

variable {s : Skeleton}

lemma owner_of_readMember {g : Option (Nat × ClassReading) × FunctionReading}
    (h : s.readMember e = some g) : e.owner = g.1.map (·.1) ∧ s.readFunction e = some g.2 := by
  simp only [readMember, Option.bind_eq_bind, Option.bind_eq_some_iff, Option.pure_def,
    Option.some.injEq] at h
  obtain ⟨owner, howner, f, hf, rfl⟩ := h
  refine ⟨?_, hf⟩
  unfold readParent at howner
  split_ifs at howner with hnone hneg
  · -- no class
    obtain rfl := Option.some.inj howner
    rw [FunctionEntry.owner, hnone]
    rfl
  · simp only [Option.bind_eq_bind, Option.bind_eq_some_iff, Option.pure_def,
      Option.some.injEq] at howner
    obtain ⟨row, -, c, -, rfl⟩ := howner
    obtain ⟨k, hk⟩ := Int.eq_ofNat_of_zero_le (Int.not_lt.mp hneg)
    rw [FunctionEntry.owner, hk]
    rfl

lemma survey?_of_reads (files : List (String × Outline.File))
    (hclasses : s.classes.map s.readClass =
      (files.flatMap fun pf => pf.2.classes.map (classReading pf.1)).map some)
    (hmembers : s.functions.map s.readMember = (functionsFrom 0 files).map some) : s.survey? = some
      { classes := files.flatMap fun pf => pf.2.classes.map fun c =>
        (pf.1, c.name, c.methods.map (·.name))
        functions := files.flatMap fun pf => pf.2.functions.map fun f => (pf.1, f.name) } := by
  have hmembers := forall₂_of_map_eq hmembers
  have hnames : Forall₂ (fun e f => e.owner = f.1 ∧ s.names.get? e.name = some f.2) s.functions
      ((functionsFrom 0 files).map (labelled (·.name))) := by
    refine forall₂_map_right_iff.mpr (hmembers.imp fun e g hg => ?_)
    obtain ⟨howner, hread⟩ := owner_of_readMember hg
    exact ⟨howner, (readFunction_eq_some_iff.mp hread).1⟩
  have hfunctions : Forall₂ (fun e f => e.owner = f.1 ∧ s.surveyFunction? e = some f.2) s.functions
      ((functionsFrom 0 files).map (labelled fun f => (f.file, f.name))) := by
    refine forall₂_map_right_iff.mpr (hmembers.imp fun e g hg => ?_)
    obtain ⟨howner, hread⟩ := owner_of_readMember hg
    obtain ⟨hname, hfile, -⟩ := readFunction_eq_some_iff.mp hread
    exact ⟨howner, by simp [surveyFunction?, hname, hfile, labelled]⟩
  -- the classes in order, each with its file
  let cs := files.flatMap fun pf => pf.2.classes.map (pf.1, ·)
  have hrows : Forall₂ (fun e (fc : String × Outline.Class) =>
      s.names.get? e.name = some fc.2.name ∧ s.files.get? e.file = some fc.1) s.classes cs := by
    have hmap : (files.flatMap fun pf => pf.2.classes.map (classReading pf.1)) =
        cs.map fun fc => classReading fc.1 fc.2 := by
      simp [cs, map_flatMap, comp_def]
    rw [hmap] at hclasses
    refine (forall₂_map_right_iff.mp (forall₂_of_map_eq hclasses)).imp fun e fc h => ?_
    obtain ⟨hname, -, hfile, -⟩ := readClass_eq_some_iff.mp h
    exact ⟨hname, hfile⟩
  have howned : owned ((functionsFrom 0 files).map (labelled (·.name))) =
      tagged 0 (cs.map fun fc => fc.2.methods.map (·.name)) := by
    rw [owned_functionsFrom]
    simp [cs, map_flatMap, comp_def, functionReading]
  have hsurvey : s.classes.zipIdx.mapM s.surveyClass? =
      some (cs.map fun fc => (fc.1, fc.2.name, fc.2.methods.map (·.name))) := by
    refine mapM_zipIdx_of_forall₂ hrows 0 fun e fc k _ hfc hread => ?_
    have hmethods := mapM_owner_of_forall₂ hnames howned
      (g := fc.2.methods.map (·.name)) (k := k) (by
        rw [zipIdx_map]
        exact mem_map_of_mem hfc)
    simp [surveyClass?, hread.1, hread.2, hmethods]
  rw [survey?, hsurvey, mapM_filter_of_forall₂ hfunctions, unowned_functionsFrom]
  simp [cs, map_flatMap, comp_def, functionReading]

end Skeleton

end Index

/-! ### The survey of a catalog -/

namespace Catalog

lemma map_getElem?_findIdxs (p : α → Bool) (xs : List α) :
    (xs.findIdxs p).map (xs[·]?) = (xs.filter p).map some := by
  induction xs with
  | nil => rfl
  | cons x xs ih =>
    have htail : (xs.findIdxs p 1).map ((x :: xs)[·]?) = (xs.filter p).map some := by
      rw [findIdxs_start, map_map, ← ih]
      rfl
    by_cases hx : p x
    · rw [findIdxs_cons, if_pos hx, filter_cons_of_pos hx, map_cons, map_cons]
      exact congrArg _ htail
    · rw [findIdxs_cons, if_neg hx, filter_cons_of_neg hx]
      exact htail

variable {c : Catalog} {n : Nat} {stmts : List (Nat × Stmt)}

lemma Sound.mapM_methods (hc : c.Sound n) {r : ClassRow} (hr : c.classes[k]? = some r) :
    r.methods.mapM c.functionName? = (c.functions.filter (·.parent = some k)).mapM fun f =>
      c.names.get? f.name := by
  have hnumbers : ∀ is : List Nat, is.mapM c.functionName? =
      (is.map (c.functions[·]?)).mapM fun o => o.bind fun f => c.names.get? f.name := by
    intro is
    rw [mapM_map]
    rfl
  rw [hc.methods k r hr, methodsOf, hnumbers, map_getElem?_findIdxs, mapM_map]
  rfl

/-! ### Statements and sites -/

/-- The functions among the statements of modules: the number of the module, and the name. -/
def topFunctions (stmts : List (Nat × Stmt)) : List (Nat × String) :=
  stmts.filterMap fun is =>
    match is.2 with
    | .function _ head _ => some (is.1, head.name)
    | _ => none

lemma topFunctions_map (body : List Stmt) :
    topFunctions (body.map (i, ·)) = (methodNames body).map (i, ·) := by
  unfold topFunctions methodNames
  rw [filterMap_map, map_filterMap]
  congr 1
  funext s
  cases s <;> rfl

lemma owner_of_mem_methodSites {body : List Stmt} {s : FunctionSite}
    (h : s ∈ methodSites i k body) : s.owner = some k := by
  obtain ⟨stmt, -, hstmt⟩ := mem_filterMap.mp h
  cases stmt with
  | function span head inner =>
    obtain rfl := Option.some.inj hstmt
    rfl
  | _ => simp at hstmt

lemma filter_functionSites (k : Nat) :
    ((functionSites k stmts).filter (·.owner = none)).map (fun s => (s.module, s.head.name)) =
      topFunctions stmts := by
  induction stmts generalizing k with
  | nil => rfl
  | cons is stmts ih =>
    obtain ⟨i, s⟩ := is
    cases s with
    | classDef span head body =>
      have hmethods : (methodSites i k body).filter (·.owner = none) = [] := by
        rw [filter_eq_nil_iff]
        intro s hs
        simp [owner_of_mem_methodSites hs]
      rw [functionSites, filter_append, hmethods, nil_append]
      exact ih (k + 1)
    | function span head body =>
      rw [functionSites, filter_cons_of_pos (by simp), map_cons]
      exact congrArg _ (ih k)
    | _ => exact ih k

variable (g : Nat → String × List Stmt → γ)

lemma classSites_map (body : List Stmt) :
    (classSites (body.map (i, ·))).map (fun s => g s.module (s.head.name, s.body)) =
      (Outline.classBodies body).map (g i) := by
  unfold classSites Outline.classBodies
  rw [filterMap_map, map_filterMap, map_filterMap]
  congr 1
  funext s
  cases s <;> rfl

lemma map_classSites_statements (sources : List (String × Module)) :
    (classSites (statements sources)).map (fun s => g s.module (s.head.name, s.body)) =
      sources.zipIdx.flatMap fun xi => (Outline.classBodies xi.1.2.body).map (g xi.2) := by
  have hsites : classSites (statements sources) =
      sources.zipIdx.flatMap fun xi => classSites (xi.1.2.body.map (xi.2, ·)) := filterMap_flatMap
  rw [hsites, map_flatMap]
  simp only [classSites_map]

lemma map_topFunctions_statements (g : Nat × String → γ) (sources : List (String × Module)) :
    (topFunctions (statements sources)).map g =
      sources.zipIdx.flatMap fun xi => (methodNames xi.1.2.body).map fun f => g (xi.2, f) := by
  have htop : topFunctions (statements sources) =
      sources.zipIdx.flatMap fun xi => topFunctions (xi.1.2.body.map (xi.2, ·)) := filterMap_flatMap
  rw [htop, map_flatMap]
  simp only [topFunctions_map, map_map]
  rfl

lemma owned_functionSites (k : Nat) :
    owned ((functionSites k stmts).map fun s => (s.owner, s.head.name)) =
      tagged k ((classSites stmts).map fun s => methodNames s.body) := by
  induction stmts generalizing k with
  | nil => rfl
  | cons is stmts ih =>
    obtain ⟨i, s⟩ := is
    cases s with
    | classDef span head body =>
      have hmethods : owned ((methodSites i k body).map fun s => (s.owner, s.head.name)) =
          (methodNames body).map (k, ·) := by
        unfold owned methodSites methodNames
        rw [filterMap_map, filterMap_filterMap, map_filterMap]
        congr 1
        funext s
        cases s <;> rfl
      have hclass : classSites ((i, .classDef span head body) :: stmts) =
          ⟨i, span, head, body⟩ :: classSites stmts := rfl
      rw [functionSites, map_append, hclass, map_cons, tagged_cons, ← ih (k + 1), ← hmethods]
      exact filterMap_append
    | function span head body => exact ih k
    | _ => exact ih k

/-! ### Catalogs of modules -/

/-- The path of the module with a number, among modules with their paths. -/
def pathAt (sources : List (String × Module)) (i : Nat) : String :=
  ((sources[i]?).map (·.1)).getD ""

/-- A catalog is made of modules one after the other: its modules have their paths, its rows are
those of their statements, and its tables fit together. -/
structure MadeOf (c : Catalog) (sources : List (String × Module)) : Prop where
  paths : Forall₂ (fun r x => c.files.get? r.file = some x.1) c.modules sources
  rows : c.RecordsAll sources
  sound : c.Sound c.classes.length

lemma MadeOf.addModule (hc : c.MadeOf sources) {docs : Bool} (m : Path × String × Module)
    {k : ModuleSketch} (hk : moduleSketch docs m.2.2 = .ok k) :
    (c.addModule (moduleName m.1) m.1.text m.2.1 k).1.MadeOf (sources ++ [(m.1.text, m.2.2)]) where
  paths := by
    obtain ⟨hfiles, hmodules⟩ := files_modules_addModule c (moduleName m.1) m.1.text m.2.1 k
    rw [hfiles, hmodules]
    refine rel_append (hc.paths.imp fun r x hr => ?_) (.cons ?_ .nil)
    · exact (Table.extends_add _ _).get? hr
    · exact Table.get?_add _ _
  rows := hc.rows.addModule _ _ _ (x := (m.1.text, m.2.2)) hk
  sound := hc.sound.addModule _ _ _ _

lemma madeOf_recorded {docs : Bool} {texts : List String} {ms : List (Path × String × Module)}
    (h : recorded docs texts ms = .ok c) : c.MadeOf (ms.map fun m => (m.1.text, m.2.2)) := by
  have hstart : (({} : Catalog).addNames texts).1.MadeOf [] :=
    { paths := .nil
      rows := (renames_addNames _ texts).keeps.recordsAll ⟨rfl, .nil, .nil⟩
      sound := sound_empty.renames (renames_addNames _ texts) }
  refine invariant_recorded (P := fun ms c => c.MadeOf (ms.map fun m => (m.1.text, m.2.2))) hstart
    (fun m k hk hc => ?_) h
  rw [map_append]
  exact hc.addModule m hk

lemma MadeOf.pathOf?_eq (hc : c.MadeOf sources) (hi : i < c.modules.length) :
    c.pathOf? i = some (pathAt sources i) := by
  have hlt : i < sources.length := hc.paths.length_eq ▸ hi
  have hget := (forall₂_iff_get.mp hc.paths).2 i hi hlt
  simp only [get_eq_getElem] at hget
  simp [pathOf?, pathAt, getElem?_eq_getElem hi, getElem?_eq_getElem hlt, hget]

lemma flatMap_zipIdx_pathAt (g : String → Module → List γ) :
    sources.zipIdx.flatMap (fun xi => g (pathAt sources xi.2) xi.1.2) = sources.flatMap fun x =>
      g x.1 x.2 := by
  have hpath : ∀ xi ∈ sources.zipIdx, g (pathAt sources xi.2) xi.1.2 = g xi.1.1 xi.1.2 := by
    intro xi hxi
    have hget := mem_zipIdx_iff_getElem?.mp hxi
    rw [pathAt, hget]
    rfl
  rw [flatMap_congr hpath, Index.flatMap_zipIdx_fst sources fun x => g x.1 x.2]

lemma MadeOf.survey?_eq {sources : List (String × Module)} (hc : c.MadeOf sources) :
    c.survey? = some
      { classes := sources.flatMap fun x => (Outline.classBodies x.2.body).map fun nb =>
        (x.1, nb.1, methodNames nb.2)
        functions := sources.flatMap fun x => (methodNames x.2.body).map (x.1, ·) } := by
  let stmts := statements sources
  have hmodule : ∀ i ∈ c.moduleRefs, c.pathOf? i = some (pathAt sources i) :=
    fun i hi => hc.pathOf?_eq (hc.sound.moduleRefs_lt i hi)
  have hnames : Forall₂ (fun r f => r.parent = f.1 ∧ c.names.get? r.name = some f.2) c.functions
      ((functionSites 0 stmts).map fun s => (s.owner, s.head.name)) :=
    forall₂_map_right_iff.mpr (hc.rows.records.functions.imp fun r s hr => ⟨hr.parent, hr.name⟩)
  have hclasses : c.classes.mapM c.surveyClass? = some ((classSites stmts).map fun s =>
      (pathAt sources s.module, s.head.name, methodNames s.body)) := by
    rw [← zipIdx_map_fst 0 c.classes, mapM_map]
    refine mapM_zipIdx_of_forall₂ hc.rows.records.classes 0 fun r s k hr hs hrs => ?_
    have hpath := hmodule r.module (by
      simp only [moduleRefs, mem_append]
      exact .inl (.inl (.inl (mem_map_of_mem (fst_mem_of_mem_zipIdx hr)))))
    have hmethods := mapM_owner_of_forall₂ hnames (owned_functionSites 0)
      (g := methodNames s.body) (k := k) (by
        rw [zipIdx_map]
        exact mem_map_of_mem hs)
    rw [← hc.sound.mapM_methods (mem_zipIdx_iff_getElem?.mp hr)] at hmethods
    rw [hrs.module] at hpath
    simp [surveyClass?, hrs.module, hpath, hrs.name, hmethods]
  have hfunctions : Forall₂ (fun r f => r.parent = f.1 ∧ c.surveyFunction? r = some f.2) c.functions
      ((functionSites 0 stmts).map fun s => (s.owner, pathAt sources s.module, s.head.name)) := by
    have hpath : ∀ r ∈ c.functions, c.pathOf? r.module = some (pathAt sources r.module) := by
      intro r hr
      apply hmodule
      simp only [moduleRefs, mem_append]
      exact .inl (.inl (.inr (mem_map_of_mem hr)))
    refine forall₂_map_right_iff.mpr
      (((forall₂_and_left _ _).mpr ⟨hpath, hc.rows.records.functions⟩).imp fun r s hrs => ?_)
    obtain ⟨hr, hrs⟩ := hrs
    rw [hrs.module] at hr
    exact ⟨hrs.parent, by simp [surveyFunction?, hrs.module, hr, hrs.name]⟩
  have htop : (((functionSites 0 stmts).map fun s =>
      (s.owner, pathAt sources s.module, s.head.name)).filter
        (·.1 = none)).map (·.2) = (topFunctions stmts).map fun f => (pathAt sources f.1, f.2) := by
    rw [← filter_functionSites 0, filter_map, map_map, map_map]
    rfl
  rw [survey?, hclasses, mapM_filter_of_forall₂ hfunctions, htop]
  simp only [Option.bind_eq_bind, Option.bind_some, Option.pure_def, Option.some.injEq,
    Survey.mk.injEq]
  constructor
  · rw [← flatMap_zipIdx_pathAt fun path m => (Outline.classBodies m.body).map fun nb =>
      (path, nb.1, methodNames nb.2)]
    exact map_classSites_statements (fun i nb => (pathAt sources i, nb.1, methodNames nb.2)) sources
  · rw [← flatMap_zipIdx_pathAt fun path m => (methodNames m.body).map (path, ·)]
    exact map_topFunctions_statements (fun f => (pathAt sources f.1, f.2)) sources

end Catalog

/-! ### Sources of a project -/

namespace Source

def outline (directory : Path) (x : Source) : Outline.File :=
  Outline.ofModule (Files.below directory x.place) x.text x.module

/-- A file as it is recorded in a catalog. -/
def listed (x : Source) : Path × String × Module := (x.path, x.digest, x.module)

section

variable (p : Project) (directory : String) (hp : p.path = Path.ofString directory) (x : Source)

include hp

lemma seen_outline : p.seen (x.outline p.path) = x.path := by
  have hread : Path.ofString (x.outline p.path).path = Files.below p.path x.place := by
    apply Path.ofString_text_of_root
    · rw [hp]
      exact Path.root_ofString directory
    · intro w hw
      rcases mem_append.mp hw with hw | hw
      · rw [hp] at hw
        exact Path.isName_of_mem_ofString hw
      · exact x.named w hw
  rw [Project.seen, hread, Files.relativeTo?_below]
  rfl

lemma spelling_outline : p.spelling (x.outline p.path) = x.spelling := by
  rw [Project.spelling, seen_outline p directory hp]
  rfl

end

lemma spelling_of_notMem {x : Source} (h : '\\' ∉ x.path.text.toList) : x.spelling = x.path.text :=
  Path.text_ofString_replaceAll rfl x.named h

end Source

/-- The atlas of a program surveys it, with all paths spelled with slashes only. -/
lemma survey?_atlas (p : Project) (directory : String) (hp : p.path = Path.ofString directory)
    (files : List Source) :
    (p.atlas (files.map (·.outline p.path))).skeleton.survey? =
      some (Survey.ofSources Source.spelling files) := by
  have hname : ∀ x : Source,
      Index.Skeleton.fileName (p.inside (Path.ofString (x.outline p.path).path)) = x.spelling := by
    intro x
    rw [p.fileName_inside, x.spelling_outline p directory hp]
  have hclasses : ∀ x : Source,
      (x.outline p.path).classes.map (fun c => (x.spelling, c.name, c.methods.map (·.name))) =
        x.classes.map (x.spelling, ·) := by
    intro x
    have h := congrArg (List.map (x.spelling, ·))
      (Outline.names_classes (Outline.comments x.text) x.module)
    rw [map_map] at h
    exact h
  have hfunctions : ∀ x : Source,
      (x.outline p.path).functions.map (fun f => (x.spelling, f.name)) =
        x.functions.map (x.spelling, ·) := by
    intro x
    have h := congrArg (List.map (x.spelling, ·))
      (Outline.names_functions (Outline.comments x.text) x.module)
    rw [map_map] at h
    exact h
  rw [Index.Skeleton.survey?_of_reads (files.map fun x => (x.spelling, x.outline p.path))]
  · simp only [flatMap_map, hclasses, hfunctions, Survey.ofSources]
  · rw [Project.atlas, Index.Atlas.readClass_ofFiles]
    simp only [flatMap_map, hname]
  · rw [Project.atlas, Index.Atlas.readMember_ofFiles, map_map, map_map]
    simp only [comp_def, hname]

/-- The catalog of a program surveys it. -/
lemma survey?_recorded {docs : Bool} {texts : List String} {c : Catalog}
    (h : Catalog.recorded docs texts (files.map Source.listed) = .ok c) :
    c.survey? = some (Survey.ofSources (·.path.text) files) := by
  rw [(Catalog.madeOf_recorded h).survey?_eq]
  simp [Survey.ofSources, Source.classes, Source.functions, Source.listed, flatMap_map, comp_def]

/-! ### File by file -/

namespace Survey

variable (name : Source → String) {f : String}

lemma filter_flatMap_name (what : Source → List γ) (files : List Source) (f : String) :
    ((files.flatMap fun x => (what x).map (name x, ·)).filter (·.1 = f)).map (·.2) =
      (files.filter (name · = f)).flatMap what := by
  induction files with
  | nil => rfl
  | cons x files ih =>
    rw [flatMap_cons, filter_append, map_append, ih]
    by_cases hx : name x = f
    · simp [hx, filter_map, comp_def]
    · simp [hx, filter_map, comp_def]

lemma classesIn_ofSources :
    (ofSources name files).classesIn f = (files.filter (name · = f)).flatMap Source.classes :=
  filter_flatMap_name name Source.classes files f

lemma functionsIn_ofSources :
    (ofSources name files).functionsIn f = (files.filter (name · = f)).flatMap Source.functions :=
  filter_flatMap_name name Source.functions files f

end Survey

/-- Two ways to index a program see the same in it: the classes of its files with their methods, and
the functions at the top of modules, in order, whatever else is nested in other statements. The
catalog lists them under their paths and the skeleton under their spellings. So the two agree on
every file whose spelling is that of its path alone, and without backslashes a path is its spelling.
-/
theorem indexes_see_same_program (p : Project) (directory : String) (docs : Bool)
    (texts : List String) (files : List Source) {catalog : Catalog}
    (h : Catalog.recorded docs texts (files.map Source.listed) = .ok catalog) :
    let p := { p with path := Path.ofString directory }
    let skeleton := (p.atlas (files.map (·.outline p.path))).skeleton
    ∃ old new, catalog.survey? = some old ∧ skeleton.survey? = some new ∧
      old = Survey.ofSources (·.path.text) files ∧ new = Survey.ofSources Source.spelling files ∧
      (∀ x ∈ files, (∀ y ∈ files, y.spelling = x.spelling → y.path = x.path) →
        new.classesIn x.spelling = old.classesIn x.path.text ∧
        new.functionsIn x.spelling = old.functionsIn x.path.text) ∧
      ∀ x ∈ files, '\\' ∉ x.path.text.toList → x.spelling = x.path.text := by
  intro p skeleton
  refine ⟨_, _, survey?_recorded h, survey?_atlas p directory rfl files, rfl, rfl, ?_, ?_⟩
  · intro x hx hown
    have hfiles : files.filter (·.spelling = x.spelling) =
        files.filter (·.path.text = x.path.text) := by
      refine filter_congr fun y hy => ?_
      rw [decide_eq_decide]
      constructor
      · intro h
        rw [hown y hy h]
      · intro h
        unfold Source.spelling
        rw [h]
    rw [Survey.classesIn_ofSources, Survey.classesIn_ofSources, Survey.functionsIn_ofSources,
      Survey.functionsIn_ofSources, hfiles]
    exact ⟨rfl, rfl⟩
  · intro x _ h
    exact Source.spelling_of_notMem h

/-- A file that has one class, without methods. -/
def oneClassSource (place : List String) (named : ∀ w ∈ place, Path.IsName w) (name : String)
    (hname : Text.isIdentifier name.toList = true := by decide) : Source :=
  ⟨place, named, [], ⟨[.classDef ⟨1, 1⟩ ⟨name, [], [], hname⟩ []]⟩, ""⟩

/-- Two files whose paths differ in a backslash. -/
def backslashSources : List Source := [
  oneClassSource ["a", "b.py"] (by simp [Path.IsName]) "A",
  oneClassSource ["a\\b.py"] (by simp [Path.IsName]) "B"]

/-- Both indexes of these files can be surveyed. -/
theorem indexes_see_same_program_backslash : ∃ catalog old new,
    let p : Project := { path := Path.ofString "/p", output := ⟨"/", ["o"]⟩ }
    Catalog.recorded true [] (backslashSources.map Source.listed) = .ok catalog ∧
      catalog.survey? = some old ∧
      (p.atlas (backslashSources.map (·.outline p.path))).skeleton.survey? = some new ∧
      old = Survey.ofSources (·.path.text) backslashSources ∧
      new = Survey.ofSources Source.spelling backslashSources := by
  obtain ⟨catalog, h⟩ :
    ∃ c, Catalog.recorded true [] (backslashSources.map Source.listed) = .ok c :=
    ⟨_, rfl⟩
  obtain ⟨old, new, hold, hnew, hofOld, hofNew, -⟩ := indexes_see_same_program
    { path := ⟨"", []⟩, output := ⟨"/", ["o"]⟩ } "/p" true [] backslashSources h
  exact ⟨catalog, old, new, h, hold, hnew, hofOld, hofNew⟩

/-- The skeleton lists the classes of both files under the path of one of them, the catalog does
not. -/
theorem backslash_files_surveyed_as_one :
    let p : Project := { path := Path.ofString "/p", output := ⟨"/", ["o"]⟩ }
    (Catalog.recorded true [] (backslashSources.map Source.listed)).toOption.map (fun c =>
        c.survey?.map (·.classesIn "a/b.py")) = some (some [("A", [])]) ∧
      (p.atlas (backslashSources.map (·.outline p.path))).skeleton.survey?.map
        (·.classesIn "a/b.py") = some [("A", []), ("B", [])] := by
  decide +kernel

end CodeAtlas
