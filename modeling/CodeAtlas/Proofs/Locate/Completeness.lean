import CodeAtlas.Proofs.Locate.Visits

/-!
# When all definitions of a catalog are located

A row whose name came before is not located (`build_complete_iff`).
-/

namespace CodeAtlas.Locate

open List Syntax Catalog
open Text (utf8 utf8Bytes)

variable {l : Locations} {catalog : Value} {c : Catalog} {sources : List (String × Module)}
  {paths : List String} {f : Reading} {i k : Nat} {name : String} {parent : Option Nat}
  {r : FunctionRow} {t : Files.Tree}

/-! ### Files -/

def ListsFiles (l : Locations) (paths : List String) : Prop :=
  Forall₂ (fun f path => l.paths.get? f.path = some path) l.files paths

lemma ListsFiles.congr {l' : Locations} (h : ListsFiles l paths) (hsame : SameFiles l l') :
    ListsFiles l' paths := by
  unfold ListsFiles
  rw [hsame.files, hsame.paths]
  exact h

lemma ListsFiles.addFile (h : ListsFiles l paths) (path : String) (lines size : Nat)
    (modified hash : String) :
    ListsFiles (l.addFile path lines size modified hash).1 (paths ++ [path]) :=
  rel_append (h.imp fun _ _ hf => (Table.extends_add l.paths path).get? hf)
    (.cons (Table.get?_add l.paths path) .nil)

lemma exists_placeAll_record (hon : Context.On ⟨catalog, paths.length, f.lines⟩ c)
    (hfiles : ListsFiles l paths)
    (cs : List Char) : ListsFiles (f.record cs l)
    (paths ++ [f.path]) ∧ ∃ l', SameRows (f.record cs l) l' ∧
      Context.placeAll ⟨catalog, paths.length, f.lines⟩ f.module (f.record cs l) =
        Context.placeDefinitions ⟨catalog, paths.length, f.lines⟩ f.module.body l' := by
  have hrecorded : ListsFiles (f.record cs l) (paths ++ [f.path]) := hfiles.addFile _ _ _ _ _
  have hlength : paths.length < (f.record cs l).files.length := by
    rw [hrecorded.length_eq]
    simp
  have hat : Value.atIndex? (f.record cs l).files (paths.length : Int) =
      some ((f.record cs l).files.get ⟨paths.length, hlength⟩) := by
    simp [Value.atIndex?, getElem?_eq_getElem hlength]
  exact ⟨hrecorded, exists_placeAll hon f.module (f.record cs l) hat⟩

lemma exists_visit (hon : Context.On ⟨catalog, paths.length, f.lines⟩ c)
    {cs : List Char} (hutf8 : utf8 f.bytes = .ok cs) (hfiles : ListsFiles l paths)
    {done rest : List (Nat × Stmt)}
    (hlists : c.Lists (done ++ f.module.body.map (paths.length, ·) ++ rest)) (h : Places c done l) :
    ∃ l', visit catalog paths.length f l = (.ok (), l') ∧ ListsFiles l' (paths ++ [f.path]) ∧
      Places c (done ++ f.module.body.map (paths.length, ·)) l' := by
  have hplaces : Places c done (f.record cs l) := h.congr rfl rfl (.refl _)
  obtain ⟨hrecorded, l1, hsame, hall⟩ := exists_placeAll_record hon hfiles cs
  obtain ⟨l2, hrun, hfiles', hplaces'⟩ := exists_placeDefinitions hon rfl f.module.body hlists
    (hplaces.congr hsame.classes hsame.functions hsame.decorators)
  refine ⟨l2, ?_, hrecorded.congr (hsame.toSameFiles.trans hfiles'), hplaces'⟩
  rw [visit_of_utf8 hutf8, hall.trans hrun]
  rfl

/-! ### All files of a catalog -/

lemma statements_append_cons (before after : List (String × Module)) (path : String) (m : Module) :
    ∃ rest, statements (before ++ (path, m) :: after) =
      statements before ++ m.body.map (before.length, ·) ++ rest := by
  refine ⟨(after.zipIdx (before.length + 1)).flatMap fun mi => mi.1.2.body.map (mi.2, ·), ?_⟩
  simp [statements, zipIdx_append, append_assoc]

section Build

variable {c : Catalog} {fs : List Reading} {catalog : Value}
  (hon : ∀ file lines, Context.On ⟨catalog, file, lines⟩ c)
  (hlists : c.Lists (statements (fs.map Reading.source)))
  (hutf8 : ∀ f ∈ fs, ∃ cs, utf8 f.bytes = .ok cs)

include hon hlists hutf8

lemma exists_visitAll (after : List Reading) :
    ∀ (before : List Reading) (l : Locations), fs = before ++ after →
      ListsFiles l (before.map (·.path)) → Places c (statements (before.map Reading.source)) l →
      ∃ l', visitAll catalog before.length after l = (.ok (), l') ∧
        ListsFiles l' (fs.map (·.path)) ∧ Places c (statements (fs.map Reading.source)) l' := by
  induction after with
  | nil =>
    intro before l hfs hfiles hplaces
    obtain rfl : fs = before := by simpa using hfs
    exact ⟨l, rfl, hfiles, hplaces⟩
  | cons f after ih =>
    intro before l hfs hfiles hplaces
    obtain ⟨cs, hcs⟩ := hutf8 f (by simp [hfs])
    obtain ⟨rest, hrest⟩ :=
      statements_append_cons (before.map Reading.source) (after.map Reading.source) f.path f.module
    have hsplit : fs.map Reading.source =
        before.map Reading.source ++ (f.path, f.module) :: after.map Reading.source := by
      simp [hfs, Reading.source]
    have hlength : (before.map Reading.source).length = (before.map (·.path)).length := by simp
    rw [hlength] at hrest
    obtain ⟨l1, hvisit, hfiles1, hplaces1⟩ :=
      exists_visit (hon _ _) hcs hfiles (hrest ▸ hsplit ▸ hlists) hplaces
    obtain ⟨l2, hvisits, hdone⟩ :=
      ih (before ++ [f]) l1 (by simp [hfs]) (by simpa using hfiles1) (by
      rw [map_append, map_singleton, statements_concat, hlength]
      exact hplaces1)
    refine ⟨l2, ?_, hdone⟩
    rw [length_map] at hvisit
    rw [length_append, length_singleton] at hvisits
    rw [visitAll_cons_ok hvisit, hvisits]

/-- All files of a catalog are recorded and placed. -/
lemma exists_outcome : ∃ l, outcome catalog fs = (.ok (), l) ∧ ListsFiles l (fs.map (·.path)) ∧
      Places c (statements (fs.map Reading.source)) l := by
  obtain ⟨l, hvisits, hfiles, hplaces⟩ :=
    exists_visitAll hon hlists hutf8 fs [] {} rfl .nil (places_nil rfl rfl)
  refine ⟨{ l with counted := l.count }, ?_, hfiles, hplaces.congr rfl rfl (.refl _)⟩
  rw [length_nil] at hvisits
  unfold outcome
  rw [hvisits]

end Build

/-! ### What is located -/

/-- A row of a catalog is located: with its number, its location and the file of its module. -/
def Located (ds : List DefinitionRow) (c : Catalog) (number location module : Nat) : Prop :=
  ∃ d ∈ ds, ∃ m, c.modules[module]? = some m ∧ d.Is number location m.file

lemma fst_lt_of_mem_statements {is : Nat × Stmt} (h : is ∈ statements sources) :
    is.1 < sources.length := by
  obtain ⟨⟨pm, j⟩, hmem, his⟩ := mem_flatMap.mp h
  obtain ⟨s, -, rfl⟩ := mem_map.mp his
  simpa using snd_lt_of_mem_zipIdx hmem

lemma fst_lt_of_mem_classRows (h : (i, name) ∈ classRows (statements sources)) :
    i < sources.length := by
  obtain ⟨⟨j, s⟩, hmem, heq⟩ := mem_filterMap.mp h
  cases s with
  | classDef span head body =>
    obtain ⟨rfl, -⟩ := Prod.mk.inj (Option.some.inj heq)
    exact fst_lt_of_mem_statements hmem
  | _ => simp at heq

lemma exists_mem_of_mem_functionRows {stmts : List (Nat × Stmt)}
    (h : (i, parent, name) ∈ functionRows k stmts) : ∃ s, (i, s) ∈ stmts := by
  fun_induction functionRows k stmts with
  | case1 k => simp at h
  | case2 k j span head body rest ih =>
    rcases mem_append.mp h with h | h
    · obtain ⟨n, -, heq⟩ := mem_map.mp h
      obtain ⟨rfl, -⟩ := Prod.mk.inj heq
      exact ⟨_, mem_cons_self⟩
    · exact (ih h).imp fun _ => mem_cons_of_mem _
  | case3 k j span head body rest ih =>
    rcases mem_cons.mp h with heq | h
    · obtain ⟨rfl, -⟩ := Prod.mk.inj heq
      exact ⟨_, mem_cons_self⟩
    · exact (ih h).imp fun _ => mem_cons_of_mem _
  | case4 k x rest hclass hfunction ih => exact (ih h).imp fun _ => mem_cons_of_mem _

lemma fst_lt_of_mem_functionRows
    (h : (i, parent, name) ∈ functionRows k (statements sources)) : i < sources.length := by
  obtain ⟨s, hs⟩ := exists_mem_of_mem_functionRows h
  exact fst_lt_of_mem_statements hs

/-- All classes and functions of a catalog are located. -/
structure Complete (l : Locations) (c : Catalog) : Prop where
  classes : ∀ {k r}, c.classes[k]? = some r → Located l.classes c k r.location r.module
  functions : ∀ {k r}, c.functions[k]? = some r → Located l.functions c k r.location r.module

lemma pairwise_iff_getElem? {ρ : Type} {R : ρ → ρ → Prop} {xs : List ρ} :
    xs.Pairwise R ↔ ∀ (k : Nat) a, xs[k]? = some a → ∀ j < k, ∀ b, xs[j]? = some b → R b a := by
  rw [pairwise_iff_getElem]
  constructor
  · intro h k a ha j hj b hb
    obtain ⟨hk, rfl⟩ := List.getElem?_eq_some_iff.mp ha
    obtain ⟨hj', rfl⟩ := List.getElem?_eq_some_iff.mp hb
    exact h j k hj' hk hj
  · intro h j k hj hk hlt
    exact h k _ (getElem?_eq_getElem hk) j hlt _ (getElem?_eq_getElem hj)

section Results

variable {c : Catalog} {sources : List (String × Module)} (hc : c.Holds sources)

include hc

lemma exists_module (hi : i < sources.length) : ∃ m, c.modules[i]? = some m ∧ m.file = i := by
  have hrow := congrArg (·[i]?) hc.modules
  simp only [getElem?_map, getElem?_range hi] at hrow
  exact Option.map_eq_some_iff.mp hrow

lemma located_iff {ds : List DefinitionRow} {location module : Nat}
    (hmodule : module < sources.length) (hright : ∀ d ∈ ds, d.number = k → d.Is k location module) :
    Located ds c k location module ↔ k ∈ ds.map (·.number) := by
  obtain ⟨m, hm, hfile⟩ := exists_module hc hmodule
  constructor
  · rintro ⟨d, hd, _, _, his⟩
    exact mem_map.mpr ⟨d, hd, his.number⟩
  · intro hk
    obtain ⟨d, hd, hnumber⟩ := mem_map.mp hk
    exact ⟨d, hd, m, hm, hfile ▸ hright d hd hnumber⟩

lemma exists_class_of_parent {o : Nat} (hr : c.functions[k]? = some r)
    (hparent : r.parent = some o) : ∃ r', c.classes[o]? = some r' := by
  have hlists := hc.reads.lists
  have hmem : (r.module, r.parent, c.nameAt r.name) ∈ functionRows 0 (statements sources) :=
    hlists.functions ▸ mem_map_of_mem (mem_of_getElem? hr)
  have hlt := (lt_of_mem_functionRows (hparent ▸ hmem)).2
  rw [Nat.zero_add, ← hlists.classes, length_map] at hlt
  exact ⟨_, getElem?_eq_getElem hlt⟩

lemma lt_length_classRows {r : ClassRow} (hr : c.classes[k]? = some r) :
    k < (classRows (statements sources)).length := by
  rw [← hc.reads.lists.classes, length_map]
  exact (List.getElem?_eq_some_iff.mp hr).1

variable {l : Locations} (hl : Places c (statements sources) l)

include hl

lemma located_class_iff {r : ClassRow} (hr : c.classes[k]? = some r) :
    Located l.classes c k r.location r.module ↔ c.FirstClass k r := by
  have hlists := hc.reads.lists
  have hmem : (r.module, c.nameAt r.name) ∈ classRows (statements sources) :=
    hlists.classes ▸ mem_map_of_mem (mem_of_getElem? hr)
  rw [located_iff hc (fst_lt_of_mem_classRows hmem), hl.class_iff hr,
    and_iff_right (lt_length_classRows hc hr)]
  rintro d hd rfl
  obtain ⟨r', hr', his⟩ := hl.class_right d hd
  exact Option.some.inj (hr'.symm.trans hr) ▸ his

lemma located_function_iff (hr : c.functions[k]? = some r) :
    Located l.functions c k r.location r.module ↔
      match r.parent with
      | none => c.FirstFunction k r
      | some o => ∃ r', c.classes[o]? = some r' ∧ c.FirstClass o r' := by
  have hlists := hc.reads.lists
  have hmem : (r.module, r.parent, c.nameAt r.name) ∈ functionRows 0 (statements sources) :=
    hlists.functions ▸ mem_map_of_mem (mem_of_getElem? hr)
  have hright : ∀ d ∈ l.functions, d.number = k → d.Is k r.location r.module := by
    rintro d hd rfl
    obtain ⟨r', hr', his⟩ := hl.function_right d hd
    exact Option.some.inj (hr'.symm.trans hr) ▸ his
  rw [located_iff hc (fst_lt_of_mem_functionRows hmem) hright]
  rcases hparent : r.parent with _ | o
  · have hlength : k < (functionRows 0 (statements sources)).length := by
      rw [← hlists.functions, length_map]
      exact (List.getElem?_eq_some_iff.mp hr).1
    rw [hl.function_iff hr hparent, and_iff_right hlength]
  · rw [hl.method_iff hr hparent]
    obtain ⟨r', hr'⟩ := exists_class_of_parent hc hr hparent
    rw [hl.class_iff hr', and_iff_right (lt_length_classRows hc hr')]
    exact ⟨fun h => ⟨r', hr', h⟩, fun ⟨r'', hr'', h⟩ => Option.some.inj (hr''.symm.trans hr') ▸ h⟩

lemma complete_iff : Complete l c ↔ (c.classes.map (c.nameAt ·.name)).Nodup ∧
      ((c.functions.filter (·.parent.isNone)).map (c.nameAt ·.name)).Nodup := by
  have hclasses : (c.classes.map (c.nameAt ·.name)).Nodup ↔
      ∀ k r, c.classes[k]? = some r → c.FirstClass k r := by
    rw [Nodup, pairwise_map, pairwise_iff_getElem?]
    rfl
  have hfunctions : ((c.functions.filter (·.parent.isNone)).map (c.nameAt ·.name)).Nodup ↔
      ∀ k r, c.functions[k]? = some r → r.parent = none → c.FirstFunction k r := by
    rw [Nodup, pairwise_map, pairwise_filter, pairwise_iff_getElem?]
    simp only [Option.isNone_iff_eq_none]
    exact ⟨fun h k r hr hparent j hj r' hr' hparent' => h k r hr j hj r' hr' hparent' hparent,
      fun h k r hr j hj r' hr' hparent' hparent => h k r hr hparent j hj r' hr' hparent'⟩
  rw [hclasses, hfunctions]
  constructor
  · intro h
    refine ⟨fun k r hr => (located_class_iff hc hl hr).mp (h.classes hr), fun k r hr hparent => ?_⟩
    have hlocated := (located_function_iff hc hl hr).mp (h.functions hr)
    rwa [hparent] at hlocated
  · rintro ⟨hfirst, hfirst'⟩
    refine ⟨fun hr => (located_class_iff hc hl hr).mpr (hfirst _ _ hr), fun {k r} hr => ?_⟩
    refine (located_function_iff hc hl hr).mpr ?_
    rcases hparent : r.parent with _ | o
    · exact hfirst' k r hr hparent
    · -- the class of a method is located as all classes are
      obtain ⟨r', hr'⟩ := exists_class_of_parent hc hr hparent
      exact ⟨r', hr', hfirst o r' hr'⟩

end Results

/-! ### Projects -/

lemma exists_generate_readings (p : Catalog.Plan) (ht : t.WellFormed)
    (hrec : p.isRecordable t = true) (hplain : p.options.compress = false) :
    ∃ (c : Catalog) (fs : List Reading), Action.Yields (generate p {}) t (.ok c) ∧
      c.Holds (projectModules t p.root) ∧ fs.map Reading.source = projectModules t p.root ∧
      (∀ f ∈ fs, f.IsAt t p.root) ∧ c.files.items = fs.map (·.path) := by
  obtain ⟨c, hgenerate, hc⟩ := exists_generate p ht hrec hplain
  obtain ⟨fs, hfs, hat⟩ := exists_readings fun pm hpm => (child_of_mem_projectModules ht hpm).2
  refine ⟨c, fs, hgenerate, hc, hfs, hat, ?_⟩
  rw [hc.files, ← hfs, map_map]
  rfl

/-- All modules of a project are in UTF-8. -/
def InUtf8 (t : Files.Tree) (root : Path) : Prop :=
  ∀ pm ∈ projectModules t root, ∀ bytes time, t.read (root.child pm.1) = .ok (bytes, time) →
    ∃ cs, utf8 bytes = .ok cs

lemma inUtf8_iff {root : Path} {fs : List Reading}
    (hfs : fs.map Reading.source = projectModules t root) (hat : ∀ f ∈ fs, f.IsAt t root) :
    InUtf8 t root ↔ ∀ f ∈ fs, ∃ cs, utf8 f.bytes = .ok cs := by
  constructor
  · intro h f hf
    exact h f.source (hfs ▸ mem_map_of_mem hf) f.bytes f.time (hat f hf).read
  · intro h pm hpm bytes time hread
    obtain ⟨f, hf, rfl⟩ := mem_map.mp (hfs ▸ hpm)
    have hfile := Except.ok.inj (hread.symm.trans (hat f hf).read)
    exact (Prod.mk.inj hfile).1 ▸ h f hf

/-- Modules are among the source files of a project. -/
lemma inUtf8_of_sources {root : Path} (ht : t.WellFormed)
    (h : ∀ file ∈ t.prunedSources skippedDirs root,
    ∀ bytes time, t.read file = .ok (bytes, time) → ∃ cs, utf8 bytes = .ok cs) :
      InUtf8 t root :=
  fun _ hpm => h _ (child_of_mem_projectModules ht hpm).1

/-- A catalog is made in one session, and in another its definitions are located by its document:
the catalog and what the run over its files comes to. -/
def Plan.Locates (q : Plan) (p : Catalog.Plan) (s s' : Session) (c : Catalog)
    (o : Except Failure Unit × Locations) : Prop :=
  ∃ s₁ s₂, generate p {} s = (.ok c, s₁) ∧
    ({ q with catalog := c.document p.about p.options } : Plan).build {} s' = (o, s₂)

/-- The definitions of a project are located by its own catalog: in a well-formed tree of modules
that can be recorded, with the names in a table, below the same directory, while the tree stays as
it is. -/
structure Revisits (p : Catalog.Plan) (q : Plan) (s s' : Session) : Prop where
  wellFormed : s.tree.WellFormed
  recordable : p.isRecordable s.tree = true
  plain : p.options.compress = false
  root : q.root = p.root
  tree : s'.tree = s.tree

namespace Revisits

variable {p : Catalog.Plan} {q : Plan} {s s' : Session} (h : Revisits p q s s')

include h

lemma exists_outcome : ∃ (c : Catalog) (fs : List Reading),
    q.Locates p s s' c (outcome (c.document p.about p.options) fs) ∧
      c.Holds (projectModules s.tree p.root) ∧
      fs.map Reading.source = projectModules s.tree p.root ∧
      (∀ f ∈ fs, f.IsAt s.tree p.root) ∧ c.files.items = fs.map (·.path) ∧
      ∀ file lines, Context.On ⟨c.document p.about p.options, file, lines⟩ c := by
  obtain ⟨c, fs, hgenerate, hc, hfs, hat, hpaths⟩ :=
    exists_generate_readings p h.wellFormed h.recordable h.plain
  obtain ⟨s₁, hrun₁, -⟩ := hgenerate s rfl
  obtain ⟨s₂, hrun₂, -⟩ := yields_build (q := { q with catalog := c.document p.about p.options })
    (by rw [field_files, hpaths]) (h.root ▸ hat) s' h.tree
  exact ⟨c, fs, ⟨s₁, s₂, hrun₁, hrun₂⟩, hc, hfs, hat, hpaths,
    Context.on_document hc.reads.lists.named p.about h.plain⟩

/-- If the modules are in UTF-8, the run comes to its end and its rows are placed. -/
lemma exists_places (hutf8 : InUtf8 s.tree p.root) : ∃ c l, q.Locates p s s' c (.ok (), l) ∧
    c.Holds (projectModules s.tree p.root) ∧ ListsFiles l c.files.items ∧
      Places c (statements (projectModules s.tree p.root)) l := by
  obtain ⟨c, fs, hruns, hc, hfs, hat, hpaths, hon⟩ := h.exists_outcome
  obtain ⟨l, houtcome, hlisted, hplaces⟩ :=
    Locate.exists_outcome hon (hfs ▸ hc.reads.lists) ((inUtf8_iff hfs hat).mp hutf8)
  exact ⟨c, l, houtcome ▸ hruns, hc, hpaths ▸ hlisted, hfs ▸ hplaces⟩

end Revisits

/-! ### Two classes of one name -/

/-- A project of two files, each with a class `A`. -/
def twinTree : Files.Tree :=
  let source := Files.Entry.file (utf8Bytes "class A: pass\n") 0
  ⟨.dir [("p", .dir [("a.py", source), ("b.py", source)])], []⟩

def twinCatalog : Catalog.Plan where
  root := twinRoot
  output := ⟨"/", ["o"]⟩
  options := {}
  format := .json true false
  about := ⟨"", "/p", languageVersion⟩

/-- How its definitions are located; the catalog is put in once it is made. -/
def twinPlan : Plan where
  root := twinRoot
  catalogPath := ⟨"/", ["o", "i.json"]⟩
  format := "json"
  minify := false
  catalog := .null
  about := ⟨"", "", "/p", "/o/i.json"⟩

lemma prunedSources_twinTree :
    twinTree.prunedSources skippedDirs twinRoot = [⟨"/", ["p", "a.py"]⟩, ⟨"/", ["p", "b.py"]⟩] := by
  let source := Files.Entry.file (utf8Bytes "class A: pass\n") 0
  have hfind : twinTree.find twinRoot
      = .ok (.entry ["p"] (.dir [("a.py", source), ("b.py", source)])) := rfl
  have hbelow : (twinTree.prunedBelow skippedDirs ["p"] [("a.py", source), ("b.py", source)]).map
      (Files.below twinRoot) = [⟨"/", ["p", "a.py"]⟩, ⟨"/", ["p", "b.py"]⟩] := by
    decide +kernel
  simp only [Files.Tree.prunedSources, hfind, hbelow]
  -- Sorting does not evaluate by reduction, but what is found is in order already.
  exact mergeSort_of_pairwise (by decide +kernel)

lemma wellFormed_twinTree : twinTree.WellFormed := by
  simp [Files.Tree.WellFormed, twinTree, Files.Entry.WellFormed, Files.wellFormedBelow, Path.IsName]

lemma utf8_twinTree : ∀ file ∈ twinTree.prunedSources skippedDirs twinRoot, ∀ bytes time,
    twinTree.read file = .ok (bytes, time) → ∃ cs, utf8 bytes = .ok cs := by
  have hutf8 : (utf8 (utf8Bytes "class A: pass\n")).toOption.isSome = true :=
    by decide +kernel
  rw [prunedSources_twinTree]
  intro file hfile bytes time hread
  have hbytes : bytes = utf8Bytes "class A: pass\n" := by
    rcases mem_pair.mp hfile with rfl | rfl
    · exact (congrArg Prod.fst (Except.ok.inj hread)).symm
    · exact (congrArg Prod.fst (Except.ok.inj hread)).symm
  rcases hcs : utf8 bytes with f | cs
  · rw [← hbytes, hcs] at hutf8
    simp [Except.toOption] at hutf8
  · exact ⟨cs, rfl⟩

lemma inUtf8_loneTree (text : String) : InUtf8 (loneTree text) twinRoot :=
  inUtf8_of_sources (wellFormed_loneTree text) (utf8_loneTree text)

lemma inUtf8_twinTree : InUtf8 twinTree twinRoot :=
  inUtf8_of_sources wellFormed_twinTree utf8_twinTree

lemma revisits_twin (ht : t.WellFormed) (hrec : twinCatalog.isRecordable t = true) :
    Revisits twinCatalog twinPlan { tree := t } { tree := t } :=
  ⟨ht, hrec, rfl, rfl, rfl⟩

lemma isRecordable_twinTree : twinCatalog.isRecordable twinTree = true := by
  rw [Catalog.Plan.isRecordable, projectModules, twinCatalog, prunedSources_twinTree]
  decide +kernel

lemma map_snd_classRows_twinTree :
    (classRows (statements (projectModules twinTree twinRoot))).map Prod.snd = ["A", "A"] := by
  rw [projectModules, prunedSources_twinTree]
  decide +kernel

/-! ### The main result -/

/-- Where the definitions of a project are located by its own catalog. The row of a class is
located, in the file of its module, exactly if no class before it has its name; that of a function
outside classes likewise; that of a method exactly if its class is located. So all rows are located
exactly if no two classes have the same name, nor two functions outside classes. -/
theorem build_complete_iff (p : Catalog.Plan) (q : Plan) (s s' : Session) (h : Revisits p q s s')
    (hutf8 : InUtf8 s.tree p.root) : ∃ c l, q.Locates p s s' c (.ok (), l) ∧
      c.Holds (projectModules s.tree p.root) ∧ ListsFiles l c.files.items ∧
      (∀ k r, c.classes[k]? = some r →
        (Located l.classes c k r.location r.module ↔ c.FirstClass k r)) ∧
      (∀ k r, c.functions[k]? = some r →
        (Located l.functions c k r.location r.module ↔
          match r.parent with
          | none => c.FirstFunction k r
          | some o => ∃ r', c.classes[o]? = some r' ∧ c.FirstClass o r')) ∧
      (Complete l c ↔ (c.classes.map (c.nameAt ·.name)).Nodup ∧
        ((c.functions.filter (·.parent.isNone)).map (c.nameAt ·.name)).Nodup) := by
  obtain ⟨c, l, hruns, hc, hfiles, hplaces⟩ := h.exists_places hutf8
  exact ⟨c, l, hruns, hc, hfiles, fun k r hr => located_class_iff hc hplaces hr,
    fun k r hr => located_function_iff hc hplaces hr, complete_iff hc hplaces⟩

/-- The main result at the project with two classes `A`. -/
theorem build_complete_iff_twinTree :
    Revisits twinCatalog twinPlan { tree := twinTree } { tree := twinTree } ∧ ∃ c l,
      twinPlan.Locates twinCatalog { tree := twinTree } { tree := twinTree } c (.ok (), l) ∧
        (Complete l c ↔ (c.classes.map (c.nameAt ·.name)).Nodup ∧
          ((c.functions.filter (·.parent.isNone)).map (c.nameAt ·.name)).Nodup) := by
  have hrevisits := revisits_twin wellFormed_twinTree isRecordable_twinTree
  obtain ⟨c, l, hruns, -, -, -, -, hcomplete⟩ :=
    build_complete_iff twinCatalog twinPlan _ _ hrevisits inUtf8_twinTree
  exact ⟨hrevisits, c, l, hruns, hcomplete⟩

/-- The catalog of two classes `A` is not located as a whole: the second class is not. -/
theorem twin_class_not_located :
    (∀ file ∈ twinTree.prunedSources skippedDirs twinRoot, ∀ bytes time,
      twinTree.read file = .ok (bytes, time) → ∃ cs, utf8 bytes = .ok cs) ∧ ∃ c l,
      twinPlan.Locates twinCatalog { tree := twinTree }
        { tree := twinTree } c (.ok (), l) ∧ ¬ Complete l c := by
  obtain ⟨c, l, hruns, hc, -, hplaces⟩ :=
    (revisits_twin wellFormed_twinTree isRecordable_twinTree).exists_places inUtf8_twinTree
  refine ⟨utf8_twinTree, c, l, hruns, fun h => ?_⟩
  have hnames : c.classes.map (c.nameAt ·.name) = ["A", "A"] := by
    have hrows := congrArg (List.map Prod.snd) hc.reads.lists.classes
    rw [map_map] at hrows
    exact hrows.trans map_snd_classRows_twinTree
  exact absurd (hnames ▸ ((complete_iff hc hplaces).mp h).1) (by decide)

end CodeAtlas.Locate
