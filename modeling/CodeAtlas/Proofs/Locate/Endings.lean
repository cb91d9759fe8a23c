import CodeAtlas.Proofs.Locate.Compression

/-!
# How a run over the files of a catalog ends

It ends behind the last file, or at one that is not in UTF-8 or comes behind one that is gone
(`meetAll_ends`).
-/

namespace CodeAtlas.Locate

open List Syntax Catalog Step
open Text (utf8)

variable {l : Locations} {i k : Nat} {r : Catalog.ModuleRow} {f : Reading} {cs : List Char}
  {paths : List String} {fs : List Reading}

/-! ### Placing by the document of a catalog -/

section Placing

variable {x : Context} {c : Catalog} (hx : x.On c)

include hx

omit hx in
lemma exists_placeFirst {ρ : Type} {f : ρ → Value} {isOwn : Value → Placing Bool}
    {placed : Locations → List DefinitionRow} {place : Nat → Placing Unit} {rows : List (ρ × Nat)}
    (h : ∀ y ∈ rows, (∃ own, isOwn (f y.1) l = (.ok own, l)) ∧
      ∃ l', place y.2 l = (.ok (), l') ∧ SameFiles l l') :
    ∃ l', placeFirst isOwn placed place (rows.map fun y => (f y.1, y.2)) l = (.ok (), l') ∧
      SameFiles l l' := by
  induction rows with
  | nil => exact ⟨l, rfl, .refl l⟩
  | cons y rows ih =>
    obtain ⟨⟨own, hown⟩, hplace⟩ := h y mem_cons_self
    rw [map_cons, placeFirst, bind_ok hown]
    split
    · rw [bind_ok (p := isPlaced placed y.2) (x := (placed l).any (·.number = y.2)) rfl]
      split
      · exact hplace
      · exact ⟨l, rfl, .refl l⟩
    · exact ih fun z hz => h z (mem_cons_of_mem _ hz)

lemma exists_placeFirstClass (span : Span) (head : ClassHead) (body : List Stmt) (l : Locations) :
    ∃ l', x.placeFirstClass span head body (c.classes.zipIdx.map fun y => (y.1.toValue, y.2)) l =
      (.ok (), l') ∧ SameFiles l l' := by
  refine exists_placeFirst fun y hy => ?_
  have hr := getElem?_of_mem_zipIdx hy
  obtain ⟨l1, d, hrun, -, -, hfiles, -, -⟩ := exists_placeClass hx hr span head body l
  obtain ⟨l2, hrun', hadds, -⟩ := exists_placeMethods hx (k := y.2) 0 body l1
  exact ⟨⟨_, hx.isClass l (mem_of_getElem? hr) _⟩, l2, (bind_ok hrun _).trans hrun',
    hfiles.trans hadds.files⟩

lemma exists_placeFirstFunction (span : Span) (head : FunctionHead) (body : List Stmt)
    (l : Locations) :
    ∃ l', x.placeFirstFunction span head body (c.functions.zipIdx.map fun y => (y.1.toValue, y.2)) l
      = (.ok (), l') ∧ SameFiles l l' := by
  refine exists_placeFirst fun y hy => ?_
  have hr := getElem?_of_mem_zipIdx hy
  obtain ⟨l1, d, hrun, -, -, hfiles, -, -⟩ := exists_placeFunction hx hr span head body l
  exact ⟨⟨_, hx.isFunction l (mem_of_getElem? hr) _ _⟩, l1, hrun, hfiles⟩

lemma exists_placeDefinitions_ok (body : List Stmt) (l : Locations) :
    ∃ l', x.placeDefinitions body l = (.ok (), l') ∧ SameFiles l l' := by
  induction body generalizing l with
  | nil => exact ⟨l, rfl, .refl l⟩
  | cons s body ih =>
    cases s with
    | classDef span head inner =>
      obtain ⟨l1, hrun, hfiles⟩ := exists_placeFirstClass hx span head inner l
      obtain ⟨l2, hrest, hfiles'⟩ := ih l1
      refine ⟨l2, ?_, hfiles.trans hfiles'⟩
      rw [Context.placeDefinitions, bind_ok (hx.rows_classes l), bind_ok hrun, hrest]
    | function span head inner =>
      obtain ⟨l1, hrun, hfiles⟩ := exists_placeFirstFunction hx span head inner l
      obtain ⟨l2, hrest, hfiles'⟩ := ih l1
      refine ⟨l2, ?_, hfiles.trans hfiles'⟩
      rw [Context.placeDefinitions, bind_ok (hx.rows_functions l), bind_ok hrun, hrest]
    | _ => exact ih l

lemma placeModules_of_none (m : Module) {rows : List (Catalog.ModuleRow × Nat)}
    (hrows : ∀ y ∈ rows, c.modules[y.2]? = some y.1) (hown : ∃ y ∈ rows, (y.1.file : Int) = x.file)
    (hnone : Value.atIndex? l.files x.file = none) :
    x.placeModules m (rows.map fun y => (y.1.toValue, y.2)) l = (.error .listRange, l) := by
  induction rows with
  | nil => simp at hown
  | cons y rows ih =>
    rw [map_cons, Context.placeModules_cons]
    by_cases h : (y.1.file : Int) = x.file
    · rw [if_pos h]
      refine bind_error ?_ _
      unfold Context.placeModule
      rw [bind_ok (hx.location_module l (hrows y mem_cons_self)),
        bind_ok (p := get) (x := l) rfl, hnone]
      rfl
    · rw [if_neg h]
      obtain ⟨z, hz, hfile⟩ := hown
      refine ih (fun z hz => hrows z (mem_cons_of_mem _ hz)) ⟨z, ?_, hfile⟩
      rcases mem_cons.mp hz with rfl | hz
      · exact absurd hfile h
      · exact hz

lemma exists_placeAll_of_none (m : Module) (hr : c.modules[k]? = some r)
    (hfile : (r.file : Int) = x.file) (hnone : Value.atIndex? l.files x.file = none) :
    ∃ l', x.placeAll m l = (.error .listRange, l') := by
  have hcomments := sameRows_addComments x.file x.lines 1 l
  have himports := hcomments.trans (sameRows_addModuleImports x.file m.body _)
  have hmodules := placeModules_of_none hx m
    (fun y (hy : y ∈ c.modules.zipIdx) => getElem?_of_mem_zipIdx hy)
    ⟨(r, k), mk_mem_zipIdx_iff_getElem?.mpr hr, hfile⟩ (himports.files ▸ hnone)
  exact ⟨_, (hx.placeAll_eq l m).trans (bind_error hmodules _)⟩

end Placing

/-! ### Files in their places and behind a gap -/

section Meeting

variable {c : Catalog} {catalog : Value} (hon : ∀ file lines, Context.On ⟨catalog, file, lines⟩ c)

include hon

lemma exists_visit_ok (hutf8 : utf8 f.bytes = .ok cs) (hfiles : ListsFiles l paths) :
    ∃ l', visit catalog paths.length f l = (.ok (), l') ∧ ListsFiles l' (paths ++ [f.path]) := by
  obtain ⟨hrecorded, l1, hsame, hall⟩ := exists_placeAll_record (hon _ f.lines) hfiles cs
  obtain ⟨l2, hrun, hfiles'⟩ :=
    exists_placeDefinitions_ok (hon paths.length f.lines) f.module.body l1
  refine ⟨l2, ?_, hrecorded.congr (hsame.toSameFiles.trans hfiles')⟩
  rw [visit_of_utf8 hutf8, hall.trans hrun]
  rfl

lemma exists_visit_behind (hr : c.modules[k]? = some r) (hfile : r.file = i)
    (hutf8 : utf8 f.bytes = .ok cs) (hgap : l.files.length < i) :
    ∃ l', visit catalog i f l = (.error (.access .listRange), l') := by
  -- recording the file makes the list longer by one, which does not make up for what is missing
  have hlength : (f.record cs l).files.length = l.files.length + 1 := length_append
  have hnone : Value.atIndex? (f.record cs l).files (i : Int) = none := by
    simp only [Value.atIndex?, Int.natCast_nonneg, if_true, Int.toNat_natCast, getElem?_eq_none_iff]
    omega
  obtain ⟨l', hall⟩ :=
    exists_placeAll_of_none (hon i f.lines) f.module hr (congrArg Nat.cast hfile) hnone
  refine ⟨l', ?_⟩
  rw [visit_of_utf8 hutf8, hall]
  rfl

/-- Files in UTF-8 are recorded and placed, one after the other. -/
lemma exists_meetAll_source (hutf8 : ∀ f ∈ fs, ∃ cs, utf8 f.bytes = .ok cs)
    (hfiles : ListsFiles l paths) :
    ∃ l', meetAll catalog paths.length (fs.map .source) l = (.ok (), l') ∧
      ListsFiles l' (paths ++ fs.map (·.path)) := by
  induction fs generalizing paths l with
  | nil => exact ⟨l, rfl, by simpa using hfiles⟩
  | cons f fs ih =>
    obtain ⟨⟨cs, hcs⟩, hrest⟩ := forall_mem_cons.mp hutf8
    obtain ⟨l1, hvisit, hfiles1⟩ := exists_visit_ok hon hcs hfiles
    obtain ⟨l2, hmeet, hfiles2⟩ := ih hrest hfiles1
    rw [length_append, length_singleton] at hmeet
    exact ⟨l2, (meetAll_cons_ok (x := .source f) hvisit).trans hmeet, by simpa using hfiles2⟩

/-- The failures that end a run over files: a file has no place in the list, or it is not in UTF-8.
-/
def EndsRun (xs : List Finding) (e : Failure) : Prop :=
  e = .access .listRange ∨
    ∃ f fault, .source f ∈ xs ∧ utf8 f.bytes = .error fault ∧ e = .decoding fault

omit hon in
lemma EndsRun.cons {xs : List Finding} {e : Failure} (h : EndsRun xs e) (x : Finding) :
    EndsRun (x :: xs) e := by
  rcases h with rfl | ⟨f, fault, hf, hrest⟩
  · exact .inl rfl
  · exact .inr ⟨f, fault, mem_cons_of_mem _ hf, hrest⟩

variable {n : Nat} (hmodules : c.modules.map (·.file) = List.range n) {xs : List Finding}
  (hxs : ∀ x ∈ xs, x = .nothing ∨ ∃ f, x = .source f)

include hmodules hxs

/-- Behind a file that is gone, all files are gone or the run fails. -/
lemma meetAll_behind (hi : i + xs.length ≤ n) (hgap : l.files.length < i) :
    (∀ x ∈ xs, x = .nothing) ∨ ∃ e l', meetAll catalog i xs l = (.error e, l') ∧ EndsRun xs e := by
  induction xs generalizing i with
  | nil => exact .inl (by simp)
  | cons x xs ih =>
    obtain ⟨hx, hrest⟩ := forall_mem_cons.mp hxs
    rw [length_cons] at hi
    rcases hx with rfl | ⟨f, rfl⟩
    · have hmeet : meet catalog i l .nothing = (.ok (), l) := rfl
      rw [meetAll_cons_ok hmeet]
      rcases ih hrest (i := i + 1) (by omega) (by omega) with hgone | ⟨e, l', hrun, he⟩
      · exact .inl (forall_mem_cons.mpr ⟨rfl, hgone⟩)
      · exact .inr ⟨e, l', hrun, he.cons _⟩
    · right
      rcases hutf8 : utf8 f.bytes with e | cs
      · exact ⟨_, l, meetAll_cons_error (x := .source f) (visit_of_error hutf8),
          .inr ⟨f, e, mem_cons_self, hutf8, rfl⟩⟩
      · have hrow := congrArg (·[i]?) hmodules
        simp only [getElem?_map, getElem?_range (show i < n by omega)] at hrow
        obtain ⟨r, hr, hfile⟩ := Option.map_eq_some_iff.mp hrow
        obtain ⟨l', hvisit⟩ := exists_visit_behind hon hr hfile hutf8 hgap
        exact ⟨_, l', meetAll_cons_error (x := .source f) hvisit, .inl rfl⟩

/-- A run goes through files in UTF-8 and then through files that are gone, or it fails. -/
lemma meetAll_ends (hi : paths.length + xs.length ≤ n) (hfiles : ListsFiles l paths) :
    (∃ (fs : List Reading) (lost : List Finding), xs = fs.map .source ++ lost ∧
      (∀ f ∈ fs, ∃ cs, utf8 f.bytes = .ok cs) ∧ ∀ x ∈ lost, x = .nothing) ∨
    ∃ e l', meetAll catalog paths.length xs l = (.error e, l') ∧ EndsRun xs e := by
  induction xs generalizing paths l with
  | nil => exact .inl ⟨[], [], rfl, by simp, by simp⟩
  | cons x xs ih =>
    obtain ⟨hx, hrest⟩ := forall_mem_cons.mp hxs
    rw [length_cons] at hi
    rcases hx with rfl | ⟨f, rfl⟩
    · have hmeet : meet catalog paths.length l .nothing = (.ok (), l) := rfl
      have hgap : l.files.length < paths.length + 1 := by
        rw [hfiles.length_eq]
        omega
      rw [meetAll_cons_ok hmeet]
      rcases meetAll_behind hon hmodules hrest (by omega) hgap with hgone | ⟨e, l', hrun, he⟩
      · exact .inl ⟨[], .nothing :: xs, rfl, by simp, forall_mem_cons.mpr ⟨rfl, hgone⟩⟩
      · exact .inr ⟨e, l', hrun, he.cons _⟩
    · rcases hutf8 : utf8 f.bytes with e | cs
      · exact .inr ⟨_, l, meetAll_cons_error (x := .source f) (visit_of_error hutf8),
          .inr ⟨f, e, mem_cons_self, hutf8, rfl⟩⟩
      · obtain ⟨l1, hvisit, hfiles1⟩ := exists_visit_ok hon hutf8 hfiles
        have hlength : (paths ++ [f.path]).length + xs.length ≤ n := by
          rw [length_append, length_singleton]
          omega
        have hnext := ih hrest hlength hfiles1
        rw [length_append, length_singleton, ← meetAll_cons_ok (x := .source f) hvisit] at hnext
        rcases hnext with ⟨fs, lost, rfl, hfs, hlost⟩ | ⟨e, l', hrun, he⟩
        · exact .inl ⟨f :: fs, lost, rfl, forall_mem_cons.mpr ⟨⟨cs, hutf8⟩, hfs⟩, hlost⟩
        · exact .inr ⟨e, l', hrun, he.cons _⟩

end Meeting

/-! ### A project that has not changed -/

/-- A file is there and in UTF-8. -/
def IsText (t : Files.Tree) (file : Path) : Prop :=
  ∃ bytes time cs, t.read file = .ok (bytes, time) ∧ utf8 bytes = .ok cs

section

variable {c : Catalog} {catalog : Value} (hon : ∀ file lines, Context.On ⟨catalog, file, lines⟩ c)

include hon

lemma outcome_ok_of_utf8 (h : ∀ f ∈ fs, ∃ cs, utf8 f.bytes = .ok cs) :
    (outcome catalog fs).1 = .ok () := by
  obtain ⟨l, hrun, -⟩ := exists_meetAll_source hon h (show ListsFiles {} [] from .nil)
  rw [← outcomeOf_source, outcomeOf_fst]
  exact congrArg Prod.fst hrun

lemma outcome_cases
    (fs : List Reading) :
    ((∀ f ∈ fs, ∃ cs, utf8 f.bytes = .ok cs) ∧ (outcome catalog fs).1 = .ok ()) ∨
      ∃ before f after fault l, fs = before ++ f :: after ∧
        (∀ g ∈ before, ∃ cs, utf8 g.bytes = .ok cs) ∧ utf8 f.bytes = .error fault ∧
        outcome catalog fs = (.error (.decoding fault), l) ∧
          ListsFiles l (before.map (·.path)) := by
  rcases forall_or_exists_first (fun f : Reading => ∃ cs, utf8 f.bytes = .ok cs) fs with
    hall | ⟨before, f, after, rfl, hbefore, hf⟩
  · exact .inl ⟨hall, outcome_ok_of_utf8 hon hall⟩
  · obtain ⟨fault, hfault⟩ : ∃ fault, utf8 f.bytes = .error fault := by
      rcases hutf8 : utf8 f.bytes with fault | cs
      · exact ⟨fault, rfl⟩
      · exact absurd ⟨cs, hutf8⟩ hf
    obtain ⟨l, hrun, hfiles⟩ := exists_meetAll_source hon hbefore (show ListsFiles {} [] from .nil)
    refine .inr ⟨before, f, after, fault, l, rfl, hbefore, hfault, ?_, hfiles⟩
    rw [length_nil] at hrun
    have hmeet : meetAll catalog 0 ((before ++ f :: after).map .source) {} =
        (.error (.decoding fault), l) := by
      rw [map_append, map_cons, meetAll_append hrun,
        meetAll_cons_error (x := .source f) (visit_of_error hfault)]
    rw [← outcomeOf_source, outcomeOf, hmeet]

end

/-- A project in an encoding of its own: what stands in quotes is not UTF-8. -/
def legacyTree : Files.Tree :=
  ⟨.dir [("p", .dir [("a.py", .file [0x78, 0x3d, 0x27, 0xef, 0x27, 0x0a] 0)])], []⟩

lemma isRecordable_legacyTree : twinCatalog.isRecordable legacyTree = true := by
  rw [Catalog.Plan.isRecordable, projectModules, twinCatalog, legacyTree, prunedSources_lone]
  decide +kernel

lemma not_inUtf8_legacyTree : ¬ InUtf8 legacyTree twinRoot := by
  have hpaths : (projectModules legacyTree twinRoot).map Prod.fst = ["a.py"] := by
    rw [projectModules, legacyTree, prunedSources_lone]
    decide +kernel
  have hfault : (utf8 [0x78, 0x3d, 0x27, 0xef, 0x27, 0x0a]).toOption = none :=
    by decide +kernel
  intro h
  obtain ⟨pm, hpm, hpath⟩ := mem_map.mp (hpaths ▸ mem_singleton_self "a.py")
  have hread : legacyTree.read (twinRoot.child pm.1) =
      .ok ([0x78, 0x3d, 0x27, 0xef, 0x27, 0x0a], 0) := by
    rw [hpath]
    decide +kernel
  obtain ⟨cs, hcs⟩ := h pm hpm _ _ hread
  rw [hcs] at hfault
  cases hfault

/-- Locating the definitions of a project that has not changed since its catalog was made. The
catalog is made whatever the encodings of the files are; but the run over them comes to its end
exactly if all modules are in UTF-8. Else it fails at the first file that is not, behind those that
are recorded. -/
theorem build_completes_iff (p : Catalog.Plan) (q : Plan) (s s' : Session) (h : Revisits p q s s') :
    ∃ c r l, q.Locates p s s' c (r, l) ∧ (r = .ok () ↔ InUtf8 s.tree p.root) ∧
      ∀ e, r = .error e → ∃ before path after bytes time fault,
      c.files.items = before ++ path :: after ∧
        (∀ path' ∈ before, IsText s.tree (p.root.child path')) ∧
        s.tree.read (p.root.child path) = .ok (bytes, time) ∧ utf8 bytes = .error fault ∧
        e = .decoding fault ∧ ListsFiles l before := by
  obtain ⟨c, fs, hruns, -, hfs, hat, hpaths, hon⟩ := h.exists_outcome
  refine ⟨c, (outcome _ fs).1, (outcome _ fs).2, hruns, ?_⟩
  rw [inUtf8_iff hfs hat]
  rcases outcome_cases hon fs with ⟨hall, hok⟩ | ⟨before, f, after, fault, l, rfl, hbefore, hfault,
    hrun, hfiles⟩
  · rw [hok]
    exact ⟨⟨fun _ => hall, fun _ => rfl⟩, fun e he => by cases he⟩
  · have hf := hat f (by simp)
    rw [hrun]
    refine ⟨⟨fun hok => ?_, fun hall => ?_⟩, ?_⟩
    · cases hok
    · obtain ⟨cs, hcs⟩ := hall f (by simp)
      cases hfault.symm.trans hcs
    · rintro e ⟨⟩
      refine ⟨before.map (·.path), f.path, after.map (·.path), f.bytes, f.time, fault, ?_, ?_,
        hf.read, hfault, rfl, hfiles⟩
      · rw [hpaths, map_append, map_cons]
      · intro path' hpath'
        obtain ⟨g, hg, rfl⟩ := mem_map.mp hpath'
        obtain ⟨cs, hcs⟩ := hbefore g hg
        exact ⟨g.bytes, g.time, cs, (hat g (by simp [hg])).read, hcs⟩

/-- The main result at a project that is not in UTF-8. -/
theorem build_completes_iff_legacyTree :
    Revisits twinCatalog twinPlan { tree := legacyTree } { tree := legacyTree } ∧ ∃ c r l,
      twinPlan.Locates twinCatalog { tree := legacyTree } { tree := legacyTree } c (r, l) ∧
        (r = .ok () ↔ InUtf8 legacyTree twinRoot) := by
  have hrevisits := revisits_twin (wellFormed_lone _) isRecordable_legacyTree
  obtain ⟨c, r, l, hruns, hok, -⟩ := build_completes_iff twinCatalog twinPlan _ _ hrevisits
  exact ⟨hrevisits, c, r, l, hruns, hok⟩

/-- The catalog of a project that is not in UTF-8 is made, but locating by it fails. -/
theorem legacy_project_not_located :
    ∃ c fault l, twinPlan.Locates twinCatalog { tree := legacyTree }
    { tree := legacyTree } c (.error (.decoding fault), l) := by
  obtain ⟨c, fs, hruns, -, hfs, hat, -, hon⟩ :=
    (revisits_twin (wellFormed_lone _) isRecordable_legacyTree).exists_outcome
  rcases outcome_cases hon fs with ⟨hall, -⟩ | ⟨before, f, after, fault, l, -, -, -, hrun, -⟩
  · exact absurd ((inUtf8_iff hfs hat).mpr hall) not_inUtf8_legacyTree
  · exact ⟨c, fault, l, hrun ▸ hruns⟩

end CodeAtlas.Locate
