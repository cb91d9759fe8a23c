import CodeAtlas.Proofs.Locate.Completeness

/-!
# Whether located definitions have their own coordinates

A method is placed at every row of its class that has its name, and what is placed first stays
(`build_faithful_iff`).
-/

namespace CodeAtlas.Locate

open List Syntax Catalog

/-- All rows that are located have the coordinates of their own sites. -/
structure Faithful (l : Locations) (stmts : List (Nat × Stmt)) : Prop where
  classes : ∀ d ∈ l.classes, ShowsClass (classSites stmts) l.decorators d
  functions : ∀ d ∈ l.functions, ∃ s, (functionSites 0 stmts)[d.number]? = some s ∧
    d.coordinates? l.decorators = some s.coordinates

/-- Methods of one name stand at the same place, if they are in a class with no class of its name
before it. -/
def MethodsAgree (c : Catalog) (sites : List FunctionSite) : Prop :=
  ∀ o r, c.classes[o]? = some r → c.FirstClass o r → ∀ s ∈ sites, ∀ s' ∈ sites, s.owner = some o →
    s'.owner = some o → s.head.name = s'.head.name → s.coordinates = s'.coordinates

section Results

variable {c : Catalog}

lemma getElem?_functionSites_iff {stmts : List (Nat × Stmt)} (hlists : c.Lists stmts) {k : Nat}
    {x : Nat × Option Nat × String} :
    (∃ r, c.functions[k]? = some r ∧ (r.module, r.parent, c.nameAt r.name) = x) ↔
      ∃ s, (functionSites 0 stmts)[k]? = some s ∧ (s.module, s.owner, s.head.name) = x := by
  have hrow := congrArg (·[k]?) (hlists.functions.trans (map_functionSites stmts).symm)
  simp only [getElem?_map] at hrow
  rw [← Option.map_eq_some_iff, ← Option.map_eq_some_iff, hrow]

variable {sources : List (String × Module)} {l : Locations} (hc : c.Holds sources)
  (hl : Places c (statements sources) l)

include hc hl

lemma mem_numbers_iff_firstClass {k o : Nat} {r : FunctionRow} {r' : ClassRow}
    (hr : c.functions[k]? = some r) (hparent : r.parent = some o) (hr' : c.classes[o]? = some r') :
    k ∈ l.functions.map (·.number) ↔ c.FirstClass o r' := by
  rw [hl.method_iff hr hparent, hl.class_iff hr', and_iff_right (lt_length_classRows hc hr')]

lemma Faithful.coordinates_eq (h : Faithful l (statements sources)) {o : Nat} {r : ClassRow}
    (hr : c.classes[o]? = some r) (hfirst : c.FirstClass o r) {s : FunctionSite}
    (hs : s ∈ functionSites 0 (statements sources)) (howner : s.owner = some o) :
    ∃ s0, (functionSites 0 (statements sources)).find?
        (fun s' => s'.owner = some o ∧ s'.head.name = s.head.name) = some s0 ∧
        s.coordinates = s0.coordinates := by
  obtain ⟨k, hk⟩ := mem_iff_getElem?.mp hs
  obtain ⟨r', hr', heq⟩ := (getElem?_functionSites_iff hc.reads.lists).mpr ⟨s, hk, rfl⟩
  obtain ⟨-, hparent, hname⟩ :
      r'.module = s.module ∧ r'.parent = s.owner ∧ c.nameAt r'.name = s.head.name := by
    simpa using heq
  rw [howner] at hparent
  -- the row of the method is located, and there its own coordinates meet those it was placed from
  obtain ⟨d, hd, rfl⟩ := mem_map.mp ((mem_numbers_iff_firstClass hc hl hr' hparent hr).mpr hfirst)
  obtain ⟨s₁, hs1, hown⟩ := h.functions d hd
  obtain ⟨r'', s0, hr'', hfrom, hplaced⟩ := hl.function_shows d hd
  obtain rfl := Option.some.inj (hr''.symm.trans hr')
  obtain rfl := Option.some.inj (hs1.symm.trans hk)
  simp only [PlacedFrom, hparent, hname] at hfrom
  exact ⟨s0, hfrom, Option.some.inj (hown.symm.trans hplaced)⟩

lemma faithful_iff : Faithful l (statements sources) ↔
    MethodsAgree c (functionSites 0 (statements sources)) := by
  constructor
  · intro h o r hr hfirst s hs s' hs' howner howner' hname
    obtain ⟨s0, hfind, heq⟩ := h.coordinates_eq hc hl hr hfirst hs howner
    obtain ⟨s₀', hfind', heq'⟩ := h.coordinates_eq hc hl hr hfirst hs' howner'
    rw [hname] at hfind
    obtain rfl := Option.some.inj (hfind.symm.trans hfind')
    exact heq.trans heq'.symm
  · intro h
    refine ⟨hl.class_shows, fun d hd => ?_⟩
    obtain ⟨r, s0, hr, hfrom, hplaced⟩ := hl.function_shows d hd
    obtain ⟨s, hs, heq⟩ := (getElem?_functionSites_iff hc.reads.lists).mp ⟨r, hr, rfl⟩
    obtain ⟨-, hparent, hname⟩ :
        s.module = r.module ∧ s.owner = r.parent ∧ s.head.name = c.nameAt r.name := by
      simpa using heq
    refine ⟨s, hs, hplaced.trans (congrArg some ?_)⟩
    rcases ho : r.parent with _ | o
    · simp only [PlacedFrom, ho] at hfrom
      rw [Option.some.inj (hfrom.symm.trans hs)]
    · simp only [PlacedFrom, ho] at hfrom
      obtain ⟨r', hr'⟩ := exists_class_of_parent hc hr ho
      have hfirst := (mem_numbers_iff_firstClass hc hl hr ho hr').mp (mem_map_of_mem hd)
      have hmatch : s0.owner = some o ∧ s0.head.name = c.nameAt r.name := by
        simpa using find?_some hfrom
      exact h o r' hr' hfirst s0 (mem_of_find?_eq_some hfrom) s (mem_of_getElem? hs) hmatch.1
        (hparent.trans ho) (hmatch.2.trans hname.symm)

end Results

/-! ### Two methods of one name -/

/-- The text of a class with a getter and a setter, which are two methods `f`. -/
def accessorText : String :=
  "class A:\n    @property\n    def f(self): pass\n    @f.setter\n    def f(self, x): pass\n"

/-- A project with that class. -/
def accessorTree : Files.Tree := loneTree accessorText

lemma wellFormed_accessorTree : accessorTree.WellFormed := wellFormed_loneTree accessorText

lemma isRecordable_accessorTree : twinCatalog.isRecordable accessorTree = true :=
  isRecordable_loneTree _ _ rfl (by decide +kernel)

lemma utf8_accessorTree : ∀ file ∈ accessorTree.prunedSources skippedDirs twinRoot, ∀ bytes time,
    accessorTree.read file = .ok (bytes, time) → ∃ cs, Text.utf8 bytes = .ok cs :=
  utf8_loneTree accessorText

lemma map_functionSites_accessorTree :
    (functionSites 0 (statements (projectModules accessorTree twinRoot))).map
        (fun s => (s.owner, s.head.name, s.coordinates)) =
          [(some 0, "f", ⟨2, 3, 3, 3, [(2, "@property")], none⟩),
        (some 0, "f", ⟨4, 5, 5, 5, [(4, "@f.setter")], none⟩)] := by
  rw [projectModules, accessorTree, prunedSources_loneTree]
  decide +kernel

lemma not_methodsAgree_accessorTree {c : Catalog}
    (hc : c.Holds (projectModules accessorTree twinRoot)) :
    ¬ MethodsAgree c (functionSites 0 (statements (projectModules accessorTree twinRoot))) := by
  intro h
  obtain ⟨getter, rest, hsites, hgetter, hrest⟩ := map_eq_cons_iff.mp map_functionSites_accessorTree
  obtain ⟨setter, rfl, hsetter⟩ := map_eq_singleton_iff.mp hrest
  obtain ⟨howner, hname, hcoordinates⟩ : getter.owner = some 0 ∧ getter.head.name = "f" ∧ _ := by
    simpa only [Prod.mk.injEq] using hgetter
  obtain ⟨howner', hname', hcoordinates'⟩ : setter.owner = some 0 ∧ setter.head.name = "f" ∧ _ := by
    simpa only [Prod.mk.injEq] using hsetter
  obtain ⟨r, hr, hrow⟩ := (getElem?_functionSites_iff hc.reads.lists).mpr
    ⟨getter, by rw [hsites, getElem?_cons_zero], rfl⟩
  have hparent : r.parent = some 0 := (Prod.mk.inj (Prod.mk.inj hrow).2).1.trans howner
  -- no class comes before the first one
  obtain ⟨k, hk⟩ := exists_class_of_parent hc hr hparent
  have heq := h 0 k hk (fun j hj => absurd hj (Nat.not_lt_zero j)) getter (by simp [hsites]) setter
    (by simp [hsites]) howner howner' (hname.trans hname'.symm)
  rw [hcoordinates, hcoordinates'] at heq
  exact absurd heq (by decide)

/-! ### The main result -/

/-- What coordinates the definitions of a project get when they are located by its own catalog. Row
`k` of the catalog is made of site `k` of the project. What is located of classes has the
coordinates of their own sites, and what is located of functions those of the sites they are placed
from: their own outside classes, and in a class the first one of the name. So all coordinates are
those of the row's own site exactly if in every class that is located the methods of one name stand
at the same place. -/
theorem build_faithful_iff (p : Catalog.Plan) (q : Plan) (s s' : Session) (h : Revisits p q s s')
    (hutf8 : InUtf8 s.tree p.root) : ∃ c l, q.Locates p s s' c (.ok (), l) ∧
      c.RecordsAll (projectModules s.tree p.root) ∧ (∀ d ∈ l.classes,
        ShowsClass (classSites (statements (projectModules s.tree p.root))) l.decorators d) ∧
        (∀ d ∈ l.functions, ShowsFunction c
          (functionSites 0 (statements (projectModules s.tree p.root))) l.decorators d) ∧
      (Faithful l (statements (projectModules s.tree p.root)) ↔
        MethodsAgree c (functionSites 0 (statements (projectModules s.tree p.root)))) := by
  obtain ⟨c, l, ⟨s₁, s₂, hrun₁, hrun₂⟩, hc, -, hplaces⟩ := h.exists_places hutf8
  exact ⟨c, l, ⟨s₁, s₂, hrun₁, hrun₂⟩, RecordsAll.of_generate hrun₁, hplaces.class_shows,
    hplaces.function_shows, faithful_iff hc hplaces⟩

/-- The main result at the project with a getter and a setter. -/
theorem build_faithful_iff_accessorTree :
    Revisits twinCatalog twinPlan { tree := accessorTree } { tree := accessorTree } ∧ ∃ c l,
      twinPlan.Locates twinCatalog { tree := accessorTree } { tree := accessorTree } c (.ok (), l) ∧
        (Faithful l (statements (projectModules accessorTree twinRoot)) ↔
          MethodsAgree c (functionSites 0
            (statements (projectModules accessorTree twinRoot)))) := by
  have hrevisits := revisits_twin wellFormed_accessorTree isRecordable_accessorTree
  obtain ⟨c, l, hruns, -, -, -, hfaithful⟩ := build_faithful_iff twinCatalog twinPlan _ _ hrevisits
    (inUtf8_of_sources wellFormed_accessorTree utf8_accessorTree)
  exact ⟨hrevisits, c, l, hruns, hfaithful⟩

/-- The coordinates of a getter and a setter are not both right: the setter gets those of the
getter. -/
theorem setter_not_faithful :
    (∀ file ∈ accessorTree.prunedSources skippedDirs twinRoot, ∀ bytes time,
      accessorTree.read file = .ok (bytes, time) → ∃ cs, Text.utf8 bytes = .ok cs) ∧ ∃ c l,
      twinPlan.Locates twinCatalog { tree := accessorTree } { tree := accessorTree } c (.ok (), l) ∧
        ¬ Faithful l (statements (projectModules accessorTree twinRoot)) := by
  obtain ⟨c, l, hruns, hc, -, hplaces⟩ :=
    (revisits_twin wellFormed_accessorTree isRecordable_accessorTree).exists_places
      (inUtf8_of_sources wellFormed_accessorTree utf8_accessorTree)
  exact ⟨utf8_accessorTree, c, l, hruns, fun h =>
    not_methodsAgree_accessorTree hc ((faithful_iff hc hplaces).mp h)⟩

end CodeAtlas.Locate
