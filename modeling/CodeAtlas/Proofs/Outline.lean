import CodeAtlas.Outline.Extract
import CodeAtlas.Proofs.Catalog.Records
import CodeAtlas.Proofs.Walk

/-!
# What an outline takes from a module

The definitions that a breadth-first walk finds at depth 1 are the statements of the module
(`Outline.definitions_selected`); imports are taken wherever they stand
(`Outline.imports_by_depth`).
-/

namespace CodeAtlas

open List

namespace Syntax

def Node.stmt? : Node → Option Stmt
  | .stmt s => some s
  | .clause _ => none

/-- Whether a site is that of a statement of the module, and not one that looks like it. -/
def Module.holds (m : Module) (s : Site) : Bool := m.tops.any (·.way = s.way)

end Syntax

namespace Outline

open Syntax

variable {cs : List Comment}

/-! ### Definitions at the top -/

/-- What is met at the top of a module is what stands directly in it. -/
lemma topLevel_eq (m : Module) : topLevel m = m.body := by
  have hwalk : m.walk.filter (·.depth = 1) = m.body.map fun s => ⟨1, .stmt s⟩ := by
    have hstart : Drains Visit.below ((m.body.map Node.stmt).map (Visit.mk 1)) m.walk := by
      rw [map_map]
      exact m.drains_walk
    rw [(levels_of_drains hstart).2.2 1, filter_inOrder, if_pos rfl, map_map]
    rfl
  have htop : topLevel m = (m.walk.filter (·.depth = 1)).filterMap (·.node.stmt?) := by
    unfold topLevel
    rw [filterMap_filter]
    congr 1
    funext v
    rcases v with ⟨depth, node⟩
    cases node with
    | stmt s => simp [Node.stmt?]
    | clause body => simp [Node.stmt?]
  rw [htop, hwalk, filterMap_map]
  exact filterMap_some

/-- The definitions of classes that stand in a block. -/
def classDefs (body : List Stmt) : List (Span × ClassHead × List Stmt) :=
  body.filterMap fun s =>
    match s with
    | .classDef span head inner => some (span, head, inner)
    | _ => none

/-- The definitions of functions that stand in a block. -/
def functionDefs (body : List Stmt) : List (Span × FunctionHead × List Stmt) :=
  body.filterMap fun s =>
    match s with
    | .function span head inner => some (span, head, inner)
    | _ => none

lemma functionsIn_eq (body : List Stmt) :
    functionsIn cs body = (functionDefs body).map fun d => functionOutline cs d.1 d.2.1 d.2.2 := by
  unfold functionsIn functionDefs
  rw [map_filterMap]
  congr 1
  funext s
  cases s <;> rfl

lemma classes_eq (cs : List Comment) (m : Module) :
    classes cs m = (classDefs m.body).map fun d => classOutline cs d.1 d.2.1 d.2.2 := by
  unfold classes classDefs
  rw [topLevel_eq, map_filterMap]
  congr 1
  funext s
  cases s <;> rfl

lemma filter_holds_sites {m : Module} {sites : List Site} (h : Drains Site.below m.tops sites) :
    sites.filter m.holds = m.tops := by
  rw [← append_nil m.tops] at h
  obtain ⟨later, rfl, hlater⟩ := h.front
  have hdeeper : ∀ s ∈ later, 2 ≤ s.way.length := by
    refine hlater.forall_mem (P := fun s => 2 ≤ s.way.length) (fun s hs t ht => ?_) fun t ht => ?_
    · obtain ⟨c, -, rfl⟩ := mem_map.mp ht
      simp only [length_append, length_singleton]
      omega
    · rw [nil_append] at ht
      obtain ⟨s, hs, ht⟩ := mem_flatMap.mp ht
      obtain ⟨i, -, rfl⟩ := mem_map.mp hs
      obtain ⟨c, -, rfl⟩ := mem_map.mp ht
      simp
  rw [filter_append, filter_eq_self.mpr, filter_eq_nil_iff.mpr, append_nil]
  · intro s hs hheld
    obtain ⟨t, ht, hway⟩ := any_eq_true.mp hheld
    obtain ⟨i, -, rfl⟩ := mem_map.mp ht
    have hlength := hdeeper s hs
    rw [← of_decide_eq_true hway] at hlength
    simp at hlength
  · exact fun s hs => any_eq_true.mpr ⟨s, hs, decide_eq_true rfl⟩

/-- The walk over a module comes to an end, and the nodes on it that are statements of the module
are all of these, once each and in order. They are what is kept of the walk, and the classes and
functions of the outline are the outlines of the definitions among them. -/
theorem definitions_selected (path : Path) (source : List Char) (m : Module) :
    ∃ sites, Drains Site.below m.tops sites ∧ sites.map Site.visit = m.walk ∧
      sites.filter m.holds = m.tops ∧
      topLevel m = (sites.filter m.holds).filterMap (·.node.stmt?) ∧
      (ofModule path source m).classes =
        (classDefs m.body).map (fun d => classOutline (comments source) d.1 d.2.1 d.2.2) ∧
      (ofModule path source m).functions =
        (functionDefs m.body).map fun d => functionOutline (comments source) d.1 d.2.1 d.2.2 := by
  obtain ⟨sites, hsites, hwalk⟩ := m.exists_drains_sites
  refine ⟨sites, hsites, hwalk, filter_holds_sites hsites, ?_, classes_eq _ m, ?_⟩
  · rw [filter_holds_sites hsites, topLevel_eq, Module.tops, filterMap_map]
    conv_lhs => rw [← zipIdx_map_fst 0 m.body]
    rw [← filterMap_eq_map]
    rfl
  · rw [← functionsIn_eq, ← topLevel_eq m]
    rfl

/-- The classes that stand in a block, each with its body. -/
def classBodies (body : List Stmt) : List (String × List Stmt) :=
  body.filterMap fun s =>
    match s with
    | .classDef _ head inner => some (head.name, inner)
    | _ => none

lemma map_name_functionsIn (body : List Stmt) :
    (functionsIn cs body).map (·.name) = Catalog.methodNames body := by
  unfold functionsIn Catalog.methodNames
  rw [map_filterMap]
  congr 1
  funext s
  cases s <;> rfl

/-- The classes of an outline are those that stand in the module, with the methods in their bodies.
-/
lemma names_classes (cs : List Comment) (m : Module) :
    (classes cs m).map (fun c => (c.name, c.methods.map (·.name))) =
      (classBodies m.body).map fun nb => (nb.1, Catalog.methodNames nb.2) := by
  unfold classes classBodies
  rw [topLevel_eq, map_filterMap, map_filterMap]
  congr 1
  funext s
  cases s with
  | classDef span head inner => simp [classOutline, map_name_functionsIn]
  | _ => rfl

/-- The functions of an outline are those that stand in the module. -/
lemma names_functions (cs : List Comment) (m : Module) :
    (functions cs m).map (·.name) = Catalog.methodNames m.body := by
  unfold functions
  rw [topLevel_eq, map_name_functionsIn]

/-! ### Imports -/

/-- One import for each name that a statement imports. -/
def aliasImports : Node → List Import
  | .stmt (.importNames span names) => names.map fun a => ⟨a.name, span.first, [a.name], false⟩
  | _ => []

/-- One import for a statement that imports from a module that has a name. -/
def memberImports : Node → List Import
  | .stmt (.importFrom span (some module) names _) =>
    if module = "" then [] else [⟨module, span.first, names.map (·.name), true⟩]
  | _ => []

lemma imports_eq_flatMap (m : Module) :
    imports m = m.walk.flatMap fun v => aliasImports v.node ++ memberImports v.node := by
  unfold imports
  congr 1
  funext v
  rcases v with ⟨depth, node⟩
  cases node with
  | clause body => rfl
  | stmt s =>
    cases s with
    | importNames span names => exact (append_nil _).symm
    | importFrom span module names level =>
      rcases module with _ | module
      · rfl
      · simp [importsOf, aliasImports, memberImports]
    | _ => rfl

/-- The imports of a module are found on a walk that comes to an end. They are those of all nodes of
the tree, one for each name of an import and one for each import from a module that has a name, no
matter where it stands. Those of less depth come first, and at each depth they stand in the order of
the text. -/
theorem imports_by_depth (m : Module) :
    ∃ visited, Drains Visit.below (m.body.map fun s => ⟨1, .stmt s⟩) visited ∧
      imports m = visited.flatMap (fun v => aliasImports v.node ++ memberImports v.node) ∧
      (imports m).Perm
        (m.inOrder.flatMap (aliasImports ·.node) ++ m.inOrder.flatMap (memberImports ·.node)) ∧
      visited.Pairwise (fun v w => v.depth ≤ w.depth) ∧
      ∀ d, visited.filter (·.depth = d) = m.inOrder.filter (·.depth = d) := by
  have hstart : Drains Visit.below ((m.body.map Node.stmt).map (Visit.mk 1)) m.walk := by
    rw [map_map]
    exact m.drains_walk
  obtain ⟨hperm, hsorted, hfilter⟩ := levels_of_drains hstart
  rw [flatMap_map] at hperm hfilter
  refine ⟨m.walk, m.drains_walk, imports_eq_flatMap m, ?_, hsorted, hfilter⟩
  rw [imports_eq_flatMap]
  exact (hperm.flatMap_right _).trans (flatMap_append_perm _ _ _).symm

end Outline

end CodeAtlas
