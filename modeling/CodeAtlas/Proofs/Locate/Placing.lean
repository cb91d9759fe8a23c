import CodeAtlas.Proofs.Locate.Rows
import Mathlib.Data.List.Find

/-!
# Which rows are placed

Definitions are looked up by name in the whole catalog, so a row is placed only if no row before it
has the same name (`Places`). One statement keeps the invariant, and so do all statements of a
module.
-/

namespace CodeAtlas

open List Step

variable {c : Catalog} {done : List (Nat × Stmt)} {i : Nat} {l : Locations} {head : ClassHead}
  {r : FunctionRow} {j : Nat} {l' : Locations} {d : DefinitionRow}

namespace Catalog

open Syntax

/-- No class before the one with this number and row has its name. -/
def FirstClass (c : Catalog) (k : Nat) (r : ClassRow) : Prop :=
  ∀ j < k, ∀ r', c.classes[j]? = some r' → c.nameAt r'.name ≠ c.nameAt r.name

/-- No function outside classes before the one with this number and row has its name. -/
def FirstFunction (c : Catalog) (k : Nat) (r : FunctionRow) : Prop :=
  ∀ j < k, ∀ r', c.functions[j]? = some r' → r'.parent = none → c.nameAt r'.name ≠ c.nameAt r.name

/-- The classes and functions of a catalog are those among some statements. -/
structure Lists (c : Catalog) (stmts : List (Nat × Stmt)) : Prop where
  named : c.Named
  classes : c.classes.map (fun r => (r.module, c.nameAt r.name)) = classRows stmts
  functions : c.functions.map (fun r => (r.module, r.parent, c.nameAt r.name)) =
    functionRows 0 stmts

lemma Reads.lists {files : Table} {ms : List ModuleRow} {stmts : List (Nat × Stmt)}
    (h : c.Reads files ms (classRows stmts) (functionRows 0 stmts)) : c.Lists stmts := by
  have hname : ∀ {i : Nat} {s : String}, c.names.get? i = some s → c.nameAt i = s := by
    intro i s hi
    rw [nameAt, hi, Option.getD_some]
  refine ⟨⟨fun r hr => ?_, fun r hr => ?_⟩, ?_, ?_⟩
  · obtain ⟨x, -, hx⟩ := exists_of_forall₂ h.classes hr
    rw [hx, hname hx]
  · obtain ⟨x, -, -, hx⟩ := exists_of_forall₂ h.functions hr
    rw [hx, hname hx]
  · rw [map_eq_map_of_forall₂ (g := id) (fun hr => Prod.ext hr.1 (hname hr.2)) h.classes, map_id]
  · rw [map_eq_map_of_forall₂ (g := id)
      (fun hr => Prod.ext hr.1 (Prod.ext hr.2.1 (hname hr.2.2))) h.functions, map_id]

/-! ### Rows of one more statement -/

section Concat

variable (done : List (Nat × Stmt)) (i : Nat) (span : Span) (body : List Stmt)

lemma length_classRows_concat (head : ClassHead) :
    (classRows (done ++ [(i, .classDef span head body)])).length = (classRows done).length + 1 := by
  simp [classRows]

lemma classRows_concat_function (head : FunctionHead) :
    classRows (done ++ [(i, .function span head body)]) = classRows done := by
  simp [classRows]

lemma length_functionRows_concat (head : FunctionHead) :
    (functionRows 0 (done ++ [(i, .function span head body)])).length =
      (functionRows 0 done).length + 1 := by
  simp [functionRows_append, functionRows]

end Concat

namespace Lists

variable {c : Catalog} {done rest : List (Nat × Stmt)} {i : Nat} {span : Span} {body : List Stmt}

lemma exists_class (h : c.Lists (done ++ (i, .classDef span head body) :: rest)) :
    ∃ r, c.classes[(classRows done).length]? = some r ∧ r.module = i ∧
      c.nameAt r.name = head.name := by
  have hrow := congrArg (·[(classRows done).length]?) h.classes
  simp only [classRows_append, getElem?_map, getElem?_append_right (Nat.le_refl _),
    Nat.sub_self] at hrow
  obtain ⟨r, hr, heq⟩ := Option.map_eq_some_iff.mp hrow
  exact ⟨r, hr, (Prod.mk.inj heq).1, (Prod.mk.inj heq).2⟩

lemma exists_function {head : FunctionHead}
    (h : c.Lists (done ++ (i, .function span head body) :: rest)) :
    ∃ r, c.functions[(functionRows 0 done).length]? = some r ∧ r.module = i ∧ r.parent = none ∧
      c.nameAt r.name = head.name := by
  have hrow := congrArg (·[(functionRows 0 done).length]?) h.functions
  simp only [functionRows_append, getElem?_map, getElem?_append_right (Nat.le_refl _),
    Nat.sub_self] at hrow
  obtain ⟨r, hr, heq⟩ := Option.map_eq_some_iff.mp hrow
  have heq' := Prod.mk.inj (Prod.mk.inj heq).2
  exact ⟨r, hr, (Prod.mk.inj heq).1, heq'.1, heq'.2⟩

lemma method_of_class (h : c.Lists (done ++ (i, .classDef span head body) :: rest))
    (hr : r ∈ c.functions) (hparent : r.parent = some (classRows done).length) :
    r.module = i ∧ c.nameAt r.name ∈ methodNames body := by
  have hmem : (r.module, r.parent, c.nameAt r.name) ∈
      functionRows 0 (done ++ (i, .classDef span head body) :: rest) :=
    h.functions ▸ mem_map_of_mem hr
  rw [hparent, functionRows_append, functionRows, mem_append, mem_append] at hmem
  rcases hmem with hmem | hmem | hmem
  · have := lt_of_mem_functionRows hmem
    omega
  · obtain ⟨n, hn, heq⟩ := mem_map.mp hmem
    exact ⟨(Prod.mk.inj heq).1.symm, (Prod.mk.inj (Prod.mk.inj heq).2).2 ▸ hn⟩
  · have := lt_of_mem_functionRows hmem
    omega

lemma lt_length_iff (h : c.Lists (done ++ (i, .classDef span head body) :: rest))
    (hr : c.functions[j]? = some r) (hparent : r.parent = none) :
    j < (functionRows 0 (done ++ [(i, .classDef span head body)])).length ↔
      j < (functionRows 0 done).length := by
  have hrow : (functionRows 0 (done ++ (i, .classDef span head body) :: rest))[j]? =
      some (r.module, none, c.nameAt r.name) := by
    rw [← h.functions, getElem?_map, hr, ← hparent]
    rfl
  have hlength : (functionRows 0 (done ++ [(i, .classDef span head body)])).length =
      (functionRows 0 done).length + (methodNames body).length := by
    simp [functionRows_append, functionRows]
  constructor
  · intro hj
    by_contra hlt
    -- between the two lengths stand the methods of the class
    rw [functionRows_append, functionRows, getElem?_append_right (by omega),
      getElem?_append_left (by rw [length_map]; omega), getElem?_map] at hrow
    obtain ⟨n, -, heq⟩ := Option.map_eq_some_iff.mp hrow
    exact absurd (Prod.mk.inj (Prod.mk.inj heq).2).1 (by simp)
  · omega

end Lists

/-! ### The sites that rows are placed from -/

/-- The site that a row is placed from: its own, but for a method the first of its class that has
its name. -/
def PlacedFrom (c : Catalog) (sites : List FunctionSite) (k : Nat) (r : FunctionRow)
    (s : FunctionSite) : Prop :=
  match r.parent with
  | none => sites[k]? = some s
  | some o => sites.find? (fun s' => s'.owner = some o ∧ s'.head.name = c.nameAt r.name) = some s

lemma PlacedFrom.append {sites : List FunctionSite} {k : Nat} {s : FunctionSite}
    (h : c.PlacedFrom sites k r s) (more : List FunctionSite) :
    c.PlacedFrom (sites ++ more) k r s := by
  unfold PlacedFrom at h ⊢
  rcases hparent : r.parent with _ | o
  · simp only [hparent] at h
    exact (getElem?_append_left (List.getElem?_eq_some_iff.mp h).1).trans h
  · simp only [hparent] at h
    simp only [find?_append, h, Option.some_or]

variable (done : List (Nat × Stmt))

lemma getElem?_classSites_concat (i : Nat) (span : Span) (head : ClassHead) (body : List Stmt) :
    (classSites (done ++ [(i, .classDef span head body)]))[(classRows done).length]? =
      some ⟨i, span, head, body⟩ := by
  rw [classSites_append, ← length_classSites, getElem?_append_right (Nat.le_refl _), Nat.sub_self]
  rfl

lemma getElem?_functionSites_concat (i : Nat) (span : Span) (head : FunctionHead)
    (body : List Stmt) :
    (functionSites 0 (done ++ [(i, .function span head body)]))[(functionRows 0 done).length]? =
      some ⟨i, none, span, head, body⟩ := by
  rw [functionSites_append, ← length_functionSites, getElem?_append_right (Nat.le_refl _),
    Nat.sub_self]
  rfl

lemma find?_functionSites_concat (i : Nat) (span : Span) (head : ClassHead)
    (body : List Stmt) (name : String) :
    (functionSites 0 (done ++ [(i, .classDef span head body)])).find?
        (fun s => s.owner = some (classRows done).length ∧ s.head.name = name) =
      (methodSites i (classRows done).length body).find? (·.head.name = name) := by
  have hbefore : ∀ s ∈ functionSites 0 done, ¬ s.owner = some (classRows done).length := by
    intro s hs howner
    have hrow : (s.module, s.owner, s.head.name) ∈ functionRows 0 done :=
      map_functionSites done ▸ mem_map_of_mem hs
    have := lt_of_mem_functionRows (howner ▸ hrow)
    omega
  have howner : ∀ s ∈ methodSites i (classRows done).length body,
      s.owner = some (classRows done).length := by
    intro s hs
    obtain ⟨stmt, -, hstmt⟩ := mem_filterMap.mp hs
    cases stmt with
    | function span head inner => exact Option.some.inj hstmt ▸ rfl
    | _ => simp at hstmt
  have hnone : (functionSites 0 done).find?
      (fun s => s.owner = some (classRows done).length ∧ s.head.name = name) = none :=
    find?_eq_none.mpr fun s hs => by simp [hbefore s hs]
  rw [functionSites_append, find?_append, hnone, Option.none_or, Nat.zero_add, length_classSites,
    functionSites, functionSites, append_nil]
  exact find?_congr fun s hs => by simp [howner s hs]

end Catalog

namespace Locate

open Syntax Catalog

/-! ### The invariant -/

def ShowsClass (sites : List ClassSite) (marks : Table) (d : DefinitionRow) : Prop :=
  ∃ s, sites[d.number]? = some s ∧ d.coordinates? marks = some s.coordinates

/-- A row of a function has the coordinates of the site that it is placed from. -/
def ShowsFunction (c : Catalog) (sites : List FunctionSite) (marks : Table) (d : DefinitionRow) :
    Prop :=
  ∃ r s, c.functions[d.number]? = some r ∧ c.PlacedFrom sites d.number r s ∧
    d.coordinates? marks = some s.coordinates

/-- What coordinates there are after some of the statements of a project. -/
structure Shows (c : Catalog) (done : List (Nat × Stmt)) (l : Locations) : Prop where
  class_shows : ∀ d ∈ l.classes, ShowsClass (classSites done) l.decorators d
  function_shows : ∀ d ∈ l.functions, ShowsFunction c (functionSites 0 done) l.decorators d

/-- More statements leave the coordinates as they are. -/
lemma Shows.more (h : Shows c done l) (rest : List (Nat × Stmt)) : Shows c (done ++ rest) l where
  class_shows d hd := by
    obtain ⟨s, hs, hcoordinates⟩ := h.class_shows d hd
    rw [classSites_append]
    exact ⟨s, (getElem?_append_left (List.getElem?_eq_some_iff.mp hs).1).trans hs, hcoordinates⟩
  function_shows d hd := by
    obtain ⟨r, s, hr, hs, hcoordinates⟩ := h.function_shows d hd
    rw [functionSites_append]
    exact ⟨r, s, hr, hs.append _, hcoordinates⟩

lemma Shows.add (ds es : List DefinitionRow)
    (h : Shows c done l) (hmarks : l.decorators.Extends l'.decorators)
    (hclasses : l'.classes = l.classes ++ ds) (hfunctions : l'.functions = l.functions ++ es)
    (hds : ∀ d ∈ ds, ShowsClass (classSites done) l'.decorators d)
    (hes : ∀ e ∈ es, ShowsFunction c (functionSites 0 done) l'.decorators e) : Shows c done l' where
  class_shows d hd := by
    rw [hclasses] at hd
    rcases mem_append.mp hd with hd | hd
    · obtain ⟨s, hs, hcoordinates⟩ := h.class_shows d hd
      exact ⟨s, hs, DefinitionRow.coordinates?_extends hcoordinates hmarks⟩
    · exact hds d hd
  function_shows d hd := by
    rw [hfunctions] at hd
    rcases mem_append.mp hd with hd | hd
    · obtain ⟨r, s, hr, hs, hcoordinates⟩ := h.function_shows d hd
      exact ⟨r, s, hr, hs, DefinitionRow.coordinates?_extends hcoordinates hmarks⟩
    · exact hes d hd

/-- What is placed after some of the statements of a project. -/
structure Places (c : Catalog) (done : List (Nat × Stmt)) (l : Locations) :
    Prop extends Shows c done l where
  class_right : ∀ d ∈ l.classes, ∃ r, c.classes[d.number]? = some r ∧
    d.Is d.number r.location r.module
  function_right : ∀ d ∈ l.functions, ∃ r, c.functions[d.number]? = some r ∧
    d.Is d.number r.location r.module
  class_iff : ∀ {k r}, c.classes[k]? = some r →
    (k ∈ l.classes.map (·.number) ↔ k < (classRows done).length ∧ c.FirstClass k r)
  method_iff : ∀ {k r o}, c.functions[k]? = some r → r.parent = some o →
    (k ∈ l.functions.map (·.number) ↔ o ∈ l.classes.map (·.number))
  function_iff : ∀ {k r}, c.functions[k]? = some r → r.parent = none →
    (k ∈ l.functions.map (·.number) ↔ k < (functionRows 0 done).length ∧ c.FirstFunction k r)

lemma places_nil (hclasses : l.classes = []) (hfunctions : l.functions = []) : Places c [] l := by
  refine ⟨⟨?_, ?_⟩, ?_, ?_, ?_, ?_, ?_⟩ <;> simp [hclasses, hfunctions, classRows, functionRows]

lemma Places.congr (h : Places c done l) (hclasses : l'.classes = l.classes)
    (hfunctions : l'.functions = l.functions)
    (hmarks : l.decorators.Extends l'.decorators) : Places c done l' := by
  have hshows : Shows c done l' := h.toShows.add [] [] hmarks
    (by rw [hclasses, append_nil]) (by rw [hfunctions, append_nil]) (by simp) (by simp)
  refine ⟨hshows, ?_, ?_, ?_, ?_, ?_⟩
  · rw [hclasses]; exact h.class_right
  · rw [hfunctions]; exact h.function_right
  · rw [hclasses]; exact h.class_iff
  · rw [hclasses, hfunctions]; exact h.method_iff
  · rw [hfunctions]; exact h.function_iff

lemma exists_find?_zipIdx {ρ : Type} {xs : List ρ} {p : ρ → Prop} [DecidablePred p] {b : ρ}
    (hb : xs[j]? = some b) (hp : p b) :
    ∃ a k, xs.zipIdx.find? (fun y => p y.1) = some (a, k) ∧ k ≤ j ∧ xs[k]? = some a ∧ p a ∧
      ∀ i < k, ∀ a', xs[i]? = some a' → ¬ p a' := by
  rcases hfind : xs.zipIdx.find? (fun y => p y.1) with _ | ⟨a, k⟩
  · have hmem : (b, j) ∈ xs.zipIdx := mk_mem_zipIdx_iff_getElem?.mpr hb
    exact absurd hp (by simpa using find?_eq_none.mp hfind _ hmem)
  · obtain ⟨ha, i, hi, heq, hbefore⟩ := find?_eq_some_iff_getElem.mp hfind
    rw [getElem_zipIdx, Nat.zero_add] at heq
    obtain ⟨rfl, rfl⟩ := Prod.mk.inj heq
    have hi' : i < xs.length := by simpa using hi
    have hnone : ∀ n < i, ∀ a', xs[n]? = some a' → ¬ p a' := by
      intro n hn a' ha'
      have hn' : n < xs.length := by omega
      have := hbefore n hn
      rw [getElem_zipIdx] at this
      rw [getElem?_eq_getElem hn', Option.some.injEq] at ha'
      simpa [ha'] using this
    refine ⟨_, i, hfind, ?_, getElem?_eq_getElem hi', by simpa using ha, hnone⟩
    by_contra hji
    exact hnone j (by omega) b hb hp

/-! ### One statement -/

section Steps

variable {x : Context} {c : Catalog} (hx : x.On c) {done rest : List (Nat × Stmt)} {i : Nat}
  {span : Span} {body : List Stmt} {l : Locations}

section

variable (hlists : c.Lists (done ++ (i, .classDef span head body) :: rest)) (h : Places c done l)
  {r : ClassRow} (hr : c.classes[(classRows done).length]? = some r)

include hlists h hr

lemma Places.skip_class
    (hnot : ¬ c.FirstClass (classRows done).length r) :
    Places c (done ++ [(i, .classDef span head body)]) l := by
  have hlength := length_classRows_concat done i span body head
  refine ⟨h.toShows.more _, h.class_right, h.function_right, ?_, h.method_iff, ?_⟩
  · intro k r' hr'
    rw [h.class_iff hr', hlength]
    refine and_congr_left fun hfirst => ?_
    have hne : k ≠ (classRows done).length := by
      rintro rfl
      exact hnot (Option.some.inj (hr'.symm.trans hr) ▸ hfirst)
    omega
  · intro k r' hr' hparent
    rw [h.function_iff hr' hparent, hlists.lt_length_iff hr' hparent]

lemma Places.add_class (hmodule : r.module = i) (hfirst : c.FirstClass (classRows done).length r)
    (hd : d.Is (classRows done).length r.location i)
    (hcoordinates : d.coordinates? l'.decorators = some (coordinates span head.decorators body))
    (hmarks : l.decorators.Extends l'.decorators) (hclasses : l'.classes = l.classes ++ [d])
    {ds : List DefinitionRow} (hfunctions : l'.functions = l.functions ++ ds)
    (hright : ∀ e ∈ ds, ∃ r' s, c.functions[e.number]? = some r' ∧ e.Is e.number r'.location i ∧
      r'.parent = some (classRows done).length ∧
      (methodSites i (classRows done).length body).find? (·.head.name = c.nameAt r'.name) = some s ∧
      e.coordinates? l'.decorators = some s.coordinates)
    (hall : ∀ {j r'}, c.functions[j]? = some r' → r'.parent = some (classRows done).length →
      j ∈ l'.functions.map (·.number)) : Places c (done ++ [(i, .classDef span head body)]) l' := by
  have hlength := length_classRows_concat done i span body head
  have hclass : ∀ k, k ∈ l'.classes.map (·.number) ↔
      k ∈ l.classes.map (·.number) ∨ k = (classRows done).length := by
    intro k
    rw [hclasses, map_append, mem_append, map_singleton, mem_singleton, hd.number]
  -- the new functions belong to the class, so they are none of the others
  have hfunction : ∀ {k r'}, c.functions[k]? = some r' → r'.parent ≠ some (classRows done).length →
      (k ∈ l'.functions.map (·.number) ↔ k ∈ l.functions.map (·.number)) := by
    intro k r' hr' hparent
    rw [hfunctions, map_append, mem_append, or_iff_left]
    intro hk
    obtain ⟨e, he, rfl⟩ := mem_map.mp hk
    obtain ⟨r'', -, hr'', -, hparent', -⟩ := hright e he
    exact hparent (Option.some.inj (hr''.symm.trans hr') ▸ hparent')
  refine ⟨(h.toShows.more _).add [d] ds hmarks hclasses hfunctions ?_ ?_, ?_, ?_, ?_, ?_, ?_⟩
  · intro e he
    obtain rfl := mem_singleton.mp he
    exact ⟨⟨i, span, head, body⟩, hd.number ▸ getElem?_classSites_concat done i span head body,
      hcoordinates⟩
  · intro e he
    obtain ⟨r', s, hr', -, hparent, hfind, hcoordinates'⟩ := hright e he
    refine ⟨r', s, hr', ?_, hcoordinates'⟩
    simp only [PlacedFrom, hparent]
    exact (find?_functionSites_concat done i span head body _).trans hfind
  · intro e he
    rw [hclasses] at he
    rcases mem_append.mp he with he | he
    · exact h.class_right e he
    · obtain rfl := mem_singleton.mp he
      exact ⟨r, hd.number ▸ hr, rfl, hd.location, by rw [hd.file, hmodule]⟩
  · intro e he
    rw [hfunctions] at he
    rcases mem_append.mp he with he | he
    · exact h.function_right e he
    · obtain ⟨r', -, hr', his, hparent, -⟩ := hright e he
      have hmodule' := (hlists.method_of_class (mem_of_getElem? hr') hparent).1
      exact ⟨r', hr', rfl, his.location, by rw [his.file, hmodule']⟩
  · intro k r' hr'
    rw [hclass, h.class_iff hr', hlength]
    by_cases hk : k = (classRows done).length
    · subst hk
      obtain rfl := Option.some.inj (hr'.symm.trans hr)
      simp [hfirst]
    · rw [or_iff_left hk]
      exact and_congr_left fun _ => by omega
  · intro k r' o hr' hparent
    rw [hclass]
    by_cases ho : o = (classRows done).length
    · subst ho
      simp only [or_true, iff_true]
      exact hall hr' hparent
    · rw [or_iff_left ho, hfunction hr' (by rw [hparent]; simpa using ho), h.method_iff hr' hparent]
  · intro k r' hr' hparent
    rw [hfunction hr' (by simp [hparent]), h.function_iff hr' hparent,
      hlists.lt_length_iff hr' hparent]

end

section

variable {head : FunctionHead} (h : Places c done l)
  (hr : c.functions[(functionRows 0 done).length]? = some r)

include h hr

lemma Places.skip_function (hnot : ¬ c.FirstFunction (functionRows 0 done).length r) :
    Places c (done ++ [(i, .function span head body)]) l := by
  have hclasses := classRows_concat_function done i span body head
  have hlength := length_functionRows_concat done i span body head
  refine ⟨h.toShows.more _, h.class_right, h.function_right, by rw [hclasses]; exact h.class_iff,
    h.method_iff, ?_⟩
  intro k r' hr' hparent
  rw [h.function_iff hr' hparent, hlength]
  refine and_congr_left fun hfirst => ?_
  have hne : k ≠ (functionRows 0 done).length := by
    rintro rfl
    exact hnot (Option.some.inj (hr'.symm.trans hr) ▸ hfirst)
  omega

lemma Places.add_function (hmodule : r.module = i) (hnone : r.parent = none)
    (hfirst : c.FirstFunction (functionRows 0 done).length r)
    (hd : d.Is (functionRows 0 done).length r.location i)
    (hcoordinates : d.coordinates? l'.decorators = some (coordinates span head.decorators body))
    (hmarks : l.decorators.Extends l'.decorators) (hsame : l'.classes = l.classes)
    (hfunctions : l'.functions = l.functions ++ [d]) :
    Places c (done ++ [(i, .function span head body)]) l' := by
  have hclasses := classRows_concat_function done i span body head
  have hlength := length_functionRows_concat done i span body head
  have hfunction : ∀ k, k ∈ l'.functions.map (·.number) ↔
      k ∈ l.functions.map (·.number) ∨ k = (functionRows 0 done).length := by
    intro k
    rw [hfunctions, map_append, mem_append, map_singleton, mem_singleton, hd.number]
  refine ⟨(h.toShows.more _).add [] [d] hmarks (by rw [hsame, append_nil]) hfunctions (by simp) ?_,
    by rw [hsame]; exact h.class_right, ?_, by rw [hclasses, hsame]; exact h.class_iff, ?_, ?_⟩
  · intro e he
    obtain rfl := mem_singleton.mp he
    refine ⟨r, ⟨i, none, span, head, body⟩, hd.number ▸ hr, ?_, hcoordinates⟩
    simp only [PlacedFrom, hnone, hd.number]
    exact getElem?_functionSites_concat done i span head body
  · intro e he
    rw [hfunctions] at he
    rcases mem_append.mp he with he | he
    · exact h.function_right e he
    · obtain rfl := mem_singleton.mp he
      exact ⟨r, hd.number ▸ hr, rfl, hd.location, by rw [hd.file, hmodule]⟩
  · intro k r' o hr' hparent
    have hk : k ≠ (functionRows 0 done).length := by
      rintro rfl
      obtain rfl := Option.some.inj (hr'.symm.trans hr)
      simp [hnone] at hparent
    rw [hfunction, or_iff_left hk, hsame, h.method_iff hr' hparent]
  · intro k r' hr' hparent
    rw [hfunction, h.function_iff hr' hparent, hlength]
    by_cases hk : k = (functionRows 0 done).length
    · subst hk
      obtain rfl := Option.some.inj (hr'.symm.trans hr)
      simp [hfirst]
    · rw [or_iff_left hk]
      exact and_congr_left fun _ => by omega

end

include hx

/-- A class of a module is placed with its methods, unless its name came before. -/
lemma Places.classDef (hfile : x.file = i)
    (hlists : c.Lists (done ++ (i, .classDef span head body) :: rest)) (h : Places c done l) :
    ∃ l', x.placeFirstClass span head body (c.classes.zipIdx.map fun y => (y.1.toValue, y.2)) l =
        (.ok (), l') ∧ SameFiles l l' ∧ Places c (done ++ [(i, .classDef span head body)]) l' := by
  obtain ⟨r, hr, hmodule, hname⟩ := hlists.exists_class
  obtain ⟨a, k, hfind, hk, ha, haname, hbefore⟩ :=
    exists_find?_zipIdx (p := fun r => c.nameAt r.name = head.name) hr hname
  have hfirst : c.FirstClass k a := fun j hj r' hr' => haname ▸ hbefore j hj r' hr'
  let own (r : ClassRow) : Bool := c.nameAt r.name = head.name
  have hown : ∀ z ∈ c.classes.zipIdx, x.isClass z.1.toValue head.name l = (.ok (own z.1), l) :=
    fun z hz =>
    hx.isClass l (mem_of_getElem? (getElem?_of_mem_zipIdx hz)) _
  rcases Nat.lt_or_eq_of_le hk with hlt | rfl
  · -- the first row with the name belongs to a class before
    have hplaced := (h.class_iff ha).mpr ⟨hlt, hfirst⟩
    refine ⟨l, ?_, .refl l, h.skip_class hlists hr fun hfirst' =>
      hfirst' k hlt a ha (haname.trans hname.symm)⟩
    exact (placeFirst_eq own hown hfind).trans (if_pos (any_number_iff.mpr hplaced))
  · obtain rfl := Option.some.inj (ha.symm.trans hr)
    have hfree : ¬ l.classes.any (·.number = (classRows done).length) = true := by
      rw [any_number_iff, h.class_iff hr]
      omega
    obtain ⟨l1, d, hclass, hd, hcoordinates, hfiles, hfunctions, hclasses⟩ :=
      exists_placeClass hx hr span head body l
    obtain ⟨l2, hmethods, hadds, hall⟩ :=
      exists_placeMethods hx (k := (classRows done).length) i body l1
    obtain ⟨ds, hds, hright⟩ := hadds.functions
    refine ⟨l2, ?_, hfiles.trans hadds.files, ?_⟩
    · refine (placeFirst_eq own hown hfind).trans ((if_neg hfree).trans ?_)
      exact (bind_ok hclass _).trans hmethods
    · refine h.add_class hlists hr hmodule hfirst (hfile ▸ hd)
        (DefinitionRow.coordinates?_extends hcoordinates hadds.files.decorators)
        (hfiles.trans hadds.files).decorators (hadds.classes.trans hclasses)
          (hds.trans (by rw [hfunctions]))
        (fun e he => hfile ▸ (hright e he).2) fun hr' hparent => ?_
      exact hall _ _ hr' hparent (hlists.method_of_class (mem_of_getElem? hr') hparent).2

/-- A function of a module is placed, unless its name came before. -/
lemma Places.function {head : FunctionHead} (hfile : x.file = i)
    (hlists : c.Lists (done ++ (i, .function span head body) :: rest)) (h : Places c done l) :
    ∃ l', x.placeFirstFunction span head body
          (c.functions.zipIdx.map fun y => (y.1.toValue, y.2)) l =
        (.ok (), l') ∧ SameFiles l l' ∧ Places c (done ++ [(i, .function span head body)]) l' := by
  obtain ⟨r, hr, hmodule, hnone, hname⟩ := hlists.exists_function
  obtain ⟨a, k, hfind, hk, ha, hmatch, hbefore⟩ :=
    exists_find?_zipIdx (p := fun r => r.parent = none ∧ c.nameAt r.name = head.name)
      hr ⟨hnone, hname⟩
  have hfirst : c.FirstFunction k a := fun j hj r' hr' hparent heq =>
    hbefore j hj r' hr' ⟨hparent, heq.trans hmatch.2⟩
  let own (r : FunctionRow) : Bool := r.parent = none ∧ c.nameAt r.name = head.name
  have hown : ∀ z ∈ c.functions.zipIdx,
      x.isFunction z.1.toValue (.int (-1)) head.name l = (.ok (own z.1), l) := by
    intro z hz
    rw [hx.isFunction l (mem_of_getElem? (getElem?_of_mem_zipIdx hz)), same_number?_missing,
      ← Bool.decide_and]
  rcases Nat.lt_or_eq_of_le hk with hlt | rfl
  · -- the first row with the name belongs to a function before
    have hplaced := (h.function_iff ha hmatch.1).mpr ⟨hlt, hfirst⟩
    refine ⟨l, ?_, .refl l, h.skip_function hr fun hfirst' =>
      hfirst' k hlt a ha hmatch.1 (hmatch.2.trans hname.symm)⟩
    exact (placeFirst_eq own hown hfind).trans (if_pos (any_number_iff.mpr hplaced))
  · obtain rfl := Option.some.inj (ha.symm.trans hr)
    have hfree : ¬ l.functions.any (·.number = (functionRows 0 done).length) = true := by
      rw [any_number_iff, h.function_iff hr hnone]
      omega
    obtain ⟨l', d, hplace, hd, hcoordinates, hfiles, hclasses, hfunctions⟩ :=
      exists_placeFunction hx hr span head body l
    refine ⟨l', ?_, hfiles,
      h.add_function hr hmodule hnone hfirst (hfile ▸ hd) hcoordinates hfiles.decorators
      hclasses hfunctions⟩
    exact (placeFirst_eq own hown hfind).trans ((if_neg hfree).trans hplace)

end Steps

/-! ### All statements of a module -/

lemma Places.other (h : Places c done l) {s : Stmt} (hclasses : classRows [(i, s)] = [])
    (hfunctions : ∀ k, functionRows k [(i, s)] = []) : Places c (done ++ [(i, s)]) l := by
  have hclasses' : classRows (done ++ [(i, s)]) = classRows done := by
    rw [classRows_append, hclasses, append_nil]
  have hfunctions' : functionRows 0 (done ++ [(i, s)]) = functionRows 0 done := by
    rw [functionRows_append, hfunctions, append_nil]
  refine ⟨h.toShows.more _, h.class_right, h.function_right, ?_, h.method_iff, ?_⟩
  · rw [hclasses']
    exact h.class_iff
  · rw [hfunctions']
    exact h.function_iff

/-- The definitions of a module are placed statement by statement. -/
lemma exists_placeDefinitions {x : Context} (hx : x.On c) (hfile : x.file = i)
    {rest : List (Nat × Stmt)} (body : List Stmt)
    (hlists : c.Lists (done ++ body.map (i, ·) ++ rest)) (h : Places c done l) :
    ∃ l', x.placeDefinitions body l = (.ok (), l') ∧ SameFiles l l' ∧
      Places c (done ++ body.map (i, ·)) l' := by
  induction body generalizing done l with
  | nil => exact ⟨l, rfl, .refl l, by simpa using h⟩
  | cons s body ih =>
    have hnext : done ++ (s :: body).map (i, ·) = done ++ [(i, s)] ++ body.map (i, ·) := by simp
    have hhere : c.Lists (done ++ (i, s) :: (body.map (i, ·) ++ rest)) := by simpa using hlists
    rw [hnext] at hlists ⊢
    cases s with
    | classDef span head inner =>
      obtain ⟨l1, hrun, hfiles, hplaces⟩ := h.classDef hx hfile hhere
      obtain ⟨l2, hrun', hfiles', hplaces'⟩ := ih hlists hplaces
      refine ⟨l2, ?_, hfiles.trans hfiles', hplaces'⟩
      rw [Context.placeDefinitions, bind_ok (hx.rows_classes l), bind_ok hrun, hrun']
    | function span head inner =>
      obtain ⟨l1, hrun, hfiles, hplaces⟩ := h.function hx hfile hhere
      obtain ⟨l2, hrun', hfiles', hplaces'⟩ := ih hlists hplaces
      refine ⟨l2, ?_, hfiles.trans hfiles', hplaces'⟩
      rw [Context.placeDefinitions, bind_ok (hx.rows_functions l), bind_ok hrun, hrun']
    | _ => exact ih hlists (h.other rfl fun _ => rfl)

end Locate

end CodeAtlas
