import CodeAtlas.Proofs.Locate.Fidelity
import CodeAtlas.Proofs.Locate.Soundness

/-!
# Where definitions and their bodies start

A definition starts with its first decorator, but its row with the first one that is recorded
(`extent_of_build`).
-/

namespace CodeAtlas

open List Option

variable {ds : List Decorator} {span : Span} {body : List Stmt}

def Syntax.Stmt.decorators : Syntax.Stmt → List Syntax.Decorator
  | .function _ head _ => head.decorators
  | .classDef _ head _ => head.decorators
  | _ => []

namespace Locate

open Syntax Catalog

/-- The line where something starts, with its decorators. -/
def startLine (span : Span) (ds : List Decorator) : Nat := (ds.head?.map (·.line)).getD span.first

/-- Decorators stand one below the other, above what they decorate. -/
def StandAbove (span : Span) (ds : List Decorator) : Prop :=
  (ds.map (·.line) ++ [span.first]).Pairwise (· < ·)

/-- The first decorator is recorded, if there is one. -/
def StartsRecorded (ds : List Decorator) : Prop :=
  ∀ x ∈ ds.head?, (decoratorMark? x.expr).isSome = true

/-- A row starts where the definition starts, and its body where the body does. -/
structure DefinitionRow.Covers (d : DefinitionRow) (span : Span) (ds : List Decorator)
    (body : List Stmt) : Prop where
  first : d.first = startLine span ds
  body : d.docstring = none → ∀ st ∈ body.head?, d.body = startLine st.span st.decorators

/-- When a row covers a definition, and what stands above it otherwise. -/
structure DefinitionRow.HasExtent (d : DefinitionRow) (span : Span) (ds : List Decorator)
    (body : List Stmt) : Prop where
  covers : StartsRecorded ds → (d.docstring = none → ∀ st ∈ body.head?, st.decorators = []) →
    d.Covers span ds body
  first_iff : StandAbove span ds → ((∀ x ∈ ds, d.first ≤ x.line) ↔ StartsRecorded ds)
  body_iff : d.docstring = none → ∀ st ∈ body.head?, StandAbove st.span st.decorators →
    (d.body ≤ startLine st.span st.decorators ↔ st.decorators = [])

/-! ### Coordinates -/

lemma first_mem_lines : (coordinates span ds body).first ∈ ds.map (·.line) ++ [span.first] := by
  rcases hmarks : (marksOf ds).head? with _ | m
  · simp [coordinates, hmarks]
  · obtain ⟨x, hx, hmark⟩ := mem_filterMap.mp (mem_of_mem_head? hmarks)
    obtain ⟨mark, -, rfl⟩ := map_eq_some_iff.mp hmark
    simp only [coordinates, hmarks, map_some, getD_some]
    exact mem_append_left _ (mem_map_of_mem hx)

lemma coordinates_first (h : StartsRecorded ds) :
    (coordinates span ds body).first = startLine span ds := by
  cases ds with
  | nil => rfl
  | cons x ds =>
    obtain ⟨mark, hmark⟩ := isSome_iff_exists.mp (h x rfl)
    simp [coordinates, startLine, marksOf, hmark]

lemma coordinates_first_le_iff (h : StandAbove span ds) :
    (∀ x ∈ ds, (coordinates span ds body).first ≤ x.line) ↔ StartsRecorded ds := by
  cases ds with
  | nil => simp [StartsRecorded]
  | cons x ds =>
    obtain ⟨hbelow, -⟩ := pairwise_cons.mp h
    constructor
    · intro hle y hy
      obtain rfl : x = y := some.inj hy
      -- else the first line is below that decorator
      by_contra hnone
      have hmarks : marksOf (x :: ds) = marksOf ds := by
        simp only [marksOf, filterMap_cons, not_isSome_iff_eq_none.mp hnone, map_none]
      have hfirst : (coordinates span (x :: ds) body).first = (coordinates span ds body).first := by
        simp only [coordinates, hmarks]
      have hge : (coordinates span ds body).first ≤ x.line := hfirst ▸ hle x mem_cons_self
      exact absurd (hbelow _ first_mem_lines) hge.not_gt
    · intro hrecorded y hy
      rw [coordinates_first hrecorded]
      rcases mem_cons.mp hy with rfl | hy
      · exact le_rfl
      · exact (hbelow _ (mem_append_left _ (mem_map_of_mem hy))).le

lemma first_le_startLine_iff (h : StandAbove span ds) :
    span.first ≤ startLine span ds ↔ ds = [] := by
  cases ds with
  | nil => simp [startLine]
  | cons x ds =>
    have hlt := (pairwise_cons.mp h).1 span.first (by simp)
    simpa [startLine] using hlt

lemma DefinitionRow.hasExtent {d : DefinitionRow} {marks : Table} {body : List Stmt}
    (h : d.coordinates? marks = some (coordinates span ds body)) : d.HasExtent span ds body := by
  obtain ⟨hfirst, -, hbody, hdoc⟩ := DefinitionRow.lines_of_coordinates? h
  have hstart : d.docstring = none → ∀ st ∈ body.head?, d.body = st.span.first := by
    intro hnone st hst
    obtain ⟨rest, rfl⟩ := head?_eq_some_iff.mp hst
    rw [hdoc] at hnone
    simp only [coordinates] at hbody hnone
    rw [hbody, hnone, bodyStart]
  refine ⟨fun hrecorded hplain => ⟨?_, fun hnone st hst => ?_⟩, fun hlines => ?_,
    fun hnone st hst hlines => ?_⟩
  · rw [hfirst, coordinates_first hrecorded]
  · rw [hstart hnone st hst, hplain hnone st hst]
    rfl
  · rw [hfirst]
    exact coordinates_first_le_iff hlines
  · rw [hstart hnone st hst]
    exact first_le_startLine_iff hlines

/-! ### The main result -/

/-- Where all that is placed starts, whatever the catalog and the project have to do with each other
and whatever a run comes to. The row of a class or a function covers the one it is placed from, if
the first decorator of that is recorded and its body does not start with a decorated definition. If
decorators stand above what they decorate, those of the definition are at or below the first line of
the row just if the first one is recorded, and without documentation the body does not start below
its first statement just if that has no decorators. The names of the catalog are its table: where
they are compressed, rows do not tell what they are placed from. -/
theorem extent_of_build (q : Plan) (c : Catalog) (about : Catalog.About) (o : Options)
    (ho : o.compress = false) (s s' : Session) (r : Except Failure Unit) (l : Locations)
    (h : ({ q with catalog := c.document about o } : Plan).build {} s = ((r, l), s')) :
    ∃ located, Traced c (IsFile c s.tree q.root) located l ∧
      (∀ p ∈ located, p.1.HasExtent p.2.span p.2.head.decorators p.2.body) ∧
      ∀ d ∈ l.functions, ∃ site,
      FunctionFrom c (IsFile c s.tree q.root) l.decorators located d site ∧
        d.HasExtent site.span site.head.decorators site.body := by
  obtain ⟨-, ⟨located, htraced⟩, -⟩ := sound_of_build ho h
  refine ⟨located, htraced, fun p hp => ?_, fun d hd => ?_⟩
  · obtain ⟨f, -, -, hstands⟩ := (htraced.classes p hp).stands
    exact DefinitionRow.hasExtent hstands.coordinates
  · obtain ⟨site, hsite⟩ := htraced.functions d hd
    obtain ⟨f, -, hstands, -⟩ := hsite.stands
    exact ⟨site, hsite, DefinitionRow.hasExtent hstands.coordinates⟩

/-- A text of a function with a decorator that is not recorded. -/
def dottedMarkText : String := "@a.b.c\ndef f(): pass\n"

lemma isRecordable_dottedMark : twinCatalog.isRecordable (loneTree dottedMarkText) = true :=
  isRecordable_loneTree _ _ rfl (by decide +kernel)

lemma map_functionSites_dottedMark :
    (functionSites 0 (statements (projectModules (loneTree dottedMarkText) twinRoot))).map
        (fun s => (s.owner, s.head.decorators.map (·.line), s.coordinates)) =
      [(none, [1], ⟨2, 2, 2, 2, [], none⟩)] := by
  rw [projectModules, prunedSources_loneTree]
  decide +kernel

/-- The main result at a run over a project with that text. -/
theorem extent_of_build_dottedMark :
    ∃ c l, twinPlan.Locates twinCatalog { tree := loneTree dottedMarkText }
      { tree := loneTree dottedMarkText } c
        (.ok (), l) ∧
      ∃ located, Traced c (IsFile c (loneTree dottedMarkText) twinRoot) located l ∧
        ∀ d ∈ l.functions, ∃ site,
        FunctionFrom c (IsFile c (loneTree dottedMarkText) twinRoot) l.decorators located d
          site ∧ d.HasExtent site.span site.head.decorators site.body := by
  obtain ⟨c, l, ⟨s₁, s₂, hrun₁, hrun₂⟩, -⟩ :=
    (revisits_twin (wellFormed_loneTree _) isRecordable_dottedMark).exists_places
      (inUtf8_loneTree _)
  obtain ⟨located, htraced, -, hfunctions⟩ :=
    extent_of_build twinPlan c twinCatalog.about twinCatalog.options rfl
    { tree := loneTree dottedMarkText } s₂ _ l hrun₂
  exact ⟨c, l, ⟨s₁, s₂, hrun₁, hrun₂⟩, located, htraced, hfunctions⟩

/-- The decorator of that function, on the first line, stands above its row, which starts on the
second. -/
theorem decorator_above_row :
    ∃ c l d site, twinPlan.Locates twinCatalog { tree := loneTree dottedMarkText }
        { tree := loneTree dottedMarkText } c (.ok (), l) ∧
      functionSites 0 (statements (projectModules (loneTree dottedMarkText) twinRoot)) = [site] ∧
      d ∈ l.functions ∧
      d.coordinates? l.decorators = some site.coordinates ∧
      site.head.decorators.map (·.line) = [1] ∧ d.first = 2 := by
  obtain ⟨c, l, hruns, hc, -, hplaces⟩ :=
    (revisits_twin (wellFormed_loneTree _) isRecordable_dottedMark).exists_places
      (inUtf8_loneTree _)
  obtain ⟨site, hsites, hsite⟩ := map_eq_singleton_iff.mp map_functionSites_dottedMark
  obtain ⟨howner, hlines, hcoordinates⟩ :
      site.owner = none ∧ site.head.decorators.map (·.line) = [1] ∧ _ := by
    simpa only [Prod.mk.injEq] using hsite
  obtain ⟨r, hr, hrow⟩ := (getElem?_functionSites_iff hc.reads.lists).mpr
    ⟨site, by rw [show twinCatalog.root = twinRoot from rfl, hsites, getElem?_cons_zero], rfl⟩
  have hparent : r.parent = none := (Prod.mk.inj (Prod.mk.inj hrow).2).1.trans howner
  -- no function comes before the first one, so its row is placed, and from its own site
  have hpos : 0 < (functionRows 0
      (statements (projectModules (loneTree dottedMarkText) twinRoot))).length := by
    rw [← map_functionSites, hsites]
    simp
  obtain ⟨d, hd, hnumber⟩ := mem_map.mp ((hplaces.function_iff hr hparent).mpr
    ⟨hpos, fun j hj => absurd hj (Nat.not_lt_zero j)⟩)
  obtain ⟨r', site', hr', hfrom, hshows⟩ := hplaces.function_shows d hd
  rw [hnumber] at hr' hfrom
  obtain rfl := Option.some.inj (hr'.symm.trans hr)
  simp only [PlacedFrom, hparent, show twinCatalog.root = twinRoot from rfl, hsites,
    getElem?_cons_zero, Option.some.injEq] at hfrom
  subst hfrom
  refine ⟨c, l, d, site, hruns, hsites, hd, hshows, hlines, ?_⟩
  rw [(DefinitionRow.lines_of_coordinates? hshows).1, hcoordinates]

end Locate

end CodeAtlas
