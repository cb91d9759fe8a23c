import CodeAtlas.Locate.Place
import CodeAtlas.Proofs.Catalog.Sound

/-!
# Coordinates of definitions

The lines of a definition, its marked decorators and its documentation are read off the place where
it stands, and off the row that locates it.
-/

namespace CodeAtlas

variable {d : DefinitionRow} {marks : Table}

namespace Locate

open Syntax Catalog

/-- Where a definition stands. -/
structure Coordinates where
  /-- The line of the first recorded decorator, or else of the definition. -/
  first : Nat
  last : Nat
  line : Nat
  /-- The line where the body starts, behind the documentation. -/
  body : Nat
  /-- The marks of the recorded decorators with their lines. -/
  decorators : List (Nat × String)
  docstring : Option Span
deriving DecidableEq

variable {x : Coordinates}

/-- The marks of the decorators that are recorded, with their lines. -/
def marksOf (ds : List Decorator) : List (Nat × String) :=
  ds.filterMap fun d => (decoratorMark? d.expr).map fun mark => (d.line, mark)

def coordinates (span : Span) (ds : List Decorator) (body : List Stmt) : Coordinates where
  first := ((marksOf ds).head?.map (·.1)).getD span.first
  last := span.last
  line := span.first
  body := bodyStart span.first body (docstringSpan? body)
  decorators := marksOf ds
  docstring := docstringSpan? body

def DefinitionRow.coordinates? (d : DefinitionRow) (marks : Table) : Option Coordinates :=
  (marks.getAll? (d.decorators.map (·.2))).map fun texts =>
    ⟨d.first, d.last, d.line, d.body, (d.decorators.map (·.1)).zip texts, d.docstring⟩

end Locate

def Catalog.ClassSite.coordinates (s : Catalog.ClassSite) : Locate.Coordinates :=
  Locate.coordinates s.span s.head.decorators s.body

def Catalog.FunctionSite.coordinates (s : Catalog.FunctionSite) : Locate.Coordinates :=
  Locate.coordinates s.span s.head.decorators s.body

namespace Locate

open Syntax Catalog

/-- Coordinates stay the same as more marks are numbered. -/
lemma DefinitionRow.coordinates?_extends {marks' : Table} (h : d.coordinates? marks = some x)
    (hmarks : marks.Extends marks') : d.coordinates? marks' = some x := by
  obtain ⟨texts, htexts, rfl⟩ := Option.map_eq_some_iff.mp h
  rw [coordinates?, hmarks.getAll? htexts]
  rfl

lemma DefinitionRow.lines_of_coordinates? (h : d.coordinates? marks = some x) :
    d.first = x.first ∧ d.line = x.line ∧ d.body = x.body ∧ d.docstring = x.docstring := by
  obtain ⟨texts, -, rfl⟩ := Option.map_eq_some_iff.mp h
  exact ⟨rfl, rfl, rfl, rfl⟩

lemma addDecorators_spec (ds : List Decorator) (l : Locations) :
    (addDecorators l ds).2.map (·.1) = (marksOf ds).map (·.1) ∧
      l.decorators.Extends (addDecorators l ds).1.decorators ∧
      (addDecorators l ds).1.decorators.getAll? ((addDecorators l ds).2.map (·.2)) =
        some ((marksOf ds).map (·.2)) := by
  induction ds generalizing l with
  | nil => exact ⟨rfl, .refl _, rfl⟩
  | cons d ds ih =>
    rcases hmark : decoratorMark? d.expr with _ | mark
    · simpa [addDecorators, marksOf, hmark] using ih l
    · let l1 : Locations := { l with decorators := (l.decorators.add mark).1 }
      obtain ⟨hlines, hextends, hmarks⟩ := ih l1
      have hrun : addDecorators l (d :: ds) =
          ((addDecorators l1 ds).1,
          (d.line, (l.decorators.add mark).2) :: (addDecorators l1 ds).2) := by
        simp only [addDecorators, hmark, l1]
      have hmarksOf : marksOf (d :: ds) = (d.line, mark) :: marksOf ds := by
        simp [marksOf, hmark]
      rw [hrun, hmarksOf]
      refine ⟨congrArg (d.line :: ·) hlines, (Table.extends_add _ _).trans hextends, ?_⟩
      exact Table.getAll?_cons_eq_some (hextends.get? (Table.get?_add _ _)) hmarks

/-- A row has the coordinates of the definition it is placed from. -/
lemma coordinates?_place {x : Context} {k : Nat} {location : Value} {span : Span}
    {ds : List Decorator}
    {body : List Stmt} {l l' : Locations} (h : x.place k location span ds body l = (.ok d, l')) :
    d.coordinates? l'.decorators = some (coordinates span ds body) := by
  obtain ⟨hlines, -, hmarks⟩ := addDecorators_spec ds l
  have hfirst : (addDecorators l ds).2.head?.map (·.1) = (marksOf ds).head?.map (·.1) := by
    rw [← List.head?_map, hlines, List.head?_map]
  have hzip : ((marksOf ds).map (·.1)).zip ((marksOf ds).map (·.2)) = marksOf ds := by
    rw [List.zip_map', List.map_id']
  cases h
  rw [DefinitionRow.coordinates?, hmarks, Option.map_some, hlines, hzip, hfirst]
  rfl

end Locate

end CodeAtlas
