import CodeAtlas.Proofs.Locate.Visits

/-!
# What is recorded besides definitions

Placing definitions keeps it, and all else that is placed of a file depends on the modules of the
catalog only. So two runs by catalogs with the same modules agree on it.
-/

namespace CodeAtlas

open List

variable {α : Type} {l l' : Locations} {r : Except AccessFault α} {x : Context} {k : Nat}
  {m : Syntax.Module}

namespace Locations

/-- Locations without classes and functions, their marks and the totals. -/
def outside (l : Locations) : Locations :=
  { l with decorators := {}, classes := [], functions := [], counted := {} }

def definitions (l : Locations) : List Locate.DefinitionRow × List Locate.DefinitionRow :=
  (l.classes, l.functions)

lemma outside_addComments (file : Int) (lines : List (List Char)) (n : Nat) (l : Locations) :
    (l.addComments file n lines).outside = l.outside.addComments file n lines := by
  induction lines generalizing n l with
  | nil => rfl
  | cons line lines ih =>
    rw [addComments, addComments, ih]
    congr 1
    generalize Locate.remarks line = found
    induction found generalizing l with
    | nil => rfl
    | cons remark found ih' => exact ih' (l.addComment file n remark.1 remark.2)

lemma outside_addModuleImports (file : Int) (body : List Syntax.Stmt) (l : Locations) :
    (body.foldl (addModuleImports file) l).outside =
      body.foldl (addModuleImports file) l.outside := by
  induction body generalizing l with
  | nil => rfl
  | cons s body ih =>
    rw [foldl_cons, foldl_cons, ih]
    cases s <;> rfl

end Locations

namespace Locate

open Syntax Catalog Step

/-! ### Placing definitions -/

section Definitions

variable {γ : Type} {view : Locations → γ}

lemma keeps_read : Keeps view (read r) := by
  intro l
  cases r <;> rfl

lemma keeps_rows (x : Context) (key : String) : Keeps view (x.rows key) :=
  keeps_read.bind fun _ => keeps_pure _

lemma keeps_isFunction (row owner : Value) (name : String) :
    Keeps view (x.isFunction row owner name) :=
  keeps_read.bind fun _ => keeps_read.bind fun _ => keeps_pure _

lemma keeps_isPlaced {placed : Locations → List DefinitionRow} : Keeps view (isPlaced placed k) :=
  keeps_get.bind fun _ => keeps_pure _

lemma keeps_placeFirst {isOwn : Value → Placing Bool} {placed : Locations → List DefinitionRow}
    {place : Nat → Placing Unit} (hown : ∀ row, Keeps view (isOwn row))
    (hplace : ∀ n, Keeps view (place n))
    (rows : List (Value × Nat)) : Keeps view (placeFirst isOwn placed place rows) := by
  induction rows with
  | nil => exact keeps_pure ()
  | cons row rows ih =>
    unfold placeFirst
    refine (hown _).bind fun own => ?_
    split
    · refine keeps_isPlaced.bind fun placed => ?_
      split
      · exact hplace _
      · exact keeps_pure _
    · exact ih

variable (x : Context) {ds : List Decorator} {span : Span} {body : List Stmt}

lemma outside_addDecorators (l : Locations) : (addDecorators l ds).1.outside = l.outside := by
  induction ds generalizing l with
  | nil => rfl
  | cons d ds ih =>
    unfold addDecorators
    split
    · exact ih l
    · exact ih _

lemma keeps_place (location : Value) : Keeps Locations.outside (x.place k location span ds body) :=
  fun l => outside_addDecorators l

lemma keeps_placeClass (head : ClassHead) :
    Keeps Locations.outside (x.placeClass k span head body) :=
  keeps_read.bind fun _ => (keeps_place _ _).bind fun _ _ => rfl

lemma keeps_placeFunction (head : FunctionHead) :
    Keeps Locations.outside (x.placeFunction k span head body) :=
  keeps_read.bind fun _ => (keeps_place _ _).bind fun _ _ => rfl

lemma keeps_placeMethod (owner : Nat) (span : Span) (head : FunctionHead) (body : List Stmt)
    (rows : List (Value × Nat)) :
    Keeps Locations.outside (x.placeMethod owner span head body rows) := by
  induction rows with
  | nil => exact keeps_pure ()
  | cons row rows ih =>
    unfold Context.placeMethod
    refine (keeps_isFunction _ _ _).bind fun own => ?_
    split
    · refine keeps_isPlaced.bind fun placed => ?_
      split
      · exact (keeps_placeFunction _ _).bind fun _ => ih
      · exact ih
    · exact ih

lemma keeps_placeMethods (owner : Nat) : Keeps Locations.outside (x.placeMethods owner body) := by
  induction body with
  | nil => exact keeps_pure ()
  | cons s body ih =>
    cases s with
    | function span head inner =>
      exact (keeps_rows x _).bind fun rows =>
        (keeps_placeMethod x owner span head inner rows).bind fun _ => ih
    | _ => exact ih

/-- Whatever the catalog holds, placing definitions changes nothing else. -/
lemma keeps_placeDefinitions (body : List Stmt) :
    Keeps Locations.outside (x.placeDefinitions body) := by
  induction body with
  | nil => exact keeps_pure ()
  | cons s body ih =>
    cases s with
    | classDef span head inner =>
      exact (keeps_rows x _).bind fun rows =>
        (keeps_placeFirst (fun _ => keeps_read.bind fun _ => keeps_pure _)
          (fun _ => (keeps_placeClass x head).bind fun _ => keeps_placeMethods x _) rows).bind
          fun _ => ih
    | function span head inner =>
      exact (keeps_rows x _).bind fun rows =>
        (keeps_placeFirst (fun _ => keeps_isFunction _ _ _)
          (fun _ => keeps_placeFunction x head) rows).bind fun _ => ih
    | _ => exact ih

lemma placeDefinitions_of_none {body : List Stmt}
    (hclass : ∀ span head inner, .classDef span head inner ∉ body)
    (hfunction : ∀ span head inner, .function span head inner ∉ body) :
    x.placeDefinitions body = pure () := by
  induction body with
  | nil => rfl
  | cons s body ih =>
    have hrest : x.placeDefinitions body = pure () :=
      ih (fun span head inner h => hclass span head inner (mem_cons_of_mem _ h))
        (fun span head inner h => hfunction span head inner (mem_cons_of_mem _ h))
    cases s with
    | classDef span head inner => exact absurd mem_cons_self (hclass span head inner)
    | function span head inner => exact absurd mem_cons_self (hfunction span head inner)
    | _ => exact hrest

end Definitions

/-! ### Modules, imports and comments -/

section Front

/-- Places the module of a file, its imports and its comments. -/
def Context.placeFront (x : Context) (m : Module) : Placing Unit := do
  modify fun l => l.addComments x.file 1 x.lines
  modify fun l => m.body.foldl (Locations.addModuleImports x.file) l
  x.placeModules m (← x.rows "modules")

lemma placeAll_eq (x : Context) (m : Module) :
    x.placeAll m = (do x.placeFront m; x.placeDefinitions m.body) := by
  unfold Context.placeAll Context.placeFront
  simp only [bind_assoc]

lemma respects_read : Respects Locations.outside (read r) := by
  intro l l' h
  cases r <;> exact ⟨rfl, h⟩

lemma respects_modify {f : Locations → Locations} (hf : ∀ l, (f l).outside = f l.outside) :
    Respects Locations.outside (modify f) := by
  intro l l' h
  refine ⟨rfl, ?_⟩
  calc (f l').outside = f l'.outside := hf l'
    _ = f l.outside := by rw [h]
    _ = (f l).outside := (hf l).symm

lemma respects_placeModule : Respects Locations.outside (x.placeModule k m) := by
  refine respects_read.bind fun location => ?_
  intro l l' h
  have hfiles : l'.outside.files = l.outside.files := by rw [h]
  have hget : ∀ d : Locations, (get : Placing Locations) d = (.ok d, d) := fun _ => rfl
  rw [bind_ok (hget l), bind_ok (hget l'), show l'.files = l.files from hfiles]
  rcases Value.atIndex? l.files x.file with _ | file
  · exact ⟨rfl, h⟩
  · let row : Locate.ModuleRow := ⟨k, location, x.file, file.lines, docstringSpan? m.body⟩
    exact respects_modify (f := fun l => { l with modules := l.modules ++ [row] })
      (fun _ => rfl) l l' h

lemma respects_placeModules (rows : List (Value × Nat)) :
    Respects Locations.outside (x.placeModules m rows) := by
  induction rows with
  | nil => exact respects_pure ()
  | cons row rows ih =>
    unfold Context.placeModules
    refine respects_read.bind fun file => ?_
    split
    · exact respects_placeModule.bind fun _ => ih
    · exact ih

/-- What is placed of a file besides definitions depends on nothing else. -/
lemma respects_placeFront : Respects Locations.outside (x.placeFront m) :=
  (respects_modify (Locations.outside_addComments _ _ _)).bind fun _ =>
    (respects_modify (Locations.outside_addModuleImports _ _)).bind fun _ =>
      (respects_read.bind fun _ => respects_pure _).bind fun _ => respects_placeModules _

lemma keeps_placeModules {γ : Type} {view : Locations → γ}
    (hview : ∀ l rows, view { l with modules := rows } = view l) (x : Context) (m : Module)
    (rows : List (Value × Nat)) : Keeps view (x.placeModules m rows) := by
  induction rows with
  | nil => exact keeps_pure ()
  | cons row rows ih =>
    have hmodule : Keeps view (x.placeModule row.2 m) := by
      refine keeps_read.bind fun location => keeps_get.bind fun l => ?_
      rcases Value.atIndex? l.files x.file with _ | file
      · exact fun _ => rfl
      · exact fun _ => hview _ _
    unfold Context.placeModules
    refine keeps_read.bind fun file => ?_
    split
    · exact hmodule.bind fun _ => ih
    · exact ih

lemma keeps_placeFront : Keeps Locations.definitions (x.placeFront m) := by
  refine Keeps.bind ?_ fun _ => Keeps.bind ?_ fun _ => (keeps_rows x _).bind fun _ =>
    keeps_placeModules (fun _ _ => rfl) x m _
  · intro l
    have hsame := sameRows_addComments x.file x.lines 1 l
    exact Prod.ext hsame.classes hsame.functions
  · intro l
    have hsame := sameRows_addModuleImports x.file m.body l
    exact Prod.ext hsame.classes hsame.functions

lemma view_placeAll {γ : Type} (view : Locations → γ) (houtside : ∀ l, view l.outside = view l)
    (hmodules : ∀ l rows, view { l with modules := rows } = view l) :
    view (x.placeAll m l).2 =
      view (m.body.foldl (Locations.addModuleImports x.file) (l.addComments x.file 1 x.lines)) := by
  have hdefinitions : ∀ body, Keeps view (x.placeDefinitions body) := fun body l => by
    rw [← houtside, keeps_placeDefinitions, houtside]
  unfold Context.placeAll
  rw [bind_ok (p := modify _) rfl, bind_ok (p := modify _) rfl]
  exact Keeps.bind (keeps_rows x _) (fun _ => (keeps_placeModules hmodules x m _).bind fun _ =>
    hdefinitions _) _

variable {v v' : Value} (h : v'.field "modules" = v.field "modules") (file : Int)
  (lines : List (List Char)) (m : Module)

include h

/-- Of the catalog, no more than its modules are read to place all else. -/
lemma placeFront_congr : Context.placeFront ⟨v', file, lines⟩ m =
    Context.placeFront ⟨v, file, lines⟩ m := by
  have hmodules : ∀ rows, Context.placeModules ⟨v', file, lines⟩ m rows =
      Context.placeModules ⟨v, file, lines⟩ m rows := by
    intro rows
    induction rows with
    | nil => rfl
    | cons row rows ih =>
      simp only [Context.placeModules, ih, Context.placeModule, Context.location, h]
  simp only [Context.placeFront, Context.rows, h, hmodules]

lemma outside_placeAll (hl : l'.outside = l.outside) :
    (Context.placeAll ⟨v', file, lines⟩ m l').2.outside =
      (Context.placeAll ⟨v, file, lines⟩ m l).2.outside := by
  rw [placeAll_eq, placeAll_eq, placeFront_congr h, view_bind fun _ => keeps_placeDefinitions _ _,
    view_bind fun _ => keeps_placeDefinitions _ _]
  exact (respects_placeFront l l' hl).2

lemma outside_visit (i : Nat) (f : Reading) (hl : l'.outside = l.outside) :
    (visit v' i f l').2.outside = (visit v i f l).2.outside := by
  rcases hutf8 : Text.utf8 f.bytes with e | cs
  · rw [visit_of_error hutf8, visit_of_error hutf8]
    exact hl
  · have hrecord : (f.record cs l').outside = (f.record cs l).outside :=
      congrArg (f.record cs) hl
    rw [visit_of_utf8 hutf8, visit_of_utf8 hutf8]
    exact outside_placeAll h i f.lines f.module hrecord

/-- Two runs that come to their end come to the same besides definitions. -/
lemma outside_visitAll (fs : List Reading) {i : Nat} (hl : l'.outside = l.outside)
    (hok : (visitAll v i fs l).1 = .ok ()) (hok' : (visitAll v' i fs l').1 = .ok ()) :
    (visitAll v' i fs l').2.outside = (visitAll v i fs l).2.outside := by
  induction fs generalizing i l l' with
  | nil => exact hl
  | cons f fs ih =>
    have houtside := outside_visit h i f hl
    rcases hvisit : visit v i f l with ⟨e | _, l1⟩
    · rw [visitAll_cons_error hvisit] at hok
      cases hok
    rcases hvisit' : visit v' i f l' with ⟨e | _, l₁'⟩
    · rw [visitAll_cons_error hvisit'] at hok'
      cases hok'
    rw [hvisit, hvisit'] at houtside
    rw [visitAll_cons_ok hvisit] at hok ⊢
    rw [visitAll_cons_ok hvisit'] at hok' ⊢
    exact ih houtside hok hok'

end Front

end Locate

end CodeAtlas
