import CodeAtlas.Catalog.Generate
import CodeAtlas.Proofs.Table
import Mathlib.Data.List.Forall2

/-!
# The rows of a catalog

What is recorded of a class or a function, its module, its class and its name, is read off the
statements of all modules in order (`classRows`, `functionRows`).
-/

namespace CodeAtlas.Catalog

open List Syntax

variable {i : Nat}

/-! ### What rows are to say -/

def methodNames (body : List Stmt) : List String :=
  body.filterMap fun s =>
    match s with
    | .function _ head _ => some head.name
    | _ => none

/-- The classes among the statements of modules: the number of the module and the name. -/
def classRows (stmts : List (Nat × Stmt)) : List (Nat × String) :=
  stmts.filterMap fun is =>
    match is.2 with
    | .classDef _ head _ => some (is.1, head.name)
    | _ => none

/-- The functions among the statements of modules and in their classes: the number of the module,
that of the class if there is one, and the name. The first class has number `k`. -/
def functionRows (k : Nat) : List (Nat × Stmt) → List (Nat × Option Nat × String)
  | [] => []
  | (i, .classDef _ _ body) :: rest =>
    (methodNames body).map (fun n => (i, some k, n)) ++ functionRows (k + 1) rest
  | (i, .function _ head _) :: rest => (i, none, head.name) :: functionRows k rest
  | _ :: rest => functionRows k rest

variable (xs ys stmts : List (Nat × Stmt)) {k : Nat}

lemma classRows_append : classRows (xs ++ ys) = classRows xs ++ classRows ys := filterMap_append

lemma classRows_cons_of_ne {x : Nat × Stmt} (rest : List (Nat × Stmt))
    (h : ∀ i span head body, x = (i, .classDef span head body) → False) :
    classRows (x :: rest) = classRows rest := by
  obtain ⟨i, s⟩ := x
  cases s with
  | classDef span head body => exact absurd rfl (h i span head body)
  | _ => rfl

lemma lt_of_mem_functionRows {xs : List (Nat × Stmt)} {k o : Nat} {name : String}
    (h : (i, some o, name) ∈ functionRows k xs) : k ≤ o ∧ o < k + (classRows xs).length := by
  fun_induction functionRows k xs with
  | case1 k => simp at h
  | case2 k j span head body rest ih =>
    have hlen : (classRows ((j, .classDef span head body) :: rest)).length =
        (classRows rest).length + 1 := rfl
    rcases mem_append.mp h with h | h
    · obtain ⟨n, -, heq⟩ := mem_map.mp h
      have : k = o := Option.some.inj (Prod.mk.inj (Prod.mk.inj heq).2).1
      omega
    · have := ih h
      omega
  | case3 k j span head body rest ih =>
    have hlen : (classRows ((j, .function span head body) :: rest)).length =
        (classRows rest).length := rfl
    rcases mem_cons.mp h with h | h
    · simp at h
    · have := ih h
      omega
  | case4 k x rest hclass hfunction ih =>
    rw [classRows_cons_of_ne rest hclass]
    exact ih h

/-! ### Sites -/

/-- A class where it stands. -/
structure ClassSite where
  module : Nat
  span : Span
  head : ClassHead
  body : List Stmt

/-- A function where it stands, with the number of its class if it is a method. -/
structure FunctionSite where
  module : Nat
  owner : Option Nat
  span : Span
  head : FunctionHead
  body : List Stmt

def methodSites (module owner : Nat) (body : List Stmt) : List FunctionSite :=
  body.filterMap fun s =>
    match s with
    | .function span head inner => some ⟨module, some owner, span, head, inner⟩
    | _ => none

/-- The classes among the statements of modules. -/
def classSites (stmts : List (Nat × Stmt)) : List ClassSite :=
  stmts.filterMap fun is =>
    match is.2 with
    | .classDef span head body => some ⟨is.1, span, head, body⟩
    | _ => none

/-- The functions among the statements of modules and in their classes. The first class has number
`k`. -/
def functionSites (k : Nat) : List (Nat × Stmt) → List FunctionSite
  | [] => []
  | (i, .classDef _ _ body) :: rest => methodSites i k body ++ functionSites (k + 1) rest
  | (i, .function span head body) :: rest => ⟨i, none, span, head, body⟩ :: functionSites k rest
  | _ :: rest => functionSites k rest

lemma classSites_append : classSites (xs ++ ys) = classSites xs ++ classSites ys := filterMap_append

lemma map_classSites : (classSites stmts).map (fun s => (s.module, s.head.name)) =
    classRows stmts := by
  unfold classSites classRows
  rw [map_filterMap]
  congr 1
  funext is
  rcases is with ⟨i, s⟩
  cases s <;> rfl

lemma length_classSites : (classSites stmts).length = (classRows stmts).length := by
  rw [← map_classSites, length_map]

lemma map_methodSites (i k : Nat) (body : List Stmt) :
    (methodSites i k body).map (fun s => (s.module, s.owner, s.head.name)) =
      (methodNames body).map fun n => (i, some k, n) := by
  unfold methodSites methodNames
  rw [map_filterMap, map_filterMap]
  congr 1
  funext s
  cases s <;> rfl

/-- The rows of functions are those of their sites. -/
lemma map_functionSites (stmts : List (Nat × Stmt)) :
    (functionSites k stmts).map (fun s => (s.module, s.owner, s.head.name)) =
      functionRows k stmts := by
  fun_induction functionSites k stmts with
  | case1 k => rfl
  | case2 k i span head body rest ih => rw [map_append, map_methodSites, ih, functionRows]
  | case3 k i span head body rest ih => rw [map_cons, ih, functionRows]
  | case4 k x rest hclass hfunction ih =>
    rw [ih, functionRows]
    · exact hclass
    · exact hfunction

lemma length_functionSites (stmts : List (Nat × Stmt)) :
    (functionSites k stmts).length = (functionRows k stmts).length := by
  rw [← map_functionSites, length_map]

lemma functionSites_append :
    functionSites k (xs ++ ys) = functionSites k xs ++
      functionSites (k + (classSites xs).length) ys := by
  fun_induction functionSites k xs with
  | case1 k => simp [classSites]
  | case2 k i span head body rest ih =>
    rw [cons_append, functionSites, ih, append_assoc]
    simp [classSites, Nat.add_assoc, Nat.add_comm 1]
  | case3 k i span head body rest ih =>
    rw [cons_append, functionSites, ih]
    simp [classSites]
  | case4 k x rest hclass hfunction ih =>
    rw [length_classSites] at ih ⊢
    rw [cons_append, functionSites, ih, classRows_cons_of_ne rest hclass]
    · exact hclass
    · exact hfunction

lemma functionRows_append :
    functionRows k (xs ++ ys) =
      functionRows k xs ++ functionRows (k + (classRows xs).length) ys := by
  simp only [← map_functionSites, functionSites_append, map_append, length_classSites]

/-! ### What leaves the rows as they are -/

/-- A catalog is another one with more names. -/
structure Renames (c c' : Catalog) : Prop where
  names : c.names.Grows c'.names
  eq : c' = { c with names := c'.names }

/-- A catalog has the rows of another one, and its names go on. -/
structure Keeps (c c' : Catalog) : Prop where
  names : c.names.Extends c'.names
  files : c'.files = c.files
  modules : c'.modules = c.modules
  classes : c'.classes = c.classes
  functions : c'.functions = c.functions

variable (c : Catalog)

lemma Renames.refl : Renames c c := ⟨.refl _, rfl⟩

namespace Keeps

lemma refl : Keeps c c := ⟨.refl _, rfl, rfl, rfl, rfl⟩

variable {c} {c1 c2 : Catalog}

lemma trans (h1 : Keeps c c1) (h2 : Keeps c1 c2) : Keeps c c2 :=
  ⟨h1.names.trans h2.names, h2.files.trans h1.files, h2.modules.trans h1.modules,
    h2.classes.trans h1.classes, h2.functions.trans h1.functions⟩

end Keeps

namespace Renames

variable {c} {c1 c2 : Catalog}

lemma trans (h1 : Renames c c1) (h2 : Renames c1 c2) : Renames c c2 :=
  ⟨h1.names.trans h2.names, by rw [h2.eq, h1.eq]⟩

lemma keeps (h : Renames c c1) : c.Keeps c1 := by
  refine ⟨h.names.old, ?_, ?_, ?_, ?_⟩ <;> rw [h.eq]

end Renames

lemma renames_addName (s : String) : Renames c (c.addName s).1 := ⟨Table.grows_add, rfl⟩

lemma renames_addNames (ss : List String) : Renames c (c.addNames ss).1 :=
  ⟨Table.grows_addAll, rfl⟩

lemma renames_addName? (s : Option String) : Renames c (c.addName? s).1 := by
  cases s with
  | none => exact .refl c
  | some s => exact renames_addName c s

lemma renames_addParameterRows (ps : List ParameterSketch) (i : Nat) :
    Renames c (c.addParameterRows i ps).1 := by
  induction ps generalizing c i with
  | nil => exact .refl c
  | cons p ps ih =>
    exact (renames_addName c p.name).trans ((renames_addName? _ p.hint).trans
      ((renames_addName? _ p.default).trans (ih _ (i + 1))))

lemma keeps_takeLocation : c.Keeps c.takeLocation.1 := ⟨.refl _, rfl, rfl, rfl, rfl⟩

lemma keeps_addDocstring (kind : Documented) (owner : Nat) (text : Option String) :
    c.Keeps (c.addDocstring kind owner text) := by
  cases text with
  | none => exact .refl c
  | some t =>
    have h := ((renames_addName c t).trans (renames_addName _ (docStyle t).name)).keeps
    exact ⟨h.names, h.files, h.modules, h.classes, h.functions⟩

lemma keeps_addParameters (function : Nat) (ps : List ParameterSketch) :
    c.Keeps (c.addParameters function ps).1 := by
  have h := (renames_addParameterRows c ps 0).keeps
  unfold addParameters
  by_cases hrows : (c.addParameterRows 0 ps).2.isEmpty
  · simp only [hrows, if_true]
    exact h
  · simp only [hrows]
    exact ⟨h.names, h.files, h.modules, h.classes, h.functions⟩

lemma keeps_addAttributes (parent : Nat) (as : List AttributeSketch) :
    c.Keeps (c.addAttributes parent as).1 := by
  induction as generalizing c with
  | nil => exact .refl c
  | cons a as ih =>
    have h := ((renames_addName c a.name).trans ((renames_addName? _ a.hint).trans
      (renames_addName? _ a.default))).keeps
    refine Keeps.trans ?_ (ih _)
    exact ⟨h.names, h.files, h.modules, h.classes, h.functions⟩

lemma keeps_addImports (module : Nat) (is : List ImportSketch) :
    c.Keeps (c.addImports module is) := by
  induction is generalizing c with
  | nil => exact .refl c
  | cons i is ih =>
    have h := ((renames_addName? c i.target).trans (renames_addNames _ i.names)).keeps
    refine Keeps.trans ?_ (ih (c.addImport module i))
    exact ⟨h.names, h.files, h.modules, h.classes, h.functions⟩

/-- A catalog with all its digests. -/
def complete (c : Catalog) (p : Plan) (algorithm : Nat) : Catalog :=
  (c.withObjectHashes p.options.hashLength).finish p algorithm

lemma keeps_complete (p : Plan) (algorithm : Nat) : c.Keeps (c.complete p algorithm) :=
  ⟨.refl _, rfl, rfl, rfl, rfl⟩

/-! ### Classes and functions -/

/-- A catalog has the files and modules of another one, and its names go on. -/
structure Goes (c c' : Catalog) : Prop where
  names : c.names.Extends c'.names
  files : c'.files = c.files
  modules : c'.modules = c.modules

variable {c} {c1 c2 : Catalog}

lemma Goes.trans (h1 : Goes c c1) (h2 : Goes c1 c2) : Goes c c2 :=
  ⟨h1.names.trans h2.names, h2.files.trans h1.files, h2.modules.trans h1.modules⟩

lemma Keeps.goes (h : c.Keeps c1) : c.Goes c1 := ⟨h.names, h.files, h.modules⟩

variable (c) (module : Nat)

lemma goes_addFunction (parent : Option Nat) (f : FunctionSketch) :
    c.Goes (c.addFunction module parent f).1 := by
  have h := ((renames_addName c f.name).trans ((renames_addNames _ f.decorators).trans
    (renames_addName? _ f.returns))).keeps.trans
    (keeps_addParameters _ c.functions.length f.parameters)
  refine Goes.trans ?_ (keeps_addDocstring _ .function _ f.docstring).goes
  exact ⟨h.names, h.files, h.modules⟩

lemma goes_addMethods (parent : Nat) (sketches : List FunctionSketch) :
    c.Goes (c.addMethods module parent sketches).1 := by
  induction sketches generalizing c with
  | nil => exact (Keeps.refl c).goes
  | cons f sketches ih => exact (goes_addFunction c module (some parent) f).trans (ih _)

lemma goes_addClass (k : ClassSketch) : c.Goes (c.addClass module k) := by
  have hnames := (renames_addName c k.name).trans (renames_addNames _ k.bases)
  have h := (hnames.keeps.goes.trans (goes_addMethods _ module c.classes.length k.methods)).trans
    (keeps_addAttributes _ c.classes.length k.attributes).goes
  refine Goes.trans ?_ (keeps_addDocstring _ .class _ k.docstring).goes
  exact ⟨h.names, h.files, h.modules⟩

/-- Definitions add names, and neither files nor modules. -/
lemma goes_addDefinitions (ds : List Definition) : c.Goes (ds.foldl (addDefinition module) c) := by
  induction ds generalizing c with
  | nil => exact (Keeps.refl c).goes
  | cons d ds ih =>
    refine Goes.trans ?_ (ih _)
    cases d with
    | function f => exact goes_addFunction c module none f
    | «class» k => exact goes_addClass c module k

/-- A module adds its own row and its file. -/
lemma files_modules_addModule (name path hash : String) (m : ModuleSketch) :
    (c.addModule name path hash m).1.files = (c.files.add path).1 ∧
      (c.addModule name path hash m).1.modules =
      c.modules ++ [⟨(c.names.add name).2, (c.files.add path).2, c.nextLocation⟩] := by
  have h := fun c0 => ((keeps_addImports c0 c.modules.length m.imports).goes.trans
    (goes_addDefinitions _ c.modules.length m.definitions)).trans
      (keeps_addDocstring _ .module c.modules.length m.docstring).goes
  exact ⟨(h _).files, (h _).modules⟩

end CodeAtlas.Catalog
