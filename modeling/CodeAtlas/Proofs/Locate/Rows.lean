import CodeAtlas.Proofs.Locate.Coordinates

/-!
# Looking definitions up in a catalog

On the document of a catalog every reading succeeds (`Context.On`), and placing a definition is a
search of the rows.
-/

namespace CodeAtlas

open List Step

variable {k : Nat} {l l1 l2 : Locations} {file : FileRow} {items : List Value} {n position : Nat}
  {row v : Value} {α : Type} {key : String} {r : FunctionRow} {rows : List (FunctionRow × Nat)}
  {parent : Option Nat}

namespace Value

lemma part_list (h : items[n]? = some v) : (Value.list items).part (.int n) = .ok v := by
  simp [part, asInt?, atIndex?, h]

lemma item_list (h : items[n]? = some v) : (Value.list items).item n = .ok v := part_list h

lemma field_table {es : List (String × Value)} (h : lookup key es = some v) :
    (table es).field key = .ok v := by
  simp [field, part, h]

lemma same_str (s t : String) : (Value.str s).same (.str t) = decide (s = t) := by
  simp [same]

lemma same_int (m n : Int) : (Value.int m).same (.int n) = decide (m = n) := by
  simp [same, asNumber, sameNumber]

end Value

namespace Catalog

lemma same_number? (owner : Nat) :
    (number? parent).same (.nat owner) = decide (parent = some owner) := by
  cases parent with
  | none => simp [number?, Value.nat, Value.same_int]
  | some k =>
    simp only [number?, Option.map_some, Option.getD_some, Value.nat, Value.same_int,
      Int.natCast_inj, Option.some.injEq]

lemma same_number?_missing : (number? parent).same (.int (-1)) = decide (parent = none) := by
  cases parent with
  | none => simp [number?, Value.same_int]
  | some k =>
    have hk : (k : Int) ≠ -1 := by omega
    simp [number?, Value.nat, Value.same_int, hk]

/-! ### Sections of the document -/

section Fields

variable (c : Catalog) (about : About) {o : Options}

lemma field_names (ho : o.compress = false) :
    (c.document about o).field "names" = .ok (Value.strings c.names.items) :=
  Value.field_table (by simp [Value.lookup, ho])

lemma field_names_compressed (ho : o.compress = true) :
    (c.document about o).field "names" = .ok (.str (packNames o.compressor c.names.items)) :=
  Value.field_table (by simp [Value.lookup, ho])

lemma field_files : (c.document about o).field "files" = .ok (Value.strings c.files.items) :=
  Value.field_table rfl

lemma field_modules : (c.document about o).field "modules" =
    .ok (.list (c.modules.map (·.toValue))) :=
  Value.field_table rfl

lemma field_classes : (c.document about o).field "classes" =
    .ok (.list (c.classes.map (·.toValue))) :=
  Value.field_table rfl

lemma field_functions : (c.document about o).field "functions" =
    .ok (.list (c.functions.map (·.toValue))) :=
  Value.field_table rfl

end Fields

/-- The names of all classes and functions are in the table. -/
structure Named (c : Catalog) : Prop where
  classes : ∀ r ∈ c.classes, c.names.get? r.name = some (c.nameAt r.name)
  functions : ∀ r ∈ c.functions, c.names.get? r.name = some (c.nameAt r.name)

end Catalog

namespace Locate

open Syntax Catalog

/-- A file is placed by a document that has the sections of a catalog. -/
structure Context.Reads (x : Context) (c : Catalog) : Prop where
  names : x.catalog.field "names" = .ok (Value.strings c.names.items)
  modules : x.catalog.field "modules" = .ok (.list (c.modules.map (·.toValue)))
  classes : x.catalog.field "classes" = .ok (.list (c.classes.map (·.toValue)))
  functions : x.catalog.field "functions" = .ok (.list (c.functions.map (·.toValue)))

lemma Context.reads_document (c : Catalog) (about : Catalog.About) {o : Options}
    (ho : o.compress = false)
    (file : Int) (lines : List (List Char)) : Context.Reads ⟨c.document about o, file, lines⟩ c :=
  ⟨field_names c about ho, field_modules c about, field_classes c about, field_functions c about⟩

/-- A file is placed by the document of a catalog. -/
structure Context.On (x : Context) (c : Catalog) : Prop extends Context.Reads x c where
  named : c.Named

lemma Context.on_document {c : Catalog} (hc : c.Named) (about : Catalog.About) {o : Options}
    (ho : o.compress = false) (file : Int) (lines : List (List Char)) :
    Context.On ⟨c.document about o, file, lines⟩ c :=
  ⟨Context.reads_document c about ho file lines, hc⟩

/-! ### Readings -/

section Readings

variable {x : Context} {c : Catalog} (hx : x.Reads c) (l : Locations)

lemma read_ok (v : α) : read (.ok v) l = (.ok v, l) := rfl

lemma Context.rows_eq {ρ : Type} {f : ρ → Value} {rows : List ρ}
    (hsection : x.catalog.field key = .ok (.list (rows.map f))) :
    x.rows key l = (.ok (rows.zipIdx.map fun y => (f y.1, y.2)), l) := by
  unfold Context.rows
  rw [hsection]
  exact congrArg (fun ys => (Except.ok ys, l)) zipIdx_map

lemma Context.location_eq {rows : List Value} (hsection : x.catalog.field key = .ok (.list rows))
    (hrow : rows[k]? = some row) (hv : row.item position = .ok v) :
    x.location key k position l = (.ok v, l) := by
  have hitem := Value.item_list hrow
  unfold Context.location
  simp only [hsection, bind, Except.bind, hitem, hv]
  rfl

lemma Context.placeModules_cons (m : Module) (y : Catalog.ModuleRow × Nat)
    (rows : List (Value × Nat)) : x.placeModules m ((y.1.toValue, y.2) :: rows) l =
      if (y.1.file : Int) = x.file then
        (do x.placeModule y.2 m; x.placeModules m rows : Placing Unit) l
      else x.placeModules m rows l := by
  have hitem : y.1.toValue.item 1 = .ok (.nat y.1.file) := rfl
  rw [Context.placeModules, hitem, bind_ok (read_ok l _), Value.nat, Value.same_int]
  by_cases h : (y.1.file : Int) = x.file
  · rw [decide_eq_true h, if_pos rfl, if_pos h]
  · rw [decide_eq_false h, if_neg Bool.false_ne_true, if_neg h]

include hx

lemma Context.Reads.rows_classes :
    x.rows "classes" l = (.ok (c.classes.zipIdx.map fun y => (y.1.toValue, y.2)), l) :=
  rows_eq l hx.classes

lemma Context.Reads.rows_functions :
    x.rows "functions" l = (.ok (c.functions.zipIdx.map fun y => (y.1.toValue, y.2)), l) :=
  rows_eq l hx.functions

lemma Context.Reads.rows_modules :
    x.rows "modules" l = (.ok (c.modules.zipIdx.map fun y => (y.1.toValue, y.2)), l) :=
  rows_eq l hx.modules

lemma Context.Reads.location_class {r : ClassRow} (hr : c.classes[k]? = some r) :
    x.location "classes" k 5 l = (.ok (.nat r.location), l) :=
  location_eq l hx.classes (by rw [getElem?_map, hr]; rfl) rfl

lemma Context.Reads.location_function (hr : c.functions[k]? = some r) :
    x.location "functions" k 7 l = (.ok (.nat r.location), l) :=
  location_eq l hx.functions (by rw [getElem?_map, hr]; rfl) rfl

lemma Context.Reads.location_module {r : Catalog.ModuleRow} (hr : c.modules[k]? = some r) :
    x.location "modules" k 2 l = (.ok (.nat r.location), l) :=
  location_eq l hx.modules (by rw [getElem?_map, hr]; rfl) rfl

lemma Context.Reads.placeClass_eq {r : ClassRow} (hr : c.classes[k]? = some r) {span : Span}
    {head : ClassHead} {body : List Stmt} {d : DefinitionRow}
    (hplace : x.place k (.nat r.location) span head.decorators body l = (.ok d, l1)) :
    x.placeClass k span head body l = (.ok (), { l1 with classes := l1.classes ++ [d] }) := by
  unfold Context.placeClass
  rw [bind_ok (hx.location_class l hr), bind_ok hplace]
  rfl

lemma Context.Reads.placeFunction_eq (hr : c.functions[k]? = some r) {span : Span}
    {head : FunctionHead} {body : List Stmt} {d : DefinitionRow}
    (hplace : x.place k (.nat r.location) span head.decorators body l = (.ok d, l1)) :
    x.placeFunction k span head body l =
      (.ok (), { l1 with functions := l1.functions ++ [d] }) := by
  unfold Context.placeFunction
  rw [bind_ok (hx.location_function l hr), bind_ok hplace]
  rfl

lemma Context.Reads.placeAll_eq (m : Module) : x.placeAll m l = (do
      x.placeModules m (c.modules.zipIdx.map fun y => (y.1.toValue, y.2))
      x.placeDefinitions m.body : Placing Unit)
    (m.body.foldl (Locations.addModuleImports x.file) (l.addComments x.file 1 x.lines)) := by
  unfold Context.placeAll
  rw [bind_ok (p := modify _) rfl, bind_ok (p := modify _) rfl, bind_ok (hx.rows_modules _)]

/-- The name with a number that stands in a row. -/
lemma Context.Reads.nameAt {i : Nat} {name : String} (hrow : row.item position = .ok (.nat i))
    (hname : c.names.get? i = some name) : x.nameAt row position l = (.ok (.str name), l) := by
  have hpart : (Value.strings c.names.items).part (.nat i) = .ok (.str name) := by
    refine Value.part_list ?_
    rw [getElem?_map, show c.names.items[i]? = some name from hname]
    rfl
  unfold Context.nameAt
  rw [hrow, hx.names]
  exact (congrArg (read · l) hpart).trans (read_ok l _)

end Readings

lemma Context.On.isClass {x : Context} {c : Catalog} (hx : x.On c) (l : Locations) {r : ClassRow}
    (hr : r ∈ c.classes) (name : String) :
    x.isClass r.toValue name l = (.ok (decide (c.nameAt r.name = name)), l) := by
  unfold Context.isClass
  rw [bind_ok (hx.nameAt l rfl (hx.named.classes r hr)), Value.same_str]
  rfl

lemma Context.On.isFunction {x : Context} {c : Catalog} (hx : x.On c) (l : Locations)
    (hr : r ∈ c.functions) (owner : Value) (name : String) :
    x.isFunction r.toValue owner name l =
      (.ok ((number? r.parent).same owner && decide (c.nameAt r.name = name)), l) := by
  unfold Context.isFunction
  have hparent : r.toValue.item 1 = .ok (number? r.parent) := rfl
  rw [hparent, bind_ok (read_ok l _), bind_ok (hx.nameAt l rfl (hx.named.functions r hr)),
    Value.same_str]
  rfl

/-! ### Placing one definition -/

/-- Locations list the files of others, and their marks go on. -/
structure SameFiles (l l' : Locations) : Prop where
  files : l'.files = l.files
  paths : l'.paths = l.paths
  decorators : l.decorators.Extends l'.decorators

lemma SameFiles.refl (l : Locations) : SameFiles l l := ⟨rfl, rfl, .refl _⟩

lemma SameFiles.trans (h1 : SameFiles l l1) (h2 : SameFiles l1 l2) : SameFiles l l2 :=
  ⟨h2.files.trans h1.files, h2.paths.trans h1.paths, h1.decorators.trans h2.decorators⟩

/-- Locations have the files, classes and functions of others. -/
structure SameRows (l l' : Locations) : Prop extends SameFiles l l' where
  classes : l'.classes = l.classes
  functions : l'.functions = l.functions

lemma SameRows.refl (l : Locations) : SameRows l l := ⟨.refl l, rfl, rfl⟩

lemma SameRows.trans (h1 : SameRows l l1) (h2 : SameRows l1 l2) : SameRows l l2 :=
  ⟨h1.toSameFiles.trans h2.toSameFiles, h2.classes.trans h1.classes,
    h2.functions.trans h1.functions⟩

lemma sameRows_addDecorators (ds : List Decorator) (l : Locations) :
    SameRows l (addDecorators l ds).1 := by
  induction ds generalizing l with
  | nil => exact .refl l
  | cons d ds ih =>
    unfold addDecorators
    split
    · exact ih l
    · rename_i mark _
      have h := ih { l with decorators := (l.decorators.add mark).1 }
      exact ⟨⟨h.files, h.paths, (Table.extends_add _ _).trans h.decorators⟩, h.classes, h.functions⟩

section View

variable {γ : Type} (view : Locations → γ)

lemma view_addComments (hview : ∀ l texts rows,
    view { l with commentTexts := texts, comments := rows } = view l)
    (file : Int) (lines : List (List Char)) (n : Nat) (l : Locations) :
    view (l.addComments file n lines) = view l := by
  induction lines generalizing n l with
  | nil => rfl
  | cons line lines ih =>
    rw [Locations.addComments, ih]
    exact foldlRecOn (motive := fun l' => view l' = view l) (remarks line)
      (fun l x => l.addComment file n x.1 x.2) rfl fun l' h x _ => (hview l' _ _).trans h

lemma view_addModuleImports (hview : ∀ l rows, view { l with imports := rows } = view l)
    (file : Int) (body : List Stmt) (l : Locations) :
    view (body.foldl (Locations.addModuleImports file) l) = view l := by
  refine foldlRecOn (motive := fun l' => view l' = view l) body _ rfl fun l' h s _ => Eq.trans ?_ h
  cases s with
  | importNames => exact hview l' _
  | importFrom => exact hview l' _
  | _ => rfl

end View

lemma SameRows.of_eq {l' : Locations}
    (h : (l'.files, l'.paths, l'.decorators, l'.classes, l'.functions) =
    (l.files, l.paths, l.decorators, l.classes, l.functions)) : SameRows l l' := by
  obtain ⟨hfiles, hpaths, hdecorators, hclasses, hfunctions⟩ :=
    by simpa only [Prod.mk.injEq] using h
  exact ⟨⟨hfiles, hpaths, hdecorators ▸ .refl _⟩, hclasses, hfunctions⟩

lemma sameRows_addComments (file : Int) (lines : List (List Char)) (n : Nat) (l : Locations) :
    SameRows l (l.addComments file n lines) :=
  .of_eq (view_addComments (fun l => (l.files, l.paths, l.decorators, l.classes, l.functions))
    (fun _ _ _ => rfl) ..)

lemma sameRows_addModuleImports (file : Int) (body : List Stmt) (l : Locations) :
    SameRows l (body.foldl (Locations.addModuleImports file) l) :=
  .of_eq (view_addModuleImports (fun l => (l.files, l.paths, l.decorators, l.classes, l.functions))
    (fun _ _ => rfl) ..)

/-- A definition stands for the row with a number and a location, and is in a file. -/
structure DefinitionRow.Is (d : DefinitionRow) (number location : Nat) (file : Int) : Prop where
  number : d.number = number
  location : d.location = .nat location
  file : d.file = file

/-- Free rows of methods of a class are placed, each from a source of it, and nothing else is. -/
structure AddsMethods (c : Catalog) (file : Int) (owner : Nat)
    (Source : FunctionRow → FunctionSite → Prop) (l l' : Locations) : Prop where
  files : SameFiles l l'
  classes : l'.classes = l.classes
  functions : ∃ ds, l'.functions = l.functions ++ ds ∧ ∀ d ∈ ds,
    d.number ∉ l.functions.map (·.number) ∧
    ∃ r s, c.functions[d.number]? = some r ∧ d.Is d.number r.location file ∧ r.parent = some owner ∧
      Source r s ∧ d.coordinates? l'.decorators = some s.coordinates

namespace AddsMethods

variable {c : Catalog} {file : Int} {owner : Nat}
  {Source Source' : FunctionRow → FunctionSite → Prop} {l l1 l2 : Locations}

lemma refl (l : Locations) : AddsMethods c file owner Source l l :=
  ⟨.refl l, rfl, [], by simp, by simp⟩

lemma trans (h1 : AddsMethods c file owner Source l l1)
    (h2 : AddsMethods c file owner Source l1 l2) : AddsMethods c file owner Source l l2 := by
  obtain ⟨ds, hds, hright⟩ := h1.functions
  obtain ⟨es, hes, hright'⟩ := h2.functions
  refine ⟨h1.files.trans h2.files, h2.classes.trans h1.classes, ds ++ es, ?_, ?_⟩
  · rw [hes, hds, append_assoc]
  · intro d hd
    rcases mem_append.mp hd with hd | hd
    · obtain ⟨hfree, r, s, hr, his, hparent, hsource, hcoordinates⟩ := hright d hd
      exact ⟨hfree, r, s, hr, his, hparent, hsource,
        DefinitionRow.coordinates?_extends hcoordinates h2.files.decorators⟩
    · obtain ⟨hfree, hrow⟩ := hright' d hd
      refine ⟨fun hmem => hfree ?_, hrow⟩
      rw [hds, map_append]
      exact mem_append_left _ hmem

lemma imp (h : AddsMethods c file owner Source l l1)
    (himp : ∀ {j r s}, c.functions[j]? = some r → j ∉ l.functions.map (·.number) →
      r.parent = some owner →
      Source r s → Source' r s) : AddsMethods c file owner Source' l l1 := by
  obtain ⟨ds, hds, hright⟩ := h.functions
  refine ⟨h.files, h.classes, ds, hds, fun d hd => ?_⟩
  obtain ⟨hfree, r, s, hr, his, hparent, hsource, hcoordinates⟩ := hright d hd
  exact ⟨hfree, r, s, hr, his, hparent, himp hr hfree hparent hsource, hcoordinates⟩

lemma mem_numbers (h : AddsMethods c file owner Source l l1) (hk : k ∈ l.functions.map (·.number)) :
    k ∈ l1.functions.map (·.number) := by
  obtain ⟨ds, hds, -⟩ := h.functions
  rw [hds, map_append]
  exact mem_append_left _ hk

end AddsMethods

section Placing

variable {x : Context} {c : Catalog} (hx : x.On c) {k : Nat}

lemma exists_place (x : Context) (k location : Nat) (span : Span) (ds : List Decorator)
    (body : List Stmt) (l : Locations) :
    ∃ l' d, x.place k (.nat location) span ds body l = (.ok d, l') ∧ SameRows l l' ∧
      d.Is k location x.file ∧ d.coordinates? l'.decorators = some (coordinates span ds body) :=
  ⟨_, _, rfl, sameRows_addDecorators ds l, ⟨rfl, rfl, rfl⟩, coordinates?_place rfl⟩

include hx

lemma exists_placeClass {r : ClassRow} (hr : c.classes[k]? = some r) (span : Span)
    (head : ClassHead) (body : List Stmt) (l : Locations) :
    ∃ l' d, x.placeClass k span head body l = (.ok (), l') ∧ d.Is k r.location x.file ∧
      d.coordinates? l'.decorators = some (coordinates span head.decorators body) ∧
      SameFiles l l' ∧ l'.functions = l.functions ∧ l'.classes = l.classes ++ [d] := by
  obtain ⟨l1, d, hplace, hsame, hd, hcoordinates⟩ :=
    exists_place x k r.location span head.decorators body l
  refine ⟨{ l1 with classes := l1.classes ++ [d] }, d, hx.placeClass_eq l hr hplace, hd,
    hcoordinates, ⟨hsame.files, hsame.paths, hsame.decorators⟩, hsame.functions, ?_⟩
  rw [← hsame.classes]

lemma exists_placeFunction (hr : c.functions[k]? = some r) (span : Span) (head : FunctionHead)
    (body : List Stmt)
    (l : Locations) : ∃ l' d, x.placeFunction k span head body l = (.ok (), l') ∧
      d.Is k r.location x.file ∧
      d.coordinates? l'.decorators = some (coordinates span head.decorators body) ∧
      SameFiles l l' ∧ l'.classes = l.classes ∧ l'.functions = l.functions ++ [d] := by
  obtain ⟨l1, d, hplace, hsame, hd, hcoordinates⟩ :=
    exists_place x k r.location span head.decorators body l
  refine ⟨{ l1 with functions := l1.functions ++ [d] }, d, hx.placeFunction_eq l hr hplace, hd,
    hcoordinates, ⟨hsame.files, hsame.paths, hsame.decorators⟩, hsame.classes, ?_⟩
  rw [← hsame.functions]

/-! ### Searching the rows -/

omit hx in
lemma getElem?_of_mem_zipIdx {xs : List α} {y : α × Nat} (h : y ∈ xs.zipIdx) :
    xs[y.2]? = some y.1 := by
  obtain ⟨a, i⟩ := y
  exact mk_mem_zipIdx_iff_getElem?.mp h

omit hx in
/-- A definition is placed at the first row that is its own, if that is free. -/
lemma placeFirst_eq {ρ : Type} {f : ρ → Value} {isOwn : Value → Placing Bool} (own : ρ → Bool)
    {placed : Locations → List DefinitionRow} {place : Nat → Placing Unit} {l : Locations}
    {rows : List (ρ × Nat)} {y : ρ × Nat} (h : ∀ z ∈ rows, isOwn (f z.1) l = (.ok (own z.1), l))
    (hfind : rows.find? (fun z => own z.1) = some y) :
    placeFirst isOwn placed place (rows.map fun z => (f z.1, z.2)) l =
      if (placed l).any (·.number = y.2) then (.ok (), l) else place y.2 l := by
  induction rows with
  | nil => cases hfind
  | cons z rows ih =>
    rw [map_cons, placeFirst, bind_ok (h z mem_cons_self)]
    rw [find?_cons] at hfind
    rcases hown : own z.1 with _ | _ <;> rw [hown] at hfind
    · exact ih (fun z' hz' => h z' (mem_cons_of_mem _ hz')) hfind
    · obtain rfl := Option.some.inj hfind
      rw [if_pos rfl, bind_ok (p := isPlaced placed z.2) (x := (placed l).any (·.number = z.2)) rfl]
      rcases (placed l).any (·.number = z.2) with _ | _ <;> rfl

omit hx in
lemma any_number_iff {ds : List DefinitionRow} :
    ds.any (·.number = k) = true ↔ k ∈ ds.map (·.number) := by
  simp [mem_map]

lemma exists_placeMethod (s : FunctionSite) (hrows : ∀ y ∈ rows, c.functions[y.2]? = some y.1)
    (l : Locations) :
    ∃ l', x.placeMethod k s.span s.head s.body (rows.map fun y => (y.1.toValue, y.2)) l =
      (.ok (), l') ∧
      AddsMethods c x.file k (fun r s' => c.nameAt r.name = s.head.name ∧ s' = s) l l' ∧
      ∀ y ∈ rows, y.1.parent = some k → c.nameAt y.1.name = s.head.name →
        y.2 ∈ l'.functions.map (·.number) := by
  induction rows generalizing l with
  | nil => exact ⟨l, rfl, .refl l, by simp⟩
  | cons y rows ih =>
    have hy := hrows y mem_cons_self
    have hrest : ∀ z ∈ rows, c.functions[z.2]? = some z.1 :=
      fun z hz => hrows z (mem_cons_of_mem _ hz)
    have his := hx.isFunction l (mem_of_getElem? hy) (.nat k) s.head.name
    rw [same_number?, ← Bool.decide_and] at his
    -- whatever is done at this row, the others follow
    have hfollow : ∀ l1,
        AddsMethods c x.file k (fun r s' => c.nameAt r.name = s.head.name ∧ s' = s) l l1 →
          (y.1.parent = some k ∧ c.nameAt y.1.name = s.head.name →
          y.2 ∈ l1.functions.map (·.number)) →
          ∃ l', x.placeMethod k s.span s.head s.body (rows.map fun y => (y.1.toValue, y.2)) l1 =
            (.ok (), l') ∧
            AddsMethods c x.file k (fun r s' => c.nameAt r.name = s.head.name ∧ s' = s) l l' ∧
            ∀ z ∈ y :: rows, z.1.parent = some k → c.nameAt z.1.name = s.head.name →
              z.2 ∈ l'.functions.map (·.number) := by
      intro l1 hadds hplaced
      obtain ⟨l', hrun, hadds', hrows'⟩ := ih hrest l1
      refine ⟨l', hrun, hadds.trans hadds', fun z hz hparent hname => ?_⟩
      rcases mem_cons.mp hz with rfl | hz
      · exact hadds'.mem_numbers (hplaced ⟨hparent, hname⟩)
      · exact hrows' z hz hparent hname
    rw [map_cons, Context.placeMethod, bind_ok his]
    by_cases h : y.1.parent = some k ∧ c.nameAt y.1.name = s.head.name
    · rw [decide_eq_true h, if_pos rfl]
      rw [bind_ok (p := isPlaced (·.functions) y.2) (x := l.functions.any (·.number = y.2)) rfl]
      by_cases hplaced : l.functions.any (·.number = y.2) = true
      · simp only [hplaced]
        exact hfollow l (.refl l) fun _ => any_number_iff.mp hplaced
      · obtain ⟨l1, d, hrun, hd, hcoordinates, hfiles, hclasses, hfunctions⟩ :=
          exists_placeFunction hx hy s.span s.head s.body l
        rw [if_pos (by simpa using hplaced), bind_ok hrun]
        refine hfollow l1 ⟨hfiles, hclasses, [d], hfunctions, ?_⟩ fun _ => ?_
        · intro e he
          obtain rfl := mem_singleton.mp he
          rw [hd.number]
          exact ⟨fun hmem => hplaced (any_number_iff.mpr hmem), y.1, s, hy, hd, h.1, ⟨h.2, rfl⟩,
            hcoordinates⟩
        · rw [hfunctions, map_append, map_singleton, hd.number]
          exact mem_append_right _ mem_cons_self
    · rw [decide_eq_false h, if_neg Bool.false_ne_true]
      exact hfollow l (.refl l) fun h' => absurd h' h

/-- The methods of a class are placed, each row from the first of them with its name. -/
lemma exists_placeMethods (i : Nat) (body : List Stmt) (l : Locations) :
    ∃ l', x.placeMethods k body l = (.ok (), l') ∧
      AddsMethods c x.file k
        (fun r s => (methodSites i k body).find? (·.head.name = c.nameAt r.name) = some s) l l' ∧
      ∀ j r, c.functions[j]? = some r → r.parent = some k → c.nameAt r.name ∈ methodNames body →
        j ∈ l'.functions.map (·.number) := by
  induction body generalizing l with
  | nil => exact ⟨l, rfl, .refl l, by simp [methodNames]⟩
  | cons s body ih =>
    cases s with
    | function span head inner =>
      let site : FunctionSite := ⟨i, some k, span, head, inner⟩
      obtain ⟨l1, hrun, hadds, hrows⟩ := exists_placeMethod hx (k := k) site
        (fun y hy => getElem?_of_mem_zipIdx hy) l
      obtain ⟨l2, hrun', hadds', hbody⟩ := ih l1
      refine ⟨l2, ?_, (hadds.imp ?_).trans (hadds'.imp ?_), fun j r hr hparent hname => ?_⟩
      · rw [Context.placeMethods, bind_ok (hx.rows_functions l), bind_ok hrun, hrun']
      · rintro j r s - - - ⟨hname, rfl⟩
        exact find?_cons_of_pos (by simpa using hname.symm)
      · intro j r s hr hfree hparent hfind
        -- a row with the name of the first method is no longer free
        have hname : head.name ≠ c.nameAt r.name := fun hname =>
          hfree (hrows (r, j) (mk_mem_zipIdx_iff_getElem?.mpr hr) hparent hname.symm)
        exact (find?_cons_of_neg (by simpa using hname)).trans hfind
      · rcases mem_cons.mp hname with hname | hname
        · exact hadds'.mem_numbers
            (hrows (r, j) (mk_mem_zipIdx_iff_getElem?.mpr hr) hparent hname)
        · exact hbody j r hr hparent hname
    | _ => exact ih l

/-! ### Modules, imports and comments -/

def ModuleRow.extent (e : ModuleRow) : Int × Nat := (e.file, e.last)

lemma exists_placeModules (m : Module) {rows : List (Catalog.ModuleRow × Nat)}
    (hrows : ∀ y ∈ rows, c.modules[y.2]? = some y.1) (l : Locations)
    (hfile : Value.atIndex? l.files x.file = some file) :
    ∃ l', x.placeModules m (rows.map fun y => (y.1.toValue, y.2)) l = (.ok (), l') ∧ SameRows l l' ∧
      l'.modules.map ModuleRow.extent = l.modules.map ModuleRow.extent ++
        (rows.filter fun y => (y.1.file : Int) = x.file).map fun _ => (x.file, file.lines) := by
  induction rows generalizing l with
  | nil => exact ⟨l, rfl, .refl l, by simp⟩
  | cons y rows ih =>
    have hrest : ∀ z ∈ rows, c.modules[z.2]? = some z.1 :=
      fun z hz => hrows z (mem_cons_of_mem _ hz)
    rw [map_cons, Context.placeModules_cons]
    by_cases h : (y.1.file : Int) = x.file
    · rw [if_pos h, filter_cons_of_pos (by simpa using h)]
      let l1 : Locations := { l with modules := l.modules ++
        [⟨y.2, .nat y.1.location, x.file, file.lines, docstringSpan? m.body⟩] }
      have hrun : x.placeModule y.2 m l = (.ok (), l1) := by
        unfold Context.placeModule
        rw [bind_ok (hx.location_module l (hrows y mem_cons_self)),
          bind_ok (p := get) (x := l) rfl, hfile]
        rfl
      have hsame : SameRows l l1 := ⟨⟨rfl, rfl, .refl _⟩, rfl, rfl⟩
      obtain ⟨l2, hrun', hsame', hmodules⟩ := ih hrest l1 hfile
      refine ⟨l2, by rw [bind_ok hrun]; exact hrun', hsame.trans hsame', ?_⟩
      simp [hmodules, l1, ModuleRow.extent]
    · rw [if_neg h, filter_cons_of_neg (by simpa using h)]
      exact ih hrest l hfile

lemma exists_placeAll (m : Module) (l : Locations)
    (hfile : Value.atIndex? l.files x.file = some file) :
    ∃ l', SameRows l l' ∧ x.placeAll m l = x.placeDefinitions m.body l' := by
  have hcomments := sameRows_addComments x.file x.lines 1 l
  have himports := hcomments.trans (sameRows_addModuleImports x.file m.body _)
  obtain ⟨l', hrun, hsame, -⟩ := exists_placeModules hx m
    (fun y (hy : y ∈ c.modules.zipIdx) => getElem?_of_mem_zipIdx hy) _
      (by rw [himports.files]; exact hfile)
  exact ⟨l', himports.trans hsame, (hx.placeAll_eq l m).trans (bind_ok hrun _)⟩

end Placing

end Locate

end CodeAtlas
