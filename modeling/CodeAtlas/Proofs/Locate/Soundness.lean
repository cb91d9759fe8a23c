import CodeAtlas.Proofs.Locate.Changes
import CodeAtlas.Proofs.Locate.Completeness

/-!
# What is located is there

However little a catalog and a project agree, tables are in order (`Tidy`) and everything placed
stands where it says (`Traced`): every change keeps both (`build_sound`).
-/

namespace CodeAtlas.Locate

open List Syntax Catalog Option Table

variable {marks : Table} {located : List (DefinitionRow × ClassSite)} {d : DefinitionRow}
  {file i k location : Nat} {lines : List (List Char)} {span : Span} {ds : List Decorator}
  {body : List Stmt} {l l1 : Locations} {x y : Option (Nat × ClassSite) × Locations}
  {s : FunctionSite} {f : Reading}

/-! ### Placing a definition -/

/-- A row shows where a definition of a file stands. -/
structure DefinitionRow.StandsAt (d : DefinitionRow) (marks : Table) (file : Nat)
    (lines : List (List Char)) (span : Span) (ds : List Decorator) (body : List Stmt) : Prop where
  file : d.file = file
  coordinates : d.coordinates? marks = some (coordinates span ds body)
  indentation : d.indentation = Locate.indentation lines span.first

lemma DefinitionRow.StandsAt.extends {marks' : Table} (h : d.StandsAt marks file lines span ds body)
    (hmarks : marks.Extends marks') : d.StandsAt marks' file lines span ds body :=
  ⟨h.file, coordinates?_extends h.coordinates hmarks, h.indentation⟩

lemma DefinitionRow.lt_size_of_coordinates? {x : Coordinates} (h : d.coordinates? marks = some x) :
    ∀ m ∈ d.decorators, m.2 < marks.size := by
  intro m hm
  obtain ⟨texts, htexts, -⟩ := map_eq_some_iff.mp h
  exact lt_size_of_getAll? htexts m.2 (mem_map_of_mem hm)

lemma addDecorators_eq (ds : List Decorator) (l : Locations) :
    (addDecorators l ds).1 = { l with decorators := (addDecorators l ds).1.decorators } ∧
      l.decorators.Grows (addDecorators l ds).1.decorators := by
  induction ds generalizing l with
  | nil => exact ⟨rfl, .refl _⟩
  | cons d ds ih =>
    unfold addDecorators
    split
    · exact ih l
    · rename_i mark _
      obtain ⟨heq, hgrows⟩ := ih { l with decorators := (l.decorators.add mark).1 }
      exact ⟨heq, grows_add.trans hgrows⟩

/-- What comes of placing a definition. -/
structure Placed (d : DefinitionRow) (k location file : Nat) (lines : List (List Char))
    (span : Span) (ds : List Decorator) (body : List Stmt) (l l1 : Locations) : Prop where
  number : d.number = k
  location : d.location = .nat location
  stands : d.StandsAt l1.decorators file lines span ds body
  same : l1 = { l with decorators := l1.decorators }
  grows : l.decorators.Grows l1.decorators

lemma placed_of_place {v : Value}
    (h : Context.place ⟨v, file, lines⟩ k (.nat location) span ds body l = (.ok d, l1)) :
    Placed d k location file lines span ds body l l1 := by
  have hcoordinates := coordinates?_place h
  cases h
  exact ⟨rfl, rfl, ⟨rfl, hcoordinates, rfl⟩, (addDecorators_eq ds l).1, (addDecorators_eq ds l).2⟩

/-! ### Tables and numbers -/

/-- Tables have no text twice, no row is placed twice, and imports are numbered in order. -/
structure Tidy (l : Locations) : Prop where
  paths : l.paths.items.Nodup
  modifieds : l.modifieds.items.Nodup
  hashes : l.hashes.items.Nodup
  decorators : l.decorators.items.Nodup
  commentTexts : l.commentTexts.items.Nodup
  files : ∀ f ∈ l.files, f.path < l.paths.size ∧ f.modified < l.modifieds.size ∧
    f.hash < l.hashes.size
  classes : (l.classes.map (·.number)).Nodup
  functions : (l.functions.map (·.number)).Nodup
  imports : l.imports.map (·.number) = range l.imports.length

lemma tidy_empty : Tidy {} := by
  refine ⟨?_, ?_, ?_, ?_, ?_, ?_, ?_, ?_, rfl⟩ <;> simp

lemma nodup_concat {ds : List DefinitionRow} (h : (ds.map (·.number)).Nodup) (hd : d.number = k)
    (hfree : k ∉ ds.map (·.number)) : ((ds ++ [d]).map (·.number)).Nodup := by
  rw [map_append, map_singleton, hd, nodup_append_comm]
  exact nodup_cons.mpr ⟨hfree, h⟩

lemma Tidy.addFile (h : Tidy l) (path : String) (lines size : Nat) (modified hash : String) :
    Tidy (l.addFile path lines size modified hash).1 := by
  refine { h with
    paths := nodup_add h.paths
    modifieds := nodup_add h.modifieds
    hashes := nodup_add h.hashes
    files := ?_ }
  intro f hf
  rcases mem_append.mp hf with hf | hf
  · obtain ⟨hpath, hmodified, hhash⟩ := h.files f hf
    exact ⟨hpath.trans_le grows_add.size_le,
      hmodified.trans_le grows_add.size_le,
      hhash.trans_le grows_add.size_le⟩
  · obtain rfl := mem_singleton.mp hf
    exact ⟨add_lt _ _, add_lt _ _, add_lt _ _⟩

lemma Tidy.addImports (h : Tidy l) (file : Int) (line : Nat) (isFrom : Bool) (count : Nat) :
    Tidy (l.addImports file line isFrom count) := by
  refine { h with imports := ?_ }
  have hnew : (l.addImports file line isFrom count).imports.map (·.number) =
      range l.imports.length ++ (range count).map (l.imports.length + ·) := by
    rw [← h.imports]
    simp [Locations.addImports]
  rw [hnew, ← range_add]
  simp [Locations.addImports]

lemma Tidy.addModuleImports (h : Tidy l) (file : Int) (s : Stmt) :
    Tidy (Locations.addModuleImports file l s) := by
  cases s with
  | importNames span names => exact h.addImports _ _ _ _
  | importFrom span module names level => exact h.addImports _ _ _ _
  | _ => exact h

lemma Tidy.of_grows (h : Tidy l) (hsame : l1 = { l with decorators := l1.decorators })
    (hgrows : l.decorators.Grows l1.decorators) : Tidy l1 := by
  have hdecorators := hgrows.nodup h.decorators
  rw [hsame]
  exact { h with decorators := hdecorators }

lemma Tidy.addFunction (h : Tidy l) (hplaced : Placed d k location file lines span ds body l l1)
    (hfree : k ∉ l.functions.map (·.number)) :
    Tidy { l1 with functions := l1.functions ++ [d] } := by
  have hmarks := h.of_grows hplaced.same hplaced.grows
  refine { hmarks with functions := nodup_concat hmarks.functions hplaced.number ?_ }
  rw [hplaced.same]
  exact hfree

variable {c : Catalog} {F : Nat → Reading → Prop}

lemma Change.tidy (h : Change c F x y) (hx : Tidy x.2) : Tidy y.2 := by
  cases h with
  | file l path lines size modified hash => exact hx.addFile _ _ _ _ _
  | comment l read there marked => exact { hx with commentTexts := nodup_add hx.commentTexts }
  | imports l read there => exact hx.addModuleImports _ _
  | moduleRow l read row own recorded => exact { hx with }
  | openClass read there row named free placed =>
    have hplaced := placed_of_place placed
    have hmarks := hx.of_grows hplaced.same hplaced.grows
    refine { hmarks with classes := nodup_concat hmarks.classes hplaced.number ?_ }
    rw [hplaced.same]
    exact free
  | method read same there owned row parent named free placed =>
    exact hx.addFunction (placed_of_place placed) free
  | closeClass owner l => exact hx
  | function read there owned row parent named free placed =>
    exact hx.addFunction (placed_of_place placed) free
  | total l => exact { hx with }

lemma Changes.tidy (h : Changes c F x y) (hx : Tidy x.2) : Tidy y.2 := by
  induction h with
  | refl => exact hx
  | tail _ hchange ih => exact hchange.tidy ih

/-! ### Where entries come from -/

/-- The row of a class is placed from a class in a file, which has the name of the row in the
catalog. -/
structure ClassFrom (c : Catalog) (F : Nat → Reading → Prop) (marks : Table) (d : DefinitionRow)
    (s : ClassSite) : Prop where
  row : ∃ r, c.classes[d.number]? = some r ∧ d.location = .nat r.location ∧
    c.names.get? r.name = some s.head.name
  stands : ∃ f, F s.module f ∧ .classDef s.span s.head s.body ∈ f.module.body ∧
    d.StandsAt marks s.module f.lines s.span s.head.decorators s.body

/-- The row of a function is placed from a function that has the name of the row in the catalog: one
outside classes if the row has no owner, and else one in the body of the class that is located for
the owner. -/
structure FunctionFrom (c : Catalog) (F : Nat → Reading → Prop) (marks : Table)
    (located : List (DefinitionRow × ClassSite)) (d : DefinitionRow) (s : FunctionSite) : Prop where
  row : ∃ r, c.functions[d.number]? = some r ∧ d.location = .nat r.location ∧
    c.names.get? r.name = some s.head.name ∧ r.parent = s.owner
  stands : ∃ f, F s.module f ∧ d.StandsAt marks s.module f.lines s.span s.head.decorators s.body ∧
    (s.owner = none → .function s.span s.head s.body ∈ f.module.body)
  inside : ∀ k, s.owner = some k → ∃ p ∈ located, p.1.number = k ∧ p.2.module = s.module ∧
    .function s.span s.head s.body ∈ p.2.body

/-- The row of a module is placed from the module in a file, by a row of the catalog for that file.
-/
def ModuleFrom (c : Catalog) (F : Nat → Reading → Prop) (m : ModuleRow) : Prop :=
  ∃ i f r, F i f ∧ m.file = (i : Int) ∧ c.modules[m.number]? = some r ∧ r.file = i ∧
    m.location = .nat r.location ∧ m.docstring = docstringSpan? f.module.body

def ImportRow.IsIn (e : ImportRow) : Stmt → Prop
  | .importNames span _ => e.line = span.first ∧ e.isFrom = false
  | .importFrom span _ _ _ => e.line = span.first ∧ e.isFrom = true
  | _ => False

/-- The row of an import is made from an import at the top of a file. -/
def ImportFrom (F : Nat → Reading → Prop) (e : ImportRow) : Prop :=
  ∃ i f s, F i f ∧ e.file = (i : Int) ∧ s ∈ f.module.body ∧ e.IsIn s

/-- The row of a comment is made from a marked comment on a line of a file. -/
def CommentFrom (F : Nat → Reading → Prop) (texts : Table) (e : CommentRow) : Prop :=
  ∃ i f n line text, F i f ∧ e.file = (i : Int) ∧ e.line = n + 1 ∧ f.lines[n]? = some line ∧
    (e.mark, text) ∈ remarks line ∧ texts.get? e.text = some text

/-- Everything in locations comes from the files; `located` are the rows of classes, each with the
class it is placed from. -/
structure Traced (c : Catalog) (F : Nat → Reading → Prop)
    (located : List (DefinitionRow × ClassSite)) (l : Locations) : Prop where
  rows : located.map (·.1) = l.classes
  classes : ∀ p ∈ located, ClassFrom c F l.decorators p.1 p.2
  functions : ∀ d ∈ l.functions, ∃ s, FunctionFrom c F l.decorators located d s
  modules : ∀ m ∈ l.modules, ModuleFrom c F m
  imports : ∀ e ∈ l.imports, ImportFrom F e
  comments : ∀ e ∈ l.comments, CommentFrom F l.commentTexts e

lemma Traced.exists_standsAt (h : Traced c F located l) :
    ∀ d ∈ l.classes ++ l.functions, ∃ (i : Nat) (f : Reading) (span : Span)
      (ds : List Decorator)
        (body : List Stmt), F i f ∧ d.StandsAt l.decorators i f.lines span ds body := by
  intro d hd
  rcases mem_append.mp hd with hd | hd
  · obtain ⟨p, hp, rfl⟩ := mem_map.mp (h.rows ▸ hd)
    obtain ⟨f, hf, -, hstands⟩ := (h.classes p hp).stands
    exact ⟨_, f, _, _, _, hf, hstands⟩
  · obtain ⟨site, hsite⟩ := h.functions d hd
    obtain ⟨f, hf, hstands, -⟩ := hsite.stands
    exact ⟨_, f, _, _, _, hf, hstands⟩

section Extension

variable {F' : Nat → Reading → Prop} {marks marks' : Table}
  {located more : List (DefinitionRow × ClassSite)}

lemma ClassFrom.mono {s : ClassSite} (h : ClassFrom c F marks d s) (hF : ∀ i f, F i f → F' i f)
    (hmarks : marks.Extends marks') : ClassFrom c F' marks' d s := by
  obtain ⟨f, hf, hthere, hstands⟩ := h.stands
  exact ⟨h.row, f, hF _ _ hf, hthere, hstands.extends hmarks⟩

lemma FunctionFrom.mono (h : FunctionFrom c F marks located d s) (hF : ∀ i f, F i f → F' i f)
    (hmarks : marks.Extends marks') (hmore : located ⊆ more) :
    FunctionFrom c F' marks' more d s := by
  obtain ⟨f, hf, hstands, hthere⟩ := h.stands
  refine ⟨h.row, ⟨f, hF _ _ hf, hstands.extends hmarks, hthere⟩, fun k hk => ?_⟩
  obtain ⟨p, hp, hinside⟩ := h.inside k hk
  exact ⟨p, hmore hp, hinside⟩

lemma CommentFrom.extends {texts texts' : Table} {e : CommentRow} (h : CommentFrom F texts e)
    (htexts : texts.Extends texts') : CommentFrom F texts' e := by
  obtain ⟨i, f, n, line, text, hf, hfile, hline, hthere, hmarked, htext⟩ := h
  exact ⟨i, f, n, line, text, hf, hfile, hline, hthere, hmarked, htexts.get? htext⟩

lemma Traced.mono (h : Traced c F located l) (hF : ∀ i f, F i f → F' i f) :
    Traced c F' located l where
  rows := h.rows
  classes p hp := (h.classes p hp).mono hF (.refl _)
  functions d hd := by
    obtain ⟨s, hs⟩ := h.functions d hd
    exact ⟨s, hs.mono hF (.refl _) (Subset.refl _)⟩
  modules m hm := by
    obtain ⟨i, f, r, hf, hrest⟩ := h.modules m hm
    exact ⟨i, f, r, hF _ _ hf, hrest⟩
  imports e he := by
    obtain ⟨i, f, s, hf, hrest⟩ := h.imports e he
    exact ⟨i, f, s, hF _ _ hf, hrest⟩
  comments e he := by
    obtain ⟨i, f, n, line, text, hf, hrest⟩ := h.comments e he
    exact ⟨i, f, n, line, text, hF _ _ hf, hrest⟩

lemma Traced.of_grows (h : Traced c F located l)
    (hsame : l1 = { l with decorators := l1.decorators })
    (hgrows : l.decorators.Grows l1.decorators) : Traced c F located l1 := by
  have hmarks := hgrows.old
  rw [hsame]
  exact { h with
    classes := fun p hp => (h.classes p hp).mono (fun _ _ hf => hf) hmarks
    functions := fun d hd => by
      obtain ⟨s, hs⟩ := h.functions d hd
      exact ⟨s, hs.mono (fun _ _ hf => hf) hmarks (Subset.refl _)⟩ }

end Extension

/-- Everything in locations comes from the files, and the class whose methods are being placed is
located. -/
def Follows (c : Catalog) (F : Nat → Reading → Prop) (x : Option (Nat × ClassSite) × Locations) :
    Prop :=
  ∃ located, Traced c F located x.2 ∧ ∀ owner ∈ x.1, ∃ p ∈ located, p.1.number = owner.1 ∧
    p.2 = owner.2

lemma Traced.addImports (h : Traced c F located l) {s : Stmt}
    (hf : F i f) (hs : s ∈ f.module.body) :
    Traced c F located (Locations.addModuleImports i l s) := by
  have hadd : ∀ line isFrom count, (∀ k, (⟨k, i, line, isFrom⟩ : ImportRow).IsIn s) →
      Traced c F located (l.addImports i line isFrom count) := by
    intro line isFrom count hin
    refine { h with imports := fun e he => ?_ }
    rcases mem_append.mp he with he | he
    · exact h.imports e he
    · obtain ⟨k, -, rfl⟩ := mem_map.mp he
      exact ⟨i, f, s, hf, rfl, hs, hin _⟩
  cases s with
  | importNames span names => exact hadd _ _ _ fun _ => ⟨rfl, rfl⟩
  | importFrom span module names level => exact hadd _ _ _ fun _ => ⟨rfl, rfl⟩
  | _ => exact h

lemma Traced.addFunction (h : Traced c F located l)
    (hd : FunctionFrom c F l.decorators located d s) :
    Traced c F located { l with functions := l.functions ++ [d] } := by
  refine { h with functions := fun e he => ?_ }
  rcases mem_append.mp he with he | he
  · exact h.functions e he
  · obtain rfl := mem_singleton.mp he
    exact ⟨s, hd⟩

lemma Traced.addClass {s : ClassSite} (h : Traced c F located l)
    (hd : ClassFrom c F l.decorators d s) :
    Traced c F (located ++ [(d, s)]) { l with classes := l.classes ++ [d] } := by
  refine { h with rows := ?_, classes := fun p hp => ?_, functions := fun e he => ?_ }
  · rw [map_append, h.rows, map_singleton]
  · rcases mem_append.mp hp with hp | hp
    · exact h.classes p hp
    · obtain rfl := mem_singleton.mp hp
      exact hd
  · obtain ⟨s', hs'⟩ := h.functions e he
    exact ⟨s', hs'.mono (fun _ _ hf => hf) (.refl _) (subset_append_left _ _)⟩

/-- Every change leaves all that is placed where it comes from. -/
lemma Change.follows (h : Change c F x y) (hx : Follows c F x) : Follows c F y := by
  obtain ⟨located, htraced, hopen⟩ := hx
  cases h with
  | file l path lines size modified hash => exact ⟨located, { htraced with }, by simp⟩
  | comment l read there marked =>
    refine ⟨located, { htraced with comments := fun e he => ?_ }, by simp⟩
    rcases mem_append.mp he with he | he
    · exact (htraced.comments e he).extends (extends_add _ _)
    · obtain rfl := mem_singleton.mp he
      exact ⟨_, _, _, _, _, read, rfl, rfl, there, marked, get?_add _ _⟩
  | imports l read there => exact ⟨located, htraced.addImports read there, by simp⟩
  | moduleRow l read row own recorded =>
    refine ⟨located, { htraced with modules := fun m hm => ?_ }, by simp⟩
    rcases mem_append.mp hm with hm | hm
    · exact htraced.modules m hm
    · obtain rfl := mem_singleton.mp hm
      exact ⟨_, _, _, read, rfl, row, own, rfl, rfl⟩
  | @openClass l l1 k r s f d v read there row named free placed =>
    have hplaced := placed_of_place placed
    have hd : ClassFrom c F l1.decorators d s :=
      ⟨⟨r, hplaced.number ▸ row, hplaced.location, named⟩, f, read, there, hplaced.stands⟩
    refine ⟨located ++ [(d, s)], (htraced.of_grows hplaced.same hplaced.grows).addClass hd, ?_⟩
    rintro owner ⟨⟩
    exact ⟨(d, s), by simp, hplaced.number, rfl⟩
  | @method l l1 owner k r s f d v read same there owned row parent named free placed =>
    have hplaced := placed_of_place placed
    -- the class is open, so it is located, and from the very class that the method stands in
    obtain ⟨p, hp, hnumber, hsite⟩ := hopen owner rfl
    have hd : FunctionFrom c F l1.decorators located d s := by
      refine ⟨⟨r, hplaced.number ▸ row, hplaced.location, named, parent⟩,
        ⟨f, read, hplaced.stands, fun hnone => ?_⟩, fun k hk => ?_⟩
      · rw [owned] at hnone
        cases hnone
      · obtain rfl : owner.1 = k := some.inj (owned.symm.trans hk)
        exact ⟨p, hp, hnumber, hsite ▸ same, hsite ▸ there⟩
    exact ⟨located, (htraced.of_grows hplaced.same hplaced.grows).addFunction hd, hopen⟩
  | closeClass owner l => exact ⟨located, htraced, by simp⟩
  | @function l l1 k r s f d v read there owned row parent named free placed =>
    have hplaced := placed_of_place placed
    have hd : FunctionFrom c F l1.decorators located d s := by
      refine ⟨⟨r, hplaced.number ▸ row, hplaced.location, named, parent⟩,
        ⟨f, read, hplaced.stands, fun _ => there⟩, fun k hk => ?_⟩
      rw [owned] at hk
      cases hk
    exact ⟨located, (htraced.of_grows hplaced.same hplaced.grows).addFunction hd, hopen⟩
  | total l => exact ⟨located, { htraced with }, by simp⟩

lemma Changes.follows (h : Changes c F x y) (hx : Follows c F x) : Follows c F y := by
  induction h with
  | refl => exact hx
  | tail _ hchange ih => exact hchange.follows ih

lemma follows_empty : Follows c F (none, {}) :=
  ⟨[], ⟨rfl, by simp, by simp, by simp, by simp, by simp⟩, by simp⟩

/-! ### Runs -/

def IsFile (c : Catalog) (t : Files.Tree) (root : Path) (i : Nat) (f : Reading) : Prop :=
  c.files.get? i = some f.path ∧ f.IsAt t root

lemma isFile_of_finding {t : Files.Tree} {root : Path}
    (h : (c.files.items.map (finding t root))[i]? = some (.source f)) : IsFile c t root i f := by
  rw [getElem?_map] at h
  obtain ⟨path, hpath, hfinding⟩ := map_eq_some_iff.mp h
  obtain ⟨hat, rfl⟩ := isAt_of_finding hfinding
  exact ⟨hpath, hat⟩

lemma sound_outcomeOf (c : Catalog) (about : Catalog.About) {o : Options} (ho : o.compress = false)
    (t : Files.Tree) (root : Path) :
    Tidy (outcomeOf (c.document about o) (c.files.items.map (finding t root))).2 ∧
      ∃ located, Traced c (IsFile c t root) located
        (outcomeOf (c.document about o) (c.files.items.map (finding t root))).2 := by
  have hchanges : Changes c (IsFile c t root) (none, {})
      (none, (outcomeOf (c.document about o) (c.files.items.map (finding t root))).2) :=
    changes_outcomeOf (Context.reads_document c about ho) fun j f hf => isFile_of_finding hf
  obtain ⟨located, htraced, -⟩ := Changes.follows hchanges follows_empty
  exact ⟨Changes.tidy hchanges tidy_empty, located, htraced⟩

lemma counted_outcomeOf {catalog : Value} {xs : List Finding}
    (h : (outcomeOf catalog xs).1 = .ok ()) :
    (outcomeOf catalog xs).2.counted = (outcomeOf catalog xs).2.count := by
  unfold outcomeOf at h ⊢
  rcases hrun : meetAll catalog 0 xs {} with ⟨e | _, l⟩
  · rw [hrun] at h
    cases h
  · rfl

/-- What every run leaves is tidy and comes from the files. -/
lemma sound_of_build {q : Plan} {c : Catalog} {about : Catalog.About} {o : Options}
    (ho : o.compress = false) {s s' : Session} {r : Except Failure Unit} {l : Locations}
    (h : ({ q with catalog := c.document about o } : Plan).build {} s = ((r, l), s')) :
    Tidy l ∧ (∃ located, Traced c (IsFile c s.tree q.root) located l) ∧
      (r = .ok () → l.counted = l.count) := by
  obtain ⟨s₁, hrun, -⟩ := yields_build_findings (t := s.tree)
    (q := { q with catalog := c.document about o }) (field_files c about) s rfl
  obtain ⟨hout, -⟩ := Prod.mk.inj (h.symm.trans hrun)
  obtain ⟨rfl, rfl⟩ := Prod.mk.inj hout
  obtain ⟨htidy, htraced⟩ := sound_outcomeOf c about ho s.tree q.root
  exact ⟨htidy, htraced, counted_outcomeOf⟩

/-- Whatever the catalog and the project have to do with each other, and whatever a run comes to: no
class and no function is placed twice, imports are numbered in order, tables have no text twice and
all numbers of texts are in range; and every row comes from a file, a class or a function from one
with the name of its row, and a method from one in the body of the class that its own class is
placed from. A run that comes to its end counts what it placed. -/
theorem build_sound (q : Plan) (c : Catalog) (about : Catalog.About) (o : Options)
    (ho : o.compress = false) (s s' : Session) (r : Except Failure Unit) (l : Locations)
    (h : ({ q with catalog := c.document about o } : Plan).build {} s = ((r, l), s')) :
    Tidy l ∧ (∀ d ∈ l.classes ++ l.functions, ∀ m ∈ d.decorators, m.2 < l.decorators.size) ∧
      (∀ e ∈ l.comments, e.text < l.commentTexts.size) ∧
      (∃ located, Traced c (IsFile c s.tree q.root) located l) ∧
      (r = .ok () → l.counted = l.count) := by
  obtain ⟨htidy, ⟨located, htraced⟩, hcounted⟩ := sound_of_build ho h
  refine ⟨htidy, fun d hd => ?_, fun e he => ?_, ⟨located, htraced⟩, hcounted⟩
  · obtain ⟨i, f, span, ds, body, -, hstands⟩ := htraced.exists_standsAt d hd
    exact DefinitionRow.lt_size_of_coordinates? hstands.coordinates
  · obtain ⟨i, f, n, line, text, -, -, -, -, -, htext⟩ := htraced.comments e he
    exact lt_size_of_get? htext

/-- The main result at a run that comes to its end and places a class. -/
theorem build_sound_twinTree : ∃ c l,
    twinPlan.Locates twinCatalog { tree := twinTree } { tree := twinTree } c (.ok (), l) ∧
      0 ∈ l.classes.map (·.number) ∧ Tidy l ∧
      (∃ located, Traced c (IsFile c twinTree twinRoot) located l) ∧ l.counted = l.count := by
  obtain ⟨c, l, hruns, hc, -, hplaces⟩ :=
    (revisits_twin wellFormed_twinTree isRecordable_twinTree).exists_places inUtf8_twinTree
  obtain ⟨-, s₂, -, hrun₂⟩ := id hruns
  obtain ⟨htidy, -, -, htraced, hcounted⟩ :=
    build_sound twinPlan c twinCatalog.about twinCatalog.options rfl
    { tree := twinTree } s₂ _ l hrun₂
  have hlength : c.classes.length = 2 := by
    have hrows := congrArg length hc.reads.lists.classes
    have htwo := congrArg length map_snd_classRows_twinTree
    rw [length_map] at hrows htwo
    exact hrows.trans htwo
  obtain ⟨r, hr⟩ : ∃ r, c.classes[0]? = some r := ⟨_, getElem?_eq_getElem (by omega)⟩
  have hfirst := (hplaces.class_iff hr).mpr ⟨lt_length_classRows hc hr,
    fun j hj => absurd hj (by omega)⟩
  exact ⟨c, l, hruns, hfirst, htidy, htraced, hcounted rfl⟩

end CodeAtlas.Locate
