import CodeAtlas.Proofs.Catalog.Rows
import CodeAtlas.Proofs.Files
import CodeAtlas.Proofs.Quoted
import CodeAtlas.Proofs.Session

/-!
# What rows are made of

Every class and function of a project is a site. Sites are listed in the order in which a catalog is
made, so the row with a number is made of the site with that number.
-/

namespace CodeAtlas.Catalog

open List Syntax Table Bool CodeAtlas.Action

variable {path : String} {i : Nat} {file : Path} {m : Module} {sources : List (String × Module)}

/-! ### Rows and sites -/

structure ClassRow.Records (names : Table) (r : ClassRow) (s : ClassSite) : Prop where
  module : r.module = s.module
  name : names.get? r.name = some s.head.name
  bases : names.getAll? r.bases = some (s.head.bases.filterMap baseName?)

structure FunctionRow.Records (names : Table) (r : FunctionRow) (s : FunctionSite) : Prop where
  module : r.module = s.module
  parent : r.parent = s.owner
  name : names.get? r.name = some s.head.name
  kind : r.kind = functionKind s.head
  decorators : ∃ ts, decoratorTexts s.head.decorators = .ok ts ∧
    names.getAll? r.decorators = some ts
  returns : ∃ t, hintText? s.head.returns = .ok t ∧ names.getOption? r.returns = some t
  parameters : ∃ ps, parameterSketches s.head.signature = .ok ps ∧
    r.parameters = List.range ps.length

/-- The classes and functions of a catalog are made of these sites, one row of each site. -/
structure Records (c : Catalog) (cs : List ClassSite) (fs : List FunctionSite) : Prop where
  classes : Forall₂ (ClassRow.Records c.names) c.classes cs
  functions : Forall₂ (FunctionRow.Records c.names) c.functions fs

variable {c c' : Catalog} {cs : List ClassSite} {fs : List FunctionSite}

lemma FunctionRow.Records.extends {names names' : Table} {r : FunctionRow} {s : FunctionSite}
    (h : r.Records names s) (hnames : names.Extends names') : r.Records names' s :=
  { h with
    name := hnames.get? h.name
    decorators := h.decorators.imp fun _ h => ⟨h.1, hnames.getAll? h.2⟩
    returns := h.returns.imp fun _ h => ⟨h.1, hnames.getOption? h.2⟩ }

lemma Keeps.records (h : c.Keeps c') (hc : c.Records cs fs) : c'.Records cs fs where
  classes := by
    rw [h.classes]
    exact hc.classes.imp fun r s hr => ⟨hr.module, h.names.get? hr.name, h.names.getAll? hr.bases⟩
  functions := by
    rw [h.functions]
    exact hc.functions.imp fun r s hr => hr.extends h.names

lemma getOption?_addName? (c : Catalog) (s : Option String) :
    (c.addName? s).1.names.getOption? (c.addName? s).2 = some s := by
  cases s with
  | none => rfl
  | some s => exact congrArg (Option.map some) (get?_add c.names s)

/-- The row of a parameter is made of what is recorded of it. -/
structure ParameterRow.Records (names : Table) (r : ParameterRow) (p : ParameterSketch) : Prop where
  name : names.get? r.name = some p.name
  hint : names.getOption? r.hint = some p.hint
  default : names.getOption? r.default = some p.default
  kind : r.kind = p.kind
  required : r.required = p.required

lemma records_addParameterRows (ps : List ParameterSketch) (c : Catalog) (i : Nat) :
    Forall₂ (ParameterRow.Records (c.addParameterRows i ps).1.names)
      (c.addParameterRows i ps).2 ps := by
  induction ps generalizing c i with
  | nil => exact .nil
  | cons p ps ih =>
    let c1 := (c.addName p.name).1
    let c2 := (c1.addName? p.hint).1
    let c3 := (c2.addName? p.default).1
    have hhint : Renames c1 c2 := renames_addName? c1 p.hint
    have hdefault : Renames c2 c3 := renames_addName? c2 p.default
    have hrest : Renames c3 (c3.addParameterRows (i + 1) ps).1 :=
      renames_addParameterRows c3 ps (i + 1)
    exact .cons
      { name := (hhint.trans (hdefault.trans hrest)).names.old.get? (get?_add c.names p.name)
        hint := (hdefault.trans hrest).names.old.getOption? (getOption?_addName? c1 p.hint)
        default := hrest.names.old.getOption? (getOption?_addName? c2 p.default)
        kind := rfl
        required := rfl } (ih c3 (i + 1))

lemma position_addParameterRows (ps : List ParameterSketch) : ∀ (c : Catalog) (i : Nat),
    (c.addParameterRows i ps).2.map (·.position) = range' i ps.length := by
  induction ps with
  | nil => exact fun c i => rfl
  | cons p ps ih =>
    intro c i
    rw [addParameterRows, map_cons, ih, length_cons, range'_succ]

lemma positions_addParameters (function : Nat) (ps : List ParameterSketch) :
    (c.addParameters function ps).2 = List.range ps.length := by
  rw [range_eq_range', ← position_addParameterRows ps c 0]
  rfl

/-! ### Sketches, part by part -/

section Sketches

variable {α β : Type} {g : α → Except SourceFault (List β)} {a : α} {as : List α} {docs : Bool}
  {body : List Stmt}

/-- What is gathered from a list is made of its first member and gathered from the rest. -/
lemma exists_of_gather_cons {bs : List β} (h : gather g (a :: as) = .ok bs) :
    ∃ front more, g a = .ok front ∧ gather g as = .ok more ∧ bs = front ++ more := by
  obtain ⟨parts, hparts, h⟩ := exists_of_ok_bind h
  rw [mapM_cons] at hparts
  obtain ⟨front, hfront, hparts⟩ := exists_of_ok_bind hparts
  obtain ⟨rest, hrest, hparts⟩ := exists_of_ok_bind hparts
  cases hparts
  cases h
  exact ⟨front, rest.flatten, hfront, by rw [gather, hrest]; rfl, rfl⟩

/-- The sketch of a function is made of its head, part by part. -/
structure FunctionSketch.Draws (f : FunctionSketch) (head : FunctionHead) : Prop where
  name : f.name = head.name
  kind : f.kind = functionKind head
  decorators : decoratorTexts head.decorators = .ok f.decorators
  returns : hintText? head.returns = .ok f.returns
  parameters : parameterSketches head.signature = .ok f.parameters

lemma draws_functionSketch {head : FunctionHead} {f : FunctionSketch}
    (h : functionSketch docs head body = .ok f) : f.Draws head := by
  obtain ⟨decorators, hdecorators, h⟩ := exists_of_ok_bind h
  obtain ⟨returns, hreturns, h⟩ := exists_of_ok_bind h
  obtain ⟨parameters, hparameters, h⟩ := exists_of_ok_bind h
  cases h
  exact ⟨rfl, rfl, hdecorators, hreturns, hparameters⟩

lemma parts_of_classSketch {head : ClassHead} {k : ClassSketch}
    (h : classSketch docs head body = .ok k) :
    k.name = head.name ∧ k.bases = head.bases.filterMap baseName? ∧
      functionsIn docs body = .ok k.methods := by
  obtain ⟨methods, hmethods, h⟩ := exists_of_ok_bind h
  obtain ⟨attributes, -, h⟩ := exists_of_ok_bind h
  cases h
  exact ⟨rfl, rfl, hmethods⟩

lemma definitions_of_moduleSketch {k : ModuleSketch} (h : moduleSketch docs m = .ok k) :
    gather (definitionSketch docs) m.body = .ok k.definitions := by
  obtain ⟨definitions, hdefinitions, h⟩ := exists_of_ok_bind h
  cases h
  exact hdefinitions

end Sketches

/-! ### Recording what was sketched -/

variable {docs : Bool}

lemma Records.addFunction (hc : c.Records cs fs) (s : FunctionSite) {f : FunctionSketch}
    (hf : functionSketch docs s.head s.body = .ok f) :
    (c.addFunction s.module s.owner f).1.Records cs (fs ++ [s]) := by
  have hdraws := draws_functionSketch hf
  let c1 := (c.addName f.name).1
  let c2 := (c1.addNames f.decorators).1
  let c3 := (c2.addName? f.returns).1
  let c4 := (c3.addParameters c.functions.length f.parameters).1
  have h1 : c.Keeps c1 := (renames_addName c f.name).keeps
  have h2 : c1.Keeps c2 := (renames_addNames c1 f.decorators).keeps
  have h3 : c2.Keeps c3 := (renames_addName? c2 f.returns).keeps
  have h4 : c3.Keeps c4.takeLocation.1 :=
    (keeps_addParameters c3 _ f.parameters).trans (keeps_takeLocation c4)
  let r : FunctionRow :=
    ⟨s.module, s.owner, (c.addName f.name).2, f.kind, (c2.addName? f.returns).2,
    (c3.addParameters c.functions.length f.parameters).2, (c1.addNames f.decorators).2,
    c4.nextLocation⟩
  have hr : r.Records c4.takeLocation.1.names s :=
    { module := rfl
      parent := rfl
      name := hdraws.name ▸ ((h2.trans h3).trans h4).names.get? (get?_add c.names f.name)
      kind := hdraws.kind
      decorators := ⟨_, hdraws.decorators,
        (h3.trans h4).names.getAll? (getAll?_addAll f.decorators c1.names)⟩
      returns := ⟨_, hdraws.returns, h4.names.getOption? (getOption?_addName? c2 f.returns)⟩
      parameters := ⟨_, hdraws.parameters, positions_addParameters c.functions.length f.parameters⟩
        }
  have hrows := (((h1.trans h2).trans h3).trans h4).records hc
  have hrow : Records { c4.takeLocation.1 with functions := c4.takeLocation.1.functions ++ [r] } cs
      (fs ++ [s]) :=
    ⟨hrows.classes, rel_append hrows.functions (.cons hr .nil)⟩
  exact (keeps_addDocstring _ .function c.functions.length f.docstring).records hrow

lemma Records.addMethods (hc : c.Records cs fs) (module owner : Nat) {body : List Stmt}
    {sketches : List FunctionSketch} (h : functionsIn docs body = .ok sketches) :
    (c.addMethods module owner sketches).1.Records cs (fs ++ methodSites module owner body) := by
  induction body generalizing c fs sketches with
  | nil =>
    cases h
    simpa [methodSites, Catalog.addMethods] using hc
  | cons s body ih =>
    obtain ⟨front, more, hfront, hmore, rfl⟩ := exists_of_gather_cons h
    cases s with
    | function span head inner =>
      obtain ⟨f, hf, heq⟩ := exists_of_ok_bind hfront
      cases heq
      have h := ih (hc.addFunction ⟨module, some owner, span, head, inner⟩ hf) hmore
      rw [append_assoc] at h
      exact h
    | _ =>
      cases hfront
      exact ih hc hmore

lemma Records.addClass (hc : c.Records cs fs) (s : ClassSite) {k : ClassSketch}
    (hk : classSketch docs s.head s.body = .ok k) :
    (c.addClass s.module k).Records (cs ++ [s]) (fs ++ methodSites s.module cs.length s.body) := by
  obtain ⟨hname, hbases, hbody⟩ := parts_of_classSketch hk
  let c1 := (c.addName k.name).1
  let c2 := (c1.addNames k.bases).1
  let c3 := (c2.addMethods s.module c.classes.length k.methods).1
  let c4 := (c3.addAttributes c.classes.length k.attributes).1
  have h2 : c1.Keeps c2 := (renames_addNames c1 k.bases).keeps
  have h4 : c3.Keeps c4.takeLocation.1 :=
    (keeps_addAttributes c3 _ k.attributes).trans (keeps_takeLocation c4)
  have hmethods : c3.Records cs (fs ++ methodSites s.module cs.length s.body) := by
    rw [← hc.classes.length_eq]
    exact (((renames_addName c k.name).keeps.trans h2).records hc).addMethods s.module
      c.classes.length hbody
  -- the texts were numbered before the methods were recorded
  have hnames : c2.names.Extends c4.takeLocation.1.names :=
    (goes_addMethods c2 s.module c.classes.length k.methods).names.trans h4.names
  let r : ClassRow := ⟨s.module, (c.addName k.name).2, (c1.addNames k.bases).2,
    (c2.addMethods s.module c.classes.length k.methods).2, c4.nextLocation,
    (c3.addAttributes c.classes.length k.attributes).2⟩
  have hr : r.Records c4.takeLocation.1.names s :=
    { module := rfl
      name := hname ▸ (h2.names.trans hnames).get? (get?_add c.names k.name)
      bases := hbases ▸ hnames.getAll? (getAll?_addAll k.bases c1.names) }
  have hrows := h4.records hmethods
  have hrow : Records { c4.takeLocation.1 with classes :=
    c4.takeLocation.1.classes ++ [r] } (cs ++ [s])
      (fs ++ methodSites s.module cs.length s.body) :=
    ⟨rel_append hrows.classes (.cons hr .nil), hrows.functions⟩
  exact (keeps_addDocstring _ .class c.classes.length k.docstring).records hrow

lemma Records.addDefinitions (module : Nat) {body : List Stmt} {ds : List Definition}
    (hc : c.Records cs fs) (h : gather (definitionSketch docs) body = .ok ds) :
    (ds.foldl (addDefinition module) c).Records (cs ++ classSites (body.map (module, ·)))
      (fs ++ functionSites cs.length (body.map (module, ·))) := by
  induction body generalizing c cs fs ds with
  | nil =>
    cases h
    simpa [classSites, functionSites] using hc
  | cons s body ih =>
    obtain ⟨front, more, hfront, hmore, rfl⟩ := exists_of_gather_cons h
    cases s with
    | classDef span head inner =>
      obtain ⟨k, hk, heq⟩ := exists_of_ok_bind hfront
      cases heq
      have h := ih (hc.addClass ⟨module, span, head, inner⟩ hk) hmore
      simp only [append_assoc, length_append, length_singleton] at h
      exact h
    | function span head inner =>
      obtain ⟨f, hf, heq⟩ := exists_of_ok_bind hfront
      cases heq
      have h := ih (hc.addFunction ⟨module, none, span, head, inner⟩ hf) hmore
      rw [append_assoc] at h
      exact h
    | _ =>
      cases hfront
      exact ih hc hmore

lemma Records.addModule (hc : c.Records cs fs) (name path hash : String) {k : ModuleSketch}
    (hk : moduleSketch docs m = .ok k) : (c.addModule name path hash k).1.Records
      (cs ++ classSites (m.body.map (c.modules.length, ·)))
      (fs ++ functionSites cs.length (m.body.map (c.modules.length, ·))) := by
  have hname := (renames_addName c name).keeps.records hc
  have hrow : Records { (c.addName name).1 with
      files := (c.files.add path).1, nextLocation := c.nextLocation + 1,
      modules := c.modules ++ [⟨(c.names.add name).2, (c.files.add path).2, c.nextLocation⟩],
      fileHashes := c.fileHashes.put (c.files.add path).2 hash } cs fs :=
    ⟨hname.classes, hname.functions⟩
  have himports := (keeps_addImports _ c.modules.length k.imports).records hrow
  exact (keeps_addDocstring _ .module c.modules.length k.docstring).records
    (himports.addDefinitions c.modules.length (definitions_of_moduleSketch hk))

/-! ### Rows of modules -/

/-- The statements of modules, each with the number of its module. -/
def statements (sources : List (String × Module)) : List (Nat × Stmt) :=
  sources.zipIdx.flatMap fun mi => mi.1.2.body.map (mi.2, ·)

lemma statements_concat (x : String × Module) :
    statements (sources ++ [x]) = statements sources ++ x.2.body.map (sources.length, ·) := by
  simp [statements, zipIdx_append]

/-- The row of a class tells a module and a name. -/
def ClassRow.Tells (names : Table) (r : ClassRow) (x : Nat × String) : Prop :=
  r.module = x.1 ∧ names.get? r.name = some x.2

/-- The row of a function tells a module, a class if there is one, and a name. -/
def FunctionRow.Tells (names : Table) (r : FunctionRow) (x : Nat × Option Nat × String) : Prop :=
  r.module = x.1 ∧ r.parent = x.2.1 ∧ names.get? r.name = some x.2.2

/-- A catalog has these files and modules, and the rows of its classes and functions tell these. -/
structure Reads (c : Catalog) (files : Table) (modules : List ModuleRow)
    (classes : List (Nat × String)) (functions : List (Nat × Option Nat × String)) : Prop where
  files : c.files = files
  modules : c.modules = modules
  classes : Forall₂ (ClassRow.Tells c.names) c.classes classes
  functions : Forall₂ (FunctionRow.Tells c.names) c.functions functions

lemma Records.reads (hc : c.Records cs fs) :
    c.Reads c.files c.modules (cs.map fun s => (s.module, s.head.name))
      (fs.map fun s => (s.module, s.owner, s.head.name)) where
  files := rfl
  modules := rfl
  classes := forall₂_map_right_iff.mpr (hc.classes.imp fun _ _ hr => ⟨hr.module, hr.name⟩)
  functions := forall₂_map_right_iff.mpr
    (hc.functions.imp fun _ _ hr => ⟨hr.module, hr.parent, hr.name⟩)

/-- The rows of a catalog are made of the sites in some modules. -/
structure RecordsAll (c : Catalog) (sources : List (String × Module)) : Prop where
  modules : c.modules.length = sources.length
  records : c.Records (classSites (statements sources)) (functionSites 0 (statements sources))

lemma Keeps.recordsAll (h : c.Keeps c') (hc : c.RecordsAll sources) : c'.RecordsAll sources :=
  ⟨h.modules ▸ hc.modules, h.records hc.records⟩

lemma RecordsAll.reads (h : c.RecordsAll sources) :
    c.Reads c.files c.modules (classRows (statements sources))
      (functionRows 0 (statements sources)) := by
  have hreads := h.records.reads
  rwa [map_classSites, map_functionSites] at hreads

/-- One more module adds the rows of its sites. -/
lemma RecordsAll.addModule (hc : c.RecordsAll sources) (name path hash : String)
    {x : String × Module} {k : ModuleSketch} (hk : moduleSketch docs x.2 = .ok k) :
    (c.addModule name path hash k).1.RecordsAll (sources ++ [x]) where
  modules := by
    rw [(files_modules_addModule c name path hash _).2, length_append, length_append, hc.modules]
    rfl
  records := by
    rw [statements_concat, classSites_append, functionSites_append, Nat.zero_add, ← hc.modules]
    exact hc.records.addModule name path hash hk

/-- A catalog holds modules with their paths: every module has a file of its own, with the same
number, and the rows tell the statements of all modules. -/
structure Holds (c : Catalog) (sources : List (String × Module)) : Prop where
  files : c.files.items = sources.map Prod.fst
  modules : c.modules.map (·.file) = List.range sources.length
  reads : c.Reads c.files c.modules (classRows (statements sources))
    (functionRows 0 (statements sources))

lemma Keeps.holds (h : c.Keeps c') (hc : c.Holds sources) : c'.Holds sources where
  files := by rw [h.files, hc.files]
  modules := by rw [h.modules, hc.modules]
  reads :=
    { files := rfl
      modules := rfl
      classes := by
        rw [h.classes]
        exact hc.reads.classes.imp fun r x hr => ⟨hr.1, h.names.get? hr.2⟩
      functions := by
        rw [h.functions]
        exact hc.reads.functions.imp fun r x hr => ⟨hr.1, hr.2.1, h.names.get? hr.2.2⟩ }

lemma Holds.addModule (hc : c.Holds sources) (hrecords : c.RecordsAll sources) {x : String × Module}
    (hpath : x.1 ∉ sources.map Prod.fst) (name hash : String) {k : ModuleSketch}
    (hk : moduleSketch docs x.2 = .ok k) :
    (c.addModule name x.1 hash k).1.Holds (sources ++ [x]) := by
  have hsize : c.files.size = sources.length := by
    rw [Table.size, hc.files, length_map]
  have hadd := add_of_notMem (t := c.files) (by rwa [hc.files])
  obtain ⟨hfiles, hmodules⟩ := files_modules_addModule c name x.1 hash k
  rw [hadd] at hfiles hmodules
  refine ⟨?_, ?_, (hrecords.addModule name x.1 hash hk).reads⟩
  · rw [hfiles, map_append, hc.files, map_singleton]
  · rw [hmodules, map_append, hc.modules, length_append, length_singleton, range_succ,
      map_singleton, hsize]

/-! ### What can be recorded -/

/-- Whether modules can be recorded: every definition has a sketch, and the texts that are digested
can be encoded. -/
def isRecordable (docs : Bool) (sources : List (String × Module)) : Bool :=
  sources.all (fun x => (moduleSketch docs x.2).isOk)
    && (classSites (statements sources)).all (Text.isEncodable ·.head.name)
    && (functionSites 0 (statements sources)).all fun s =>
      Text.isEncodable s.head.name &&
        ((hintText? s.head.returns).toOption.join.all Text.isEncodable)

lemma exists_moduleSketch (h : isRecordable docs sources = true) {x : String × Module}
    (hx : x ∈ sources) : ∃ k, moduleSketch docs x.2 = .ok k := by
  simp only [isRecordable, and_eq_true, all_eq_true] at h
  have hok := h.1.1 x hx
  rcases hk : moduleSketch docs x.2 with fault | k
  · simp [hk, Except.isOk, Except.toBool] at hok
  · exact ⟨k, rfl⟩

lemma nameAt_of_get? {i : Nat} {s : String} (h : c.names.get? i = some s) : c.nameAt i = s := by
  rw [nameAt, h, Option.getD_some]

/-- Rows that are made of sites can be digested exactly if the texts at these sites can be encoded.
-/
lemma RecordsAll.isDigestible_iff (hc : c.RecordsAll sources) : c.isDigestible = true ↔
    (∀ s ∈ classSites (statements sources), Text.isEncodable s.head.name = true) ∧
      ∀ s ∈ functionSites 0 (statements sources), Text.isEncodable s.head.name = true ∧
        ((hintText? s.head.returns).toOption.join.all Text.isEncodable) = true := by
  have hclass : ∀ (r : ClassRow) (s : ClassSite), r.Records c.names s →
      (Text.isEncodable (c.nameAt r.name) = true ↔ Text.isEncodable s.head.name = true) :=
    fun r s hr => by rw [nameAt_of_get? hr.name]
  have hfunction : ∀ (r : FunctionRow) (s : FunctionSite), r.Records c.names s →
      ((Text.isEncodable (c.nameAt r.name) = true ∧
          r.returns.all (Text.isEncodable <| c.nameAt ·) = true) ↔
        Text.isEncodable s.head.name = true ∧
          ((hintText? s.head.returns).toOption.join.all Text.isEncodable) = true) := by
    intro r s hr
    obtain ⟨t, ht, hreturns⟩ := hr.returns
    rw [nameAt_of_get? hr.name, ht]
    rcases hi : r.returns with _ | i <;> rw [hi] at hreturns
    · obtain rfl := Option.some.inj hreturns
      simp [Except.toOption]
    · obtain ⟨t', hget, rfl⟩ := Option.map_eq_some_iff.mp hreturns
      simp [Except.toOption, nameAt_of_get? hget]
  rw [← forall_mem_iff_of_forall₂ hc.records.classes hclass,
    ← forall_mem_iff_of_forall₂ hc.records.functions hfunction]
  simp only [isDigestible, and_eq_true, all_eq_true]

lemma RecordsAll.isDigestible (hc : c.RecordsAll sources) (h : isRecordable docs sources = true) :
    c.isDigestible = true := by
  simp only [isRecordable, and_eq_true, all_eq_true] at h
  exact hc.isDigestible_iff.mpr ⟨h.1.2, h.2⟩

/-! ### The catalog of a project -/

section Project

open Files

variable {t : Tree} {root : Path}

/-- The module in a file, if the file can be read and is grammatical. -/
def module? (t : Tree) (file : Path) : Option Module :=
  match t.read file with
  | .error _ => none
  | .ok (bytes, _) => parseModule? (Text.decodeAny bytes).2

/-- The path of a file as it is written in a catalog. -/
def relativeText (root file : Path) : String := ((file.relativeTo? root).getD file).text

def modulesIn (t : Tree) (root : Path) (files : List Path) : List (String × Module) :=
  files.filterMap fun file => (module? t file).map (relativeText root file, ·)

/-- The modules of a project, in the order of its files. -/
def projectModules (t : Tree) (root : Path) : List (String × Module) :=
  modulesIn t root (t.prunedSources skippedDirs root)

/-- Whether all modules of a project can be recorded. -/
def Plan.isRecordable (p : Plan) (t : Tree) : Bool :=
  Catalog.isRecordable p.options.docstrings (projectModules t p.root)

lemma exists_read_of_module? (h : module? t file = some m) :
    ∃ bytes time, t.read file = .ok (bytes, time) ∧
      parseModule? (Text.decodeAny bytes).2 = some m := by
  unfold module? at h
  rcases hread : t.read file with e | ⟨bytes, time⟩
  · simp [hread] at h
  · exact ⟨bytes, time, rfl, by simpa [hread] using h⟩

lemma yields_readModule? (t : Tree) (file : Path) :
    Action.Yields (readModule? file) t (.ok (module? t file)) := by
  unfold readModule? module?
  rcases hread : t.read file with ⟨f, q⟩ | ⟨bytes, time⟩
  · exact (yields_readBytes_error hread).attempt.bind
      ((yields_print _).bind (yields_pure none))
  · refine (yields_readBytes hread).attempt.bind ?_
    rcases hparse : parseModule? (Text.decodeAny bytes).2 with _ | m
    · simp only [hparse]
      exact (yields_print _).bind (yields_pure none)
    · simp only [hparse]
      exact yields_pure (some m)

lemma relativeText_below (place : Place) :
    relativeText root (below root place) = (⟨"", place⟩ : Path).text := by
  rw [relativeText, relativeTo?_below, Option.getD_some]

lemma relativeText_inj {file' : Path}
    (h : ∃ place, file = below root place ∧ ∀ w ∈ place, Path.IsName w)
    (h' : ∃ place, file' = below root place ∧ ∀ w ∈ place, Path.IsName w)
    (heq : relativeText root file = relativeText root file') : file = file' := by
  obtain ⟨place, rfl, hp⟩ := h
  obtain ⟨place', rfl, hp'⟩ := h'
  rw [← child_text_below hp, ← child_text_below hp', ← relativeText_below,
    ← relativeText_below, heq]

lemma child_of_mem_projectModules (ht : t.WellFormed) (h : (path, m) ∈ projectModules t root) :
    root.child path ∈ t.prunedSources skippedDirs root ∧ module? t (root.child path) = some m := by
  obtain ⟨file, hfile, heq⟩ := mem_filterMap.mp h
  obtain ⟨m', hm, heq⟩ := Option.map_eq_some_iff.mp heq
  obtain ⟨rfl, rfl⟩ := Prod.mk.inj heq
  obtain ⟨place, rfl, hplace⟩ := Tree.exists_place_of_mem_prunedSources ht hfile
  rw [relativeText_below, child_text_below hplace]
  exact ⟨hfile, hm⟩

variable (p : Plan)

lemma yields_addSource (c : Catalog) {place : Place} (h : module? t (below p.root place) = some m)
    {k : ModuleSketch} (hk : moduleSketch p.options.docstrings m = .ok k) :
    ∃ hash, Action.Yields (addSource p c (below p.root place) m) t
      (.ok (c.addModule (moduleName ⟨"", place⟩) (⟨"", place⟩ : Path).text hash k)) := by
  obtain ⟨bytes, time, hread, -⟩ := exists_read_of_module? h
  refine ⟨fileHash p.options.hashLength bytes, ?_⟩
  unfold addSource
  rw [relativeTo?_below, hk]
  exact (yields_readBytes hread).bind (yields_pure _)

lemma exists_addSources (total : Nat) {files : List Path} (i : Nat) (c : Catalog)
    (hplaces : ∀ file ∈ files, ∃ place, file = below p.root place)
    (hsketches : ∀ file ∈ files, ∀ m, module? t file = some m →
      ∃ k, moduleSketch p.options.docstrings m = .ok k) :
    ∃ c' : Catalog, Action.Yields (addSources p total i c files) t (.ok c') := by
  induction files generalizing i c with
  | nil => exact ⟨c, yields_pure c⟩
  | cons file files ih =>
    obtain ⟨⟨place, rfl⟩, hrest⟩ := forall_mem_cons.mp hplaces
    obtain ⟨hsketch, hmore⟩ := forall_mem_cons.mp hsketches
    rcases hmodule : module? t (below p.root place) with _ | m
    · obtain ⟨c', hyields⟩ := ih (i + 1) c hrest hmore
      refine ⟨c', (yields_print _).bind ((yields_readModule? t _).bind ?_)⟩
      rw [hmodule]
      exact hyields
    · obtain ⟨k, hk⟩ := hsketch m hmodule
      obtain ⟨hash, hadd⟩ := yields_addSource p c hmodule hk
      obtain ⟨c', hyields⟩ := ih (i + 1) _ hrest hmore
      refine ⟨c', (yields_print _).bind ((yields_readModule? t _).bind ?_)⟩
      rw [hmodule]
      exact hadd.bind hyields

lemma yields_sources : Action.Yields (Catalog.sources root) t
    (.ok (t.prunedSources skippedDirs root)) :=
  yields_tree.bind (yields_pure _)

/-- A catalog before any file is recorded, with the number of the name of the digests. -/
def opening : Catalog × Nat := (({} : Catalog).addNames standardNames).1.addName "sha256"

lemma yields_generate {p : Plan} {c : Catalog}
    (h : Action.Yields (addSources p (t.prunedSources skippedDirs p.root).length 0 opening.1
      (t.prunedSources skippedDirs p.root)) t (.ok c)) (hc : c.isDigestible = true)
    (hnames : p.options.compress = true → Text.isEncodable (namesText c.names.items) = true) :
    Action.Yields (generate p {}) t (.ok (c.complete p opening.2)) := by
  have hdigests : Action.Yields (Action.ofEncoding (c.addObjectHashes p.options.hashLength)) t
      (.ok (c.withObjectHashes p.options.hashLength)) := by
    rw [addObjectHashes_eq_ok_iff.mpr ⟨hc, rfl⟩]
    exact yields_pure _
  refine (yields_print _).bind (yields_sources.bind
    ((yields_print _).bind (h.bind ((yields_print _).bind (hdigests.bind ?_)))))
  by_cases hcompress : p.options.compress
  · have hencode : Action.Yields (Action.encode (namesText c.names.items)) t (.ok ()) := by
      rw [Action.encode, Text.encodeFault?_eq_none_iff.mpr (hnames hcompress)]
      exact yields_pure _
    simp only [hcompress, if_true]
    exact (yields_print _).bind (hencode.bind (yields_pure _))
  · simp only [hcompress]
    exact yields_pure _

/-! ### What holds of every catalog that is made -/

section Invariant

variable {p : Plan} {P : List (String × Module) → Catalog → Prop}
  (hstep : ∀ {sources c} (name hash : String) (x : String × Module) (k : ModuleSketch),
    moduleSketch p.options.docstrings x.2 = .ok k → P sources c →
      P (sources ++ [x]) (c.addModule name x.1 hash k).1)
  {c c' : Catalog} {s s' : Session} {sources : List (String × Module)}

include hstep

lemma invariant_addSource {number : Nat} (hc : P sources c)
    (h : addSource p c file m s = (.ok (c', number), s')) :
    P (sources ++ [(relativeText p.root file, m)]) c' ∧ s'.tree = s.tree := by
  rcases hplace : file.relativeTo? p.root with _ | place
  · simp only [addSource, hplace] at h
    cases h
  · simp only [addSource, hplace] at h
    obtain ⟨bytes, s1, hread, hadd⟩ := exists_of_bind_ok h
    rcases hk : moduleSketch p.options.docstrings m with fault | k <;> rw [hk] at hadd
    · cases hadd
    cases hadd
    have htext : relativeText p.root file = place.text :=
      by rw [relativeText, hplace, Option.getD_some]
    rw [htext]
    refine ⟨hstep _ _ (place.text, m) k hk hc, ?_⟩
    rcases hbytes : s.tree.read file with ⟨f, q⟩ | ⟨bytes', time⟩
    · exact ((yields_readBytes_error hbytes).of_run hread).2
    · exact ((yields_readBytes hbytes).of_run hread).2

lemma invariant_addSources {total : Nat} {files : List Path} (hc : P sources c)
    (h : addSources p total i c files s = (.ok c', s')) :
    P (sources ++ modulesIn s.tree p.root files) c' := by
  induction files generalizing c sources i s with
  | nil =>
    cases h
    simpa [modulesIn] using hc
  | cons file files ih =>
    rw [addSources] at h
    obtain ⟨⟨⟩, s1, hprint, h⟩ := exists_of_bind_ok h
    obtain ⟨m?, s2, hread, h⟩ := exists_of_bind_ok h
    have htree1 := ((yields_print _).of_run hprint).2
    obtain ⟨hm, htree2⟩ := (yields_readModule? s1.tree file).of_run hread
    rw [htree1, Except.ok.injEq] at hm
    rw [htree1] at htree2
    cases m? with
    | none =>
      have hrest := ih hc h
      rw [htree2] at hrest
      simpa [modulesIn, ← hm] using hrest
    | some m =>
      obtain ⟨⟨c1, number⟩, s3, hadd, h⟩ := exists_of_bind_ok h
      obtain ⟨hc1, htree3⟩ := invariant_addSource hstep hc hadd
      have hrest := ih hc1 h
      rw [htree3, htree2] at hrest
      simpa [modulesIn, ← hm, append_assoc] using hrest

/-- A catalog that is made gets its digests at the end; before that, what one module keeps holds of
it. -/
lemma exists_of_generate (hc : P [] ((c.addNames standardNames).1.addName "sha256").1)
    (h : generate p c s = (.ok c', s')) :
    ∃ (c0 : Catalog) (algorithm : Nat), P (projectModules s.tree p.root) c0 ∧
      c0.isDigestible = true ∧ c' = c0.complete p algorithm := by
  rcases hnames : c.addNames standardNames with ⟨c1, is⟩
  rcases hsha : c1.addName "sha256" with ⟨c2, algorithm⟩
  simp only [hnames, hsha] at hc
  simp only [generate, hnames, hsha] at h
  obtain ⟨⟨⟩, s1, hprint, h1⟩ := exists_of_bind_ok h
  obtain ⟨files, s2, hfiles, h2⟩ := exists_of_bind_ok h1
  obtain ⟨⟨⟩, s3, hprint', h3⟩ := exists_of_bind_ok h2
  obtain ⟨c0, s4, hadd, h4⟩ := exists_of_bind_ok h3
  obtain ⟨⟨⟩, s5, -, h5⟩ := exists_of_bind_ok h4
  obtain ⟨c1, s6, hhashes, h6⟩ := exists_of_bind_ok h5
  obtain ⟨hdigestible, rfl⟩ := addObjectHashes_eq_ok_iff.mp (ok_of_ofEncoding hhashes)
  have htree1 := ((yields_print _).of_run hprint).2
  obtain ⟨heq, htree2⟩ := yields_sources.of_run hfiles
  have htree3 := ((yields_print _).of_run hprint').2
  obtain rfl := Except.ok.inj heq
  have hall := invariant_addSources hstep hc hadd
  rw [htree3, htree2, htree1, nil_append] at hall
  refine ⟨c0, algorithm, hall, hdigestible, ?_⟩
  by_cases hcompress : p.options.compress
  · rw [if_pos hcompress] at h6
    obtain ⟨⟨⟩, s7, -, h7⟩ := exists_of_bind_ok h6
    obtain ⟨⟨⟩, s8, -, h8⟩ := exists_of_bind_ok h7
    exact (Except.ok.inj (Prod.mk.inj h8).1).symm
  · rw [if_neg hcompress] at h6
    exact (Except.ok.inj (Prod.mk.inj h6).1).symm

end Invariant

lemma keeps_opening : Keeps {} opening.1 :=
  ((renames_addNames _ _).trans (renames_addName _ _)).keeps

/-- The rows of the catalog of a project are made of the sites in its modules. -/
lemma RecordsAll.of_generate {p : Plan} {s s' : Session} (h : generate p {} s = (.ok c, s')) :
    c.RecordsAll (projectModules s.tree p.root) := by
  obtain ⟨c0, algorithm, hrecords, -, rfl⟩ :=
    exists_of_generate (P := fun sources c => c.RecordsAll sources)
    (fun name hash x k hk hc => hc.addModule name x.1 hash hk)
      (keeps_opening.recordsAll ⟨rfl, .nil, .nil⟩) h
  exact (keeps_complete c0 p algorithm).recordsAll hrecords

lemma nodup_projectModules (ht : t.WellFormed) : ((projectModules t root).map Prod.fst).Nodup := by
  rw [projectModules, modulesIn, Nodup, pairwise_map, pairwise_filterMap]
  refine (Tree.nodup_prunedSources ht root).imp_of_mem fun hf hg hne x hx y hy heq => hne ?_
  obtain ⟨m, -, rfl⟩ := Option.map_eq_some_iff.mp hx
  obtain ⟨m', -, rfl⟩ := Option.map_eq_some_iff.mp hy
  exact relativeText_inj (Tree.exists_place_of_mem_prunedSources ht hf)
    (Tree.exists_place_of_mem_prunedSources ht hg) heq

section Success

variable (ht : t.WellFormed) (h : p.isRecordable t = true)

include ht h

lemma exists_recorded : ∃ c : Catalog,
    Action.Yields (addSources p (t.prunedSources skippedDirs p.root).length 0 opening.1
      (t.prunedSources skippedDirs p.root)) t (.ok c) ∧ c.isDigestible = true ∧
      c.Holds (projectModules t p.root) := by
  obtain ⟨c, hyields⟩ :=
    exists_addSources (t := t) p (t.prunedSources skippedDirs p.root).length 0 opening.1
    (fun file hfile => (Tree.exists_place_of_mem_prunedSources ht hfile).imp fun _ h => h.1)
    fun file hfile m hm => exists_moduleSketch h (mem_filterMap.mpr
      ⟨file, hfile, Option.map_eq_some_iff.mpr ⟨m, hm, rfl⟩⟩ : (relativeText p.root file, m) ∈ _)
  obtain ⟨s, hrun, -⟩ := hyields { tree := t } rfl
  have hopening : opening.1.RecordsAll [] ∧ (([] : List String).Nodup → opening.1.Holds []) :=
    ⟨keeps_opening.recordsAll ⟨rfl, .nil, .nil⟩,
      fun _ => keeps_opening.holds ⟨rfl, rfl, rfl, rfl, .nil, .nil⟩⟩
  have hall := invariant_addSources (P := fun sources c => c.RecordsAll sources ∧
    ((sources.map Prod.fst).Nodup → c.Holds sources)) ?_ hopening hrun
  · exact ⟨c, hyields, hall.1.isDigestible h, hall.2 (nodup_projectModules ht)⟩
  · intro sources c name hash x k hk hc
    refine ⟨hc.1.addModule name x.1 hash hk, fun hnodup => ?_⟩
    rw [map_append, map_singleton, ← concat_eq_append, nodup_concat] at hnodup
    exact (hc.2 hnodup.2).addModule hc.1 hnodup.1 name hash hk

/-- A catalog is made of a project whose modules can be recorded. -/
lemma exists_generate (hplain : p.options.compress = false) :
    ∃ c : Catalog, Action.Yields (generate p {}) t (.ok c) ∧ c.Holds (projectModules t p.root) := by
  obtain ⟨c, hyields, hdigestible, hholds⟩ := exists_recorded p ht h
  exact ⟨c.complete p opening.2, yields_generate hyields hdigestible fun hc =>
    by simp [hplain] at hc, (keeps_complete c p _).holds hholds⟩

end Success

/-- What is made a catalog of can be recorded. -/
lemma isRecordable_of_generate {s s' : Session} (h : generate p {} s = (.ok c, s')) :
    p.isRecordable s.tree = true := by
  obtain ⟨c0, -, ⟨hrecords, hsketches⟩, hdigestible, -⟩ := exists_of_generate (P := fun sources c =>
      c.RecordsAll sources ∧ ∀ x ∈ sources, (moduleSketch p.options.docstrings x.2).isOk = true)
    (fun name hash x k hk hc => ⟨hc.1.addModule name x.1 hash hk,
      forall_mem_append.mpr ⟨hc.2, forall_mem_singleton.mpr (by rw [hk]; rfl)⟩⟩)
    ⟨keeps_opening.recordsAll ⟨rfl, .nil, .nil⟩, forall_mem_nil _⟩ h
  obtain ⟨hclasses, hfunctions⟩ := hrecords.isDigestible_iff.mp hdigestible
  simp only [Plan.isRecordable, isRecordable, and_eq_true, all_eq_true]
  exact ⟨⟨hsketches, hclasses⟩, hfunctions⟩

/-- The catalog of a project, with its names in a table, is made exactly if its modules can be
recorded. -/
lemma exists_generate_iff {s : Session} (ht : s.tree.WellFormed)
    (hplain : p.options.compress = false) :
    (∃ c s', generate p {} s = (.ok c, s')) ↔ p.isRecordable s.tree = true := by
  constructor
  · rintro ⟨c, s', h⟩
    exact isRecordable_of_generate p h
  · intro h
    obtain ⟨c, hyields, -⟩ := exists_generate p ht h hplain
    obtain ⟨s', hrun, -⟩ := hyields s rfl
    exact ⟨c, s', hrun⟩

/-! ### A project of one file -/

def twinRoot : Path := ⟨"/", ["p"]⟩

/-- A project whose only file has a text. -/
def loneTree (text : String) : Tree :=
  ⟨.dir [("p", .dir [("a.py", .file (Text.utf8Bytes text) 0)])], []⟩

section Lone

variable (bytes : List UInt8) (text : String)

lemma prunedSources_lone :
    (⟨.dir [("p", .dir [("a.py", .file bytes 0)])], []⟩ : Tree).prunedSources skippedDirs twinRoot =
      [⟨"/", ["p", "a.py"]⟩] := by
  let t : Tree := ⟨.dir [("p", .dir [("a.py", .file bytes 0)])], []⟩
  have hfind : t.find twinRoot = .ok (.entry ["p"] (.dir [("a.py", .file bytes 0)])) := rfl
  have hbelow : (t.prunedBelow skippedDirs ["p"] [("a.py", .file bytes 0)]).map (below twinRoot) =
      [⟨"/", ["p", "a.py"]⟩] := by
    have hname : isSourceName "a.py" = true := by decide +kernel
    simp [Tree.prunedBelow, Tree.prunedIn, Tree.leadsToDir, hname, below, twinRoot]
  show t.prunedSources skippedDirs twinRoot = _
  simp only [Tree.prunedSources, hfind, hbelow]
  exact mergeSort_of_pairwise (by simp)

lemma wellFormed_lone : (⟨.dir [("p", .dir [("a.py", .file bytes 0)])], []⟩ : Tree).WellFormed := by
  simp [Tree.WellFormed, Entry.WellFormed, wellFormedBelow, Path.IsName]

lemma prunedSources_loneTree :
    (loneTree text).prunedSources skippedDirs twinRoot = [⟨"/", ["p", "a.py"]⟩] :=
  prunedSources_lone _

lemma wellFormed_loneTree : (loneTree text).WellFormed := wellFormed_lone _

lemma isRecordable_loneTree (hroot : p.root = twinRoot)
    (h : Catalog.isRecordable p.options.docstrings
    (modulesIn (loneTree text) twinRoot [⟨"/", ["p", "a.py"]⟩]) = true) :
    p.isRecordable (loneTree text) = true := by
  rw [Plan.isRecordable, projectModules, hroot, prunedSources_loneTree]
  exact h

lemma utf8_loneTree : ∀ file ∈ (loneTree text).prunedSources skippedDirs twinRoot, ∀ bytes time,
    (loneTree text).read file = .ok (bytes, time) → ∃ cs, Text.utf8 bytes = .ok cs := by
  intro file hfile bytes time hread
  rw [prunedSources_loneTree, mem_singleton] at hfile
  subst hfile
  have hbytes : bytes = Text.utf8Bytes text := (congrArg Prod.fst (Except.ok.inj hread)).symm
  exact ⟨text.toList, by rw [hbytes, Text.utf8_utf8Bytes]⟩

/-- The catalog of a project of one file, all but its digests. -/
lemma yields_generate_lone (hroot : p.root = twinRoot) {m : Module}
    (hm : parseModule? (Text.decodeAny bytes).2 = some m) {k : ModuleSketch}
    (hk : moduleSketch p.options.docstrings m = .ok k) {c : Catalog}
    (hc : (opening.1.addModule "a" "a.py" (fileHash p.options.hashLength bytes) k).1 = c)
    (hdigestible : c.isDigestible = true) (hplain : p.options.compress = false) :
    Action.Yields (generate p {}) (⟨.dir [("p", .dir [("a.py", .file bytes 0)])], []⟩ : Tree)
      (.ok (c.complete p opening.2)) := by
  refine yields_generate ?_ hdigestible fun h => by simp [hplain] at h
  rw [hroot, prunedSources_lone]
  let t : Tree := ⟨.dir [("p", .dir [("a.py", .file bytes 0)])], []⟩
  have hmodule : module? t ⟨"/", ["p", "a.py"]⟩ = some m := hm
  have hadd : Action.Yields (addSource p opening.1 ⟨"/", ["p", "a.py"]⟩ m) t
      (.ok (opening.1.addModule "a" "a.py" (fileHash p.options.hashLength bytes) k)) := by
    unfold addSource
    rw [hroot, show (⟨"/", ["p", "a.py"]⟩ : Path).relativeTo? twinRoot =
      some ⟨"", ["a.py"]⟩ from rfl, hk]
    exact (yields_readBytes rfl).bind (yields_pure _)
  refine (yields_print _).bind ((yields_readModule? t _).bind ?_)
  rw [hmodule]
  exact hadd.bind (hc ▸ yields_pure _)

end Lone

end Project

end CodeAtlas.Catalog
