import CodeAtlas.Proofs.Locate.Fidelity
import CodeAtlas.Proofs.Locate.Outside

/-!
# Locating by a catalog with compressed names

A document whose names are compressed has one text in the place of their table, and rows are looked
up in it all the same. Two runs are set side by side, one by each form of the document
(`compressed_alike_iff`).
-/

namespace CodeAtlas

open List

variable {c : Catalog} {t : Files.Tree} {i : Nat} {head : FunctionHead} {p : Catalog.Plan}

lemma Value.exists_of_part_str {s : String} {n : Nat} {v : Value}
    (h : (Value.str s).part (.int n) = .ok v) :
    ∃ ch, s.toList[n]? = some ch ∧ v = .str ch.toString := by
  rcases hch : s.toList[n]? with _ | ch
  · simp [part, asInt?, atIndex?, hch] at h
  · simp only [part, asInt?, atIndex?, Int.natCast_nonneg, if_true, Int.toNat_natCast, hch,
      Except.ok.injEq] at h
    exact ⟨ch, rfl, h.symm⟩

/-- No class goes by a character that a class is read as in a text, nor a function outside classes
by one that such a function is read as. -/
structure Catalog.Unread (c : Catalog) (text : String) : Prop where
  classes : ∀ r ∈ c.classes, ∀ r' ∈ c.classes, ∀ ch, text.toList[r.name]? = some ch →
    ch.toString ≠ c.nameAt r'.name
  functions : ∀ r ∈ c.functions, r.parent = none → ∀ r' ∈ c.functions, r'.parent = none →
    ∀ ch, text.toList[r.name]? = some ch → ch.toString ≠ c.nameAt r'.name

lemma Catalog.unread_of_length (hclasses : ∀ r ∈ c.classes, (c.nameAt r.name).length ≠ 1)
    (hfunctions : ∀ r ∈ c.functions, (c.nameAt r.name).length ≠ 1) (text : String) :
    c.Unread text := by
  have hlength : ∀ (ch : Char) (name : String), name.length ≠ 1 → ch.toString ≠ name := by
    rintro ch name hname rfl
    exact hname (by simp)
  exact ⟨fun _ _ r' hr' ch _ => hlength ch _ (hclasses r' hr'),
    fun _ _ _ r' hr' _ ch _ => hlength ch _ (hfunctions r' hr')⟩

namespace Locate

open Syntax Catalog Step

/-! ### Names as one text -/

/-- A file is placed by the document of a catalog with a text in the place of the names. -/
structure Context.InText (x : Context) (c : Catalog) (text : String) : Prop where
  names : x.catalog.field "names" = .ok (.str text)
  classes : x.catalog.field "classes" = .ok (.list (c.classes.map (·.toValue)))
  functions : x.catalog.field "functions" = .ok (.list (c.functions.map (·.toValue)))

/-- Nothing is placed where no row is found to be its own, even if the search breaks off. -/
lemma placeFirst_of_miss {isOwn : Value → Placing Bool} {placed : Locations → List DefinitionRow}
    {place : Nat → Placing Unit} {rows : List (Value × Nat)} {l : Locations}
    (h : ∀ y ∈ rows, isOwn y.1 l = (.ok false, l) ∨ ∃ e, isOwn y.1 l = (.error e, l)) :
    (placeFirst isOwn placed place rows l).2 = l := by
  induction rows with
  | nil => rfl
  | cons y rows ih =>
    rcases h y mem_cons_self with hown | ⟨e, hown⟩
    · rw [placeFirst, bind_ok hown, if_neg Bool.false_ne_true]
      exact ih fun z hz => h z (mem_cons_of_mem _ hz)
    · rw [placeFirst, bind_error hown]

namespace Context.InText

variable {x : Context} {c : Catalog} {text : String} (hx : x.InText c text) (l : Locations)

include hx

/-- The name with a number that stands in a row is read as one character, or not at all. -/
lemma nameAt {row : Value} {position : Nat} (hrow : row.item position = .ok (.nat i)) :
    (∃ ch, text.toList[i]? = some ch ∧ x.nameAt row position l = (.ok (.str ch.toString), l)) ∨
      ∃ e, x.nameAt row position l = (.error e, l) := by
  have hread : x.nameAt row position l = read ((Value.str text).part (.nat i)) l := by
    unfold Context.nameAt
    rw [hrow, hx.names]
    rfl
  rcases hpart : (Value.str text).part (.nat i) with e | name <;> rw [hpart] at hread
  · exact .inr ⟨e, hread⟩
  · obtain ⟨ch, hch, rfl⟩ := Value.exists_of_part_str hpart
    exact .inl ⟨ch, hch, hread⟩

lemma isClass {r : ClassRow} {name : String}
    (hmiss : ∀ ch, text.toList[r.name]? = some ch → ch.toString ≠ name) :
    x.isClass r.toValue name l = (.ok false, l) ∨
      ∃ e, x.isClass r.toValue name l = (.error e, l) := by
  have hitem : r.toValue.item 1 = .ok (.nat r.name) := rfl
  unfold Context.isClass
  rcases hx.nameAt l hitem with ⟨ch, hch, hname⟩ | ⟨e, hname⟩
  · rw [bind_ok hname, Value.same_str, decide_eq_false (hmiss ch hch)]
    exact .inl rfl
  · exact .inr ⟨e, bind_error hname _⟩

lemma isFunction {r : FunctionRow} {name : String}
    (hmiss : r.parent = none → ∀ ch, text.toList[r.name]? = some ch → ch.toString ≠ name) :
    x.isFunction r.toValue (.int (-1)) name l = (.ok false, l) ∨
      ∃ e, x.isFunction r.toValue (.int (-1)) name l = (.error e, l) := by
  have hparent : r.toValue.item 1 = .ok (number? r.parent) := rfl
  have hitem : r.toValue.item 2 = .ok (.nat r.name) := rfl
  unfold Context.isFunction
  rw [hparent, bind_ok (read_ok l _)]
  rcases hx.nameAt l hitem with ⟨ch, hch, hname⟩ | ⟨e, hname⟩
  · have hne : ¬ (r.parent = none ∧ ch.toString = name) := fun h => hmiss h.1 ch hch h.2
    rw [bind_ok hname, same_number?_missing, Value.same_str, ← Bool.decide_and, decide_eq_false hne]
    exact .inl rfl
  · exact .inr ⟨e, bind_error hname _⟩

omit l in
/-- Of definitions whose names are no such characters, none is placed. -/
lemma keeps_placeDefinitions {body : List Stmt}
    (hclass : ∀ span head inner, .classDef span head inner ∈ body →
      ∀ r ∈ c.classes, ∀ ch, text.toList[r.name]? = some ch → ch.toString ≠ head.name)
    (hfunction : ∀ span head inner, .function span head inner ∈ body →
      ∀ r ∈ c.functions, r.parent = none → ∀ ch, text.toList[r.name]? = some ch →
        ch.toString ≠ head.name) : Keeps id (x.placeDefinitions body) := by
  induction body with
  | nil => exact keeps_pure ()
  | cons s body ih =>
    have hrest : Keeps id (x.placeDefinitions body) :=
      ih (fun span head inner h => hclass span head inner (mem_cons_of_mem _ h))
        (fun span head inner h => hfunction span head inner (mem_cons_of_mem _ h))
    cases s with
    | classDef span head inner =>
      intro l
      rw [Context.placeDefinitions, bind_ok (rows_eq l hx.classes), view_bind fun _ => hrest]
      refine placeFirst_of_miss fun y hy => ?_
      obtain ⟨z, hz, rfl⟩ := mem_map.mp hy
      exact hx.isClass l (hclass span head inner mem_cons_self _
        ((mem_zipIdx' hz).2 ▸ getElem_mem _))
    | function span head inner =>
      intro l
      rw [Context.placeDefinitions, bind_ok (rows_eq l hx.functions), view_bind fun _ => hrest]
      refine placeFirst_of_miss fun y hy => ?_
      obtain ⟨z, hz, rfl⟩ := mem_map.mp hy
      exact hx.isFunction l
        (hfunction span head inner mem_cons_self _ ((mem_zipIdx' hz).2 ▸ getElem_mem _))
    | _ => exact hrest

end Context.InText

/-! ### Two runs side by side -/

/-- Two runs come to the same: both fail, or both come to their end and agree on definitions and all
else. -/
def Alike (o o' : Except Failure Unit × Locations) : Prop :=
  (o'.1 = .ok () ↔ o.1 = .ok ()) ∧
    (o.1 = .ok () → o'.2.outside = o.2.outside ∧ o'.2.definitions = o.2.definitions)

/-- The catalog of a project in two documents, with the table of names and with a text in its place,
and what is read of the files. -/
structure Forms (t : Files.Tree) (root : Path) (c : Catalog) (text : String) (v v' : Value)
    (fs : List Reading) : Prop where
  holds : c.Holds (projectModules t root)
  readings : fs.map Reading.source = projectModules t root
  isAt : ∀ f ∈ fs, f.IsAt t root
  files : v.field "files" = .ok (Value.strings (fs.map (·.path)))
  files_eq : v'.field "files" = v.field "files"
  modules_eq : v'.field "modules" = v.field "modules"
  on : ∀ file lines, Context.On ⟨v, file, lines⟩ c
  inText : ∀ file lines, Context.InText ⟨v', file, lines⟩ c text

namespace Forms

variable {t : Files.Tree} {root : Path} {c : Catalog} {text : String} {v v' : Value}
  {fs : List Reading} (h : Forms t root c text v v' fs) {f : Reading} {span : Span}
  {inner : List Stmt}

include h

lemma exists_statement {s : Stmt} (hf : f ∈ fs) (hs : s ∈ f.module.body) :
    ∃ i, (i, s) ∈ statements (projectModules t root) := by
  have hmem : (f.path, f.module) ∈ projectModules t root := h.readings ▸ mem_map_of_mem hf
  obtain ⟨i, hi⟩ := getElem?_of_mem hmem
  exact ⟨i, mem_flatMap.mpr ⟨((f.path, f.module), i), mk_mem_zipIdx_iff_getElem?.mpr hi,
    mem_map_of_mem hs⟩⟩

lemma exists_class {head : ClassHead} (hf : f ∈ fs)
    (hs : .classDef span head inner ∈ f.module.body) :
    ∃ r ∈ c.classes, c.nameAt r.name = head.name := by
  obtain ⟨i, hi⟩ := h.exists_statement hf hs
  obtain ⟨before, after, hsplit⟩ := append_of_mem hi
  obtain ⟨r, hr, -, hname⟩ := (hsplit ▸ h.holds.reads.lists).exists_class
  exact ⟨r, mem_of_getElem? hr, hname⟩

lemma exists_function (hf : f ∈ fs) (hs : .function span head inner ∈ f.module.body) :
    ∃ r ∈ c.functions, r.parent = none ∧ c.nameAt r.name = head.name := by
  obtain ⟨i, hi⟩ := h.exists_statement hf hs
  obtain ⟨before, after, hsplit⟩ := append_of_mem hi
  obtain ⟨r, hr, -, hparent, hname⟩ := (hsplit ▸ h.holds.reads.lists).exists_function
  exact ⟨r, mem_of_getElem? hr, hparent, hname⟩

lemma definitions_visit (hunread : c.Unread text) (hf : f ∈ fs) (i : Nat) (l : Locations) :
    (visit v' i f l).2.definitions = l.definitions := by
  have hkeeps : Keeps id (Context.placeDefinitions ⟨v', i, f.lines⟩ f.module.body) := by
    refine (h.inText i f.lines).keeps_placeDefinitions (fun span head inner hs r hr => ?_)
      (fun span head inner hs r hr hparent => ?_)
    · obtain ⟨r', hr', hname⟩ := h.exists_class hf hs
      exact hname ▸ hunread.classes r hr r' hr'
    · obtain ⟨r', hr', hparent', hname⟩ := h.exists_function hf hs
      exact hname ▸ hunread.functions r hr hparent r' hr' hparent'
  rcases hutf8 : Text.utf8 f.bytes with e | cs
  · rw [visit_of_error hutf8]
  · rw [visit_of_utf8 hutf8, placeAll_eq,
      view_bind fun _ d => congrArg Locations.definitions (hkeeps d)]
    exact keeps_placeFront _

lemma definitions_outcome (hunread : c.Unread text) : (outcome v' fs).2.definitions = ([], []) := by
  have hvisits : (visitAll v' 0 fs {}).2.definitions = ({} : Locations).definitions :=
    view_visitAll fun f hf i l => h.definitions_visit hunread hf i l
  rw [outcome_view Locations.definitions fun _ _ => rfl, hvisits]
  rfl

lemma outcome_eq (hclasses : c.classes = []) (hfunctions : c.functions = []) :
    outcome v' fs = outcome v fs := by
  have hnone : ∀ f ∈ fs, ∀ x : Context, x.placeDefinitions f.module.body = pure () := by
    intro f hf x
    refine placeDefinitions_of_none x (fun span head inner hs => ?_) (fun span head inner hs => ?_)
    · obtain ⟨r, hr, -⟩ := h.exists_class hf hs
      simp [hclasses] at hr
    · obtain ⟨r, hr, -⟩ := h.exists_function hf hs
      simp [hfunctions] at hr
  have hvisits : visitAll v' 0 fs {} = visitAll v 0 fs {} := by
    refine visitAll_congr fun f hf i l => ?_
    unfold visit
    rw [placeAll_eq, placeAll_eq, placeFront_congr h.modules_eq, hnone f hf, hnone f hf]
  unfold outcome
  rw [hvisits]

lemma inUtf8_of_visitAll {catalog : Value} {l : Locations}
    (hok : (visitAll catalog i fs l).1 = .ok ()) : InUtf8 t root :=
  (inUtf8_iff h.readings h.isAt).mpr (utf8_of_visitAll hok)

lemma places_outcome (hutf8 : InUtf8 t root) :
    (outcome v fs).1 = .ok () ∧ Places c (statements (projectModules t root)) (outcome v fs).2 := by
  have hdecodes := (inUtf8_iff h.readings h.isAt).mp hutf8
  obtain ⟨l, houtcome, -, hplaces⟩ :=
    exists_outcome h.on (h.readings ▸ h.holds.reads.lists) hdecodes
  rw [houtcome]
  exact ⟨rfl, h.readings ▸ hplaces⟩

lemma outcome_ok_iff : (outcome v fs).1 = .ok () ↔ InUtf8 t root := by
  refine ⟨fun hok => ?_, fun hutf8 => (h.places_outcome hutf8).1⟩
  rw [outcome_fst] at hok
  exact h.inUtf8_of_visitAll hok

lemma outcome_of_ok (hok : (outcome v' fs).1 = .ok ()) :
    (outcome v fs).1 = .ok () ∧ (outcome v' fs).2.outside = (outcome v fs).2.outside := by
  rw [outcome_fst] at hok
  have hplain : (outcome v fs).1 = .ok () := h.outcome_ok_iff.mpr (h.inUtf8_of_visitAll hok)
  refine ⟨hplain, ?_⟩
  rw [outcome_fst] at hplain
  rw [outcome_view Locations.outside fun _ _ => rfl, outcome_view Locations.outside fun _ _ => rfl]
  exact outside_visitAll h.modules_eq fs rfl hplain hok

lemma none_of_definitions_eq (hok : (outcome v fs).1 = .ok ())
    (hnil : (outcome v fs).2.definitions = ([], [])) : c.classes = [] ∧ c.functions = [] := by
  obtain ⟨-, hplaces⟩ := h.places_outcome (h.outcome_ok_iff.mp hok)
  obtain ⟨hclasses, hfunctions⟩ := Prod.mk.inj hnil
  have hnone : c.classes = [] := by
    rcases hrows : c.classes with _ | ⟨r, rs⟩
    · rfl
    · have hr : c.classes[0]? = some r := by rw [hrows, getElem?_cons_zero]
      have hplaced := (hplaces.class_iff hr).mpr
        ⟨lt_length_classRows h.holds hr, fun j hj => absurd hj (Nat.not_lt_zero j)⟩
      rw [hclasses] at hplaced
      simp at hplaced
  refine ⟨hnone, ?_⟩
  rcases hrows : c.functions with _ | ⟨r, rs⟩
  · rfl
  · have hr : c.functions[0]? = some r := by rw [hrows, getElem?_cons_zero]
    have hlength : 0 < (functionRows 0 (statements (projectModules t root))).length := by
      rw [← h.holds.reads.lists.functions, length_map, hrows]
      exact Nat.succ_pos _
    -- without classes there are no methods
    have hparent : r.parent = none := by
      rcases hparent : r.parent with _ | o
      · rfl
      · obtain ⟨r', hr'⟩ := exists_class_of_parent h.holds hr hparent
        simp [hnone] at hr'
    have hplaced := (hplaces.function_iff hr hparent).mpr
      ⟨hlength, fun j hj => absurd hj (Nat.not_lt_zero j)⟩
    rw [hfunctions] at hplaced
    simp at hplaced

lemma alike_iff (hunread : c.Unread text) : Alike (outcome v fs) (outcome v' fs) ↔
      ((outcome v fs).1 = .ok () → c.classes = [] ∧ c.functions = []) := by
  constructor
  · rintro ⟨-, hsame⟩ hok
    exact h.none_of_definitions_eq hok ((hsame hok).2 ▸ h.definitions_outcome hunread)
  · intro hnone
    by_cases hok : (outcome v fs).1 = .ok ()
    · rw [h.outcome_eq (hnone hok).1 (hnone hok).2]
      exact ⟨Iff.rfl, fun _ => ⟨rfl, rfl⟩⟩
    · exact ⟨⟨fun hok' => (h.outcome_of_ok hok').1, fun hok' => absurd hok' hok⟩,
        fun hok' => absurd hok' hok⟩

end Forms

/-! ### Projects -/

def compressing (p : Catalog.Plan) (compress : Bool) : Catalog.Plan :=
  { p with options := { p.options with compress } }

lemma addSources_compressing (compress : Bool) (total i : Nat) (files : List Path) :
    addSources (compressing p compress) total i c files = addSources p total i c files := by
  induction files generalizing i c with
  | nil => rfl
  | cons file files ih =>
    simp only [addSources, ih]
    rfl

lemma isEncodable_namesText (names : List String) : Text.isEncodable (namesText names) =
    ((Json.writeChars nameStyle 0 (Value.strings names)).toOption.getD []).all
      (!Text.isLone ·) := by
  rw [namesText, Json.write]
  rcases Json.writeChars nameStyle 0 (Value.strings names) with e | cs
  · rfl
  · simp [Text.isEncodable, Except.map, Except.toOption]

/-- The names in the catalog of a project can be encoded as one text. -/
def NamesEncodable (p : Catalog.Plan) (t : Files.Tree) : Prop :=
  ∀ c, Action.Yields (generate (compressing p false) {}) t (.ok c) →
    Text.isEncodable (namesText c.names.items) = true

lemma exists_forms (ht : t.WellFormed) (hrec : p.isRecordable t = true)
    (hencodable : NamesEncodable p t) :
    ∃ c c' fs, Action.Yields (generate (compressing p false) {}) t (.ok c) ∧
      Action.Yields (generate (compressing p true) {}) t (.ok c') ∧
      Forms t p.root c (packNames p.options.compressor c.names.items)
        (c.document p.about (compressing p false).options)
        (c'.document p.about (compressing p true).options) fs := by
  obtain ⟨c0, hyields, hdigestible, hholds⟩ := exists_recorded p ht hrec
  have hgenerate : ∀ compress,
      (compress = true → Text.isEncodable (namesText c0.names.items) = true) →
      Action.Yields (generate (compressing p compress) {}) t
        (.ok (c0.complete (compressing p compress) opening.2)) := by
    intro compress hcompress
    refine yields_generate ?_ hdigestible hcompress
    rw [addSources_compressing]
    exact hyields
  have hmade := hgenerate false fun h => by simp at h
  obtain ⟨fs, hreadings, hat⟩ :=
    exists_readings fun pm hpm => (child_of_mem_projectModules ht hpm).2
  have hc := (keeps_complete c0 (compressing p false) opening.2).holds hholds
  have hpaths : c0.files.items = fs.map (·.path) := by
    rw [hholds.files, ← hreadings, map_map]
    rfl
  have hkeeps := fun compress => keeps_complete c0 (compressing p compress) opening.2
  have hnames : ∀ compress, (c0.complete (compressing p compress) opening.2).names = c0.names :=
    fun _ => rfl
  have hencoded := hencodable _ hmade
  rw [hnames false] at hencoded
  refine ⟨_, _, fs, hmade, hgenerate true fun _ => hencoded, hc, hreadings, hat, ?_, ?_, ?_,
    Context.on_document hc.reads.lists.named p.about rfl, fun file lines => ⟨?_, ?_, ?_⟩⟩
  · rw [field_files, (hkeeps false).files, hpaths]
  · rw [field_files, field_files, (hkeeps true).files, (hkeeps false).files]
  · rw [field_modules, field_modules, (hkeeps true).modules, (hkeeps false).modules]
  · rw [field_names_compressed _ _ rfl, hnames true, hnames false]
    rfl
  · rw [field_classes, (hkeeps true).classes, (hkeeps false).classes]
  · rw [field_functions, (hkeeps true).functions, (hkeeps false).functions]

lemma exists_builds (p : Catalog.Plan) {q : Plan} {s s' : Session}
    (h : Revisits (compressing p false) q s s')
    (hencodable : NamesEncodable p s.tree) : ∃ c c' v v' fs,
      q.Locates (compressing p false) s s' c (outcome v fs) ∧
      q.Locates (compressing p true) s s' c' (outcome v' fs) ∧
      Forms s.tree p.root c (packNames p.options.compressor c.names.items) v v' fs := by
  obtain ⟨c, c', fs, hgenerate, hgenerate', hforms⟩ :=
    exists_forms h.wellFormed h.recordable hencodable
  have hat : ∀ f ∈ fs, f.IsAt s.tree q.root := h.root ▸ hforms.isAt
  obtain ⟨s₁, hrun₁, -⟩ := hgenerate s rfl
  obtain ⟨s₁', hrun₁', -⟩ := hgenerate' s rfl
  obtain ⟨s₂, hrun₂, -⟩ := yields_build
    (q := { q with catalog := c.document p.about (compressing p false).options }) hforms.files hat
      s' h.tree
  obtain ⟨s₂', hrun₂', -⟩ := yields_build
    (q := { q with catalog := c'.document p.about (compressing p true).options })
    (hforms.files_eq.trans hforms.files) hat s' h.tree
  exact ⟨c, c', _, _, fs, ⟨s₁, s₂, hrun₁, hrun₂⟩, ⟨s₁', s₂', hrun₁', hrun₂'⟩, hforms⟩

/-! ### A class that is lost -/

def alphaTree : Files.Tree := loneTree "class Alpha: pass\n"

lemma rows_alphaTree : (classRows (statements (projectModules alphaTree twinRoot))).map Prod.snd =
    ["Alpha"] ∧
      functionRows 0 (statements (projectModules alphaTree twinRoot)) = [] := by
  rw [projectModules, alphaTree, prunedSources_loneTree]
  decide +kernel

lemma wellFormed_alphaTree : alphaTree.WellFormed := wellFormed_loneTree _

lemma isRecordable_alphaTree : twinCatalog.isRecordable alphaTree = true :=
  isRecordable_loneTree _ _ rfl (by decide +kernel)

lemma namesEncodable_alphaTree : NamesEncodable twinCatalog alphaTree := by
  intro c hc
  let k : ModuleSketch := ⟨[], [.class ⟨"Alpha", [], [], [], none⟩], none⟩
  have hsketch : (parseModule? (Text.decodeAny (Text.utf8Bytes "class Alpha: pass\n")).2).bind
      (fun m => (moduleSketch true m).toOption) = some k := by decide +kernel
  obtain ⟨m, hm, hk⟩ := Option.bind_eq_some_iff.mp hsketch
  obtain ⟨s, hrun, -⟩ :=
    yields_generate_lone (compressing twinCatalog false) _ rfl hm (ok_of_toOption hk) rfl
    (by decide +kernel) rfl { tree := alphaTree } rfl
  obtain ⟨heq, -⟩ := hc.of_run hrun
  have hnames : c.names.items = standardNames ++ ["sha256", "a", "Alpha"] := by
    rw [← Except.ok.inj heq]
    rfl
  rw [hnames, isEncodable_namesText]
  decide +kernel

lemma inUtf8_alphaTree : InUtf8 alphaTree twinRoot := inUtf8_loneTree _

lemma unread_alphaTree (hc : c.Holds (projectModules alphaTree twinRoot)) (text : String) :
    c.classes ≠ [] ∧ c.Unread text := by
  have hnames : c.classes.map (c.nameAt ·.name) = ["Alpha"] := by
    have hrows := congrArg (List.map Prod.snd) hc.reads.lists.classes
    rw [map_map] at hrows
    exact hrows.trans rows_alphaTree.1
  have hfunctions : c.functions = [] := by
    have hrows := hc.reads.lists.functions
    rw [rows_alphaTree.2] at hrows
    exact map_eq_nil_iff.mp hrows
  refine ⟨fun hnil => by simp [hnil] at hnames,
    unread_of_length (fun r hr => ?_) (by simp [hfunctions]) text⟩
  have hmem : c.nameAt r.name ∈ c.classes.map (c.nameAt ·.name) := mem_map_of_mem hr
  rw [hnames, mem_singleton] at hmem
  rw [hmem]
  decide

/-! ### The main result -/

/-- Locating by a catalog whose names are compressed, in whatever way, beside locating by the same
catalog with its table of names. The run by the table comes to its end exactly if all modules are in
UTF-8. If the run by the compressed names does, so does the other, and both record the same paths,
files, modules, imports and comments. But unless a definition goes by one character of the
compressed text, that run places no class and no function, so the two come to the same exactly if
there are none (or the files cannot be read). -/
theorem compressed_alike_iff (p : Catalog.Plan) (q : Plan) (s s' : Session)
    (h : Revisits (compressing p false) q s s') (hencodable : NamesEncodable p s.tree) :
    ∃ c c' o o',
      q.Locates (compressing p false) s s' c o ∧ q.Locates (compressing p true) s s' c' o' ∧
      c.Holds (projectModules s.tree p.root) ∧ (o.1 = .ok () ↔ InUtf8 s.tree p.root) ∧
      (o'.1 = .ok () → o.1 = .ok () ∧ o'.2.outside = o.2.outside) ∧
      (c.Unread (packNames p.options.compressor c.names.items) →
        o'.2.definitions = ([], []) ∧
        (Alike o o' ↔ (o.1 = .ok () → c.classes = [] ∧ c.functions = []))) := by
  obtain ⟨c, c', v, v', fs, hruns, hruns', hforms⟩ := exists_builds p h hencodable
  exact ⟨c, c', _, _, hruns, hruns', hforms.holds, hforms.outcome_ok_iff, hforms.outcome_of_ok,
    fun hunread => ⟨hforms.definitions_outcome hunread, hforms.alike_iff hunread⟩⟩

/-- The main result at the project with a class `Alpha`, which is not placed by the compressed
names. -/
theorem compressed_alike_iff_alphaTree :
    alphaTree.WellFormed ∧ InUtf8 alphaTree twinRoot ∧ ∃ c c' o o',
      twinPlan.Locates (compressing twinCatalog false) { tree := alphaTree }
        { tree := alphaTree } c o ∧
      twinPlan.Locates (compressing twinCatalog true) { tree := alphaTree }
        { tree := alphaTree } c' o' ∧
      o.1 = .ok () ∧ c.Unread (packNames Zlib.compress c.names.items) ∧
      o'.2.definitions = ([], []) ∧
      (Alike o o' ↔ (o.1 = .ok () → c.classes = [] ∧ c.functions = [])) := by
  obtain ⟨c, c', o, o', hruns, hruns', hc, hok, -, hplaced⟩ :=
    compressed_alike_iff twinCatalog twinPlan
    { tree := alphaTree } { tree := alphaTree }
    (revisits_twin wellFormed_alphaTree isRecordable_alphaTree) namesEncodable_alphaTree
  have hunread := (unread_alphaTree hc (packNames Zlib.compress c.names.items)).2
  exact ⟨wellFormed_alphaTree, inUtf8_alphaTree, c, c', o, o', hruns, hruns',
    hok.mpr inUtf8_alphaTree, hunread, hplaced hunread⟩

/-- With compressed names, the class `Alpha` is not located as it is without: the two runs differ.
-/
theorem alpha_lost_by_compression : ∃ c c' o o',
      twinPlan.Locates (compressing twinCatalog false) { tree := alphaTree }
        { tree := alphaTree } c o ∧
      twinPlan.Locates (compressing twinCatalog true) { tree := alphaTree }
        { tree := alphaTree } c' o' ∧
      o.1 = .ok () ∧ ¬ Alike o o' := by
  obtain ⟨c, c', v, v', fs, hruns, hruns', hforms⟩ := exists_builds twinCatalog
    (revisits_twin wellFormed_alphaTree isRecordable_alphaTree) namesEncodable_alphaTree
  have hok := hforms.outcome_ok_iff.mpr inUtf8_alphaTree
  obtain ⟨hclasses, hunread⟩ :=
    unread_alphaTree hforms.holds (packNames Zlib.compress c.names.items)
  exact ⟨c, c', _, _, hruns, hruns', hok,
    fun halike => hclasses ((hforms.alike_iff hunread).mp halike hok).1⟩

end Locate

end CodeAtlas
