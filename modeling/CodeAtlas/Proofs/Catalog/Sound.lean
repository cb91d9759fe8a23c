import CodeAtlas.Proofs.Catalog.Records
import Mathlib.Data.List.Range

/-!
# Tables that fit together

Tables refer to each other by numbers that are read off their lengths while rows are still being
added: the methods of a class refer to it before its row is there. So `Catalog.Sound` has a bound on
class numbers, which is one more than the number of classes while a class is being recorded.
-/

namespace CodeAtlas.Catalog

open List Nat Table Keyed

variable {c' c1 c2 : Catalog} {α : Type} {p : α → Bool} {xs : List α} {x : α} {module parent : Nat}

/-! ### References -/

def ClassRow.nameRefs (r : ClassRow) : List Nat := r.name :: r.bases

def FunctionRow.nameRefs (r : FunctionRow) : List Nat :=
  r.name :: (r.decorators ++ r.returns.toList)

def ParameterRow.nameRefs (r : ParameterRow) : List Nat :=
  r.name :: (r.hint.toList ++ r.default.toList)

def AttributeRow.nameRefs (r : AttributeRow) : List Nat :=
  r.name :: (r.hint.toList ++ r.default.toList)

def DocstringRow.nameRefs (r : DocstringRow) : List Nat := [r.text, r.style]

def ImportRow.nameRefs (r : ImportRow) : List Nat := r.target.toList ++ r.names

variable (c : Catalog)

def nameRefs : List Nat :=
  c.modules.map (·.name) ++ c.classes.flatMap (·.nameRefs) ++ c.functions.flatMap (·.nameRefs)
    ++ c.parameters.flatMap (fun e => e.2.flatMap (·.nameRefs)) ++ c.attributes.flatMap (·.nameRefs)
    ++ c.docstrings.flatMap (·.nameRefs) ++ c.imports.flatMap (·.nameRefs)

def owners (kind : Documented) : List Nat := (c.docstrings.filter (·.kind = kind)).map (·.owner)

def fileRefs : List Nat := c.modules.map (·.file) ++ c.fileHashes.keys

def moduleRefs : List Nat :=
  c.classes.map (·.module) ++ c.functions.map (·.module) ++ c.imports.map (·.module) ++
    c.owners .module

def classRefs : List Nat :=
  c.functions.filterMap (·.parent) ++ c.attributes.map (·.parent) ++ c.owners .class

def functionRefs : List Nat :=
  c.classes.flatMap (·.methods) ++ c.parameters.keys ++ c.owners .function

def attributeRefs : List Nat := c.classes.flatMap (·.attributes)

/-- The locations that were given out, by kind. -/
def locations : List Nat :=
  c.modules.map (·.location) ++ c.classes.map (·.location) ++ c.functions.map (·.location)
    ++ c.attributes.map (·.location)

/-- The functions that are methods of the class with a number. -/
def methodsOf (k : Nat) : List Nat := c.functions.findIdxs fun r => r.parent = some k

def attributesOf (k : Nat) : List Nat := c.attributes.findIdxs fun r => r.parent = k

/-- The tables of a catalog fit together; class numbers below `n` may be referred to. -/
structure Sound (n : Nat) : Prop where
  names : c.names.Numbers
  files : c.files.Numbers
  nameRefs_lt : ∀ i ∈ c.nameRefs, i < c.names.size
  fileRefs_lt : ∀ i ∈ c.fileRefs, i < c.files.size
  moduleRefs_lt : ∀ i ∈ c.moduleRefs, i < c.modules.length
  classRefs_lt : ∀ i ∈ c.classRefs, i < n
  functionRefs_lt : ∀ i ∈ c.functionRefs, i < c.functions.length
  attributeRefs_lt : ∀ i ∈ c.attributeRefs, i < c.attributes.length
  methods : ∀ k r, c.classes[k]? = some r → r.methods = c.methodsOf k
  attributes : ∀ k r, c.classes[k]? = some r → r.attributes = c.attributesOf k
  parameterKeys : c.parameters.keys = c.functions.findIdxs fun r => r.parameters ≠ []
  parameterRows : ∀ f rows, (f, rows) ∈ c.parameters →
    ∃ r, c.functions[f]? = some r ∧ rows.map (·.position) = r.parameters
  positions : ∀ r ∈ c.functions, r.parameters = range r.parameters.length
  locations_perm : c.locations.Perm (range' 1 (c.nextLocation - 1))
  started : 0 < c.nextLocation
  hashedFiles : c.fileHashes.keys.Nodup
  undigested : c.objectHashes = [] ∧ c.dataHash = none

variable {c} {n : Nat} {a : AttributeSketch} {as : List AttributeSketch}

/-! ### Names -/

section

variable (c : Catalog)

lemma addName_lt (s : String) : ∀ i ∈ [(c.addName s).2], i < (c.addName s).1.names.size := by
  intro i hi
  rw [mem_singleton.mp hi]
  exact add_lt c.names s

lemma addNames_lt (ss : List String) : ∀ i ∈ (c.addNames ss).2, i < (c.addNames ss).1.names.size :=
  addAll_lt

lemma addName?_lt (s : Option String) :
    ∀ i ∈ (c.addName? s).2.toList, i < (c.addName? s).1.names.size :=
  lt_size_of_getOption? (getOption?_addName? c s)

end

lemma Renames.lt (h : Renames c c') {is : List Nat} (his : ∀ i ∈ is, i < c.names.size) :
    ∀ i ∈ is, i < c'.names.size := fun i hi => lt_of_lt_of_le (his i hi) h.names.size_le

/-- More names do no harm. -/
lemma Sound.renames (hc : c.Sound n) (h : Renames c c') : c'.Sound n := by
  have hnames := numbers_of_nodup (h.names.nodup hc.names.nodup)
  have hrefs := h.lt hc.nameRefs_lt
  rw [h.eq] at hnames hrefs ⊢
  exact { hc with names := hnames, nameRefs_lt := hrefs }

/-! ### Documentation -/

/-- The rows that a reference of a kind counts. -/
def countOf (c : Catalog) : Documented → Nat
  | .module => c.modules.length
  | .class => c.classes.length
  | .function => c.functions.length

lemma owners_append (kind : Documented) (d : DocstringRow) :
    ({ c with docstrings := c.docstrings ++ [d] } : Catalog).owners kind =
      c.owners kind ++ if d.kind = kind then [d.owner] else [] := by
  by_cases h : d.kind = kind <;> simp [owners, filter_append, h]

lemma Sound.addDocstringRow (hc : c.Sound n) {d : DocstringRow}
    (hd : ∀ i ∈ d.nameRefs, i < c.names.size)
    (howner : d.owner < c.countOf d.kind) (hn : c.classes.length ≤ n) :
    Sound { c with docstrings := c.docstrings ++ [d] } n := by
  have hadd : ∀ {kind : Documented} {m : Nat}, (∀ i ∈ c.owners kind, i < m) →
      (d.kind = kind → d.owner < m) →
        ∀ i ∈ ({ c with docstrings := c.docstrings ++ [d] } : Catalog).owners kind, i < m := by
    intro kind m hold hnew i hi
    rw [owners_append, mem_append] at hi
    rcases hi with hi | hi
    · exact hold i hi
    · split_ifs at hi with hkind
      · rw [mem_singleton.mp hi]
        exact hnew hkind
      · simp at hi
  exact { hc with
    nameRefs_lt := by
      have hold := hc.nameRefs_lt
      simp only [nameRefs, flatMap_append, flatMap_singleton, forall_mem_append] at hold ⊢
      tauto
    moduleRefs_lt := by
      obtain ⟨hold, howners⟩ := forall_mem_append.mp hc.moduleRefs_lt
      refine forall_mem_append.mpr ⟨hold, hadd howners fun hkind => ?_⟩
      rw [hkind] at howner
      exact howner
    classRefs_lt := by
      obtain ⟨hold, howners⟩ := forall_mem_append.mp hc.classRefs_lt
      refine forall_mem_append.mpr ⟨hold, hadd howners fun hkind => ?_⟩
      rw [hkind] at howner
      exact lt_of_lt_of_le howner hn
    functionRefs_lt := by
      obtain ⟨hold, howners⟩ := forall_mem_append.mp hc.functionRefs_lt
      refine forall_mem_append.mpr ⟨hold, hadd howners fun hkind => ?_⟩
      rw [hkind] at howner
      exact howner }

lemma Sound.addDocstring (hc : c.Sound n) (kind : Documented) {owner : Nat}
    (howner : owner < c.countOf kind) (hn : c.classes.length ≤ n) (text : Option String) :
    (c.addDocstring kind owner text).Sound n := by
  cases text with
  | none => exact hc
  | some t =>
    have hsecond := renames_addName (c.addName t).1 (docStyle t).name
    have hstyle := add_lt (c.addName t).1.names (docStyle t).name
    have htext := lt_of_lt_of_le (add_lt c.names t) hsecond.names.size_le
    refine (hc.renames ((renames_addName c t).trans hsecond)).addDocstringRow ?_ ?_ hn
    · intro i hi
      simp only [DocstringRow.nameRefs, mem_cons, not_mem_nil, or_false] at hi
      rcases hi with rfl | rfl
      · exact htext
      · exact hstyle
    · cases kind <;> exact howner

/-! ### Functions -/

lemma ParameterRow.Records.lt {names : Table} {r : ParameterRow} {p : ParameterSketch}
    (h : r.Records names p) : ∀ i ∈ r.nameRefs, i < names.size := by
  rw [nameRefs, forall_mem_cons, forall_mem_append]
  exact ⟨lt_size_of_get? h.name, lt_size_of_getOption? h.hint, lt_size_of_getOption? h.default⟩

lemma perm_range' {ls ls' : List Nat} {next : Nat} (h : ls.Perm (range' 1 (next - 1)))
    (hnext : 0 < next) (hls : ls'.Perm (ls ++ [next])) : ls'.Perm (range' 1 (next + 1 - 1)) := by
  have hrange : range' 1 (next + 1 - 1) = range' 1 (next - 1) ++ [next] := by
    obtain ⟨m, rfl⟩ := exists_eq_add_one_of_ne_zero (ne_of_gt hnext)
    rw [Nat.add_sub_cancel, Nat.add_sub_cancel, range'_1_concat, Nat.add_comm 1]
  rw [hrange]
  exact hls.trans (h.append_right _)

lemma perm_insert (xs ys : List α) (x : α) : (xs ++ [x] ++ ys).Perm (xs ++ ys ++ [x]) := by
  rw [append_assoc, append_assoc]
  exact perm_append_comm.append_left xs

lemma findIdxs_concat_of_neg (h : ¬ p x) : (xs ++ [x]).findIdxs p = xs.findIdxs p := by
  rw [findIdxs_append, findIdxs_singleton, if_neg h, append_nil]

lemma findIdxs_concat_of_pos (h : p x) : (xs ++ [x]).findIdxs p = xs.findIdxs p ++ [xs.length] := by
  rw [findIdxs_append, findIdxs_singleton, if_pos h, Nat.zero_add]

lemma findIdxs_append_new {ys : List α} (hold : ∀ x ∈ xs, p x = false)
    (hnew : ∀ y ∈ ys, p y = true) : (xs ++ ys).findIdxs p = range' xs.length ys.length := by
  have hall : ∀ (ys : List α) (s : Nat), (∀ y ∈ ys, p y = true) →
      ys.findIdxs p s = range' s ys.length := by
    intro ys
    induction ys with
    | nil => exact fun s _ => findIdxs_nil
    | cons y ys ih =>
      intro s h
      rw [findIdxs_cons, if_pos (h y mem_cons_self), ih _ fun z hz => h z (mem_cons_of_mem _ hz),
        length_cons, range'_succ]
  rw [findIdxs_append, findIdxs_eq_nil_iff.mpr hold, hall ys _ hnew, Nat.zero_add, nil_append]

lemma Sound.addFunctionRow (hc : c.Sound n) {r : FunctionRow} {rows : List ParameterRow}
    (hmodule : r.module < c.modules.length) (hparent : ∀ k ∈ r.parent, c.classes.length ≤ k ∧ k < n)
    (hlocation : r.location = c.nextLocation) (hrefs : ∀ i ∈ r.nameRefs, i < c.names.size)
    (hrows : ∀ i ∈ rows.flatMap (·.nameRefs), i < c.names.size)
    (hpositions : rows.map (·.position) = r.parameters)
    (hrange : r.parameters = range r.parameters.length) :
    Sound { c with
      nextLocation := c.nextLocation + 1, functions := c.functions ++ [r],
      parameters := if rows.isEmpty then c.parameters
        else c.parameters.put c.functions.length rows } n := by
  have hfresh : c.functions.length ∉ c.parameters.keys := fun hmem =>
    lt_irrefl _ (hc.functionRefs_lt _ (by simp [functionRefs, hmem]))
  have hparams : (if rows.isEmpty then c.parameters else c.parameters.put c.functions.length rows) =
      c.parameters ++ if rows = [] then [] else [(c.functions.length, rows)] := by
    by_cases hempty : rows = []
    · simp [hempty]
    · simp [hempty, put_of_notMem hfresh]
  have hempty : rows = [] ↔ r.parameters = [] := by
    rw [← hpositions, map_eq_nil_iff]
  rw [hparams]
  exact { hc with
    nameRefs_lt := by
      have hold := hc.nameRefs_lt
      simp only [nameRefs, flatMap_append, flatMap_singleton, forall_mem_append] at hold ⊢
      have hnew : ∀ i ∈ flatMap (fun e => e.2.flatMap (·.nameRefs))
          (if rows = [] then [] else [(c.functions.length, rows)]), i < c.names.size := by
        split_ifs
        · simp
        · rw [flatMap_singleton]
          exact hrows
      tauto
    moduleRefs_lt := by
      have hold := hc.moduleRefs_lt
      simp only [moduleRefs, map_append, map_singleton, forall_mem_append,
        forall_mem_singleton] at hold ⊢
      tauto
    classRefs_lt := by
      have hold := hc.classRefs_lt
      have hnew : ∀ k ∈ filterMap (·.parent) [r], k < n := by
        intro k hk
        obtain ⟨r', hr', hk⟩ := mem_filterMap.mp hk
        rw [mem_singleton.mp hr'] at hk
        exact (hparent k hk).2
      simp only [classRefs, filterMap_append, forall_mem_append] at hold ⊢
      tauto
    functionRefs_lt := by
      have hold : ∀ i ∈ c.functionRefs, i < (c.functions ++ [r]).length := fun i hi => by
        rw [length_append]
        exact Nat.lt_add_right _ (hc.functionRefs_lt i hi)
      have hnew : ∀ f ∈ Keyed.keys (if rows = [] then [] else [(c.functions.length, rows)]),
          f < (c.functions ++ [r]).length := by
        split_ifs
        · simp [Keyed.keys]
        · simp [Keyed.keys]
      simp only [functionRefs, Keyed.keys, map_append, forall_mem_append] at hold hnew ⊢
      tauto
    methods := by
      intro k row hrow
      have hk : k < c.classes.length := (List.getElem?_eq_some_iff.mp hrow).1
      have hother : r.parent ≠ some k := fun hmem => by
        have := (hparent k hmem).1
        omega
      exact (hc.methods k row hrow).trans (findIdxs_concat_of_neg (by simpa using hother)).symm
    parameterKeys := by
      rw [Keyed.keys, map_append]
      by_cases hr : r.parameters = []
      · rw [findIdxs_concat_of_neg (by simp [hr]), if_pos (hempty.mpr hr), map_nil, append_nil]
        exact hc.parameterKeys
      · rw [findIdxs_concat_of_pos (by simp [hr]), if_neg (mt hempty.mp hr), map_singleton]
        exact congrArg (· ++ [c.functions.length]) hc.parameterKeys
    parameterRows := by
      intro f rows' hmem
      rcases mem_append.mp hmem with hmem | hmem
      · obtain ⟨r', hr', hrows'⟩ := hc.parameterRows f rows' hmem
        exact ⟨r', by rw [getElem?_append_left (List.getElem?_eq_some_iff.mp hr').1, hr'], hrows'⟩
      · split_ifs at hmem
        · simp at hmem
        · obtain ⟨rfl, rfl⟩ := Prod.mk.inj (mem_singleton.mp hmem)
          exact ⟨r, by simp, hpositions⟩
    positions := forall_mem_append.mpr ⟨hc.positions, by simpa using hrange⟩
    locations_perm := by
      refine perm_range' hc.locations_perm hc.started ?_
      simp only [locations, map_append, map_singleton, hlocation]
      rw [← append_assoc]
      exact perm_insert _ _ _
    started := succ_pos _ }

/-- The tables that recording a function or a method leaves as they are. -/
structure SameOwners (c c' : Catalog) : Prop where
  modules : c'.modules = c.modules
  classes : c'.classes = c.classes
  attributes : c'.attributes = c.attributes

lemma SameOwners.trans (h1 : SameOwners c c1) (h2 : SameOwners c1 c2) : SameOwners c c2 :=
  ⟨h2.modules.trans h1.modules, h2.classes.trans h1.classes, h2.attributes.trans h1.attributes⟩

lemma Renames.sameOwners (h : Renames c c') : SameOwners c c' := by
  rw [h.eq]
  exact ⟨rfl, rfl, rfl⟩

lemma sameOwners_addDocstring (kind : Documented) (owner : Nat) (text : Option String) :
    SameOwners c (c.addDocstring kind owner text) := by
  cases text <;> exact ⟨rfl, rfl, rfl⟩

lemma exists_addFunction (c : Catalog) (module : Nat) (parent : Option Nat) (f : FunctionSketch) :
    ∃ (c1 : Catalog) (r : FunctionRow) (rows : List ParameterRow), Renames c c1 ∧
      r.module = module ∧
      r.parent = parent ∧ r.location = c1.nextLocation ∧ (∀ i ∈ r.nameRefs, i < c1.names.size) ∧
      (∀ i ∈ rows.flatMap (·.nameRefs), i < c1.names.size) ∧ rows.map (·.position) = r.parameters ∧
      r.parameters = range r.parameters.length ∧
      c.addFunction module parent f = (({ c1 with
        nextLocation := c1.nextLocation + 1, functions := c1.functions ++ [r],
        parameters :=
  if rows.isEmpty then c1.parameters else c1.parameters.put c.functions.length rows } :
          Catalog).addDocstring .function c.functions.length f.docstring, c.functions.length) := by
  let ca := (c.addName f.name).1
  let cb := (ca.addNames f.decorators).1
  let cc := (cb.addName? f.returns).1
  have hb : Renames ca cb := renames_addNames ca f.decorators
  have hreturns : Renames cb cc := renames_addName? cb f.returns
  have hrows : Renames cc (cc.addParameterRows 0 f.parameters).1 :=
    renames_addParameterRows cc f.parameters 0
  have hpositions := position_addParameterRows f.parameters cc 0
  refine ⟨(cc.addParameterRows 0 f.parameters).1, ⟨module, parent, (c.addName f.name).2, f.kind,
    (cb.addName? f.returns).2, (cc.addParameterRows 0 f.parameters).2.map (·.position),
    (ca.addNames f.decorators).2, (cc.addParameterRows 0 f.parameters).1.nextLocation⟩,
    (cc.addParameterRows 0 f.parameters).2, ?_, rfl, rfl, rfl, ?_,
    fun i hi => ?_, rfl, ?_, ?_⟩
  · exact (renames_addName c f.name).trans (hb.trans (hreturns.trans hrows))
  · rw [FunctionRow.nameRefs, ← singleton_append, forall_mem_append, forall_mem_append]
    exact ⟨(hb.trans (hreturns.trans hrows)).lt (addName_lt c f.name),
      (hreturns.trans hrows).lt (addNames_lt ca f.decorators), hrows.lt (addName?_lt cb f.returns)⟩
  · obtain ⟨row, hrow, hi⟩ := mem_flatMap.mp hi
    obtain ⟨p, hp⟩ := exists_of_forall₂ (records_addParameterRows f.parameters cc 0) hrow
    exact hp.lt i hi
  · simp only [hpositions, length_range', range_eq_range']
  · simp only [addFunction, addParameters]
    split_ifs
    · rfl
    · rfl

lemma Sound.addFunction (hc : c.Sound n) (hn : c.classes.length ≤ n)
    (hmodule : module < c.modules.length)
    (parent : Option Nat) (hparent : ∀ k ∈ parent, c.classes.length ≤ k ∧ k < n)
    (f : FunctionSketch) : (c.addFunction module parent f).1.Sound n := by
  obtain ⟨c1, r, rows, hrenames, rfl, rfl, hlocation, hrefs, hrows, hpositions, hrange, heq⟩ :=
    exists_addFunction c module parent f
  have hfunctions : c1.functions = c.functions := by rw [hrenames.eq]
  have howners := hrenames.sameOwners
  rw [heq, ← hfunctions]
  rw [← howners.classes] at hn hparent
  rw [← howners.modules] at hmodule
  have hrow := (hc.renames hrenames).addFunctionRow hmodule hparent hlocation hrefs hrows hpositions
    hrange
  exact hrow.addDocstring .function (by simp [countOf]) hn f.docstring

lemma exists_functions_addFunction (parent : Option Nat) (f : FunctionSketch) :
    SameOwners c (c.addFunction module parent f).1 ∧ ∃ r : FunctionRow, r.parent = parent ∧
      (c.addFunction module parent f).1.functions = c.functions ++ [r] := by
  obtain ⟨c1, r, rows, hrenames, -, hparent, -, -, -, -, -, heq⟩ :=
    exists_addFunction c module parent f
  have hfunctions : c1.functions = c.functions := by rw [hrenames.eq]
  rw [heq]
  refine ⟨hrenames.sameOwners.trans ?_, r, hparent, ?_⟩
  · refine SameOwners.trans ?_ (sameOwners_addDocstring .function c.functions.length f.docstring)
    exact ⟨rfl, rfl, rfl⟩
  · rw [(keeps_addDocstring _ .function c.functions.length f.docstring).functions, hfunctions]

/-! ### Classes -/

lemma Sound.addMethods (hparent : c.classes.length ≤ parent ∧ parent < n)
    (hmodule : module < c.modules.length)
    (hc : c.Sound n) (fs : List FunctionSketch) : (c.addMethods module parent fs).1.Sound n := by
  induction fs generalizing c with
  | nil => exact hc
  | cons f fs ih =>
    have h := hc.addFunction (by omega) hmodule (some parent) (by simpa using hparent) f
    obtain ⟨howners, -⟩ := exists_functions_addFunction (some parent) f
    rw [← howners.classes] at hparent
    rw [← howners.modules] at hmodule
    exact ih hparent hmodule h

lemma exists_addMethods (fs : List FunctionSketch) : ∀ c : Catalog,
    SameOwners c (c.addMethods module parent fs).1 ∧ ∃ rs : List FunctionRow,
      (∀ r ∈ rs, r.parent = some parent) ∧
      (c.addMethods module parent fs).1.functions = c.functions ++ rs ∧
      (c.addMethods module parent fs).2 = range' c.functions.length rs.length := by
  induction fs with
  | nil => exact fun c => ⟨⟨rfl, rfl, rfl⟩, [], by simp, by simp [addMethods], rfl⟩
  | cons f fs ih =>
    intro c
    obtain ⟨howners, r, hr, hfunctions⟩ := exists_functions_addFunction (some parent) f
    obtain ⟨howners', rs, hrs, hfunctions', hnumbers⟩ := ih (c.addFunction module (some parent) f).1
    refine ⟨howners.trans howners', r :: rs, forall_mem_cons.mpr ⟨hr, hrs⟩, ?_, ?_⟩
    · rw [addMethods, hfunctions', hfunctions, append_assoc, singleton_append]
    · have hsnd : (c.addMethods module parent (f :: fs)).2 = c.functions.length ::
          ((c.addFunction module (some parent) f).1.addMethods module parent fs).2 := rfl
      rw [hsnd, hnumbers, hfunctions, length_append, length_singleton, length_cons,
        range'_succ]

lemma methodsOf_addMethods (hnew : ∀ f ∈ c.functions, f.parent ≠ some parent) (module : Nat)
    (fs : List FunctionSketch) :
    (c.addMethods module parent fs).1.methodsOf parent = (c.addMethods module parent fs).2 := by
  obtain ⟨-, rs, hrs, hfunctions, hnumbers⟩ := exists_addMethods fs c
  rw [methodsOf, hfunctions, hnumbers]
  exact findIdxs_append_new (fun f hf => decide_eq_false (hnew f hf)) fun f hf =>
    decide_eq_true (hrs f hf)

lemma Sound.addAttributeRow (hc : c.Sound n) {r : AttributeRow}
    (hparent : c.classes.length ≤ r.parent ∧ r.parent < n) (hlocation : r.location = c.nextLocation)
    (hrefs : ∀ i ∈ r.nameRefs, i < c.names.size) :
    Sound { c with nextLocation := c.nextLocation + 1, attributes := c.attributes ++ [r] } n where
  __ := hc
  nameRefs_lt := by
    have hold := hc.nameRefs_lt
    simp only [nameRefs, flatMap_append, flatMap_singleton, forall_mem_append] at hold ⊢
    tauto
  classRefs_lt := by
    have hold := hc.classRefs_lt
    simp only [classRefs, map_append, map_singleton, forall_mem_append,
      forall_mem_singleton] at hold ⊢
    tauto
  attributeRefs_lt := by
    intro i hi
    rw [length_append]
    exact Nat.lt_add_right _ (hc.attributeRefs_lt i hi)
  attributes := by
    intro k row hrow
    have hk : k < c.classes.length := (List.getElem?_eq_some_iff.mp hrow).1
    have hother : r.parent ≠ k := by omega
    exact (hc.attributes k row hrow).trans (findIdxs_concat_of_neg (by simpa using hother)).symm
  locations_perm := by
    refine perm_range' hc.locations_perm hc.started ?_
    simp only [locations, map_append, map_singleton, hlocation]
    rw [← append_assoc]
  started := succ_pos _

def addAttribute (c : Catalog) (parent : Nat) (a : AttributeSketch) : Catalog :=
  let (c, name) := c.addName a.name
  let (c, hint) := c.addName? a.hint
  let (c, default) := c.addName? a.default
  { c with
    nextLocation := c.nextLocation + 1,
    attributes := c.attributes ++ [⟨parent, name, hint, default, c.nextLocation⟩] }

lemma addAttributes_cons :
    c.addAttributes parent (a :: as) = (((c.addAttribute parent a).addAttributes parent as).1,
      c.attributes.length :: ((c.addAttribute parent a).addAttributes parent as).2) := by
  obtain ⟨name, hint, default⟩ := a
  rcases hint with _ | hint <;> rcases default with _ | default <;> rfl

lemma exists_addAttribute (parent : Nat) :
    ∃ (c1 : Catalog) (r : AttributeRow), Renames c c1 ∧ r.parent = parent ∧
      r.location = c1.nextLocation ∧
      (∀ i ∈ r.nameRefs, i < c1.names.size) ∧ c.addAttribute parent a =
        { c1 with nextLocation := c1.nextLocation + 1, attributes := c1.attributes ++ [r] } := by
  let ca := (c.addName a.name).1
  let cb := (ca.addName? a.hint).1
  let cc := (cb.addName? a.default).1
  have hb : Renames ca cb := renames_addName? ca a.hint
  have hdefault : Renames cb cc := renames_addName? cb a.default
  refine ⟨cc, ⟨parent, (c.addName a.name).2, (ca.addName? a.hint).2, (cb.addName? a.default).2,
    cc.nextLocation⟩, (renames_addName c a.name).trans (hb.trans hdefault), rfl, rfl, ?_, rfl⟩
  rw [AttributeRow.nameRefs, ← singleton_append, forall_mem_append, forall_mem_append]
  exact ⟨(hb.trans hdefault).lt (addName_lt c a.name), hdefault.lt (addName?_lt ca a.hint),
    addName?_lt cb a.default⟩

lemma Sound.addAttributes (hparent : c.classes.length ≤ parent ∧ parent < n) (hc : c.Sound n)
    (as : List AttributeSketch) : (c.addAttributes parent as).1.Sound n := by
  induction as generalizing c with
  | nil => exact hc
  | cons a as ih =>
    obtain ⟨c1, r, hrenames, rfl, hlocation, hrefs, heq⟩ := exists_addAttribute parent
    rw [← hrenames.sameOwners.classes] at hparent
    have h := (hc.renames hrenames).addAttributeRow hparent hlocation hrefs
    rw [addAttributes_cons, heq]
    exact ih hparent h

lemma exists_addAttributes : ∀ c : Catalog,
    ∃ rs : List AttributeRow, (∀ r ∈ rs, r.parent = parent) ∧
      (c.addAttributes parent as).1.attributes = c.attributes ++ rs ∧
      (c.addAttributes parent as).2 = range' c.attributes.length rs.length := by
  induction as with
  | nil => exact fun c => ⟨[], by simp, by simp [addAttributes], rfl⟩
  | cons a as ih =>
    intro c
    obtain ⟨c1, r, hrenames, hr, -, -, heq⟩ := exists_addAttribute parent
    have hattributes : (c.addAttribute parent a).attributes = c.attributes ++ [r] := by
      rw [heq, ← hrenames.sameOwners.attributes]
    obtain ⟨rs, hrs, hmore, hnumbers⟩ := ih (c.addAttribute parent a)
    refine ⟨r :: rs, forall_mem_cons.mpr ⟨hr, hrs⟩, ?_, ?_⟩
    · rw [addAttributes_cons, hmore, hattributes, append_assoc, singleton_append]
    · rw [addAttributes_cons, hnumbers, hattributes, length_append, length_singleton,
        length_cons, range'_succ]

lemma attributesOf_addAttributes (hnew : ∀ a ∈ c.attributes, a.parent ≠ parent)
    (as : List AttributeSketch) :
    (c.addAttributes parent as).1.attributesOf parent = (c.addAttributes parent as).2 := by
  obtain ⟨rs, hrs, hattributes, hnumbers⟩ := exists_addAttributes c
  rw [attributesOf, hattributes, hnumbers]
  exact findIdxs_append_new (fun a ha => decide_eq_false (hnew a ha)) fun a ha =>
    decide_eq_true (hrs a ha)

lemma Sound.parent_ne (hc : c.Sound n) {f : FunctionRow} (hf : f ∈ c.functions) :
    f.parent ≠ some n := by
  intro hparent
  refine lt_irrefl n (hc.classRefs_lt n ?_)
  rw [classRefs, append_assoc]
  exact mem_append_left _ (mem_filterMap.mpr ⟨f, hf, hparent⟩)

lemma Sound.attribute_parent_ne (hc : c.Sound n) {a : AttributeRow} (ha : a ∈ c.attributes) :
    a.parent ≠ n := by
  intro hparent
  refine lt_irrefl n (hc.classRefs_lt n ?_)
  exact mem_append_left _ (mem_append_right _ (mem_map.mpr ⟨a, ha, hparent⟩))

lemma Sound.addClassRow (hc : c.Sound (c.classes.length + 1)) {r : ClassRow}
    (hmodule : r.module < c.modules.length) (hlocation : r.location = c.nextLocation)
    (hrefs : ∀ i ∈ r.nameRefs, i < c.names.size)
    (hmethods : r.methods = c.methodsOf c.classes.length)
    (hattributes : r.attributes = c.attributesOf c.classes.length) :
    Sound { c with nextLocation := c.nextLocation + 1, classes := c.classes ++ [r] }
      (c.classes.length + 1) := by
  have hrow : ∀ k row, (c.classes ++ [r])[k]? = some row →
      c.classes[k]? = some row ∨ k = c.classes.length ∧ row = r := by
    intro k row hk
    rw [getElem?_append] at hk
    grind
  exact { hc with
    nameRefs_lt := by
      have hold := hc.nameRefs_lt
      simp only [nameRefs, flatMap_append, flatMap_singleton, forall_mem_append] at hold ⊢
      tauto
    moduleRefs_lt := by
      have hold := hc.moduleRefs_lt
      simp only [moduleRefs, map_append, map_singleton, forall_mem_append,
        forall_mem_singleton] at hold ⊢
      tauto
    functionRefs_lt := by
      have hold := hc.functionRefs_lt
      have hnew : ∀ i ∈ r.methods, i < c.functions.length := fun i hi => by
        rw [hmethods] at hi
        simpa using lt_add_of_mem_findIdxs i hi
      simp only [functionRefs, flatMap_append, flatMap_singleton, forall_mem_append] at hold ⊢
      tauto
    attributeRefs_lt := by
      have hold := hc.attributeRefs_lt
      have hnew : ∀ i ∈ r.attributes, i < c.attributes.length := fun i hi => by
        rw [hattributes] at hi
        simpa using lt_add_of_mem_findIdxs i hi
      simp only [attributeRefs, flatMap_append, flatMap_singleton, forall_mem_append] at hold ⊢
      exact ⟨hold, hnew⟩
    methods := by
      intro k row hk
      rcases hrow k row hk with hk | ⟨rfl, rfl⟩
      · exact hc.methods k row hk
      · exact hmethods
    attributes := by
      intro k row hk
      rcases hrow k row hk with hk | ⟨rfl, rfl⟩
      · exact hc.attributes k row hk
      · exact hattributes
    locations_perm := by
      refine perm_range' hc.locations_perm hc.started ?_
      simp only [locations, map_append, map_singleton, hlocation]
      simpa only [append_assoc] using perm_insert
        (c.modules.map (·.location) ++ c.classes.map (·.location))
        (c.functions.map (·.location) ++ c.attributes.map (·.location)) _
    started := succ_pos _ }

lemma Sound.mono {m : Nat} (hc : c.Sound n) (h : n ≤ m) : c.Sound m :=
  { hc with classRefs_lt := fun i hi => lt_of_lt_of_le (hc.classRefs_lt i hi) h }

/-- A class with its methods and attributes keeps a catalog sound. -/
lemma Sound.addClass (hc : c.Sound c.classes.length) (hmodule : module < c.modules.length)
    (k : ClassSketch) : (c.addClass module k).Sound (c.addClass module k).classes.length := by
  let number := c.classes.length
  let ca := (c.addName k.name).1
  let cb := (ca.addNames k.bases).1
  let cm := (cb.addMethods module number k.methods).1
  let cc := (cm.addAttributes number k.attributes).1
  let r : ClassRow := ⟨module, (c.addName k.name).2, (ca.addNames k.bases).2,
    (cb.addMethods module number k.methods).2, cc.nextLocation,
    (cm.addAttributes number k.attributes).2⟩
  have hbases : Renames ca cb := renames_addNames ca k.bases
  have hnamed : Renames c cb := (renames_addName c k.name).trans hbases
  have hb := hnamed.sameOwners
  obtain ⟨hm, -⟩ := exists_addMethods k.methods cb
  have hkeeps : Keeps cm cc := keeps_addAttributes cm number k.attributes
  have hclasses : cc.classes = c.classes := by rw [hkeeps.classes, hm.classes, hb.classes]
  have hmodules : cc.modules = c.modules := by rw [hkeeps.modules, hm.modules, hb.modules]
  have hclosed : cb.Sound number := hc.renames hnamed
  have hmethods : cm.Sound (number + 1) :=
    (hclosed.mono (le_succ _)).addMethods ⟨by rw [hb.classes], lt_succ_self _⟩
      (by rw [hb.modules]; exact hmodule) k.methods
  have hmembers : cc.Sound (number + 1) :=
    hmethods.addAttributes ⟨by rw [hm.classes, hb.classes], lt_succ_self _⟩ k.attributes
  have hnumber : cc.classes.length = number := by rw [hclasses]
  -- the number of the class was new, so its members are the rows added since
  have hrmethods : r.methods = cc.methodsOf cc.classes.length := by
    rw [hnumber, methodsOf, hkeeps.functions]
    exact (methodsOf_addMethods (fun f hf => hclosed.parent_ne hf) module k.methods).symm
  have hrattributes : r.attributes = cc.attributesOf cc.classes.length := by
    rw [hnumber]
    refine (attributesOf_addAttributes (fun a ha => ?_) k.attributes).symm
    rw [hm.attributes] at ha
    exact hclosed.attribute_parent_ne ha
  have hrefs : ∀ i ∈ r.nameRefs, i < cc.names.size := by
    have hsize : cb.names.size ≤ cc.names.size :=
      ((goes_addMethods cb module number k.methods).names.trans hkeeps.names).length_le
    have hnew : ∀ i ∈ r.nameRefs, i < cb.names.size := by
      rw [ClassRow.nameRefs, ← singleton_append, forall_mem_append]
      exact ⟨hbases.lt (addName_lt c k.name), addNames_lt ca k.bases⟩
    exact fun i hi => lt_of_lt_of_le (hnew i hi) hsize
  rw [← hnumber] at hmembers
  have hrow := hmembers.addClassRow
    (r := r) (by rw [hmodules]; exact hmodule) rfl hrefs hrmethods hrattributes
  have hcount : (cc.classes ++ [r]).length = cc.classes.length + 1 := length_append
  have hlength : (c.addClass module k).classes.length = cc.classes.length + 1 := by
    rw [← hcount]
    exact congrArg length (keeps_addDocstring _ .class number k.docstring).classes
  rw [hlength]
  have howner : number < (cc.classes ++ [r]).length := by
    rw [hcount, hnumber]
    exact lt_succ_self _
  exact hrow.addDocstring .class howner (le_of_eq hcount) k.docstring

/-! ### Modules -/

lemma Sound.addImportRow (hc : c.Sound n) {r : ImportRow} (hmodule : r.module < c.modules.length)
    (hrefs : ∀ i ∈ r.nameRefs, i < c.names.size) :
    Sound { c with imports := c.imports ++ [r] } n where
  __ := hc
  nameRefs_lt := by
    have hold := hc.nameRefs_lt
    simp only [nameRefs, flatMap_append, flatMap_singleton, forall_mem_append] at hold ⊢
    tauto
  moduleRefs_lt := by
    have hold := hc.moduleRefs_lt
    simp only [moduleRefs, map_append, map_singleton, forall_mem_append,
      forall_mem_singleton] at hold ⊢
    tauto

lemma Sound.addImport (hc : c.Sound n) (hmodule : module < c.modules.length) (i : ImportSketch) :
    (c.addImport module i).Sound n := by
  let ca := (c.addName? i.target).1
  have hnames : Renames ca (ca.addNames i.names).1 := renames_addNames ca i.names
  have hrenames := (renames_addName? c i.target).trans hnames
  rw [← hrenames.sameOwners.modules] at hmodule
  exact (hc.renames hrenames).addImportRow (r := ⟨module, _, _, i.isFrom, i.level⟩) hmodule
    (forall_mem_append.mpr ⟨hnames.lt (addName?_lt c i.target), addNames_lt ca i.names⟩)

lemma Sound.addImports (hc : c.Sound n) (hmodule : module < c.modules.length)
    (is : List ImportSketch) : (c.addImports module is).Sound n := by
  induction is generalizing c with
  | nil => exact hc
  | cons i is ih =>
    have hkeeps := keeps_addImports c module [i]
    exact ih (hc.addImport hmodule i) (by rw [← hkeeps.modules] at hmodule; exact hmodule)

lemma Sound.addDefinition (hc : c.Sound c.classes.length) (hmodule : module < c.modules.length)
    (d : Definition) :
    (addDefinition module c d).Sound (addDefinition module c d).classes.length := by
  cases d with
  | function f =>
    obtain ⟨howners, -⟩ := exists_functions_addFunction none f
    have h := hc.addFunction (le_refl _) hmodule none (by simp) f
    rw [← howners.classes] at h
    exact h
  | «class» k => exact hc.addClass hmodule k

lemma Sound.addDefinitions (hc : c.Sound c.classes.length) (hmodule : module < c.modules.length)
    (ds : List Definition) : (ds.foldl (Catalog.addDefinition module) c).Sound
        (ds.foldl (Catalog.addDefinition module) c).classes.length := by
  induction ds generalizing c with
  | nil => exact hc
  | cons d ds ih =>
    have hmodules : (Catalog.addDefinition module c d).modules = c.modules :=
      (goes_addDefinitions c module [d]).modules
    exact ih (hc.addDefinition hmodule d) (by rw [hmodules]; exact hmodule)

lemma Sound.addModuleRow (hc : c.Sound n) {files : Table} (hfiles : c.files.Grows files)
    {r : ModuleRow} (hlocation : r.location = c.nextLocation) (hname : r.name < c.names.size)
    (hfile : r.file < files.size) (hash : String) :
    Sound { c with
      files, nextLocation := c.nextLocation + 1, modules := c.modules ++ [r],
      fileHashes := c.fileHashes.put r.file hash } n where
  __ := hc
  files := numbers_of_nodup (hfiles.nodup hc.files.nodup)
  nameRefs_lt := by
    have hold := hc.nameRefs_lt
    simp only [nameRefs, map_append, map_singleton, forall_mem_append,
      forall_mem_singleton] at hold ⊢
    tauto
  fileRefs_lt := by
    have hold : ∀ i ∈ c.fileRefs, i < files.size := fun i hi =>
      lt_of_lt_of_le (hc.fileRefs_lt i hi) hfiles.size_le
    have hkeys : ∀ i ∈ (c.fileHashes.put r.file hash).keys, i ∈ c.fileHashes.keys ∨ i = r.file := by
      intro i hi
      rw [keys_put] at hi
      split_ifs at hi
      · exact Or.inl hi
      · simpa using hi
    simp only [fileRefs, map_append, map_singleton, forall_mem_append,
      forall_mem_singleton] at hold ⊢
    refine ⟨⟨hold.1, hfile⟩, fun i hi => ?_⟩
    rcases hkeys i hi with hi | rfl
    · exact hold.2 i hi
    · exact hfile
  moduleRefs_lt := by
    intro i hi
    rw [length_append]
    exact Nat.lt_add_right _ (hc.moduleRefs_lt i hi)
  locations_perm := by
    refine perm_range' hc.locations_perm hc.started ?_
    simp only [locations, map_append, map_singleton, hlocation]
    simpa only [append_assoc] using perm_insert (c.modules.map (·.location))
      (c.classes.map (·.location) ++ c.functions.map (·.location) ++ c.attributes.map (·.location))
        _
  started := succ_pos _
  hashedFiles := nodup_keys_put hc.hashedFiles

/-- **Recording a module keeps a catalog sound.** -/
theorem Sound.addModule (hc : c.Sound c.classes.length) (name path hash : String)
    (m : ModuleSketch) :
    (c.addModule name path hash m).1.Sound (c.addModule name path hash m).1.classes.length := by
  let ca := (c.addName name).1
  let r : ModuleRow := ⟨(c.addName name).2, (ca.files.add path).2, ca.nextLocation⟩
  let cb : Catalog := { ca with
    files := (ca.files.add path).1, nextLocation := ca.nextLocation + 1,
    modules := ca.modules ++ [r], fileHashes := ca.fileHashes.put r.file hash }
  have hrow : cb.Sound cb.classes.length :=
    (hc.renames (renames_addName c name)).addModuleRow grows_add rfl (add_lt _ _)
      (add_lt _ _) hash
  have hmodule : c.modules.length < cb.modules.length := by simp [cb, ca, addName]
  have himports := hrow.addImports hmodule m.imports
  have hkeeps := keeps_addImports cb c.modules.length m.imports
  rw [← hkeeps.classes] at himports
  rw [← hkeeps.modules] at hmodule
  have hdefinitions := himports.addDefinitions hmodule m.definitions
  have hgoes := goes_addDefinitions (cb.addImports c.modules.length m.imports) c.modules.length
    m.definitions
  rw [← hgoes.modules] at hmodule
  have h := hdefinitions.addDocstring .module hmodule (le_refl _) m.docstring
  rw [← (keeps_addDocstring _ .module c.modules.length m.docstring).classes] at h
  exact h

/-- Records a module under its path, with the digest of its file. -/
def record (docs : Bool) (c : Catalog) (m : Path × String × Syntax.Module) :
    Except Syntax.SourceFault Catalog := do
  let k ← moduleSketch docs m.2.2
  return (c.addModule (moduleName m.1) m.1.text m.2.1 k).1

/-- The catalog of modules that are recorded one after the other; some texts may have been numbered
before. -/
def recorded (docs : Bool) (texts : List String) (ms : List (Path × String × Syntax.Module)) :
    Except Syntax.SourceFault Catalog :=
  ms.foldlM (record docs) (({} : Catalog).addNames texts).1

/-- What holds at the start and is kept by each module holds of the catalog of all of them. -/
lemma invariant_recorded {docs : Bool} {texts : List String}
    {ms : List (Path × String × Syntax.Module)}
    {P : List (Path × String × Syntax.Module) → Catalog → Prop}
    (hstart : P [] (({} : Catalog).addNames texts).1)
    (hstep : ∀ {done c} m {k}, moduleSketch docs m.2.2 = .ok k → P done c →
      P (done ++ [m]) (c.addModule (moduleName m.1) m.1.text m.2.1 k).1)
    {c : Catalog} (h : recorded docs texts ms = .ok c) : P ms c := by
  have hall : ∀ (done : List (Path × String × Syntax.Module)) (c₀ : Catalog), P done c₀ →
      ms.foldlM (record docs) c₀ = .ok c → P (done ++ ms) c := by
    clear h hstart
    induction ms with
    | nil =>
      intro done c₀ hc h
      cases h
      simpa using hc
    | cons m ms ih =>
      intro done c₀ hc h
      rw [foldlM_cons] at h
      obtain ⟨c₁, hrecord, h⟩ := exists_of_ok_bind h
      obtain ⟨k, hk, heq⟩ := exists_of_ok_bind hrecord
      cases heq
      have hrest := ih (done ++ [m]) _ (hstep m hk hc) h
      rwa [append_assoc] at hrest
  exact hall [] _ hstart h

lemma sound_empty : ({} : Catalog).Sound 0 where
  names := numbers_of_nodup nodup_nil
  files := numbers_of_nodup nodup_nil
  nameRefs_lt := fun _ h => nomatch h
  fileRefs_lt := fun _ h => nomatch h
  moduleRefs_lt := fun _ h => nomatch h
  classRefs_lt := fun _ h => nomatch h
  functionRefs_lt := fun _ h => nomatch h
  attributeRefs_lt := fun _ h => nomatch h
  methods := fun _ _ h => nomatch h
  attributes := fun _ _ h => nomatch h
  parameterKeys := rfl
  parameterRows := fun _ _ h => nomatch h
  positions := fun _ h => nomatch h
  locations_perm := .nil
  started := Nat.one_pos
  hashedFiles := nodup_nil
  undigested := ⟨rfl, rfl⟩

end CodeAtlas.Catalog
