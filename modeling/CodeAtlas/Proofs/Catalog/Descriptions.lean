import CodeAtlas.Proofs.Catalog.Digests
import CodeAtlas.Proofs.Catalog.Parameters
import CodeAtlas.Proofs.Survey

/-!
# Descriptions of classes and functions

The texts by which they are digested tell all that they were made of (`descriptions_faithful`).
-/

namespace CodeAtlas

open List Syntax

namespace Text

lemma colon_notMem {cs : List Char} (h : isIdentifier cs = true) : ':' ∉ cs := by
  intro hmem
  rcases cs with _ | ⟨c, cs⟩
  · cases hmem
  obtain ⟨hstart, hcontinue⟩ := Bool.and_eq_true_iff.mp h
  rcases mem_cons.mp hmem with rfl | hmem
  · exact absurd hstart (by decide)
  · exact absurd (all_eq_true.mp hcontinue _ hmem) (by decide)

lemma append_colon_inj {a b r s : List Char} (ha : ':' ∉ a) (hb : ':' ∉ b)
    (h : a ++ ':' :: r = b ++ ':' :: s) : a = b ∧ r = s := by
  induction a generalizing b with
  | nil =>
    cases b with
    | nil => exact ⟨rfl, (List.cons.inj h).2⟩
    | cons d b => exact absurd ((List.cons.inj h).1 ▸ mem_cons_self) hb
  | cons c a ih =>
    cases b with
    | nil => exact absurd ((List.cons.inj h).1 ▸ mem_cons_self) ha
    | cons d b =>
      obtain ⟨rfl, htail⟩ := List.cons.inj h
      obtain ⟨rfl, hrest⟩ := ih (not_mem_of_not_mem_cons ha) (not_mem_of_not_mem_cons hb) htail
      exact ⟨rfl, hrest⟩

end Text

namespace Catalog

open Text

/-! ### What is described -/

@[ext] structure ClassFacts where
  name : String
  bases : List String
  methods : List String
  attributes : List String

@[ext] structure FunctionFacts where
  name : String
  parameters : List (String × String)
  returns : String

def ClassFacts.text (x : ClassFacts) : String :=
  s!"class:{x.name}:bases:{quotedList x.bases}:methods:{quotedList x.methods}:attrs:{quotedList x.attributes}"

/-- The entry of a parameter in the text of its function. -/
def parameterEntry (p : String × String) : String := p.1 ++ ":" ++ p.2

def FunctionFacts.text (x : FunctionFacts) : String :=
  s!"func:{x.name}:params:{quotedList (x.parameters.map parameterEntry)}:return:{x.returns}"

def classFacts (c : Catalog) (k : ClassRow) : ClassFacts where
  name := c.nameAt k.name
  bases := k.bases.map c.nameAt
  methods := k.methods.filterMap fun m => (c.functions[m]?).map (c.nameAt ·.name)
  attributes := k.attributes.filterMap fun a => (c.attributes[a]?).map (c.nameAt ·.name)

/-- What the function with a number is described by. A parameter without a type has any, a function
without one gives none. -/
def functionFacts (c : Catalog) (number : Nat) (f : FunctionRow) : FunctionFacts where
  name := c.nameAt f.name
  parameters := ((c.parameters.get? number).getD []).map fun p =>
    (c.nameAt p.name, (p.hint.map c.nameAt).getD "Any")
  returns := (f.returns.map c.nameAt).getD "None"

lemma classText_eq (c : Catalog) (k : ClassRow) : c.classText k = (c.classFacts k).text := rfl

lemma functionText_eq (c : Catalog) (number : Nat) (f : FunctionRow) :
    c.functionText number f = (c.functionFacts number f).text := by
  simp only [functionText, FunctionFacts.text, functionFacts, map_map, Function.comp_def,
    parameterEntry]

/-! ### Descriptions tell what they are made of -/

lemma ClassFacts.text_inj {x y : ClassFacts} (hx : ':' ∉ x.name.toList) (hy : ':' ∉ y.name.toList)
    (h : x.text = y.text) : x = y := by
  have hchars := congrArg String.toList h
  simp only [text, String.toList_append, append_assoc, toString] at hchars
  obtain ⟨hname, hafter⟩ := append_colon_inj hx hy (append_cancel_left hchars)
  obtain ⟨hbases, hafter⟩ := delimits_quotedList.inj ((append_right_inj "bases:".toList).mp hafter)
  obtain ⟨hmethods, hafter⟩ := delimits_quotedList.inj (append_cancel_left hafter)
  obtain ⟨hattributes, -⟩ := delimits_quotedList.inj (r := []) (s := [])
    (congrArg (· ++ []) (append_cancel_left hafter))
  exact ClassFacts.ext (String.toList_inj.mp hname) hbases hmethods hattributes

lemma map_parameterEntry_inj {ps qs : List (String × String)} (hps : ∀ p ∈ ps, ':' ∉ p.1.toList)
    (hqs : ∀ q ∈ qs, ':' ∉ q.1.toList) (h : ps.map parameterEntry = qs.map parameterEntry) :
    ps = qs := by
  induction ps generalizing qs with
  | nil => exact (map_eq_nil_iff.mp h.symm).symm
  | cons p ps ih =>
    rcases qs with _ | ⟨q, qs⟩
    · cases h
    obtain ⟨hhead, htail⟩ := List.cons.inj h
    rw [forall_mem_cons] at hps hqs
    have hchars := congrArg String.toList hhead
    simp only [parameterEntry, String.toList_append, append_assoc] at hchars
    obtain ⟨hname, htype⟩ := append_colon_inj hps.1 hqs.1 hchars
    rw [ih hps.2 hqs.2 htail, Prod.ext (String.toList_inj.mp hname) (String.toList_inj.mp htype)]

lemma FunctionFacts.text_inj {x y : FunctionFacts} (hx : ':' ∉ x.name.toList)
    (hy : ':' ∉ y.name.toList)
    (hxs : ∀ p ∈ x.parameters, ':' ∉ p.1.toList) (hys : ∀ p ∈ y.parameters, ':' ∉ p.1.toList)
    (h : x.text = y.text) : x = y := by
  have hchars := congrArg String.toList h
  simp only [text, String.toList_append, append_assoc, toString] at hchars
  obtain ⟨hname, hafter⟩ := append_colon_inj hx hy (append_cancel_left hchars)
  obtain ⟨hentries, hafter⟩ :=
    delimits_quotedList.inj ((append_right_inj "params:".toList).mp hafter)
  have hreturns := append_cancel_left hafter
  exact FunctionFacts.ext (String.toList_inj.mp hname) (map_parameterEntry_inj hxs hys hentries)
    (String.toList_inj.mp hreturns)

lemma ClassFacts.text_ne (x : ClassFacts) (y : FunctionFacts) : x.text ≠ y.text := by
  intro h
  have hchars := congrArg String.toList h
  simp only [text, FunctionFacts.text, String.toList_append, append_assoc, toString] at hchars
  exact absurd (List.cons.inj hchars).1 (by decide)

/-! ### Names of parameters -/

/-- The row of a parameter has an identifier for its name. -/
def ParameterRow.Identified (names : Table) (p : ParameterRow) : Prop :=
  ∃ s, names.get? p.name = some s ∧ isIdentifier s.toList = true

def Identified (c : Catalog) : Prop := ∀ e ∈ c.parameters, ∀ p ∈ e.2, p.Identified c.names

variable {c c' : Catalog}

section

variable (hc : c.Identified)

include hc

lemma Identified.of_extends (hnames : c.names.Extends c'.names) (h : c'.parameters = c.parameters) :
    c'.Identified := by
  intro e he p hp
  obtain ⟨s, hs, hident⟩ := hc e (h ▸ he) p hp
  exact ⟨s, hnames.get? hs, hident⟩

lemma Identified.renames (h : Renames c c') : c'.Identified :=
  hc.of_extends h.names.old (by rw [h.eq])

lemma Identified.addDocstring (kind : Documented) (owner : Nat) (text : Option String) :
    (c.addDocstring kind owner text).Identified := by
  refine hc.of_extends (keeps_addDocstring c kind owner text).names ?_
  cases text <;> rfl

lemma Identified.addParameters (function : Nat) (ps : List ParameterSketch) :
    (c.addParameters function ps).1.Identified := by
  have hold := hc.renames (renames_addParameterRows c ps 0)
  have hrows : ∀ p ∈ (c.addParameterRows 0 ps).2,
      p.Identified (c.addParameterRows 0 ps).1.names := by
    intro p hp
    obtain ⟨q, hq⟩ := exists_of_forall₂ (records_addParameterRows ps c 0) hp
    exact ⟨q.name, hq.name, q.isNamed⟩
  simp only [Catalog.addParameters]
  split_ifs
  · exact hold
  · intro e he
    rcases Keyed.mem_of_mem_put he with rfl | he
    · exact hrows
    · exact hold e he

lemma Identified.addFunction (module : Nat) (parent : Option Nat) (f : FunctionSketch) :
    (c.addFunction module parent f).1.Identified := by
  have hnames := ((hc.renames (renames_addName c f.name)).renames
    (renames_addNames _ f.decorators)).renames (renames_addName? _ f.returns)
  have hrows := hnames.addParameters c.functions.length f.parameters
  refine Identified.addDocstring ?_ .function c.functions.length f.docstring
  exact hrows

lemma Identified.addMethods (module parent : Nat) (fs : List FunctionSketch) :
    (c.addMethods module parent fs).1.Identified := by
  induction fs generalizing c with
  | nil => exact hc
  | cons f fs ih => exact ih (hc.addFunction module (some parent) f)

end

lemma parameters_addAttributes (parent : Nat) (as : List AttributeSketch) :
    (c.addAttributes parent as).1.parameters = c.parameters := by
  induction as generalizing c with
  | nil => rfl
  | cons a as ih =>
    obtain ⟨c1, r, hrenames, -, -, -, heq⟩ := exists_addAttribute parent
    rw [addAttributes_cons, ih, heq, hrenames.eq]

lemma Identified.addClass (hc : c.Identified) (module : Nat) (k : ClassSketch) :
    (c.addClass module k).Identified := by
  have hnames := (hc.renames (renames_addName c k.name)).renames (renames_addNames _ k.bases)
  have hmethods := hnames.addMethods module c.classes.length k.methods
  refine Identified.addDocstring ?_ .class c.classes.length k.docstring
  exact hmethods.of_extends (keeps_addAttributes _ c.classes.length k.attributes).names
    (parameters_addAttributes _ _)

lemma Identified.addImports (hc : c.Identified) (module : Nat) (is : List ImportSketch) :
    (c.addImports module is).Identified := by
  induction is generalizing c with
  | nil => exact hc
  | cons i is ih =>
    have hnames := (hc.renames (renames_addName? c i.target)).renames (renames_addNames _ i.names)
    have hnext : (addImport module c i).Identified := hnames
    exact ih hnext

lemma Identified.addDefinitions (hc : c.Identified) (module : Nat) (ds : List Definition) :
    (ds.foldl (addDefinition module) c).Identified := by
  induction ds generalizing c with
  | nil => exact hc
  | cons d ds ih =>
    cases d with
    | function f => exact ih (hc.addFunction module none f)
    | «class» k => exact ih (hc.addClass module k)

lemma Identified.addModule (hc : c.Identified) (name file hash : String) (m : ModuleSketch) :
    (c.addModule name file hash m).1.Identified := by
  have hname := hc.renames (renames_addName c name)
  refine Identified.addDocstring ?_ .module c.modules.length m.docstring
  refine Identified.addDefinitions ?_ c.modules.length m.definitions
  refine Identified.addImports ?_ c.modules.length m.imports
  exact hname

section

variable {docs : Bool} {texts : List String} {ms : List (Path × String × Module)}
  (h : recorded docs texts ms = .ok c)

include h

lemma identified_recorded : c.Identified :=
  invariant_recorded (P := fun _ c => c.Identified) (fun _ he => nomatch he)
    (fun m _ _ hc => hc.addModule (moduleName m.1) m.1.text m.2.1 _) h

/-! ### Faithful descriptions -/

lemma colon_notMem_classFacts : ∀ k ∈ c.classes, ':' ∉ (c.classFacts k).name.toList := by
  intro k hk
  obtain ⟨s, hs⟩ := exists_of_forall₂ (madeOf_recorded h).rows.records.classes hk
  rw [classFacts, nameAt_of_get? hs.name]
  exact colon_notMem s.head.isNamed

lemma colon_notMem_functionFacts (i : Nat) :
    ∀ f ∈ c.functions, ':' ∉ (c.functionFacts i f).name.toList ∧
      ∀ p ∈ (c.functionFacts i f).parameters, ':' ∉ p.1.toList := by
  intro f hf
  obtain ⟨s, hs⟩ := exists_of_forall₂ (madeOf_recorded h).rows.records.functions hf
  refine ⟨?_, forall_mem_map.mpr fun p hp => ?_⟩
  · rw [functionFacts, nameAt_of_get? hs.name]
    exact colon_notMem s.head.isNamed
  · rcases hrows : c.parameters.get? i with _ | rows
    · simp [hrows] at hp
    · rw [hrows, Option.getD_some] at hp
      obtain ⟨s, hs, hident⟩ := identified_recorded h _ (Keyed.mem_of_get? hrows) p hp
      rw [nameAt_of_get? hs]
      exact colon_notMem hident

end

/-- **Descriptions are faithful.** Whatever modules two catalogs are made of, classes are described
by the same text exactly if they have the same name, bases, methods and attributes, functions
exactly if they have the same name, parameters with their types, and type of their results; and no
class is described like a function. -/
theorem descriptions_faithful {docs docs' : Bool} {texts texts' : List String}
    {ms ms' : List (Path × String × Module)} {c c' : Catalog} (h : recorded docs texts ms = .ok c)
    (h' : recorded docs' texts' ms' = .ok c') :
    (∀ k ∈ c.classes, ∀ k' ∈ c'.classes, c.classText k = c'.classText k' ↔
      c.classFacts k = c'.classFacts k') ∧ (∀ f ∈ c.functions, ∀ f' ∈ c'.functions, ∀ i i',
        c.functionText i f = c'.functionText i' f' ↔ c.functionFacts i f = c'.functionFacts i' f') ∧
      ∀ k ∈ c.classes, ∀ f ∈ c'.functions, ∀ i, c.classText k ≠ c'.functionText i f := by
  refine ⟨fun k hk k' hk' => ?_, fun f hf f' hf' i i' => ?_, fun k _ f _ i => ?_⟩
  · rw [classText_eq, classText_eq]
    refine ⟨ClassFacts.text_inj ?_ ?_, congrArg ClassFacts.text⟩
    · exact colon_notMem_classFacts h k hk
    · exact colon_notMem_classFacts h' k' hk'
  · rw [functionText_eq, functionText_eq]
    obtain ⟨hname, hparameters⟩ := colon_notMem_functionFacts h i f hf
    obtain ⟨hname', hparameters'⟩ := colon_notMem_functionFacts h' i' f' hf'
    exact ⟨FunctionFacts.text_inj hname hname' hparameters hparameters',
      congrArg FunctionFacts.text⟩
  · rw [classText_eq, functionText_eq]
    exact ClassFacts.text_ne _ _

/-- The result at the catalog of a module: its class is not described like its functions. -/
theorem descriptions_faithful_pairModule :
    ∃ c, recorded true [] [(⟨"", ["a.py"]⟩, "", pairModule)] = .ok c ∧
      (c.classes.length, c.functions.length) = (1, 2) ∧
      ∀ k ∈ c.classes, ∀ f ∈ c.functions, ∀ i, c.classText k ≠ c.functionText i f := by
  obtain ⟨c, h, hlength⟩ : ∃ c, recorded true [] [(⟨"", ["a.py"]⟩, "", pairModule)] = .ok c ∧
      (c.classes.length, c.functions.length) = (1, 2) := ⟨_, rfl, rfl⟩
  exact ⟨c, h, hlength, (descriptions_faithful h h).2.2⟩

end Catalog

end CodeAtlas
