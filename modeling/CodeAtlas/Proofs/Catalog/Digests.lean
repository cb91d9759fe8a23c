import CodeAtlas.Proofs.Catalog.Sound

/-!
# Digests of classes and functions

On a sound catalog no reference is missing when they are described, and a digest is taken of every
text that can be encoded (`recorded_sound`).
-/

namespace CodeAtlas.Catalog

open List

variable {c : Catalog} {n : Nat}

/-! ### Texts of classes and functions, checked -/

/-- The text that describes a class, if everything it refers to is there. -/
def classText? (c : Catalog) (k : ClassRow) : Option String := do
  let name ← c.names.get? k.name
  let bases := quotedList (← k.bases.mapM c.names.get?)
  let methods := quotedList (← k.methods.mapM fun m => c.functions[m]?.bind fun r =>
    c.names.get? r.name)
  let attributes :=
    quotedList (← k.attributes.mapM fun a => c.attributes[a]?.bind fun r => c.names.get? r.name)
  return s!"class:{name}:bases:{bases}:methods:{methods}:attrs:{attributes}"

def parameterText? (c : Catalog) (p : ParameterRow) : Option String := do
  return (← c.names.get? p.name) ++ ":" ++ (← c.names.getOption? p.hint).getD "Any"

/-- The text that describes the function with a number, if everything it refers to is there. -/
def functionText? (c : Catalog) (number : Nat) (f : FunctionRow) : Option String := do
  let name ← c.names.get? f.name
  let params := quotedList (← ((c.parameters.get? number).getD []).mapM c.parameterText?)
  let returns := (← c.names.getOption? f.returns).getD "None"
  return s!"func:{name}:params:{params}:return:{returns}"

/-- The texts of all classes and functions, if everything they refer to is there. -/
def objectTexts? (c : Catalog) : Option (List (String × String)) := do
  let classes ← c.classes.zipIdx.mapM fun k => (c.classText? k.1).map (s!"c{k.2}", ·)
  let functions ← c.functions.zipIdx.mapM fun f => (c.functionText? f.2 f.1).map (s!"f{f.2}", ·)
  return classes ++ functions

/-! ### No check fails -/

lemma get?_names {i : Nat} (h : i < c.names.size) : c.names.get? i = some (c.nameAt i) := by
  have hget : c.names.get? i = some (c.names.items[i]) := getElem?_eq_getElem h
  rw [nameAt, hget, Option.getD_some]

lemma getOption?_names {o : Option Nat} (h : ∀ i ∈ o.toList, i < c.names.size) :
    c.names.getOption? o = some (o.map c.nameAt) := by
  cases o with
  | none => rfl
  | some i => simp [Table.getOption?, get?_names (h i (by simp))]

lemma mapM_members {α : Type} {rows : List α} {name : α → Nat}
    (hrows : ∀ r ∈ rows, name r < c.names.size) {is : List Nat} (his : ∀ i ∈ is, i < rows.length) :
    (is.mapM fun i => rows[i]?.bind fun r => c.names.get? (name r)) =
      some (is.filterMap fun i => rows[i]?.map fun r => c.nameAt (name r)) := by
  induction is with
  | nil => rfl
  | cons i is ih =>
    have hi := his i mem_cons_self
    have hname := get?_names (hrows _ (getElem_mem hi))
    have hrow : rows[i]? = some rows[i] := getElem?_eq_getElem hi
    simp only [mapM_cons, hrow, Option.bind_some, hname,
      ih fun j hj => his j (mem_cons_of_mem _ hj),
      filterMap_cons, Option.map_some, Option.bind_eq_bind, Option.pure_def]

lemma Sound.described_lt (hc : c.Sound n) : (∀ r ∈ c.classes, ∀ i ∈ r.nameRefs, i < c.names.size) ∧
      (∀ r ∈ c.functions, ∀ i ∈ r.nameRefs, i < c.names.size) ∧
      (∀ e ∈ c.parameters, ∀ r ∈ e.2, ∀ i ∈ r.nameRefs, i < c.names.size) ∧
      ∀ r ∈ c.attributes, ∀ i ∈ r.nameRefs, i < c.names.size := by
  have h := hc.nameRefs_lt
  simp only [nameRefs, forall_mem_append, forall_mem_flatMap] at h
  obtain ⟨⟨⟨⟨⟨⟨-, hclasses⟩, hfunctions⟩, hparameters⟩, hattributes⟩, -⟩, -⟩ := h
  exact ⟨hclasses, hfunctions, hparameters, hattributes⟩

lemma Sound.classText?_eq (hc : c.Sound n) {k : ClassRow} (hk : k ∈ c.classes) :
    c.classText? k = some (c.classText k) := by
  obtain ⟨hclasses, hfunctions, -, hattributes⟩ := hc.described_lt
  have hrefs := hclasses k hk
  have hname : c.names.get? k.name = some (c.nameAt k.name) := get?_names (hrefs _ mem_cons_self)
  have hbases : k.bases.mapM c.names.get? = some (k.bases.map c.nameAt) :=
    mapM_eq_some_map fun b hb => get?_names (hrefs b (mem_cons_of_mem _ hb))
  have hmethods : ∀ m ∈ k.methods, m < c.functions.length := fun m hm =>
    hc.functionRefs_lt m (by
      rw [functionRefs, append_assoc]
      exact mem_append_left _ (mem_flatMap.mpr ⟨k, hk, hm⟩))
  have hmembers : ∀ a ∈ k.attributes, a < c.attributes.length := fun a ha =>
    hc.attributeRefs_lt a (mem_flatMap.mpr ⟨k, hk, ha⟩)
  have hfunctionNames := mapM_members (fun r hr => hfunctions r hr r.name mem_cons_self) hmethods
  have hattributeNames := mapM_members (fun r hr => hattributes r hr r.name mem_cons_self) hmembers
  simp only [classText?, hname, hbases, hfunctionNames, hattributeNames, Option.bind_eq_bind,
    Option.bind_some, Option.pure_def]
  rfl

lemma Sound.functionText?_eq (hc : c.Sound n) {f : FunctionRow} (hf : f ∈ c.functions) (i : Nat) :
    c.functionText? i f = some (c.functionText i f) := by
  obtain ⟨-, hfunctions, hparameters, -⟩ := hc.described_lt
  have hrefs := hfunctions f hf
  have hname : c.names.get? f.name = some (c.nameAt f.name) := get?_names (hrefs _ mem_cons_self)
  have hreturns : c.names.getOption? f.returns = some (f.returns.map c.nameAt) :=
    getOption?_names fun j hj => hrefs j (mem_cons_of_mem _ (mem_append_right _ hj))
  have hrows : ∀ p ∈ (c.parameters.get? i).getD [], ∀ j ∈ p.nameRefs, j < c.names.size := by
    cases hget : c.parameters.get? i with
    | none => simp
    | some rows => exact fun p hp => hparameters _ (Keyed.mem_of_get? hget) p hp
  have hparams : ((c.parameters.get? i).getD []).mapM c.parameterText? =
      some (((c.parameters.get? i).getD []).map fun p =>
        c.nameAt p.name ++ ":" ++ (p.hint.map c.nameAt).getD "Any") := by
    refine mapM_eq_some_map fun p hp => ?_
    have hp' := hrows p hp
    have hhint : c.names.getOption? p.hint = some (p.hint.map c.nameAt) :=
      getOption?_names fun j hj => hp' j (mem_cons_of_mem _ (mem_append_left _ hj))
    simp only [parameterText?, get?_names (hp' _ mem_cons_self), hhint, Option.bind_eq_bind,
      Option.bind_some, Option.pure_def]
  simp only [functionText?, hname, hparams, hreturns, Option.bind_eq_bind, Option.bind_some,
    Option.pure_def]
  rfl

lemma Sound.objectTexts?_eq (hc : c.Sound n) : c.objectTexts? = some c.objectTexts := by
  have hclasses : c.classes.zipIdx.mapM (fun k => (c.classText? k.1).map (s!"c{k.2}", ·)) =
      some (c.classes.zipIdx.map fun k => (s!"c{k.2}", c.classText k.1)) :=
    mapM_eq_some_map fun k hk =>
      by rw [hc.classText?_eq (fst_mem_of_mem_zipIdx hk), Option.map_some]
  have hfunctions :
      c.functions.zipIdx.mapM (fun f => (c.functionText? f.2 f.1).map (s!"f{f.2}", ·)) =
        some (c.functions.zipIdx.map fun f => (s!"f{f.2}", c.functionText f.2 f.1)) :=
    mapM_eq_some_map fun f hf =>
      by rw [hc.functionText?_eq (fst_mem_of_mem_zipIdx hf), Option.map_some]
  rw [objectTexts?, hclasses, hfunctions]
  rfl

/-- **The tables of a catalog fit together in every state between modules,** whatever modules were
recorded and however often a path came: no text and no file stands twice, every reference is in
range, classes list exactly their members in order, parameters are kept for the functions that have
them, and every location was given out once. So no reference is missing when classes and functions
are digested, and their digests can be taken exactly if their names and the texts of what functions
return can be encoded. -/
theorem recorded_sound {docs : Bool} {texts : List String}
    {ms : List (Path × String × Syntax.Module)} {c : Catalog} (h : recorded docs texts ms = .ok c) :
    c.Sound c.classes.length ∧ c.objectTexts? = some c.objectTexts ∧ ∀ length,
      (c.isDigestible = true → c.addObjectHashes length = .ok (c.withObjectHashes length)) ∧
      (c.isDigestible = false → ∃ fault, c.addObjectHashes length = .error fault) := by
  have hsound : c.Sound c.classes.length :=
    invariant_recorded (P := fun _ c => c.Sound c.classes.length)
      (sound_empty.renames (renames_addNames _ texts)) (fun _ _ _ hc => hc.addModule _ _ _ _) h
  refine ⟨hsound, hsound.objectTexts?_eq, fun length =>
    ⟨fun hc => addObjectHashes_eq_ok_iff.mpr ⟨hc, rfl⟩, fun hc => ?_⟩⟩
  rcases hhashes : c.addObjectHashes length with fault | c'
  · exact ⟨fault, rfl⟩
  · exact absurd (addObjectHashes_eq_ok_iff.mp hhashes).1 (Bool.eq_false_iff.mp hc)

/-- A module with a class and a function, each with a parameter. -/
def pairModule : Syntax.Module :=
  let own : Syntax.Param := ⟨"own", some (.constant (.str "ß" false)), rfl⟩
  let head : Syntax.FunctionHead := ⟨"pair", false, { regular := [own] }, [], none, rfl⟩
  ⟨[.classDef ⟨1, 2⟩ ⟨"Pair", [], [], rfl⟩ [.function ⟨2, 2⟩ head []], .function ⟨3, 3⟩ head []]⟩

/-- The result at that module. -/
theorem recorded_sound_pairModule :
    ∃ c, recorded true [] [(⟨"", ["a.py"]⟩, "", pairModule)] = .ok c ∧
    c.Sound c.classes.length ∧ c.addObjectHashes 16 = .ok (c.withObjectHashes 16) := by
  have hrows : (recorded true [] [(⟨"", ["a.py"]⟩, "", pairModule)]).toOption.map isDigestible =
      some true := by decide +kernel
  obtain ⟨c, hc, hdigestible⟩ := Option.map_eq_some_iff.mp hrows
  have hok := ok_of_toOption hc
  obtain ⟨hsound, -, hhashes⟩ := recorded_sound hok
  exact ⟨c, hok, hsound, (hhashes 16).1 hdigestible⟩

/-- A function that returns half of a surrogate pair: its text cannot be encoded. -/
theorem surrogate_not_digested : ∃ m c fault,
    Syntax.parseModule? "def f() -> '\\ud800': pass\n".toList = some m ∧
      recorded true [] [(⟨"", ["a.py"]⟩, "", m)] = .ok c ∧ c.addObjectHashes 16 = .error fault := by
  have hrows : (Syntax.parseModule? "def f() -> '\\ud800': pass\n".toList).bind (fun m =>
      ((recorded true [] [(⟨"", ["a.py"]⟩, "", m)]).toOption.map isDigestible)) = some false := by
    decide +kernel
  obtain ⟨m, hm, hrows⟩ := Option.bind_eq_some_iff.mp hrows
  obtain ⟨c, hc, hdigestible⟩ := Option.map_eq_some_iff.mp hrows
  rcases hhashes : c.addObjectHashes 16 with fault | c'
  · exact ⟨m, c, fault, hm, ok_of_toOption hc, hhashes⟩
  · exact absurd (addObjectHashes_eq_ok_iff.mp hhashes).1 (Bool.eq_false_iff.mp hdigestible)

end CodeAtlas.Catalog
