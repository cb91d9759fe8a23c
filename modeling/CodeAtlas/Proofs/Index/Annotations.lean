import CodeAtlas.Proofs.Index.Fidelity
import CodeAtlas.Proofs.Outline

/-!
# Annotations of parameters

Parameters of all five kinds can be annotated, but the type hints of an atlas come from one kind
only (`Project.annotations_listed_iff`).
-/

namespace CodeAtlas

open List Syntax Outline

namespace Syntax

def Signature.parameters (s : Signature) : List Param :=
  s.posOnly ++ s.regular ++ s.varArg.toList ++ s.kwOnly ++ s.kwArg.toList

/-- The name of a parameter that is annotated, and the text of its annotation, if that can be
written out. -/
def Param.annotation? (p : Param) : Option (String × Option String) :=
  p.hint.map fun e => (p.name, e.source.toOption)

def Signature.annotations (s : Signature) : List (String × Option String) :=
  s.parameters.filterMap Param.annotation?

/-- Regular parameters alone are annotated, and their annotations have texts. -/
def Signature.AnnotatesRegular (s : Signature) : Prop :=
  (∀ p ∈ s.posOnly ++ s.varArg.toList ++ s.kwOnly ++ s.kwArg.toList, p.hint = none) ∧
    ∀ p ∈ s.regular, ∀ e, p.hint = some e → hintText e ≠ ""

/-- The functions that an atlas lists of a module: the methods of its classes, and then those at its
top. -/
def Module.functionDefs (m : Module) : List (Span × FunctionHead × List Stmt) :=
  (Outline.classDefs m.body).flatMap (fun d => Outline.functionDefs d.2.2) ++
    Outline.functionDefs m.body

end Syntax

namespace Index

/-- The parameters in the type hints of a function; there are none if it has no hints. -/
def listedHints (hints : Option HintReading) : List (String × Option String) :=
  (hints.elim [] (·.params)).map fun h => (h.1, some h.2)

def listedHint? (p : Param) : Option (String × Option String) :=
  (present? (p.hint.map hintText)).map fun t => (p.name, some t)

lemma listedHints_hintReading (cs : List Comment) (span : Span) (head : FunctionHead)
    (body : List Stmt) :
    listedHints (hintReading (functionOutline cs span head body)) =
      head.signature.regular.filterMap listedHint? := by
  have hparams : (hintReading (functionOutline cs span head body)).elim [] (·.params) =
      Atlas.hintedParameters (functionOutline cs span head body) := by
    unfold hintReading
    split
    · exact hintedParameters_eq.symm
    · next h =>
      rw [Atlas.hintedParameters, not_not.mp (not_or.mp h).1]
      rfl
  unfold listedHints
  rw [hparams, Atlas.hintedParameters, functionOutline, filterMap_map, map_filterMap]
  congr 1
  funext p
  simp [listedHint?, Function.comp_def]

/-! ### Annotations and hints -/

lemma annotation?_of_listedHint? {p : Param} {x : String × Option String}
    (h : listedHint? p = some x) : p.annotation? = some x := by
  obtain ⟨t, ht, rfl⟩ := Option.map_eq_some_iff.mp h
  obtain ⟨htext, hfull⟩ := Option.filter_eq_some_iff.mp ht
  obtain ⟨e, he, rfl⟩ := Option.map_eq_some_iff.mp htext
  rcases hsource : e.source.toOption with _ | t
  · simp [hintText, hsource] at hfull
  · simp [Param.annotation?, he, hintText, hsource]

lemma listedHint?_eq_iff (p : Param) :
    listedHint? p = p.annotation? ↔ ∀ e, p.hint = some e → hintText e ≠ "" := by
  rcases hp : p.hint with _ | e
  · simp [listedHint?, Param.annotation?, present?, hp]
  · by_cases hempty : hintText e = ""
    · simp [listedHint?, Param.annotation?, present?, hp, hempty]
    · have hlisted : listedHint? p = some (p.name, some (hintText e)) := by
        simp [listedHint?, present?, hp, hempty]
      simp [hlisted, annotation?_of_listedHint? hlisted, hempty]

lemma filterMap_listedHint?_sublist (ps : List Param) :
    (ps.filterMap listedHint?).Sublist (ps.filterMap Param.annotation?) := by
  induction ps with
  | nil => exact .slnil
  | cons p ps ih =>
    rcases hp : listedHint? p with _ | x
    · rw [filterMap_cons_none hp]
      exact ih.trans ((sublist_cons_self p ps).filterMap _)
    · rw [filterMap_cons_some hp, filterMap_cons_some (annotation?_of_listedHint? hp)]
      exact ih.cons_cons x

lemma filterMap_listedHint?_eq_iff (ps : List Param) :
    ps.filterMap listedHint? = ps.filterMap Param.annotation? ↔ ∀ p ∈ ps,
      listedHint? p = p.annotation? := by
  refine ⟨fun h => ?_, filterMap_congr⟩
  induction ps with
  | nil => simp
  | cons p ps ih =>
    rcases hp : listedHint? p with _ | x
    · rcases ha : p.annotation? with _ | y
      · rw [filterMap_cons_none hp, filterMap_cons_none ha] at h
        exact forall_mem_cons.mpr ⟨hp.trans ha.symm, ih h⟩
      · -- an annotation without a text is missing from the list, which is then too short
        rw [filterMap_cons_none hp, filterMap_cons_some ha] at h
        have hle := (filterMap_listedHint?_sublist ps).length_le
        rw [h, length_cons] at hle
        omega
    · have ha := annotation?_of_listedHint? hp
      rw [filterMap_cons_some hp, filterMap_cons_some ha, List.cons.injEq] at h
      exact forall_mem_cons.mpr ⟨hp.trans ha.symm, ih h.2⟩

lemma listedHints_sublist (s : Signature) :
    (s.regular.filterMap listedHint?).Sublist s.annotations := by
  have hregular : s.regular.Sublist s.parameters := by
    simp only [Signature.parameters, append_assoc]
    exact (sublist_append_left _ _).trans (sublist_append_right _ _)
  exact (filterMap_listedHint?_sublist _).trans (hregular.filterMap _)

lemma listedHints_eq_annotations_iff (s : Signature) :
    s.regular.filterMap listedHint? = s.annotations ↔ s.AnnotatesRegular := by
  have hnone : ∀ ps : List Param, ps.filterMap Param.annotation? = [] ↔
      ∀ p ∈ ps, p.hint = none := by
    simp [Param.annotation?, filterMap_eq_nil_iff]
  simp only [Signature.AnnotatesRegular, ← listedHint?_eq_iff, ← filterMap_listedHint?_eq_iff,
    ← hnone, Signature.annotations, Signature.parameters, filterMap_append, append_eq_nil_iff]
  constructor
  · intro h
    -- the hints are no more than the annotations of regular parameters, so there are no others
    have hle := (filterMap_listedHint?_sublist s.regular).length_le
    have hlength := congrArg List.length h
    simp only [length_append] at hlength
    have hrest : ((s.posOnly.filterMap Param.annotation? = [] ∧
        s.varArg.toList.filterMap Param.annotation? = []) ∧
          s.kwOnly.filterMap Param.annotation? = []) ∧
        s.kwArg.toList.filterMap Param.annotation? = [] := by
      simp only [eq_nil_iff_length_eq_zero]
      omega
    refine ⟨hrest, ?_⟩
    simpa [hrest.1.1.1, hrest.1.1.2, hrest.1.2, hrest.2] using h
  · rintro ⟨⟨⟨⟨hpos, hvar⟩, hkw⟩, hrest⟩, h⟩
    simp [hpos, hvar, hkw, hrest, h]

/-! ### The rows of an atlas -/

lemma functions_ofModule (path : Path) (source : List Char) (m : Module) :
    (ofModule path source m).classes.flatMap (·.methods) ++ (ofModule path source m).functions =
      m.functionDefs.map fun d => functionOutline (comments source) d.1 d.2.1 d.2.2 := by
  simp only [ofModule, classes_eq, functions, topLevel_eq, functionsIn_eq, classOutline,
    Module.functionDefs, flatMap_map, map_append, map_flatMap]

lemma Atlas.readFunction_ofFiles (files : List (String × Outline.File)) :
    (ofFiles files).skeleton.functions.map (ofFiles files).skeleton.readFunction =
      (files.flatMap fun pf => (pf.2.classes.flatMap (·.methods) ++ pf.2.functions).map
        (functionReading (Skeleton.fileName pf.1))).map some := by
  have howned := congrArg (List.map (Option.map Prod.snd))
    (Skeleton.map_read_of_shows (faithful_ofFiles files).functions)
  have hroll : (roll files).filterMap (fun x => x.function?.map Prod.snd) =
      files.flatMap fun pf => (pf.2.classes.flatMap (·.methods) ++ pf.2.functions).map
        (functionReading (Skeleton.fileName pf.1)) := by
    refine filterMap_rollFrom (g := fun path f => (f.classes.flatMap (·.methods) ++ f.functions).map
      (functionReading (Skeleton.fileName path))) (fun path f k => ?_) files 0
    simp only [filterMap_fileRoll, Listed.function?, Option.map_none, Option.map_some,
      Option.toList_none,
      nil_append, filterMap_none, append_nil, map_append, map_flatMap, filterMap_eq_map']
    rw [flatMap_zipIdx_fst f.classes fun c =>
      c.methods.map (functionReading (Skeleton.fileName path))]
  rw [located_snd] at howned
  rw [← hroll, ← map_filterMap]
  simpa [Skeleton.readOwned, Function.comp_def] using howned

end Index

namespace Project

open Index

/-- The rows of an atlas for the functions of a project, as they stand in its files. A row has the
name of its function, and the type hints that it leads to are annotations of the signature, in
order. They are all of them exactly if regular parameters alone are annotated, and the annotations
have texts. -/
theorem annotations_listed_iff (p : Project) (files : List (Path × List Char × Module)) :
    let s := (p.atlas (files.map fun f => ofModule f.1 f.2.1 f.2.2)).skeleton
    Forall₂ (fun e d => s.names.get? e.name = some d.2.1.name ∧
        ∃ hints, s.readHints e.location = some hints ∧
          (listedHints hints).Sublist d.2.1.signature.annotations ∧
          (listedHints hints = d.2.1.signature.annotations ↔ d.2.1.signature.AnnotatesRegular))
      s.functions (files.flatMap fun f => f.2.2.functionDefs) := by
  intro s
  let defs := files.flatMap fun f => f.2.2.functionDefs.map (f, ·)
  have hdefs : files.flatMap (fun f => f.2.2.functionDefs) = defs.map Prod.snd := by
    simp [defs, map_flatMap, Function.comp_def]
  have hrows : s.functions.map s.readFunction = defs.map fun x =>
      some (functionReading (Skeleton.fileName (p.inside (Path.ofString x.1.1.text)))
        (functionOutline (comments x.1.2.1) x.2.1 x.2.2.1 x.2.2.2)) := by
    refine (Atlas.readFunction_ofFiles _).trans ?_
    simp only [defs, flatMap_map, map_flatMap, map_map, Function.comp_def, functions_ofModule]
    rfl
  rw [← forall₂_eq_eq_eq, forall₂_map_left_iff, forall₂_map_right_iff] at hrows
  rw [hdefs, forall₂_map_right_iff]
  refine hrows.imp fun e x hread => ?_
  obtain ⟨hname, -, hhints, -⟩ := Skeleton.readFunction_eq_some_iff.mp hread
  refine ⟨hname, _, hhints, ?_⟩
  rw [functionReading, listedHints_hintReading]
  exact ⟨listedHints_sublist _, listedHints_eq_annotations_iff _⟩

/-- Where a function takes the rest of its arguments, the annotation of these is not listed. -/
theorem rest_annotation_not_listed : let source := "def f(a: int, *b: str): pass\n".toList
    let p : Project := { path := ⟨"/", ["p"]⟩, output := ⟨"/", ["o"]⟩ }
    (parseModule? source).map (fun m => m.functionDefs.flatMap (·.2.1.signature.annotations)) =
        some [("a", some "int"), ("b", some "str")] ∧
      (parseModule? source).map (fun m =>
        let s := (p.atlas [ofModule ⟨"/", ["p", "a.py"]⟩ source m]).skeleton
        s.functions.flatMap fun e => (s.readHints e.location).elim [] listedHints) =
          some [("a", some "int")] := by
  decide +kernel

end Project

end CodeAtlas
