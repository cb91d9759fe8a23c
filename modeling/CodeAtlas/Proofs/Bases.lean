import CodeAtlas.Proofs.Survey

/-!
# Base classes

Both indexes tell base classes by name and pass over all that is neither a name nor an attribute
(`bases_told_iff`).
-/

namespace CodeAtlas

open List Syntax

variable {e value : Expr} {t : String} {attr : String}

namespace Syntax.Expr

/-- Whether an expression is a name, or an attribute of whatever it is. -/
def isReference : Expr → Bool
  | .name _ | .attribute .. => true
  | _ => false

/-- Whether an expression is a name with any number of dots. -/
def isDotted : Expr → Bool
  | .name _ => true
  | .attribute value _ => value.isDotted
  | _ => false

def isName : Expr → Bool
  | .name _ => true
  | _ => false

/-- Whether an expression is a name with at most one dot. -/
def isShort : Expr → Bool
  | .name _ => true
  | .attribute value _ => value.isName
  | _ => false

/-- A text is that of an expression, or else what stands behind a dot at the end of it. -/
def ToldBy (e : Expr) (whole : Bool) (t : String) : Prop :=
  if whole then e.source = .ok t else ∀ s, e.source = .ok s → ∃ front, s = front ++ ("." ++ t)

end Syntax.Expr

/-- What `told` says of base classes, of which those in `full` are told in full. -/
structure TellsBases (full : Expr → Bool) (bases : List Expr) (told : List String) : Prop where
  /-- None is lost exactly if all are names or attributes. -/
  all_iff : told.length = bases.length ↔ ∀ e ∈ bases, e.isReference
  /-- Names and attributes are told in order, each by its text or by the end of it. -/
  named : Forall₂ (fun e t => e.ToldBy (full e) t) (bases.filter Expr.isReference) told
  /-- All are told by their texts exactly if they are of the right form. -/
  full_iff : told.map some = bases.map (·.source.toOption) ↔ ∀ e ∈ bases, full e

/-! ### Texts of names -/

/-- Between an attribute and its dot there is nothing, unless it is one of a number. -/
lemma exists_source_attribute (attr : String) :
    ∃ gap, (value.isReference → gap = "" ∧ value.render false Rank.atom = value.source) ∧
      (Expr.attribute value attr).source =
        value.render false Rank.atom >>= fun v => .ok (v ++ gap ++ "." ++ attr) := by
  refine ⟨_, fun h => ?_, rfl⟩
  cases value with
  | name id => exact ⟨rfl, rfl⟩
  | «attribute» inner a => exact ⟨rfl, rfl⟩
  | _ => cases h

lemma source_attribute_of_isReference (h : value.isReference) :
    (Expr.attribute value attr).source = value.source >>= fun v => .ok (v ++ ("." ++ attr)) := by
  obtain ⟨gap, hgap, hsource⟩ := exists_source_attribute attr
  obtain ⟨rfl, hrender⟩ := hgap h
  simp only [hsource, hrender, String.append_empty, String.append_assoc]

lemma toldBy_attribute : (Expr.attribute value attr).ToldBy false attr := by
  obtain ⟨gap, -, hsource⟩ := exists_source_attribute attr
  intro s hs
  rw [hsource] at hs
  rcases hv : value.render false Rank.atom with f | v <;> rw [hv] at hs
  · cases hs
  · exact ⟨v ++ gap, by rw [← Except.ok.inj hs, String.append_assoc]⟩

namespace Outline

lemma dottedName_attribute (h : value.isReference) :
    dottedName (.attribute value attr) = dottedName value ++ ("." ++ attr) := by
  have hne : dottedParts value ≠ [] := by
    cases value <;> simp_all [dottedParts, Expr.isReference]
  unfold dottedName
  rw [dottedParts, String.intercalate_append_of_ne_nil hne (cons_ne_nil _ _),
    String.intercalate_singleton, String.append_assoc]

lemma toldBy_dottedName : (e : Expr) → e.isReference → e.ToldBy e.isDotted (dottedName e)
  | .name id, _ => congrArg Except.ok String.intercalate_singleton.symm
  | .attribute value attr, _ => by
    by_cases h : value.isReference
    · have ih := toldBy_dottedName value h
      rw [dottedName_attribute h, Expr.isDotted, Expr.ToldBy, source_attribute_of_isReference h]
      cases hdotted : value.isDotted with
      | true =>
        rw [hdotted, Expr.ToldBy, if_pos rfl] at ih
        rw [if_pos rfl, ih]
        rfl
      | false =>
        rw [hdotted, Expr.ToldBy, if_neg Bool.false_ne_true] at ih
        rw [if_neg Bool.false_ne_true]
        intro s hs
        rcases hv : value.source with f | v <;> rw [hv] at hs
        · cases hs
        · obtain ⟨front, rfl⟩ := ih v hv
          exact ⟨front, by rw [← Except.ok.inj hs]; simp only [String.append_assoc]⟩
    · have hparts : dottedParts value = [] := by
        cases value <;> simp_all [dottedParts, Expr.isReference]
      have hdotted : value.isDotted = false := by
        cases value <;> simp_all [Expr.isDotted, Expr.isReference]
      have hname : dottedName (.attribute value attr) = attr := by
        rw [dottedName, dottedParts, hparts]
        exact String.intercalate_singleton
      rw [hname, Expr.isDotted, hdotted]
      exact toldBy_attribute

lemma isSome_baseName? (e : Expr) : (baseName? e).isSome = e.isReference := by cases e <;> rfl

lemma toldBy_baseName? (h : baseName? e = some t) : e.ToldBy e.isDotted t := by
  have href : e.isReference := by rw [← isSome_baseName?, h]; rfl
  cases e with
  | name id => exact Option.some.inj h ▸ rfl
  | «attribute» value attr => exact Option.some.inj h ▸ toldBy_dottedName _ href
  | _ => cases href

end Outline

namespace Catalog

lemma isSome_baseName? (e : Expr) : (baseName? e).isSome = e.isReference := by
  cases e with
  | «attribute» value attr => cases value <;> rfl
  | _ => rfl

lemma toldBy_baseName? (h : baseName? e = some t) : e.ToldBy e.isShort t := by
  cases e with
  | name id => exact Option.some.inj h ▸ rfl
  | «attribute» value attr =>
    cases value with
    | name base =>
      rw [← Option.some.inj h, Expr.isShort, Expr.isName, Expr.ToldBy, if_pos rfl,
        source_attribute_of_isReference rfl, String.append_assoc]
      rfl
    | _ => exact Option.some.inj h ▸ toldBy_attribute
  | _ => cases h

end Catalog

/-! ### All bases of a class -/

lemma Syntax.Expr.ToldBy.source_iff {whole : Bool} (h : e.ToldBy whole t) :
    e.source.toOption = some t ↔ whole := by
  cases whole with
  | true =>
    rw [ToldBy, if_pos rfl] at h
    simp [h, Except.toOption]
  | false =>
    rw [ToldBy, if_neg Bool.false_ne_true] at h
    rcases hs : e.source with f | s
    · simp [Except.toOption]
    · obtain ⟨front, rfl⟩ := h s hs
      simp only [Except.toOption, Option.some.injEq, Bool.false_eq_true, iff_false]
      intro heq
      have hlength := congrArg String.length heq
      simp only [String.length_append, show ".".length = 1 from rfl] at hlength
      omega

lemma forall₂_filter_filterMap {α β : Type} {R : α → β → Prop} {f : α → Option β} {p : α → Bool}
    (hsome : ∀ a, (f a).isSome = p a) (hR : ∀ a b, f a = some b → R a b) (as : List α) :
    Forall₂ R (as.filter p) (as.filterMap f) := by
  induction as with
  | nil => exact .nil
  | cons a as ih =>
    rcases ha : f a with _ | b
    · rw [filterMap_cons_none ha, filter_cons_of_neg (by simp [← hsome, ha])]
      exact ih
    · rw [filterMap_cons_some ha, filter_cons_of_pos (by simp [← hsome, ha])]
      exact .cons (hR a b ha) ih

lemma tellsBases_filterMap {full : Expr → Bool} {name? : Expr → Option String}
    (hsome : ∀ e, (name? e).isSome = e.isReference) (hfull : ∀ e, full e → e.isReference)
    (htold : ∀ e t, name? e = some t → e.ToldBy (full e) t) (bases : List Expr) :
    TellsBases full bases (bases.filterMap name?) where
  all_iff := by simp only [filterMap_length_eq_length, hsome]
  named := forall₂_filter_filterMap hsome htold bases
  full_iff := by
    rw [map_filterMap, filterMap_eq_map_iff_forall_eq_some]
    refine forall₂_congr fun e _ => ?_
    rcases he : name? e with _ | t
    · have hnot : ¬ full e := fun h => by simpa [← hsome, he] using hfull e h
      simp [hnot]
    · rw [Option.map_some, Option.some.injEq, eq_comm]
      exact (htold e t he).source_iff

/-- What the two indexes tell of base classes: the outline of a class, and the row of a class in the
catalog of modules. The bases that are names or attributes are told in order; so none is lost
exactly if there are no others. All are told by their texts exactly if they are dotted names, in a
catalog with one dot at most. -/
theorem bases_told_iff (docs : Bool) (texts : List String) (ms : List (Path × String × Module)) :
    (∀ cs span head body,
      TellsBases Expr.isDotted head.bases (Outline.classOutline cs span head body).bases) ∧
      ∀ c, Catalog.recorded docs texts ms = .ok c →
        Forall₂ (fun r s => ∃ told, c.names.getAll? r.bases = some told ∧
            TellsBases Expr.isShort s.head.bases told)
          c.classes
          (Catalog.classSites (Catalog.statements (ms.map fun m => (m.1.text, m.2.2)))) := by
  refine ⟨fun cs span head body => ?_, fun c hc => ?_⟩
  · refine tellsBases_filterMap Outline.isSome_baseName? (fun e he => ?_)
      (fun _ _ => Outline.toldBy_baseName?) head.bases
    cases e <;> simp_all [Expr.isDotted, Expr.isReference]
  · refine (Catalog.madeOf_recorded hc).rows.records.classes.imp fun r s hr => ⟨_, hr.bases, ?_⟩
    refine tellsBases_filterMap Catalog.isSome_baseName? (fun e he => ?_)
      (fun _ _ => Catalog.toldBy_baseName?) s.head.bases
    cases e <;> simp_all [Expr.isShort, Expr.isReference]

/-- A module with a class that has a generic base and another one. -/
def genericModule : Module :=
  ⟨[.classDef ⟨1, 1⟩ ⟨"A", [.subscript (.name "Generic") (.name "T"), .name "B"], [], rfl⟩ []]⟩

/-- The result at this module, of which there is a catalog. -/
theorem bases_told_iff_genericModule :
    ∃ c, Catalog.recorded true [] [(⟨"", ["a.py"]⟩, "", genericModule)] = .ok c ∧
      Forall₂ (fun r s => ∃ told, c.names.getAll? r.bases = some told ∧
          TellsBases Expr.isShort s.head.bases told)
        c.classes (Catalog.classSites (Catalog.statements [("a.py", genericModule)])) :=
  ⟨_, rfl, (bases_told_iff true [] [(⟨"", ["a.py"]⟩, "", genericModule)]).2 _ rfl⟩

/-- Of a generic base class neither index tells anything. -/
theorem generic_base_not_told :
    let source := "class A(Generic[T], B): pass\n".toList
    (parseModule? source).map (fun m => (Outline.classDefs m.body).map fun d =>
      d.2.1.bases.map (·.source.toOption)) =
        some [[some "Generic[T]", some "B"]] ∧
      (parseModule? source).map (fun m => (Outline.classes [] m).map (·.bases)) = some [["B"]] ∧
      (parseModule? source).bind (fun m =>
        (Catalog.recorded true [] [(⟨"", ["a.py"]⟩, "", m)]).toOption.map fun c =>
          c.classes.map fun r => c.names.getAll? r.bases) = some [some ["B"]] := by
  decide +kernel

end CodeAtlas
