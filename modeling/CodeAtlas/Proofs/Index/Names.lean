import CodeAtlas.Proofs.Index.Reading

/-!
# The names of a skeleton are in use

The numbers that an entity puts into its row, its decorators and its type hints are those of all
names that it brings (`Listed.references_eq`).
-/

namespace CodeAtlas.Index

open List Table

variable {x : Listed}

def Hints.references (h : Hints) : List Nat :=
  h.params.flatMap (fun ij => [ij.1, ij.2]) ++ h.returns.toList

/-- The names that the rows, decorators and hints of a skeleton refer to. -/
def Skeleton.references (s : Skeleton) : List Nat :=
  s.modules.map (·.name) ++ s.classes.flatMap (fun e => e.name :: e.bases)
    ++ s.functions.map (·.name) ++ s.imports.map (·.name)
    ++ s.decorators.flatMap (·.2) ++ s.hints.flatMap (·.2.references)

namespace Listed

variable {s : Skeleton}

def references (x : Listed) (s : Skeleton) : List Nat :=
  (x.moduleRows s).map (·.name) ++ (x.classRows s).flatMap (fun e => e.name :: e.bases)
    ++ (x.functionRows s).map (·.name) ++ (x.importRows s).map (·.name)
    ++ (x.decoratorEntry s).getD [] ++ ((x.hintEntry s).map Hints.references).getD []

lemma decoratorEntry_getD :
    (x.decoratorEntry s).getD [] = ((s.names.addAll x.rowNames).1.addAll x.decorators).2 := by
  unfold decoratorEntry
  by_cases h : x.decorators = [] <;> simp [h, Table.addAll]

lemma hintEntry_getD : ((x.hintEntry s).map Hints.references).getD [] =
      ((s.names.addAll (x.rowNames ++ x.decorators)).1.addAll x.hintNames).2 := by
  unfold hintEntry hintNames
  rcases x.hints? with _ | h
  · rfl
  · simp [Hints.references, addPairs_snd, add?_snd, addAll_append_snd,
      addPairs_fst]

/-- An entity refers to all names that it brings. -/
lemma references_eq : x.references s = (s.names.addAll x.names).2 := by
  have hrow : (x.moduleRows s).map (·.name) ++ (x.classRows s).flatMap (fun e => e.name :: e.bases)
      ++ (x.functionRows s).map (·.name) ++ (x.importRows s).map (·.name) =
        (s.names.addAll x.rowNames).2 := by
    obtain ⟨path, entity⟩ := x
    cases entity <;>
      simp [moduleRows, classRows, functionRows, importRows, rowNames, Table.addAll]
  rw [references, hrow, decoratorEntry_getD, hintEntry_getD, names, addAll_append_snd,
    addAll_append_snd]

end Listed

namespace Skeleton

variable {r : List Listed} {s : Skeleton}

lemma flatMap_elim_put {α : Type} {k : Keyed Int α} {l : Int} (hfresh : k.get? l = none)
    (entry : Option α)
    (refs : α → List Nat) : (entry.elim k (k.put l ·)).flatMap (fun e => refs e.2) =
      k.flatMap (fun e => refs e.2) ++ (entry.map refs).getD [] := by
  rcases entry with _ | a
  · simp
  · rw [Option.elim_some, Keyed.put_of_notMem ((Keyed.get?_eq_none_iff _ _).mp hfresh)]
    simp

lemma Faithful.mem_references_record (h : Faithful r s) {i : Nat} :
    i ∈ (s.record x).references ↔ i ∈ s.references ∨ i ∈ x.references s := by
  have hhints := flatMap_elim_put h.hints_fresh (x.hintEntry s) Hints.references
  have hdecorators := flatMap_elim_put h.decorators_fresh (x.decoratorEntry s) fun is => is
  rw [Option.map_id'] at hdecorators
  simp only [references, Listed.references, record_eq, hhints, hdecorators, map_append,
    flatMap_append, mem_append]
  grind only

lemma mem_references_foldl_record (r : List Listed) :
    ∀ i < (r.foldl Skeleton.record {}).names.size, i ∈ (r.foldl Skeleton.record {}).references := by
  induction r using reverseRecOn with
  | nil => simp [Table.size]
  | append_singleton r x ih =>
    intro i hi
    rw [foldl_concat, names_record] at hi
    rw [foldl_concat, (faithful_foldl_record r).mem_references_record, Listed.references_eq]
    rcases lt_size_addAll _ hi with h | h
    · exact Or.inl (ih i h)
    · exact Or.inr h

lemma nodup_names_foldl_record (r : List Listed) :
    (r.foldl Skeleton.record {}).names.items.Nodup := by
  induction r using reverseRecOn with
  | nil => exact nodup_nil
  | append_singleton r x ih =>
    rw [foldl_concat, names_record]
    exact nodup_addAll _ ih

end Skeleton

end CodeAtlas.Index
