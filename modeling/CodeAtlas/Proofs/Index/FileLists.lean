import CodeAtlas.Proofs.Index.Join
import CodeAtlas.Proofs.Index.NoteFiles

/-!
# The lists of files

The skeleton lists files by their spellings in the project, the places by the paths they are told
(`Project.file_lists_agree`).
-/

namespace CodeAtlas

open List

namespace Index

variable (files : List (String × Outline.File))

lemma files_places_ofFiles :
    (Atlas.ofFiles files).places.files.items = (files.map Prod.fst).eraseDups := by
  have hpaths : (roll files).zipIdx.map (·.1.path) = (roll files).map (·.path) := by
    conv_rhs => rw [← zipIdx_map_fst 0 (roll files), map_map]
    rfl
  have hdistinct : ((roll files).map (·.path)).eraseDups = (files.map Prod.fst).eraseDups :=
    eraseDups_files_rollFrom id 0 []
  rw [Atlas.places_ofFiles, ← hdistinct, ← hpaths, ← Table.items_foldl_add, foldl_map]
  exact congrArg Table.items
    (foldl_hom Places.files fun p x => (Places.files_record p x.1 x.2).symm).symm

lemma file_modules_ofFiles :
    Forall₂ (fun e pf => (Atlas.ofFiles files).skeleton.files.get? e.file =
      some (Skeleton.fileName pf.1)) (Atlas.ofFiles files).skeleton.modules files := by
  have hmodules := Atlas.readModule_ofFiles files
  rw [← forall₂_eq_eq_eq, forall₂_map_left_iff, forall₂_map_right_iff] at hmodules
  exact hmodules.imp fun e pf he => (Skeleton.readModule_eq_some_iff.mp he).2

end Index

namespace Project

open Index

/-- How the two indexes of a project list its files. The skeleton has one entry for each spelling,
in order of first appearance, and every module has the entry with the spelling of its file. So
modules share an entry exactly if their files are spelled the same. The places list the same entries
if all paths are normally spelled. Distinct files without backslashes in their paths have distinct
entries, which are those paths, in both. -/
theorem file_lists_agree (p : Project) (files : List Outline.File) : let a := p.atlas files
    a.skeleton.files.items = (files.map p.spelling).eraseDups ∧
      Forall₂ (fun e f => a.skeleton.files.get? e.file = some (p.spelling f)) a.skeleton.modules
        files ∧
      (∀ (i j : Nat) e e' f f', a.skeleton.modules[i]? = some e → a.skeleton.modules[j]? = some e' →
        files[i]? = some f → files[j]? = some f' →
        (e.file = e'.file ↔ p.spelling f = p.spelling f')) ∧
      ((∀ f ∈ files, p.inside (Path.ofString f.path) = p.spelling f) →
      a.places.files = a.skeleton.files) ∧
      ((∀ f ∈ files, '\\' ∉ (p.seen f).text.toList) → (files.map p.seen).Nodup →
        a.places.files = a.skeleton.files ∧ a.skeleton.files.items = files.map fun f =>
          (p.seen f).text) := by
  intro a
  have hskeleton : a.skeleton.files.items = (files.map p.spelling).eraseDups := by
    unfold a atlas
    rw [files_ofFiles, map_map]
    exact congrArg eraseDups (map_congr_left fun f _ => fileName_inside p f)
  have hplaces : a.places.files.items =
      (files.map fun f => p.inside (Path.ofString f.path)).eraseDups := by
    unfold a atlas
    rw [files_places_ofFiles, map_map]
    rfl
  have hmodules : Forall₂ (fun e f => a.skeleton.files.get? e.file = some (p.spelling f))
      a.skeleton.modules files := by
    refine (forall₂_map_right_iff.mp (file_modules_ofFiles _)).imp fun e f he => ?_
    rwa [fileName_inside] at he
  have hsame : (∀ f ∈ files, p.inside (Path.ofString f.path) = p.spelling f) →
      a.places.files = a.skeleton.files := by
    intro h
    have hitems : a.places.files.items = a.skeleton.files.items := by
      rw [hplaces, hskeleton, map_congr_left h]
    exact congrArg Table.mk hitems
  refine ⟨hskeleton, hmodules, fun i j e e' f f' he he' hf hf' => ?_, hsame, fun hno hnodup => ?_⟩
  · have hnumbers : a.skeleton.files.Numbers :=
      Table.numbers_of_nodup (hskeleton ▸ nodup_eraseDups _)
    have hentry : ∀ (k : Nat) e f, a.skeleton.modules[k]? = some e → files[k]? = some f →
        a.skeleton.files.get? e.file = some (p.spelling f) := by
      intro k e f he hf
      obtain ⟨h₁, rfl⟩ := List.getElem?_eq_some_iff.mp he
      obtain ⟨h₂, rfl⟩ := List.getElem?_eq_some_iff.mp hf
      exact (forall₂_iff_get.mp hmodules).2 k h₁ h₂
    exact hnumbers.eq_iff (hentry i e f he hf) (hentry j e' f' he' hf')
  · refine ⟨hsame fun f hf =>
      (inside_of_notMem (hno f hf)).1.trans (inside_of_notMem (hno f hf)).2.symm, ?_⟩
    -- a path is read back from its text, so distinct paths have distinct texts
    have htexts : (files.map fun f => (p.seen f).text).Nodup := by
      refine Nodup.of_map Path.ofString ?_
      rw [map_map]
      exact (map_congr_left fun f _ => ofString_text_seen p f) ▸ hnodup
    rw [hskeleton, map_congr_left fun f hf => (inside_of_notMem (hno f hf)).2,
      eraseDups_of_nodup htexts]

/-- Two files, one with two backslashes in its name, share an entry of the skeleton, and the places
list other entries. -/
theorem file_lists_differ : let p : Project := { path := ⟨"/", ["p"]⟩, output := ⟨"/", ["o"]⟩ }
    let files : List Outline.File := [{ path := "/p/a/b.py" }, { path := "/p/a\\\\b.py" }]
    let a := p.atlas files
    files.map (fun f => (p.seen f).text) = ["a/b.py", "a\\\\b.py"] ∧
      a.skeleton.files.items = ["a/b.py"] ∧
      a.skeleton.modules.map (·.file) = [0, 0] ∧ a.places.files.items = ["a/b.py", "a//b.py"] := by
  decide +kernel

end Project

end CodeAtlas
