import CodeAtlas.Project
import CodeAtlas.Proofs.Index.Reading
import CodeAtlas.Proofs.Path

/-!
# An atlas neither loses nor invents structure

Reading the rows of a project's skeleton gives back its files (`Project.atlas_reads_back`).
-/

namespace CodeAtlas

open List Function
open Outline (File)

variable {β : Type} {f : File} {p : Project}

namespace Index

open Skeleton (fileName)

/-! ### What is read of a roll -/

variable (what? : Listed → Option β) {k : Nat}

lemma located_snd (r : List Listed) : (located what? r).map Prod.snd = r.filterMap what? := by
  induction r using reverseRecOn with
  | nil => rfl
  | append_singleton r x ih =>
    rw [located_concat, map_append, ih, filterMap_append]
    rcases h : what? x with _ | b <;> simp [h]

lemma filterMap_fileRoll (path : String) :
    (fileRoll path f k).filterMap what? = (what? ⟨path, .module f⟩).toList ++
      (f.classes.zipIdx k).flatMap (fun ck =>
          (what? ⟨path, .class ck.1⟩).toList ++ ck.1.methods.filterMap fun g =>
            what? ⟨path, .function ck.2 g⟩)
        ++ f.functions.filterMap (fun g => what? ⟨path, .function (-1) g⟩)
        ++ f.imports.filterMap fun i => what? ⟨path, .import i⟩ := by
  have hcons : ∀ (x : Listed) (xs : List Listed),
      (x :: xs).filterMap what? = (what? x).toList ++ xs.filterMap what? := by
    intro x xs
    rcases h : what? x with _ | b <;> simp [h]
  rw [fileRoll, hcons, filterMap_append, filterMap_append, filterMap_flatMap]
  simp only [classRoll, hcons, filterMap_map, append_assoc, comp_def]

lemma filterMap_rollFrom {what? : Listed → Option β} {g : String → File → List β}
    (h : ∀ path f k, (fileRoll path f k).filterMap what? = g path f)
    (files : List (String × File))
    (k : Nat) : (rollFrom k files).filterMap what? = files.flatMap fun pf => g pf.1 pf.2 := by
  induction files generalizing k with
  | nil => rfl
  | cons pf files ih => rw [rollFrom, filterMap_append, h, ih, flatMap_cons]

lemma flatMap_zipIdx_fst {α : Type} (as : List α) (g : α → List β) :
    (as.zipIdx k).flatMap (fun ak => g ak.1) = as.flatMap g := by
  conv_rhs => rw [← zipIdx_map_fst k as, flatMap_map]

variable (files : List (String × File))

lemma filterMap_module?_roll : (roll files).filterMap Listed.module? =
      files.map fun pf => (pf.2.moduleName, fileName pf.1) := by
  rw [roll, filterMap_rollFrom (g := fun path f => [(f.moduleName, fileName path)]),
    ← map_eq_flatMap]
  intro path f k
  simp [filterMap_fileRoll, Listed.module?]

lemma filterMap_class?_roll : (roll files).filterMap Listed.class? =
      files.flatMap fun pf => pf.2.classes.map (classReading (fileName pf.1)) := by
  refine filterMap_rollFrom
    (g := fun path f => f.classes.map (classReading (fileName path))) ?_ files 0
  intro path f k
  simp only [filterMap_fileRoll, Listed.class?, Option.toList_none, Option.toList_some,
    filterMap_none, append_nil, nil_append]
  rw [flatMap_zipIdx_fst f.classes fun c => [classReading (fileName path) c], ← map_eq_flatMap]

lemma filterMap_import?_roll : (roll files).filterMap Listed.import? =
      files.flatMap fun pf => pf.2.imports.map fun i => (i.module, fileName pf.1) := by
  refine filterMap_rollFrom (g := fun path f => f.imports.map fun i => (i.module, fileName path))
    ?_ files 0
  intro path f k
  simp [filterMap_fileRoll, Listed.import?]

/-! ### Functions and their classes -/

/-- The functions of files as they are read, each with its class: the methods of every class in
order, then those at the top of the module. The first class has number `k`. -/
def functionsFrom (k : Nat) :
    List (String × File) → List (Option (Nat × ClassReading) × FunctionReading)
  | [] => []
  | (file, f) :: rest =>
    (f.classes.zipIdx k).flatMap (fun ck => ck.1.methods.map fun g =>
        (some (ck.2, classReading file ck.1), functionReading file g))
      ++ f.functions.map (fun g => (none, functionReading file g))
      ++ functionsFrom (k + f.classes.length) rest

lemma getElem?_classReadings (before : List ClassReading) {path : String}
    (files : List (String × File))
    {ck : Outline.Class × Nat} (h : ck ∈ f.classes.zipIdx before.length) :
    (before ++ ((path, f) :: files).flatMap fun pf =>
      pf.2.classes.map (classReading (fileName pf.1)))[ck.2]? =
      some (classReading (fileName path) ck.1) := by
  obtain ⟨hle, hc⟩ := mk_mem_zipIdx_iff_le_and_getElem?_sub.mp h
  have hlt : ck.2 - before.length < f.classes.length := (List.getElem?_eq_some_iff.mp hc).1
  rw [getElem?_append_right hle, flatMap_cons, getElem?_append_left (by simpa using hlt),
    getElem?_map, hc, Option.map_some]

lemma filterMap_function?_rollFrom {owner : Int → Option (Option (Nat × ClassReading))}
    {cs : List ClassReading} (hnone : owner (-1) = some none)
    (hsome : ∀ (j : Nat) (c : ClassReading), cs[j]? = some c → owner j = some (some (j, c)))
    (files : List (String × File)) (before : List ClassReading)
    (hcs : cs = before ++ files.flatMap fun pf => pf.2.classes.map (classReading (fileName pf.1))) :
    ((rollFrom before.length files).filterMap Listed.function?).map
      (fun g => (owner g.1).map (·, g.2)) =
      (functionsFrom before.length (files.map fun pf => (fileName pf.1, pf.2))).map some := by
  induction files generalizing before with
  | nil => rfl
  | cons pf files ih =>
    obtain ⟨path, f⟩ := pf
    have hmethods : ∀ ck ∈ f.classes.zipIdx before.length,
        owner (ck.2 : Int) = some (some (ck.2, classReading (fileName path) ck.1)) := fun ck hck =>
      hsome ck.2 _ (hcs ▸ getElem?_classReadings before files hck)
    have hrest := ih (before ++ f.classes.map (classReading (fileName path))) (by simp [hcs])
    rw [length_append, length_map] at hrest
    rw [rollFrom, filterMap_append, map_append, hrest, map_cons, functionsFrom,
      map_append, filterMap_fileRoll]
    congr 1
    simp only [Listed.function?, Option.toList_none, nil_append, filterMap_none,
      append_nil, map_append, map_flatMap]
    congr 1
    · refine flatMap_congr fun ck hck => ?_
      simp [hmethods ck hck]
    · simp [hnone]

namespace Atlas

/-! ### What is read of an atlas -/

variable (files : List (String × File))

lemma faithful_ofFiles : Skeleton.Faithful (roll files) (ofFiles files).skeleton := by
  rw [skeleton_ofFiles]
  exact Skeleton.faithful_foldl_record (roll files)

lemma readModule_ofFiles :
    (ofFiles files).skeleton.modules.map (ofFiles files).skeleton.readModule =
      files.map fun pf => some (pf.2.moduleName, fileName pf.1) := by
  rw [Skeleton.map_read_of_shows (faithful_ofFiles files).modules, located_snd,
    filterMap_module?_roll, map_map]
  rfl

lemma readClass_ofFiles : (ofFiles files).skeleton.classes.map (ofFiles files).skeleton.readClass =
      (files.flatMap fun pf => pf.2.classes.map (classReading (fileName pf.1))).map some := by
  rw [Skeleton.map_read_of_shows (faithful_ofFiles files).classes, located_snd,
    filterMap_class?_roll]

lemma readMember_ofFiles :
    (ofFiles files).skeleton.functions.map (ofFiles files).skeleton.readMember =
      (functionsFrom 0 (files.map fun pf => (fileName pf.1, pf.2))).map some := by
  have howned := Skeleton.map_read_of_shows (faithful_ofFiles files).functions
  rw [located_snd] at howned
  have hmember : (ofFiles files).skeleton.functions.map (ofFiles files).skeleton.readMember =
      ((roll files).filterMap Listed.function?).map fun g =>
        ((ofFiles files).skeleton.readParent g.1).map (·, g.2) := by
    rw [map_congr_left fun e _ => Skeleton.readMember_eq_bind e]
    have := congrArg (List.map fun o => o.bind fun g =>
      ((ofFiles files).skeleton.readParent g.1).map (·, g.2)) howned
    simpa [map_map, comp_def] using this
  rw [hmember]
  exact filterMap_function?_rollFrom rfl
    (fun j c hc => Skeleton.readParent_of_getElem? (readClass_ofFiles files) hc) files [] rfl

lemma readImport_ofFiles :
    (ofFiles files).skeleton.imports.map (ofFiles files).skeleton.readImport =
      (files.flatMap fun pf => pf.2.imports.map fun i => (i.module, fileName pf.1)).map some := by
  rw [Skeleton.map_read_of_shows (faithful_ofFiles files).imports, located_snd,
    filterMap_import?_roll]

end Atlas

end Index

namespace Project

open Index

/-! ### The files of a project -/

def seen (p : Project) (f : File) : Path :=
  ((Path.ofString f.path).relativeTo? p.path).getD (Path.ofString f.path)

/-- The spelling under which a file is listed: its path as seen from the project, where backslashes
count as separators. -/
def spelling (p : Project) (f : File) : String :=
  (Path.ofString (Text.replaceAll (p.seen f).text "\\" "/")).text

lemma fileName_inside (p : Project) (f : File) :
    Skeleton.fileName (p.inside (Path.ofString f.path)) = p.spelling f := by
  have hno : '\\' ∉ (p.inside (Path.ofString f.path)).toList := by
    unfold inside
    rw [show "\\" = String.singleton '\\' from rfl, show "/" = String.singleton '/' from rfl,
      Text.toList_replaceAll_char]
    intro h
    obtain ⟨c, -, hc⟩ := mem_map.mp h
    split at hc <;> simp_all
  exact Text.replaceAll_char_of_notMem
    (Path.notMem_text_ofString hno (by decide) (by decide)) '/'

lemma ofString_text_seen (p : Project) (f : File) :
    Path.ofString (p.seen f).text = p.seen f := by
  unfold seen Path.relativeTo?
  split
  · exact Path.ofString_text rfl fun w hw => Path.isName_of_mem_ofString (mem_of_mem_drop hw)
  · exact Path.ofString_text_of_root (Path.root_ofString _) fun w hw =>
      Path.isName_of_mem_ofString hw

lemma inside_of_notMem (h : '\\' ∉ (p.seen f).text.toList) :
    p.inside (Path.ofString f.path) = (p.seen f).text ∧ p.spelling f = (p.seen f).text := by
  have hkeep : Text.replaceAll (p.seen f).text "\\" "/" = (p.seen f).text :=
    Text.replaceAll_char_of_notMem h '/'
  exact ⟨hkeep, by rw [spelling, hkeep, ofString_text_seen]⟩

lemma spelling_of_notMem {rel : Path} (hrel : (Path.ofString f.path).relativeTo? p.path = some rel)
    (h : '\\' ∉ rel.text.toList) : p.spelling f = rel.text := by
  have hseen : p.seen f = rel := by rw [seen, hrel, Option.getD_some]
  rw [← hseen] at h ⊢
  exact (inside_of_notMem h).2

/-! ### The atlas of a project -/

/-- Reading the skeleton of a project gives back its files: modules, classes with their bases and
decorators, functions with the classes that hold them, their type hints and decorators, and imports,
all in order. A file is read as its path in the project if that has no backslashes. -/
theorem atlas_reads_back (p : Project) (files : List File) :
    let s := (p.atlas files).skeleton
    s.modules.map s.readModule = files.map (fun f => some (f.moduleName, p.spelling f)) ∧
      s.classes.map s.readClass =
        (files.flatMap fun f => f.classes.map (classReading (p.spelling f))).map some ∧
      s.functions.map s.readMember =
        (functionsFrom 0 (files.map fun f => (p.spelling f, f))).map some ∧
      s.imports.map s.readImport =
        (files.flatMap fun f => f.imports.map fun i => (i.module, p.spelling f)).map some ∧
      ∀ f ∈ files, ∀ rel, (Path.ofString f.path).relativeTo? p.path = some rel →
        '\\' ∉ rel.text.toList → p.spelling f = rel.text := by
  intro s
  unfold s atlas
  refine ⟨?_, ?_, ?_, ?_, fun f _ rel hrel h => spelling_of_notMem hrel h⟩
  · rw [Atlas.readModule_ofFiles, map_map]
    exact map_congr_left fun f _ => by rw [comp_apply, fileName_inside]
  · rw [Atlas.readClass_ofFiles, flatMap_map]
    simp only [fileName_inside]
  · rw [Atlas.readMember_ofFiles, map_map, comp_def]
    simp only [fileName_inside]
  · rw [Atlas.readImport_ofFiles, flatMap_map]
    simp only [fileName_inside]

/-- Two files whose paths differ in a backslash are read as one: the modules do not read back as
their names and paths. -/
theorem backslash_files_collide :
    let p : Project := { path := ⟨"/", ["p"]⟩, output := ⟨"/", ["o"]⟩ }
    let files : List File := [{ path := "/p/a/b.py" }, { path := "/p/a\\b.py" }]
    let s := (p.atlas files).skeleton
    files.map (fun f => (p.seen f).text) = ["a/b.py", "a\\b.py"] ∧ s.files.items = ["a/b.py"] ∧
      s.modules.map s.readModule ≠ files.map fun f => some (f.moduleName, (p.seen f).text) := by
  decide +kernel

end Project

end CodeAtlas
