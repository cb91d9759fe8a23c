import CodeAtlas.Proofs.Index.Fidelity
import CodeAtlas.Proofs.Index.Notes

/-!
# The files of notes

Notes name their files by numbers in a table of their own, which a reader does not have
(`Project.note_files_resolve_iff`).
-/

namespace CodeAtlas

open List Function

variable {β : Type} {kind : Ranged} {files : List (String × Outline.File)} {l : Nat} {x : Listed}
  {k : Nat} {path : String}

namespace Outline.File

def hasDocstring (f : File) : Bool :=
  present f.docstring
    || f.classes.any (fun c => present c.docstring || c.methods.any (present ·.docstring))
    || f.functions.any (present ·.docstring)

def hasComment (f : File) : Bool :=
  !f.comments.isEmpty
    || f.classes.any (fun c => !c.comments.isEmpty || c.methods.any (!·.comments.isEmpty))
    || f.functions.any (!·.comments.isEmpty)

end Outline.File

namespace Index

open Skeleton (fileName readModule_eq_some_iff readClass_eq_some_iff readFunction_eq_some_iff)

/-! ### The files of rows -/

/-- The locations of the entities of a kind, with the numbers of their files. -/
def Skeleton.sites (s : Skeleton) : Ranged → List (Nat × Nat)
  | .module => s.modules.map fun e => (e.location, e.file)
  | .class => s.classes.map fun e => (e.location, e.file)
  | .function => s.functions.map fun e => (e.location, e.file)

def Listed.fileOf? (kind : Ranged) (x : Listed) : Option String :=
  if x.kind? = some kind then some (fileName x.path) else none

lemma map_site_of_shows {ε : Type} {s : Skeleton} {r : List Listed} {location : ε → Nat}
    {read : Skeleton → ε → Option β} {rows : List ε} {what? : Listed → Option β} {file : ε → Nat}
    (h : Forall₂ (s.Shows location read) rows (located what? r)) (name : β → String)
    (hfile : ∀ e b, read s e = some b → s.files.get? (file e) = some (name b))
    (hkind : ∀ x, (what? x).map name = x.fileOf? kind) :
    (rows.map fun e => (location e, s.files.get? (file e))) =
      (located (Listed.fileOf? kind) r).map fun lf => (lf.1, some lf.2) := by
  have hmap : located (Listed.fileOf? kind) r =
      (located what? r).map fun lb => (lb.1, name lb.2) := by
    simp only [located, ← funext hkind, map_filterMap, Option.map_map]
    rfl
  rw [hmap, map_map]
  generalize located what? r = xs at h
  induction h with
  | nil => rfl
  | cons hshow _ ih => rw [map_cons, ih, hshow.1, hfile _ _ hshow.2.2]; rfl

lemma sites_ofFiles (files : List (String × Outline.File)) (kind : Ranged) :
    let s := (Atlas.ofFiles files).skeleton
    (s.sites kind).map (fun li => (li.1, s.files.get? li.2)) =
      (located (Listed.fileOf? kind) (roll files)).map fun lf => (lf.1, some lf.2) := by
  intro s
  have hs := Atlas.faithful_ofFiles files
  cases kind with
  | module =>
    rw [Skeleton.sites, map_map]
    exact map_site_of_shows hs.modules Prod.snd (fun e b hb => (readModule_eq_some_iff.mp hb).2)
      fun ⟨_, entity⟩ => by cases entity <;> rfl
  | «class» =>
    rw [Skeleton.sites, map_map]
    exact map_site_of_shows hs.classes ClassReading.file
      (fun e b hb => (readClass_eq_some_iff.mp hb).2.2.1) fun ⟨_, entity⟩ => by cases entity <;> rfl
  | function =>
    rw [Skeleton.sites, map_map]
    refine map_site_of_shows hs.functions (fun b => b.2.file) (fun e b hb => ?_)
      fun ⟨_, entity⟩ => by cases entity <;> rfl
    obtain ⟨g, hg, rfl⟩ := Option.map_eq_some_iff.mp hb
    exact (readFunction_eq_some_iff.mp hg).2.1

lemma exists_of_mem_sites {i : Nat} (h : (l, i) ∈ (Atlas.ofFiles files).skeleton.sites kind) :
    ∃ x, (x, l) ∈ (roll files).zipIdx ∧ x.kind? = some kind ∧
      (Atlas.ofFiles files).skeleton.files.get? i = some (fileName x.path) := by
  have hmem := mem_map_of_mem (f := fun li : Nat × Nat =>
    (li.1, (Atlas.ofFiles files).skeleton.files.get? li.2)) h
  rw [sites_ofFiles] at hmem
  obtain ⟨⟨l', file⟩, hf, hlf⟩ := mem_map.mp hmem
  obtain ⟨rfl, hfile⟩ := Prod.mk.inj hlf
  obtain ⟨⟨x, l⟩, hx, hxf⟩ := mem_filterMap.mp hf
  obtain ⟨file', hfileOf, hlf'⟩ := Option.map_eq_some_iff.mp hxf
  obtain ⟨rfl, rfl⟩ := Prod.mk.inj hlf'
  unfold Listed.fileOf? at hfileOf
  split at hfileOf
  · next hkind => exact ⟨x, hx, hkind, by rw [← hfile, Option.some.inj hfileOf]⟩
  · simp at hfileOf

lemma exists_site (hx : (x, l) ∈ (roll files).zipIdx) (hkind : x.kind? = some kind) :
    ∃ i, (l, i) ∈ (Atlas.ofFiles files).skeleton.sites kind ∧
      (Atlas.ofFiles files).skeleton.files.get? i = some (fileName x.path) := by
  have hmem : (l, some (fileName x.path)) ∈
      (located (Listed.fileOf? kind) (roll files)).map fun lf => (lf.1, some lf.2) := by
    refine mem_map.mpr ⟨(l, fileName x.path), mem_filterMap.mpr ⟨(x, l), hx, ?_⟩, rfl⟩
    simp [Listed.fileOf?, hkind]
  rw [← sites_ofFiles] at hmem
  obtain ⟨⟨l', i⟩, hi, hli⟩ := mem_map.mp hmem
  obtain ⟨rfl, hfile⟩ := Prod.mk.inj hli
  exact ⟨i, hi, hfile⟩

/-! ### Looking up the files of notes -/

namespace Notes

variable {ρ : Type}

/-- The files of all notes can be looked up in a skeleton: the number of a note's file gives there
the file of the entity that the note stands under. -/
def Resolves (n : Notes ρ) (s : Skeleton) : Prop :=
  ∀ kind, ∀ group ∈ n.groups kind, ∀ note ∈ group.2, ∃ l i : Nat,
    (l, i) ∈ s.sites kind ∧ group.1 = l ∧
      ∃ file, s.files.get? i = some file ∧ s.files.get? note.file = some file

lemma exists_call_of_mem {calls : List (NoteCall ρ)} {kind : Ranged} {l : Int}
    {notes : List (Note ρ)} (hgroup : (l, notes) ∈ (calls.foldl record {}).groups kind)
    {note : Note ρ} (hnote : note ∈ notes) :
    ∃ c ∈ calls, c.kind = kind ∧ c.location = l ∧ (calls.foldl record {}).noteOf c = note := by
  rw [groups_foldl_record] at hgroup
  obtain ⟨c, hc, hpair⟩ := mem_map.mp ((Keyed.mem_group hgroup).mp hnote)
  obtain ⟨hl, hn⟩ := Prod.mk.inj hpair
  obtain ⟨hmem, hkind⟩ := mem_filter.mp hc
  exact ⟨c, hmem, by simpa using hkind, hl, hn⟩

lemma exists_group_of_mem {calls : List (NoteCall ρ)} {c : NoteCall ρ} (hc : c ∈ calls) :
    ∃ notes, (c.location, notes) ∈ (calls.foldl record {}).groups c.kind ∧
      (calls.foldl record {}).noteOf c ∈ notes := by
  rw [groups_foldl_record]
  exact Keyed.exists_mem_group
    (mem_map.mpr ⟨c, mem_filter.mpr ⟨hc, by simp⟩, rfl⟩)

/-- The files of notes can be looked up exactly if they are the first ones of the skeleton. -/
lemma resolves_iff {files : List (String × Outline.File)} {calls : List (NoteCall ρ)}
    (hattached : ∀ c ∈ calls, ∃ xl ∈ (roll files).zipIdx, c.BelongsTo xl) :
    (calls.foldl record {}).Resolves (Atlas.ofFiles files).skeleton ↔
      (calls.map (·.path)).eraseDups.map fileName <+:
        (Atlas.ofFiles files).skeleton.files.items := by
  have hpaths := files_foldl_record calls
  constructor
  · intro h
    rw [prefix_iff_getElem?]
    intro i hi
    rw [length_map] at hi
    -- the path with number `i` came with some note, whose file has that number
    obtain ⟨c, hc, hpath⟩ := mem_map.mp (mem_eraseDups.mp (getElem_mem hi))
    have hfile : ((calls.foldl record {}).noteOf c).file = i := by
      rw [noteOf, hpaths, hpath]
      exact (nodup_eraseDups _).idxOf_getElem i hi
    obtain ⟨notes, hgroup, hnote⟩ := exists_group_of_mem hc
    obtain ⟨l, j, hsite, hl, file, hj, hi'⟩ := h c.kind _ hgroup _ hnote
    obtain ⟨x, hx, -, hxfile⟩ := exists_of_mem_sites hsite
    obtain ⟨⟨y, m⟩, hy, hm, -, hyc⟩ := hattached c hc
    obtain rfl : l = m := by simp only at hl hm; omega
    have hxy : x = y := by
      rw [mk_mem_zipIdx_iff_getElem?] at hx hy
      exact Option.some.inj (hx.symm.trans hy)
    rw [hfile] at hi'
    rw [getElem_map, ← hpath, hyc, ← hxy, ← hxfile, hj]
    exact hi'
  · rintro hprefix kind ⟨l, notes⟩ hgroup note hnote
    obtain ⟨c, hc, rfl, rfl, rfl⟩ := exists_call_of_mem hgroup hnote
    obtain ⟨⟨x, m⟩, hx, hm, hkind, hpath⟩ := hattached c hc
    obtain ⟨i, hsite, hi⟩ := exists_site hx hkind
    refine ⟨m, i, hsite, hm, fileName x.path, hi, ?_⟩
    have hlt : (calls.map (·.path)).eraseDups.idxOf c.path <
        (calls.map (·.path)).eraseDups.length :=
      idxOf_lt_length_of_mem (mem_eraseDups.mpr (mem_map_of_mem hc))
    have hget := prefix_iff_getElem?.mp hprefix _ (by simpa using hlt)
    rw [noteOf, hpaths, ← hpath]
    simpa [Table.get?] using hget

end Notes

/-! ### Files with notes -/

lemma path_of_mem_fileRoll {path : String} {f : Outline.File} {k : Nat}
    (h : x ∈ fileRoll path f k) : x.path = path := by
  simp only [fileRoll, classRoll, mem_cons, mem_append, mem_flatMap,
    mem_map] at h
  rcases h with rfl | (⟨ck, -, rfl | ⟨g, -, rfl⟩⟩ | ⟨g, -, rfl⟩) | ⟨i, -, rfl⟩ <;> rfl

lemma files_foldl_record (r : List Listed) :
    (r.foldl Skeleton.record {}).files.items = (r.map fun x => fileName x.path).eraseDups := by
  rw [← Table.items_foldl_add, foldl_map]
  exact congrArg Table.items
    (foldl_hom Skeleton.files fun s x => (Skeleton.files_record s x).symm).symm

lemma eraseDups_files_rollFrom (name : String → String) (k : Nat)
    (zs : List String) : (zs ++ (rollFrom k files).map fun x => name x.path).eraseDups =
      (zs ++ files.map fun pf => name pf.1).eraseDups := by
  induction files generalizing k zs with
  | nil => rfl
  | cons pf files ih =>
    obtain ⟨path, f⟩ := pf
    rw [rollFrom, map_append, map_cons]
    refine eraseDups_append_part (q := true) (a := name path) ?_ (by simp [fileRoll]) (ih _) zs
    intro b hb
    obtain ⟨x, hx, rfl⟩ := mem_map.mp hb
    rw [path_of_mem_fileRoll hx]

lemma files_ofFiles : (Atlas.ofFiles files).skeleton.files.items =
    (files.map fun pf => fileName pf.1).eraseDups := by
  rw [Atlas.skeleton_ofFiles, files_foldl_record]
  exact eraseDups_files_rollFrom fileName 0 []

def Listed.documented : Listed → Bool
  | ⟨_, .module f⟩ => Outline.present f.docstring
  | ⟨_, .class c⟩ => Outline.present c.docstring
  | ⟨_, .function _ f⟩ => Outline.present f.docstring
  | ⟨_, .import _⟩ => false

/-- Whether an entity comes with comments; those of a module come later. -/
def Listed.commented : Listed → Bool
  | ⟨_, .class c⟩ => !c.comments.isEmpty
  | ⟨_, .function _ f⟩ => !f.comments.isEmpty
  | ⟨_, .module _⟩ | ⟨_, .import _⟩ => false

lemma docstringCalls_eq_nil_iff (line : Int) (text : Option String) :
    docstringCalls kind l path line text = [] ↔ Outline.present text = false := by
  unfold docstringCalls Outline.present Outline.present?
  rcases text with _ | t
  · simp
  · by_cases ht : t = "" <;> simp [ht]

lemma docstrings_eq_nil_iff (x : Listed) (l : Nat) :
    x.docstrings l = [] ↔ x.documented = false := by
  obtain ⟨path, entity⟩ := x
  cases entity with
  | «import» i => simp [Listed.docstrings, Listed.documented]
  | _ => exact docstringCalls_eq_nil_iff _ _

lemma comments_eq_nil_iff (x : Listed) (l : Nat) : x.comments l = [] ↔ x.commented = false := by
  obtain ⟨path, entity⟩ := x
  cases entity <;> simp [Listed.comments, Listed.commented, commentCalls]

lemma flatMap_zipIdx_eq_nil_iff {g : Listed → Nat → List β} {q : Listed → Bool}
    (h : ∀ x l, g x l = [] ↔ q x = false) (xs : List Listed) (n : Nat) :
    ((xs.zipIdx n).flatMap fun xl => g xl.1 xl.2) = [] ↔ xs.any q = false := by
  induction xs generalizing n with
  | nil => simp
  | cons x xs ih => simp [zipIdx_cons, h, ih]

lemma any_zipIdx_fst {α : Type} (as : List α) (q : α → Bool) :
    (as.zipIdx k).any (fun ak => q ak.1) = as.any q := by
  conv_rhs => rw [← zipIdx_map_fst k as, any_map]
  rfl

lemma any_documented_fileRoll (f : Outline.File) :
    (fileRoll path f k).any Listed.documented = f.hasDocstring := by
  simp only [fileRoll, classRoll, any_cons, any_append, any_flatMap, any_map,
    comp_def, Listed.documented, Outline.File.hasDocstring]
  rw [any_zipIdx_fst f.classes fun c =>
    Outline.present c.docstring || c.methods.any fun g => Outline.present g.docstring,
    any_eq_false.mpr (fun _ _ => Bool.false_ne_true), Bool.or_false, Bool.or_assoc]

lemma any_commented_fileRoll (path : String) (f : Outline.File) (k : Nat) :
    ((fileRoll path f k).any Listed.commented || !f.comments.isEmpty) = f.hasComment := by
  simp only [fileRoll, classRoll, any_cons, any_append, any_flatMap, any_map,
    comp_def, Listed.commented, Outline.File.hasComment]
  rw [any_zipIdx_fst f.classes fun c => !c.comments.isEmpty || c.methods.any fun g =>
    !g.comments.isEmpty,
    any_eq_false.mpr (fun _ _ => Bool.false_ne_true), Bool.or_false, Bool.false_or, Bool.or_comm,
    Bool.or_assoc]

section

variable (files : List (String × Outline.File)) (n k : Nat) (zs : List String)

lemma eraseDups_paths_docstrings :
    (zs ++ (((rollFrom k files).zipIdx n).flatMap fun xl => xl.1.docstrings xl.2).map
      (·.path)).eraseDups = (zs ++ (files.filter (·.2.hasDocstring)).map Prod.fst).eraseDups := by
  induction files generalizing n k zs with
  | nil => rfl
  | cons pf files ih =>
    obtain ⟨path, f⟩ := pf
    rw [rollFrom, zipIdx_append, flatMap_append, map_append]
    have hpath : ∀ b ∈ (((fileRoll path f k).zipIdx n).flatMap fun xl =>
        xl.1.docstrings xl.2).map (·.path), b = path := by
      intro b hb
      obtain ⟨c, hc, rfl⟩ := mem_map.mp hb
      obtain ⟨⟨x, l⟩, hx, hc⟩ := mem_flatMap.mp hc
      rw [(belongsTo_of_mem_docstrings hc).2.2, path_of_mem_fileRoll (fst_mem_of_mem_zipIdx hx)]
    have hempty : (((fileRoll path f k).zipIdx n).flatMap fun xl =>
        xl.1.docstrings xl.2).map (·.path) = [] ↔ f.hasDocstring = false := by
      rw [map_eq_nil_iff, flatMap_zipIdx_eq_nil_iff docstrings_eq_nil_iff, any_documented_fileRoll]
    rw [eraseDups_append_part hpath hempty (ih _ _) zs]
    by_cases hf : f.hasDocstring <;> simp [hf]

lemma eraseDups_paths_comments :
    (zs ++ (commentsFrom n (eventsFrom n k files)).map (·.path)).eraseDups =
      (zs ++ (files.filter (·.2.hasComment)).map Prod.fst).eraseDups := by
  induction files generalizing n k zs with
  | nil => rfl
  | cons pf files ih =>
    obtain ⟨path, f⟩ := pf
    rw [eventsFrom, commentsFrom_arrivals, commentsFrom, ← append_assoc, map_append]
    have hpath : ∀ b ∈ (((fileRoll path f k).zipIdx n).flatMap (fun xl => xl.1.comments xl.2)
        ++ commentCalls .module n path f.comments).map (·.path), b = path := by
      intro b hb
      obtain ⟨c, hc, rfl⟩ := mem_map.mp hb
      rcases mem_append.mp hc with hc | hc
      · obtain ⟨⟨x, l⟩, hx, hc⟩ := mem_flatMap.mp hc
        rw [(belongsTo_of_mem_comments hc).2.2, path_of_mem_fileRoll (fst_mem_of_mem_zipIdx hx)]
      · obtain ⟨t, -, rfl⟩ := mem_map.mp hc
        rfl
    have hempty : (((fileRoll path f k).zipIdx n).flatMap (fun xl => xl.1.comments xl.2)
        ++ commentCalls .module n path f.comments).map (·.path) = [] ↔ f.hasComment = false := by
      rw [map_eq_nil_iff, append_eq_nil_iff, flatMap_zipIdx_eq_nil_iff comments_eq_nil_iff,
        ← any_commented_fileRoll path f k]
      simp [commentCalls]
    rw [eraseDups_append_part hpath hempty (ih _ _) zs]
    by_cases hf : f.hasComment <;> simp [hf]

end

end Index

namespace Project

open Index

/-- The files of docstrings can be looked up in the skeleton exactly if the files that have
docstrings are the first ones of the project, and likewise for comments. -/
theorem note_files_resolve_iff (p : Project) (files : List Outline.File) : let a := p.atlas files
    let firstOnes (has : Outline.File → Bool) : Prop :=
      ((files.filter has).map fun f => p.inside (Path.ofString f.path)).eraseDups.map
        Skeleton.fileName <+: (files.map p.spelling).eraseDups
    (a.docstrings.Resolves a.skeleton ↔ firstOnes Outline.File.hasDocstring) ∧
      (a.comments.Resolves a.skeleton ↔ firstOnes Outline.File.hasComment) := by
  intro a firstOnes
  have hfiles : a.skeleton.files.items = (files.map p.spelling).eraseDups := by
    unfold a atlas
    rw [files_ofFiles, map_map]
    exact congrArg _ (map_congr_left fun f _ => fileName_inside p f)
  have hfirst : ∀ has : Outline.File → Bool,
      firstOnes has ↔ (((files.map fun o => (p.inside (Path.ofString o.path), o)).filter
        (has ·.2)).map Prod.fst).eraseDups.map Skeleton.fileName <+: a.skeleton.files.items := by
    intro has
    rw [hfiles, filter_map, map_map]
    rfl
  rw [hfirst, hfirst]
  constructor
  · have hpaths := eraseDups_paths_docstrings
      (files.map fun o => (p.inside (Path.ofString o.path), o)) 0 0 []
    rw [nil_append, nil_append] at hpaths
    rw [← hpaths]
    unfold a atlas
    rw [Atlas.docstrings_ofFiles]
    exact Notes.resolves_iff fun c hc => attached_projectDocstrings hc
  · have hpaths := eraseDups_paths_comments
      (files.map fun o => (p.inside (Path.ofString o.path), o)) 0 0 []
    rw [nil_append, nil_append] at hpaths
    rw [← hpaths]
    unfold a atlas
    rw [Atlas.comments_ofFiles]
    exact Notes.resolves_iff fun c hc => attached_projectComments hc

/-- A file without docstrings comes first: the docstring of the second file is read as one of the
first. -/
theorem docstring_file_misread : let p : Project := { path := ⟨"/", ["p"]⟩, output := ⟨"/", ["o"]⟩ }
    let a := p.atlas [{ path := "/p/a.py", moduleName := "a" },
      { path := "/p/b.py", moduleName := "b", docstring := some "B." }]
    ¬ a.docstrings.Resolves a.skeleton := by
  intro p a h
  have hgroup : (1, [⟨0, 0, (1, 2)⟩]) ∈ a.docstrings.groups .module := by decide +kernel
  obtain ⟨l, i, hsite, hl, file, hi, hfile⟩ := h .module _ hgroup _ mem_cons_self
  have hsites : a.skeleton.sites .module = [(0, 0), (1, 1)] := by decide +kernel
  have hfiles : a.skeleton.files.items = ["a.py", "b.py"] := by decide +kernel
  rw [hsites] at hsite
  simp only [Table.get?, hfiles] at hi hfile
  obtain rfl : l = 1 := by omega
  obtain rfl : i = 1 := by simpa using hsite
  exact absurd (hfile.trans hi.symm) (by decide)

end Project

end CodeAtlas
