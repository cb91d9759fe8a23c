import CodeAtlas.Project
import CodeAtlas.Proofs.Files.Clearing
import CodeAtlas.Proofs.Outline.Reading

/-!
# Files that cannot be read do not matter

If they are removed, each of the rest is found and read as before
(`Project.unreadable_noninterfering`).
-/

namespace CodeAtlas

open List CodeAtlas.Action

variable {t : Files.Tree} {s : Session} {sources : List Path} {q : Path} {file : List UInt8 × Int}
  {t' : Files.Tree}

/-! ### Searching -/

namespace Files.Tree

variable {t : Tree} {p : Path}

lemma hasDir_iff : t.hasDir p = .ok true ↔ ∃ here es, t.find p = .ok (.entry here (.dir es)) := by
  unfold hasDir test get
  constructor
  · intro h
    rcases hfind : t.find p with f | ⟨place, e⟩ | place
    · simp only [hfind] at h
      split_ifs at h
      cases h
    · cases e with
      | dir es => exact ⟨place, es, rfl⟩
      | file content modified => simp [hfind, Entry.isDir] at h
      | link target => simp [hfind, Entry.isDir] at h
    · simp [hfind, Fault.isAbsence] at h
  · rintro ⟨here, es, hfind⟩
    simp [hfind, Entry.isDir]

lemma hasEntry_of_hasDir (h : t.hasDir p = .ok true) : t.hasEntry p = .ok true := by
  obtain ⟨here, es, hfind⟩ := hasDir_iff.mp h
  simp [hasEntry, test, get, hfind]

end Files.Tree

namespace Workspace

lemma exists_yields_findSources (t : Files.Tree) (path : Path) :
    ∃ r, Yields (findSources path) t r ∧
      ∀ sources, r = .ok sources ↔
        t.hasDir path = .ok true ∧ t.sources path true = .ok sources := by
  unfold findSources
  rcases hentry : t.hasEntry path with f | there
  · refine ⟨_, (yields_isThere_error hentry).bind_error _, fun sources => ⟨nofun, ?_⟩⟩
    rintro ⟨hdir, -⟩
    rw [Files.Tree.hasEntry_of_hasDir hdir] at hentry
    cases hentry
  have hthere := yields_isThere_of_hasEntry hentry
  cases there with
  | false =>
    refine ⟨.error (.missing .directory path.text), hthere.bind ?_, fun sources => ⟨nofun, ?_⟩⟩
    · exact (yields_log _ _ _).bind ((yields_throw _).bind_error _)
    · rintro ⟨hdir, -⟩
      rw [Files.Tree.hasEntry_of_hasDir hdir] at hentry
      cases hentry
  | true =>
    rcases hdir : t.hasDir path with f | isDir
    · refine ⟨_, hthere.bind (Yields.bind_error (yields_ask_error hdir) _),
        fun sources => ⟨nofun, ?_⟩⟩
      rintro ⟨hdir', -⟩
      cases hdir'
    cases isDir with
    | false =>
      refine ⟨.error (.unfit .notDirectory path.text),
        hthere.bind (Yields.bind (yields_ask hdir) ?_), fun sources => ⟨nofun, ?_⟩⟩
      · exact (yields_log _ _ _).bind ((yields_throw _).bind_error _)
      · rintro ⟨hdir', -⟩
        cases hdir'
    | true =>
      rcases hsources : t.sources path true with ⟨f, q⟩ | found
      · refine ⟨.error (.file f q.text),
          hthere.bind (Yields.bind (yields_ask hdir) (Yields.onFailure (yields_tree.bind ?_) _)),
          fun sources => ⟨nofun, by simp⟩⟩
        rw [hsources]
        exact yields_ofFiles_error.bind_error _
      · refine ⟨.ok found,
          hthere.bind (Yields.bind (yields_ask hdir) (Yields.onFailure (yields_tree.bind ?_) _)),
          fun sources => by simp⟩
        rw [hsources]
        exact (yields_ofFiles_ok found).bind ((yields_log _ _ _).bind (yields_pure _))

lemma findSources_fst_iff {path : Path} : (findSources path true s).1 = .ok sources ↔
      s.tree.hasDir path = .ok true ∧ s.tree.sources path true = .ok sources := by
  obtain ⟨r, hr, hiff⟩ := exists_yields_findSources s.tree path
  obtain ⟨s', hs', -⟩ := hr s rfl
  rw [hs']
  exact hiff sources

end Workspace

/-! ### Gathering -/

namespace Outline

lemma isSome_outlineAt?_congr {r : Path} (hq : t.read q = .ok file) (hr : t.read r = .ok file) :
    (outlineAt? t r).isSome = (outlineAt? t q).isSome := by
  have hsource : sourceAt? t r = sourceAt? t q := by rw [sourceAt?, sourceAt?, hq, hr]
  rw [outlineAt?, outlineAt?, hsource]
  cases sourceAt? t q with
  | none => rfl
  | some source => simp [ofSource?]

lemma exists_read_of_outlineAt? {f : File} (h : outlineAt? t q = some f) :
    ∃ file, t.read q = .ok file := by
  rcases hread : t.read q with refusal | file
  · simp [outlineAt?, sourceAt?, hread] at h
  · exact ⟨file, rfl⟩

lemma outlineAt?_eq_of_read (h : t.read q = .ok file) (h' : t'.read q = .ok file) :
    outlineAt? t' q = outlineAt? t q := by
  rw [outlineAt?, outlineAt?, sourceAt?, sourceAt?, h, h']

lemma outlineAt?_eq_of_thins (h : t.Thins t')
    (hkept : ∀ file, t.read q = .ok file → (outlineAt? t q).isSome = true → t'.read q = .ok file) :
    outlineAt? t' q = outlineAt? t q := by
  rcases hbefore : outlineAt? t q with _ | f
  · rcases hafter : outlineAt? t' q with _ | f'
    · rfl
    · obtain ⟨file, hread'⟩ := exists_read_of_outlineAt? hafter
      rw [← hafter, outlineAt?_eq_of_read (h.read_before hread') hread', hbefore]
  · obtain ⟨file, hread⟩ := exists_read_of_outlineAt? hbefore
    rw [outlineAt?_eq_of_read hread (hkept file hread (by simp [hbefore])), hbefore]

end Outline

namespace Project

open Outline

lemma exists_yields_readFile (r : Reader) :
    ∃ r', Work.Yields (readFile q) t r (.ok (outlineAt? t q)) r' := by
  obtain ⟨r', hread⟩ := Reader.exists_yields_read t q r
  refine ⟨r', hread.attempt.bind ?_⟩
  unfold found
  rcases hentry : t.hasEntry q with f | there
  · rw [outlineAt?_of_hasEntry (by simp [hentry])]
    exact (Work.yields_lift (yields_log _ _ _)).bind (Work.yields_pure _)
  · exact Work.yields_pure _

lemma exists_yields_readFiles (files : List Path) (r : Reader) :
    ∃ r', Work.Yields (readFiles files) t r (.ok (files.filterMap (outlineAt? t))) r' := by
  induction files generalizing r with
  | nil => exact ⟨r, Work.yields_pure _⟩
  | cons q files ih =>
    obtain ⟨r1, hfirst⟩ := exists_yields_readFile r
    obtain ⟨r2, hrest⟩ := ih r1
    refine ⟨r2, hfirst.bind (hrest.bind ?_)⟩
    have hcons : (q :: files).filterMap (outlineAt? t) =
        (outlineAt? t q).toList ++ files.filterMap (outlineAt? t) := by
      rcases houtline : outlineAt? t q with _ | f <;> simp [houtline]
    rw [hcons]
    exact Work.yields_pure _

/-- What is gathered from a project are the outlines of the files that have one. -/
lemma yields_gather (p : Project) (hfind : Yields (Workspace.findSources p.path) t (.ok sources))
    (hne : sources ≠ []) :
    Yields p.gather t (.ok (some (p.atlas (sources.filterMap (outlineAt? t))))) := by
  obtain ⟨r, hread⟩ := exists_yields_readFiles sources {}
  have hempty : sources.isEmpty = false := by simpa using hne
  unfold gather
  refine (yields_log _ _ _).bind (hfind.bind ((yields_log _ _ _).bind ?_))
  simp only [hempty, Bool.false_eq_true, if_false]
  refine hread.perform.bind ?_
  exact (yields_log _ _ _).bind ((yields_log _ _ _).bind ((yields_log _ _ _).bind (yields_pure _)))

lemma gather_fst (p : Project) (hdir : s.tree.hasDir p.path = .ok true)
    (hsources : s.tree.sources p.path true = .ok sources) (hne : sources ≠ []) :
    (p.gather s).1 = .ok (some (p.atlas (sources.filterMap (outlineAt? s.tree)))) := by
  obtain ⟨r, hr, hiff⟩ := Workspace.exists_yields_findSources s.tree p.path
  obtain rfl := (hiff sources).mpr ⟨hdir, hsources⟩
  obtain ⟨s', hs', -⟩ := yields_gather p hr hne s rfl
  rw [hs']

/-! ### The main result -/

/-- Whether there is a file at a path, or a link that leads to no directory, from which no outline
is read. -/
def isUnreadable (s : Session) (q : Path) : Bool :=
  s.tree.holdsFile q && (Outline.read q s).1.toOption.any (·.isNone)

lemma outlineAt?_of_unreadable (h : (Outline.read q s).1.toOption.any (·.isNone) = true) :
    outlineAt? s.tree q = none := by
  rw [read_fst, found] at h
  rcases hentry : s.tree.hasEntry q with f | there
  · simp [hentry, Except.toOption] at h
  · simpa [hentry, Except.toOption] using h

lemma filterMap_outlineAt?_cleared (hthins : s.tree.Thins t)
    (hreads : ∀ q ∈ sources, ∀ file, s.tree.read q = .ok file →
      (∀ r, (Outline.read r s).1.toOption.any (·.isNone) = true → s.tree.read r ≠ .ok file) →
        t.read q = .ok file) :
          (sources.filter fun q => !isUnreadable s q).filterMap (outlineAt? t) =
      sources.filterMap (outlineAt? s.tree) := by
  -- a file with an outline reads otherwise than all that have none
  have houtline : ∀ q ∈ sources, outlineAt? t q = outlineAt? s.tree q := by
    intro q hq
    refine outlineAt?_eq_of_thins hthins fun file hread hsome => ?_
    refine hreads q hq file hread fun r hr hread' => ?_
    rw [← isSome_outlineAt?_congr hread hread', outlineAt?_of_unreadable hr] at hsome
    cases hsome
  rw [filterMap_filter]
  refine filterMap_congr fun q hq => ?_
  rcases hlost : isUnreadable s q with _ | _
  · exact houtline q hq
  · exact (outlineAt?_of_unreadable (Bool.and_eq_true_iff.mp hlost).2).symm

/-- A reader that is sent to any files, whatever it held before, brings back for each what a new
reader would. So in a tree whose names can be looked up, if a source file of a project has an
outline, then all files from which none is read can be removed, the search finds the others, and the
same atlas is gathered as before. -/
theorem unreadable_noninterfering : (∀ (paths : List Path) (r : Reader) (s : Session),
      ((paths.mapM fun q => Work.attempt (Reader.read q)) r s).1.1 =
        .ok (paths.map fun q => (Outline.read q s).1)) ∧
    ∀ (p : Project) (s : Session) (sources : List Path), s.tree.WellFormed → s.tree.root.Plain →
      (Workspace.findSources p.path true s).1 = .ok sources →
      (∃ q ∈ sources, ∃ f, (Outline.read q s).1 = .ok (some f)) →
      ∃ t a, (sources.filter (isUnreadable s)).foldlM Files.Tree.remove s.tree = .ok t ∧
        (Workspace.findSources p.path true { s with tree := t }).1 =
          .ok (sources.filter fun q => !isUnreadable s q) ∧
        (p.gather s).1 = .ok (some a) ∧ (p.gather { s with tree := t }).1 = .ok (some a) := by
  constructor
  · intro paths r s
    obtain ⟨r', hread⟩ := Reader.exists_yields_mapM_read s.tree paths r
    obtain ⟨s', hs', -⟩ := hread s rfl
    rw [hs']
    simp only [read_fst]
  · rintro p s sources hwell hplain hfind ⟨q, hq, f, hf⟩
    obtain ⟨hdir, hsources⟩ := Workspace.findSources_fst_iff.mp hfind
    obtain ⟨here, hes⟩ := Files.Tree.hasDir_iff.mp hdir
    have hsearched : s.tree.Searched p.path here sources := ⟨hwell, hplain, hes, hsources⟩
    obtain ⟨t, hfold, hes', hsources', hreads⟩ :=
      hsearched.exists_cleared fun q => (Outline.read q s).1.toOption.any (·.isNone)
    have hdir' : t.hasDir p.path = .ok true := Files.Tree.hasDir_iff.mpr ⟨here, hes'⟩
    have hleft : q ∈ sources.filter fun q => !isUnreadable s q := by
      simp [hq, isUnreadable, hf, Except.toOption]
    refine ⟨t, _, hfold, Workspace.findSources_fst_iff.mpr ⟨hdir', hsources'⟩,
      gather_fst p hdir hsources (ne_nil_of_mem hq), ?_⟩
    rw [← filterMap_outlineAt?_cleared (Files.Tree.thins_of_foldlM hfold) hreads]
    exact gather_fst p hdir' hsources' (ne_nil_of_mem hleft)

/-- The files of a project: one that breaks off behind a comment, one with a class, and one that is
no text. -/
def draftEntries : List (String × Files.Entry) := [
  ("a.py", .file (Text.utf8Bytes "# a\nclass A(:\n") 0),
  ("b.py", .file (Text.utf8Bytes "class B:\n  pass # b\n") 0),
  ("c.py", .file [0xFF] 0)]

def draftTree : Files.Tree := ⟨.dir [("p", .dir draftEntries)], []⟩

def draftProject : Project := { path := ⟨"/", ["p"]⟩, output := ⟨"/", ["o"]⟩ }

def draftSources : List Path := [⟨"/", ["p", "a.py"]⟩, ⟨"/", ["p", "b.py"]⟩, ⟨"/", ["p", "c.py"]⟩]

lemma plain_draftTree : draftTree.root.Plain := by
  simp only [draftTree, draftEntries, Files.Entry.Plain, Files.plainBelow]
  exact ⟨by decide, ⟨by decide, trivial, by decide, trivial, by decide, trivial, trivial⟩, trivial⟩

lemma wellFormed_draftTree : draftTree.WellFormed := by
  simp [Files.Tree.WellFormed, draftTree, draftEntries, Files.Entry.WellFormed,
    Files.wellFormedBelow, Path.IsName]

lemma findSources_draftTree :
    (Workspace.findSources draftProject.path true { tree := draftTree }).1 = .ok draftSources := by
  have hfind : draftTree.find draftProject.path = .ok (.entry ["p"] (.dir draftEntries)) := rfl
  have hbelow : (Files.sourcesBelow draftEntries).map (Files.below draftProject.path) =
      draftSources := by
    decide +kernel
  rw [Workspace.findSources_fst_iff, Files.Tree.sources_eq_ok_iff hfind, hbelow]
  refine ⟨rfl, by simp [draftEntries, Files.dirsBelow, Files.dirsOf], ?_⟩
  exact (mergeSort_of_pairwise (by decide +kernel)).symm

/-- The main result at a project where two of three files are removed. -/
theorem unreadable_noninterfering_draftTree : let s : Session := { tree := draftTree }
    (draftTree.WellFormed ∧ draftTree.root.Plain ∧
      (Workspace.findSources draftProject.path true s).1 = .ok draftSources ∧
      ∃ q ∈ draftSources, ∃ f, (Outline.read q s).1 = .ok (some f)) ∧
    draftSources.filter (isUnreadable s) = [⟨"/", ["p", "a.py"]⟩, ⟨"/", ["p", "c.py"]⟩] ∧
    ∃ t a, (draftSources.filter (isUnreadable s)).foldlM Files.Tree.remove draftTree = .ok t ∧
      (Workspace.findSources draftProject.path true { s with tree := t }).1 =
        .ok (draftSources.filter fun q => !isUnreadable s q) ∧
      (draftProject.gather s).1 = .ok (some a) ∧ (draftProject.gather { s with tree := t }).1 =
        .ok (some a) := by
  intro s
  have hread : ∃ q ∈ draftSources, ∃ f, (Outline.read q s).1 = .ok (some f) := by
    have hsome : (outlineAt? draftTree ⟨"/", ["p", "b.py"]⟩).isSome = true := by decide +kernel
    obtain ⟨f, hf⟩ := Option.isSome_iff_exists.mp hsome
    refine ⟨⟨"/", ["p", "b.py"]⟩, by decide, f, ?_⟩
    rw [read_fst]
    exact found_eq_some_iff.mpr hf
  refine ⟨⟨wellFormed_draftTree, plain_draftTree, findSources_draftTree, hread⟩, by decide +kernel,
    ?_⟩
  exact unreadable_noninterfering.2 draftProject s draftSources wellFormed_draftTree plain_draftTree
    findSources_draftTree hread

end Project

end CodeAtlas
