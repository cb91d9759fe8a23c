import CodeAtlas.Proofs.Files.Removal
import CodeAtlas.Proofs.Locate.Endings
import CodeAtlas.Proofs.Locate.Soundness

/-!
# Locating definitions after files are removed

A file that is gone is passed over, but it takes no place in the list of files, by which all that
follows is counted (`build_after_removal_iff`).
-/

namespace CodeAtlas

open List

variable {t t' : Files.Tree} {root : Path} {l : Locations} {paths : List String} {f : Reading}
  {e : Failure}

def Locations.pathOf? (l : Locations) (i : Nat) : Option String :=
  l.files[i]?.bind fun f => l.paths.get? f.path

namespace Locate

open Syntax Catalog

lemma ListsFiles.pathOf? (h : ListsFiles l paths) (i : Nat) : l.pathOf? i = paths[i]? := by
  unfold Locations.pathOf?
  unfold ListsFiles at h
  generalize l.files = files at h
  induction h generalizing i with
  | nil => rfl
  | cons hpath _ ih =>
    cases i with
    | zero => exact hpath
    | succ i => exact ih i

/-! ### What is left -/

/-- Of files in order, the first are there and in UTF-8, and all others are gone. -/
def LostAtEnd (t : Files.Tree) (root : Path) (paths : List String) : Prop :=
  ∃ kept lost, paths = kept ++ lost ∧ (∀ path ∈ kept, IsText t (root.child path)) ∧
    ∀ path ∈ lost, t.hasEntry (root.child path) = .ok false

lemma finding_of_hasEntry {path : String}
    (h : t.hasEntry (root.child path) = .ok false) : finding t root path = .nothing := by
  unfold finding
  rw [h]

/-- After files are removed, a file is found as it was read before, or not at all. -/
lemma finding_of_thins (h : t.Thins t') (hf : f.IsAt t root) :
    finding t' root f.path = .nothing ∨ finding t' root f.path = .source f := by
  rcases h.read hf.read with hread | hgone
  · exact .inr (finding_of_isAt ⟨hread, hf.parses⟩)
  · exact .inl (finding_of_hasEntry hgone)

lemma finding_of_isText (h : t.Thins t') (hf : f.IsAt t root)
    (htext : IsText t' (root.child f.path)) :
    finding t' root f.path = .source f ∧ ∃ cs, Text.utf8 f.bytes = .ok cs := by
  obtain ⟨bytes, time, cs, hread, hcs⟩ := htext
  rcases h.read hf.read with hread' | hgone
  · obtain ⟨rfl, -⟩ := Prod.mk.inj (Except.ok.inj (hread.symm.trans hread'))
    exact ⟨finding_of_isAt ⟨hread', hf.parses⟩, cs, hcs⟩
  · cases (Files.Tree.hasEntry_of_read hread).symm.trans hgone

lemma lostAtEnd_of_findings {fs : List Reading} {lost : List Finding}
    (h : paths.map (finding t root) = fs.map .source ++ lost)
    (hfs : ∀ f ∈ fs, ∃ cs, Text.utf8 f.bytes = .ok cs)
    (hlost : ∀ x ∈ lost, x = .nothing) : LostAtEnd t root paths := by
  obtain ⟨kept, gone, rfl, hkept, hgone⟩ := map_eq_append_iff.mp h
  refine ⟨kept, gone, rfl, fun path hpath => ?_, fun path hpath => ?_⟩
  · obtain ⟨f, hf, heq⟩ := mem_map.mp (hkept ▸ mem_map_of_mem hpath)
    obtain ⟨hat, rfl⟩ := isAt_of_finding heq.symm
    obtain ⟨cs, hcs⟩ := hfs f hf
    exact ⟨f.bytes, f.time, cs, hat.read, hcs⟩
  · have hfound := isAt_finding t root path
    have hnothing : finding t root path = .nothing := hlost _ (hgone ▸ mem_map_of_mem hpath)
    rw [hnothing] at hfound
    cases hfound with
    | nothing hnone => exact hnone

/-- The failures of a run over files: the place of a file is missing, or a file that is there is not
in UTF-8. -/
def MissesOrMisreads (t : Files.Tree) (root : Path) (paths : List String) (e : Failure) : Prop :=
  e = .access .listRange ∨ ∃ path ∈ paths, ∃ bytes time fault,
    t.read (root.child path) = .ok (bytes, time) ∧ Text.utf8 bytes = .error fault ∧
    e = .decoding fault

lemma missesOrMisreads_of_endsRun (h : EndsRun (paths.map (finding t root)) e) :
    MissesOrMisreads t root paths e := by
  rcases h with rfl | ⟨f, fault, hf, hfault, rfl⟩
  · exact .inl rfl
  · obtain ⟨path, hpath, hfinding⟩ := mem_map.mp hf
    obtain ⟨hat, rfl⟩ := isAt_of_finding hfinding
    exact .inr ⟨f.path, hpath, f.bytes, f.time, fault, hat.read, hfault, rfl⟩

/-! ### The run -/

section Run

variable {c : Catalog} {catalog : Value} (hon : ∀ file lines, Context.On ⟨catalog, file, lines⟩ c)
  {t t' : Files.Tree} {root : Path} {fs : List Reading} (hat : ∀ f ∈ fs, f.IsAt t root)
  (hthins : t.Thins t')

include hon hat hthins

lemma exists_outcomeOf_ok (hlost : LostAtEnd t' root (fs.map (·.path))) :
    ∃ l kept lost, outcomeOf catalog ((fs.map (·.path)).map (finding t' root)) = (.ok (), l) ∧
      fs.map (·.path) = kept ++ lost ∧ ListsFiles l kept ∧
      ∀ path ∈ lost, t'.hasEntry (root.child path) = .ok false := by
  obtain ⟨kept, lost, hsplit, hkept, hgone⟩ := hlost
  obtain ⟨gs, hs, rfl, rfl, rfl⟩ := map_eq_append_iff.mp hsplit
  have hfound : ∀ g ∈ gs, finding t' root g.path = .source g ∧ ∃ cs, Text.utf8 g.bytes = .ok cs :=
    fun g hg =>
    finding_of_isText hthins (hat g (mem_append_left _ hg)) (hkept _ (mem_map_of_mem hg))
  have hsource : (gs.map (·.path)).map (finding t' root) = gs.map .source := by
    rw [map_map]
    refine map_congr_left fun g hg => ?_
    rw [Function.comp_apply, (hfound g hg).1]
  have hnothing : ∀ x ∈ (hs.map (·.path)).map (finding t' root), x = .nothing := by
    intro x hx
    obtain ⟨path, hpath, rfl⟩ := mem_map.mp hx
    exact finding_of_hasEntry (hgone path hpath)
  obtain ⟨l, hrun, hfiles⟩ := exists_meetAll_source hon (fun g hg => (hfound g hg).2)
    (show ListsFiles {} [] from .nil)
  refine ⟨{ l with counted := l.count }, _, _, ?_, hsplit, hfiles, hgone⟩
  have hmeet : meetAll catalog 0 ((((gs ++ hs).map (·.path))).map (finding t' root)) {} =
      (.ok (), l) := by
    rw [length_nil] at hrun
    rw [map_append, map_append, hsource, meetAll_append hrun, meetAll_nothing hnothing]
  rw [outcomeOf, hmeet]

lemma outcomeOf_ok_iff (hmodules : c.modules.map (·.file) = List.range fs.length) :
    ((outcomeOf catalog ((fs.map (·.path)).map (finding t' root))).1 = .ok () ↔
      LostAtEnd t' root (fs.map (·.path))) ∧
    ∀ e, (outcomeOf catalog ((fs.map (·.path)).map (finding t' root))).1 = .error e →
      MissesOrMisreads t' root (fs.map (·.path)) e := by
  have hfound : ∀ x ∈ (fs.map (·.path)).map (finding t' root),
      x = .nothing ∨ ∃ f, x = .source f := by
    intro x hx
    obtain ⟨path, hpath, rfl⟩ := mem_map.mp hx
    obtain ⟨f, hf, rfl⟩ := mem_map.mp hpath
    rcases finding_of_thins hthins (hat f hf) with hnothing | hsource
    · exact .inl hnothing
    · exact .inr ⟨f, hsource⟩
  have hlength : ([] : List String).length + ((fs.map (·.path)).map (finding t' root)).length ≤
      fs.length := by
    simp
  rcases meetAll_ends hon hmodules hfound hlength (show ListsFiles {} [] from .nil) with
    ⟨gs, lost, hsplit, hgs, hlost⟩ | ⟨e, l, hrun, he⟩
  · have hend := lostAtEnd_of_findings hsplit hgs hlost
    obtain ⟨l, kept, lost, hrun, -⟩ := exists_outcomeOf_ok hon hat hthins hend
    rw [hrun]
    exact ⟨⟨fun _ => hend, fun _ => rfl⟩, fun e he => by cases he⟩
  · have hfails : (outcomeOf catalog ((fs.map (·.path)).map (finding t' root))).1 = .error e := by
      rw [outcomeOf_fst]
      exact congrArg Prod.fst hrun
    refine ⟨⟨fun hok => ?_, fun hend => ?_⟩, fun e' he' => ?_⟩
    · cases hok.symm.trans hfails
    · obtain ⟨l, kept, lost, hok, -⟩ := exists_outcomeOf_ok hon hat hthins hend
      rw [hok] at hfails
      cases hfails
    · cases hfails.symm.trans he'
      exact missesOrMisreads_of_endsRun he

end Run

/-- What is read of the file with a number in a catalog, if the number means the same file in
locations. -/
def IsSameFile (c : Catalog) (t : Files.Tree) (root : Path) (l : Locations) (i : Nat)
    (f : Reading) : Prop :=
  IsFile c t root i f ∧ l.pathOf? i = some f.path

lemma isSameFile_of_listsFiles {c : Catalog} {kept lost : List String}
    (hpaths : c.files.items = kept ++ lost) (hfiles : ListsFiles l kept)
    (hlost : ∀ path ∈ lost, t.hasEntry (root.child path) = .ok false) {i : Nat}
    (h : IsFile c t root i f) : IsSameFile c t root l i f := by
  refine ⟨h, ?_⟩
  have hget : (kept ++ lost)[i]? = some f.path := hpaths ▸ h.1
  rw [hfiles.pathOf?]
  by_cases hi : i < kept.length
  · rwa [getElem?_append_left hi] at hget
  · -- behind the files that are listed come those that are gone, and nothing is read of them
    rw [getElem?_append_right (by omega)] at hget
    cases (Files.Tree.hasEntry_of_read h.2.read).symm.trans (hlost _ (mem_of_getElem? hget))

lemma exists_generate_outcomeOf (p : Catalog.Plan) (q : Plan) (ht : t.WellFormed)
    (hrec : p.isRecordable t = true) (hplain : p.options.compress = false) (hroot : q.root = p.root)
    (hthins : t.Thins t') :
    ∃ (c : Catalog) (r : Except Failure Unit)
      (l : Locations), Action.Yields (generate p {}) t (.ok c) ∧
      Work.Yields ({ q with catalog := c.document p.about p.options } : Plan).build t' {} r l ∧
      c.Holds (projectModules t p.root) ∧ (r = .ok () ↔ LostAtEnd t' p.root c.files.items) ∧
      (∀ e, r = .error e → MissesOrMisreads t' p.root c.files.items e) ∧
      (r = .ok () → ∃ located, Traced c (IsSameFile c t' p.root l) located l) := by
  obtain ⟨c, fs, hgenerate, hc, hfs, hat, hpaths⟩ := exists_generate_readings p ht hrec hplain
  have hon := Context.on_document hc.reads.lists.named p.about hplain
  have hmodules : c.modules.map (·.file) = List.range fs.length := by
    rw [hc.modules, ← hfs, length_map]
  have hbuild : Work.Yields ({ q with catalog := c.document p.about p.options } : Plan).build t' {}
      (outcomeOf (c.document p.about p.options) (c.files.items.map (finding t' q.root))).1
      (outcomeOf (c.document p.about p.options) (c.files.items.map (finding t' q.root))).2 :=
    yields_build_findings (field_files c p.about)
  have hfinding : finding t' q.root = finding t' p.root := congrArg (finding t') hroot
  rw [hfinding, hpaths] at hbuild
  obtain ⟨hiff, hends⟩ := outcomeOf_ok_iff hon hat hthins hmodules
  refine ⟨c, _, _, hgenerate, hbuild, hc, hpaths ▸ hiff, hpaths ▸ hends, fun hok => ?_⟩
  obtain ⟨l, kept, lost, hrun, hsplit, hfiles, hlost⟩ :=
    exists_outcomeOf_ok hon hat hthins (hiff.mp hok)
  obtain ⟨-, located, htraced⟩ := sound_outcomeOf c p.about hplain t' p.root
  rw [hpaths, hrun] at htraced
  rw [hrun]
  exact ⟨located, htraced.mono fun i f =>
    isSameFile_of_listsFiles (hpaths.trans hsplit) hfiles hlost⟩

/-! ### Two files, one of them removed -/

lemma paths_twinTree : (projectModules twinTree twinRoot).map Prod.fst = ["a.py", "b.py"] := by
  rw [projectModules, prunedSources_twinTree]
  decide +kernel

/-- The project of two files without the first. -/
def secondTree : Files.Tree :=
  ⟨.dir [("p", .dir [("b.py", .file (Text.utf8Bytes "class A: pass\n") 0)])], []⟩

lemma thins_secondTree : twinTree.Thins secondTree := .single ⟨⟨"/", ["p", "a.py"]⟩, rfl⟩

lemma thins_loneTree : twinTree.Thins (loneTree "class A: pass\n") :=
  .single ⟨⟨"/", ["p", "b.py"]⟩, rfl⟩

lemma lostAtEnd_loneTree : LostAtEnd (loneTree "class A: pass\n") twinRoot ["a.py", "b.py"] := by
  refine ⟨["a.py"], ["b.py"], rfl, ?_, ?_⟩
  · intro path hpath
    obtain rfl := mem_singleton.mp hpath
    exact ⟨Text.utf8Bytes "class A: pass\n", 0, _, rfl, Text.utf8_utf8Bytes _⟩
  · intro path hpath
    obtain rfl := mem_singleton.mp hpath
    rfl

lemma not_lostAtEnd_secondTree : ¬ LostAtEnd secondTree twinRoot ["a.py", "b.py"] := by
  rintro ⟨kept, lost, hsplit, hkept, hlost⟩
  cases kept with
  | nil =>
    obtain rfl : lost = ["a.py", "b.py"] := hsplit.symm
    have hgone : secondTree.hasEntry (twinRoot.child "b.py") = .ok false := hlost "b.py" (by simp)
    have hthere : secondTree.hasEntry (twinRoot.child "b.py") = .ok true := rfl
    cases hthere.symm.trans hgone
  | cons path kept =>
    obtain ⟨rfl, -⟩ := cons_eq_cons.mp hsplit
    obtain ⟨bytes, time, cs, hread, -⟩ := hkept "a.py" mem_cons_self
    have hfault : secondTree.read (twinRoot.child "a.py") =
      .error (.missing, twinRoot.child "a.py") := rfl
    cases hfault.symm.trans hread

lemma eq_listRange_of_secondTree (h : MissesOrMisreads secondTree twinRoot ["a.py", "b.py"] e) :
    e = .access .listRange := by
  rcases h with rfl | ⟨path, hpath, bytes, time, fault, hread, hfault, -⟩
  · rfl
  · simp only [mem_cons, not_mem_nil, or_false] at hpath
    rcases hpath with rfl | rfl
    · have hgone : secondTree.read (twinRoot.child "a.py") =
        .error (.missing, twinRoot.child "a.py") := rfl
      cases hgone.symm.trans hread
    · have hthere : secondTree.read (twinRoot.child "b.py") =
        .ok (Text.utf8Bytes "class A: pass\n", 0) := rfl
      obtain ⟨rfl, -⟩ := Prod.mk.inj (Except.ok.inj (hthere.symm.trans hread))
      cases (Text.utf8_utf8Bytes _).symm.trans hfault

/-! ### The main result -/

/-- Locating the definitions of a project by its catalog after files are removed from it. The
catalog is made if the modules can be recorded. The run comes to its end exactly if the files that
are gone come last in the catalog and the others are in UTF-8; else a file has no place in the list
of files, or one that is left is not in UTF-8. When it comes to its end, every module, class,
function, import and comment is from the file that has its number, in the catalog as in the
locations. -/
theorem build_after_removal_iff (p : Catalog.Plan) (q : Plan) (s s' : Session)
    (ht : s.tree.WellFormed)
    (hrec : p.isRecordable s.tree = true) (hplain : p.options.compress = false)
    (hroot : q.root = p.root) (hthins : s.tree.Thins s'.tree) :
    ∃ c r l, q.Locates p s s' c (r, l) ∧ c.Holds (projectModules s.tree p.root) ∧
      (r = .ok () ↔ LostAtEnd s'.tree p.root c.files.items) ∧
      (∀ e, r = .error e → MissesOrMisreads s'.tree p.root c.files.items e) ∧
      (r = .ok () → ∃ located, Traced c (IsSameFile c s'.tree p.root l) located l) := by
  obtain ⟨c, r, l, hgenerate, hbuild, hresult⟩ :=
    exists_generate_outcomeOf p q ht hrec hplain hroot hthins
  obtain ⟨s₁, hrun₁, -⟩ := hgenerate s rfl
  obtain ⟨s₂, hrun₂, -⟩ := hbuild s' rfl
  exact ⟨c, r, l, ⟨s₁, s₂, hrun₁, hrun₂⟩, hresult⟩

/-- The main result at two files, the second of which is removed: the run comes to its end. -/
theorem build_after_removal_iff_twinTree :
    twinTree.WellFormed ∧ twinTree.Thins (loneTree "class A: pass\n") ∧
      ∃ c l, twinPlan.Locates twinCatalog { tree := twinTree }
        { tree := loneTree "class A: pass\n" } c
          (.ok (), l) ∧
        ∃ located, Traced c (IsSameFile c (loneTree "class A: pass\n") twinRoot l) located l := by
  obtain ⟨c, r, l, hruns, hc, hok, -, htraced⟩ :=
    build_after_removal_iff twinCatalog twinPlan { tree := twinTree }
      { tree := loneTree "class A: pass\n" } wellFormed_twinTree isRecordable_twinTree rfl rfl
      thins_loneTree
  have hpaths : c.files.items = ["a.py", "b.py"] := hc.files.trans paths_twinTree
  obtain rfl := hok.mpr (hpaths ▸ lostAtEnd_loneTree)
  exact ⟨wellFormed_twinTree, thins_loneTree, c, l, hruns, htraced rfl⟩

/-- Of two files the first is removed: by their catalog, the definitions of the second cannot be
located. -/
theorem second_file_not_located : twinTree.remove ⟨"/", ["p", "a.py"]⟩ = .ok secondTree ∧
      ∃ c l, twinPlan.Locates twinCatalog { tree := twinTree } { tree := secondTree } c
        (.error (.access .listRange), l) := by
  obtain ⟨c, r, l, hgenerate, hbuild, hc, hok, hfails, -⟩ :=
    exists_generate_outcomeOf twinCatalog twinPlan
    wellFormed_twinTree isRecordable_twinTree rfl rfl thins_secondTree
  obtain ⟨s₁, hrun₁, -⟩ := hgenerate { tree := twinTree } rfl
  obtain ⟨s₂, hrun₂, -⟩ := hbuild { tree := secondTree } rfl
  have hpaths : c.files.items = ["a.py", "b.py"] := hc.files.trans paths_twinTree
  rcases r with e | _
  · obtain rfl := eq_listRange_of_secondTree (hpaths ▸ hfails e rfl)
    exact ⟨rfl, c, l, s₁, s₂, hrun₁, hrun₂⟩
  · exact absurd (hpaths ▸ hok.mp rfl) not_lostAtEnd_secondTree

end Locate

end CodeAtlas
