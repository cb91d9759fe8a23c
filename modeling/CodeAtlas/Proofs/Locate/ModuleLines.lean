import CodeAtlas.Proofs.Index.Join
import CodeAtlas.Proofs.Locate.Numbering
import CodeAtlas.Proofs.Outline.Reading

/-!
# The lines of modules

Locations take the number of the last line from the lines of the file, an atlas from its line feeds
(`module_ranges_agree_iff`).
-/

namespace CodeAtlas

open List Step

variable {f : Reading} {cs : List Char}

namespace Text

lemma count_add_one_eq_length_iff (cs : List Char) :
    cs.count '\n' + 1 = (fileLines cs).length ↔ cs ≠ [] ∧ cs.getLast? ≠ some '\n' := by
  rw [count_add_one_eq]
  split <;> simp_all

lemma length_fileLines_pos_iff (cs : List Char) : 0 < (fileLines cs).length ↔ cs ≠ [] := by
  rcases eq_nil_or_concat cs with rfl | ⟨front, ch, rfl⟩
  · simp [fileLines, splitOnChar]
  · have hcount := count_add_one_eq (front.concat ch)
    rw [concat_eq_append] at hcount ⊢
    by_cases hch : ch = '\n' <;> simp [hch] at hcount ⊢ <;> omega

end Text

namespace Locate

open Syntax Catalog

/-! ### The modules of a run -/

section Modules

variable {c : Catalog} {v : Value} (hon : ∀ file lines, Context.On ⟨v, file, lines⟩ c)

include hon

lemma modules_visit (h : Text.utf8 f.bytes = .ok cs) (l : Locations) :
    (visit v l.files.length f l).2.modules.map ModuleRow.extent = l.modules.map ModuleRow.extent ++
      (c.modules.zipIdx.filter fun y => (y.1.file : Int) = l.files.length).map fun _ =>
        ((l.files.length : Int), (Text.fileLines f.text).length) := by
  let x : Context := ⟨v, l.files.length, f.lines⟩
  have hx : x.On c := hon _ _
  let l1 := f.module.body.foldl (Locations.addModuleImports x.file)
    ((f.record cs l).addComments x.file 1 x.lines)
  have hl1 : l1.modules = l.modules :=
    (view_addModuleImports (·.modules) (fun _ _ => rfl) _ _ _).trans
      (view_addComments (·.modules) (fun _ _ _ => rfl) _ _ _ _)
  have hfiles : l1.files = (f.record cs l).files :=
    (sameRows_addModuleImports _ _ _).files.trans (sameRows_addComments _ _ _ _).files
  obtain ⟨file, hfile, hlines⟩ : ∃ file, Value.atIndex? l1.files x.file = some file ∧
      file.lines = (Text.fileLines f.text).length := by
    rw [hfiles, Reading.text, Text.decodeAny_of_utf8 h]
    simp [x, Reading.record, Locations.addFile, Value.atIndex?]
  obtain ⟨l2, hrun, -, hmodules⟩ := exists_placeModules hx f.module
    (fun y (hy : y ∈ c.modules.zipIdx) => getElem?_of_mem_zipIdx hy) l1 hfile
  have hfront : x.placeFront f.module (f.record cs l) = (.ok (), l2) := by
    unfold Context.placeFront
    rw [bind_ok (p := modify _) rfl, bind_ok (p := modify _) rfl, bind_ok (hx.rows_modules _)]
    exact hrun
  -- what follows are definitions
  have houtside : (visit v l.files.length f l).2.outside = l2.outside := by
    rw [visit_of_utf8 h, placeAll_eq, bind_ok hfront]
    exact keeps_placeDefinitions x f.module.body l2
  have hlast : (visit v l.files.length f l).2.modules = l2.modules := congrArg (·.modules) houtside
  rw [hlast, hmodules, hl1, hlines]

/-- A run that comes to its end places one module for every file, down to the last line of the file.
-/
lemma modules_outcome {fs : List Reading} (hown : c.modules.map (·.file) = List.range fs.length)
    (h : (outcome v fs).1 = .ok ()) : (outcome v fs).2.modules.map ModuleRow.extent =
      fs.zipIdx.map fun f => ((f.2 : Int), (Text.fileLines f.1.text).length) := by
  rw [append_outcome (·.modules.map ModuleRow.extent)
    (fun f => (c.modules.zipIdx.filter fun y => (y.1.file : Int) = f.2).map fun _ =>
      ((f.2 : Int), (Text.fileLines f.1.text).length))
    (fun _ _ => rfl) (fun f cs l hcs => modules_visit hon hcs l) h]
  conv_rhs => rw [map_eq_flatMap]
  refine flatMap_congr fun f hf => ?_
  have hone : (c.modules.zipIdx.filter fun y => (y.1.file : Int) = f.2).length = 1 := by
    have hcount : ((c.modules.zipIdx.map Prod.fst).map (·.file)).count f.2 = 1 := by
      rw [zipIdx_map_fst, hown]
      exact count_eq_one_of_mem nodup_range (mem_range.mpr (by simpa using (mem_zipIdx hf).2.1))
    rw [← hcount, count, countP_map, countP_map, countP_eq_length_filter]
    refine congrArg List.length (filter_congr fun y _ => ?_)
    rw [Bool.eq_iff_iff, decide_eq_true_iff, Int.ofNat_inj]
    exact beq_iff_eq.symm
  rw [map_const', hone]
  rfl

end Modules

/-! ### The main result -/

def Reading.outline (f : Reading) (root : Path) : Outline.File :=
  Outline.ofModule (root.child f.path) f.text f.module

lemma Reading.IsAt.read_outline {s : Session} {root : Path} (h : f.IsAt s.tree root)
    (hcs : Text.utf8 f.bytes = .ok cs) :
    (Outline.read (root.child f.path) s).1 = .ok (some (f.outline root)) := by
  have hsource : Outline.sourceAt? s.tree (root.child f.path) = some f.text := by
    rw [Outline.sourceAt?, h.read, Reading.text, Text.decodeAny_of_utf8 hcs]
    simp [hcs, Except.toOption]
  rw [Outline.read_fst, Outline.found_eq_some_iff, Outline.outlineAt?, hsource, Option.bind_some,
    Outline.ofSource?, Reading.text, h.parses]
  rfl

lemma Revisits.exists_modules {p : Catalog.Plan} {q : Plan} {s s' : Session} (h : Revisits p q s s')
    (hutf8 : InUtf8 s.tree p.root) : ∃ (c : Catalog) (l : Locations) (fs : List Reading),
      q.Locates p s s' c (.ok (), l) ∧
      fs.map Reading.source = projectModules s.tree p.root ∧ (∀ f ∈ fs, f.IsAt s.tree p.root) ∧
      l.modules.map ModuleRow.extent = fs.zipIdx.map fun f =>
        ((f.2 : Int), (Text.fileLines f.1.text).length) := by
  obtain ⟨c, fs, hruns, hc, hfs, hat, -, hon⟩ := h.exists_outcome
  have hok := outcome_ok_of_utf8 hon ((inUtf8_iff hfs hat).mp hutf8)
  exact ⟨c, _, fs, by rwa [← hok], hfs, hat,
    modules_outcome hon (by rw [hc.modules, ← hfs, length_map]) hok⟩

lemma readRange_outlines (project : Project) (root : Path) (fs : List Reading) :
    let places := (project.atlas (fs.map (·.outline root))).places
    places.modules.map places.readRange = fs.map fun f =>
      some (project.inside (Path.ofString (f.outline root).path), 1,
      ((f.text.count '\n' + 1 : Nat) : Int)) := by
  intro places
  unfold places Project.atlas
  rw [Index.Atlas.readRange_modules_ofFiles, map_map, map_map]
  rfl

/-- Which lines the modules of a project have, in its locations and in an atlas of its outlines.
(With compressed names the run over the files may break off.) Both have one range for each file, in
order, from the first line on. Locations end it with the last line of the file. The atlas does so
just if there is text in the file and no line feed at the end of it; otherwise it ends the range one
line below. -/
theorem module_ranges_agree_iff (p : Catalog.Plan) (q : Plan) (project : Project) (s s' : Session)
    (h : Revisits p q s s') (hutf8 : InUtf8 s.tree p.root) :
    ∃ (c : Catalog) (l : Locations) (fs : List Reading), q.Locates p s s' c (.ok (), l) ∧
      fs.map Reading.source = projectModules s.tree p.root ∧
      let places := (project.atlas (fs.map (·.outline p.root))).places
      l.modules.length = fs.length ∧ places.modules.length = fs.length ∧
      ∀ (i : Nat) (f : Reading), fs[i]? = some f → f.IsAt s.tree p.root ∧
        (Outline.read (p.root.child f.path) s).1 = .ok (some (f.outline p.root)) ∧
        ∃ (e : ModuleRow) (row : Index.RangePlace) (last : Nat),
          l.modules[i]? = some e ∧ e.file = i ∧ e.last = (Text.fileLines f.text).length ∧
          places.modules[i]? = some row ∧
          places.readRange row =
            some (project.inside (Path.ofString (f.outline p.root).path), 1, (last : Int)) ∧
          (last = e.last ∨ last = e.last + 1) ∧
          (last = e.last ↔ f.text ≠ [] ∧ f.text.getLast? ≠ some '\n') ∧
          (0 < e.last ↔ f.text ≠ []) := by
  obtain ⟨c, l, fs, hruns, hfs, hat, hmodules⟩ := h.exists_modules hutf8
  refine ⟨c, l, fs, hruns, hfs, ?_⟩
  intro places
  have hranges := readRange_outlines project p.root fs
  refine ⟨by simpa using congrArg List.length hmodules, by simpa using congrArg List.length hranges,
    fun i f hf => ?_⟩
  have hmem := mem_of_getElem? hf
  obtain ⟨cs, hcs⟩ := (inUtf8_iff hfs hat).mp hutf8 f hmem
  have hextent := congrArg (·[i]?) hmodules
  simp only [getElem?_map, getElem?_zipIdx, hf, Option.map_some, Nat.zero_add] at hextent
  obtain ⟨e, he, hextent⟩ := Option.map_eq_some_iff.mp hextent
  obtain ⟨hfile, hlast⟩ := Prod.mk.inj hextent
  have hrange := congrArg (·[i]?) hranges
  simp only [getElem?_map, hf, Option.map_some] at hrange
  obtain ⟨row, hrow, hrange⟩ := Option.map_eq_some_iff.mp hrange
  refine ⟨hat f hmem, (hat f hmem).read_outline hcs, e, row, _, he, hfile, hlast, hrow, hrange, ?_,
    ?_, ?_⟩ <;> rw [hlast]
  · rw [Text.count_add_one_eq]
    split <;> simp
  · exact Text.count_add_one_eq_length_iff f.text
  · exact Text.length_fileLines_pos_iff f.text

lemma projectModules_assignment :
    (projectModules (loneTree "x = 1") twinRoot).map Prod.fst = ["a.py"] ∧
      (projectModules (loneTree "x = 1\n") twinRoot).map Prod.fst = ["a.py"] := by
  rw [projectModules, projectModules, prunedSources_loneTree, prunedSources_loneTree]
  decide +kernel

/-- The project in that place, to be indexed. -/
def twinProject : Project := { path := twinRoot, output := twinRoot }

/-- The main result at a project with a line that is not ended: it is the only one in both indexes.
-/
theorem module_ranges_agree_iff_openLine : InUtf8 (loneTree "x = 1") twinRoot ∧ ∃ c l f,
      twinPlan.Locates twinCatalog { tree := loneTree "x = 1" }
        { tree := loneTree "x = 1" } c (.ok (), l) ∧
        (Outline.read (twinRoot.child "a.py") { tree := loneTree "x = 1" }).1 = .ok (some f) ∧
        let places := (twinProject.atlas [f]).places
        l.modules.map (·.last) = [1] ∧
        places.modules.map (fun e => (places.readRange e).map Prod.snd) = [some (1, 1)] := by
  have hutf8 := inUtf8_loneTree "x = 1"
  obtain ⟨c, l, fs, hruns, hfs, hlength, hlength', hrows⟩ :=
    module_ranges_agree_iff twinCatalog twinPlan
    twinProject _ _ (revisits_twin (wellFormed_loneTree "x = 1")
      (isRecordable_loneTree _ _ rfl (by decide +kernel))) hutf8
  have hat : ∀ f ∈ fs, f.IsAt (loneTree "x = 1") twinRoot := fun f hf =>
    (getElem?_of_mem hf).elim fun i hi => (hrows i f hi).1
  obtain ⟨f, rfl, hpath, hbytes⟩ := exists_reading_lone hfs hat projectModules_assignment.1
  obtain ⟨-, hread, e, row, last, he, -, hlast, hrow, hrange, -, hiff, -⟩ := hrows 0 f rfl
  obtain ⟨e', hmodules⟩ := length_eq_one_iff.mp hlength
  obtain ⟨row', hplaces⟩ := length_eq_one_iff.mp hlength'
  have htext : f.text = "x = 1".toList := by
    rw [Reading.text, hbytes]
    decide +kernel
  have hone : e.last = 1 := by
    rw [hlast, htext]
    decide +kernel
  have hsame : last = 1 := (hiff.mpr (by rw [htext]; decide)).trans hone
  rw [hmodules] at he
  rw [hplaces] at hrow
  obtain rfl : e' = e := Option.some.inj he
  obtain rfl : row' = row := Option.some.inj hrow
  refine ⟨hutf8, c, l, f.outline twinRoot, hruns, hpath ▸ hread, ?_, ?_⟩
  · rw [hmodules, map_singleton, hone]
  · have hlines := congrArg (Option.map Prod.snd) hrange
    rw [hsame] at hlines
    exact (congrArg (List.map _) hplaces).trans (congrArg ([·]) hlines)

/-- A module of one line goes down to the second line in an atlas, and to the first in locations. -/
theorem module_ranges_differ : ∃ c l f,
      twinPlan.Locates twinCatalog { tree := loneTree "x = 1\n" }
        { tree := loneTree "x = 1\n" } c (.ok (), l) ∧
      (Outline.read (twinRoot.child "a.py") { tree := loneTree "x = 1\n" }).1 = .ok (some f) ∧
      let places := (twinProject.atlas [f]).places
      l.modules.map (·.last) = [1] ∧
      places.modules.map (fun e => (places.readRange e).map Prod.snd) = [some (1, 2)] := by
  have hutf8 := inUtf8_loneTree "x = 1\n"
  obtain ⟨c, l, fs, hruns, hfs, hat, hmodules⟩ := (revisits_twin (wellFormed_loneTree "x = 1\n")
    (isRecordable_loneTree _ _ rfl (by decide +kernel))).exists_modules hutf8
  obtain ⟨f, rfl, hpath, hbytes⟩ := exists_reading_lone hfs hat projectModules_assignment.2
  have htext : f.text = "x = 1\n".toList := by
    rw [Reading.text, hbytes]
    decide +kernel
  obtain ⟨cs, hcs⟩ := (inUtf8_iff hfs hat).mp hutf8 f mem_cons_self
  have hread := Reading.IsAt.read_outline
    (s := { tree := loneTree "x = 1\n" }) (hat f mem_cons_self) hcs
  refine ⟨c, l, f.outline twinRoot, hruns, hpath ▸ hread, ?_, ?_⟩
  · have hlast := congrArg (List.map Prod.snd) hmodules
    rw [map_map] at hlast
    refine hlast.trans ?_
    show [(Text.fileLines f.text).length] = [1]
    rw [htext]
    decide +kernel
  · have hranges := congrArg (List.map (Option.map Prod.snd))
      (readRange_outlines twinProject twinRoot [f])
    rw [map_map] at hranges
    refine hranges.trans ?_
    rw [map_singleton, htext]
    rfl

end Locate

end CodeAtlas
