import CodeAtlas.Proofs.Survey
import CodeAtlas.Proofs.Viewing
import CodeAtlas.View.Summary

/-!
# What the summary of an index shows

Its sections are read off rows by position, in all sections alike, but rows are made otherwise
(`sections_shown`).
-/

namespace CodeAtlas

open List Function

variable {α β γ ε : Type}

namespace Action

variable {a : Action α} {f : α → Action β} {x : α} {y : β} {ls ms : List String} {xs : List γ}

/-- An action comes out with `x` and only prints lines. -/
def Prints (a : Action α) (x : α) (ls : List String) : Prop :=
  ∀ s : Session, a s = (.ok x, { s with printed := s.printed ++ ls.map (· ++ "\n") })

/-- An action only prints, and lines come first. -/
def Begins (a : Action α) (ls : List String) : Prop :=
  ∀ s : Session, ∃ r more,
    a s = (r, { s with printed := s.printed ++ (ls.map (· ++ "\n") ++ more) })

lemma prints_pure (x : α) : Prints (pure x) x [] := fun s => by
  rw [map_nil, append_nil]
  rfl

lemma prints_print (line : String) : Prints (print line) () [line] := fun _ => rfl

lemma prints_access {r : Except AccessFault α} (h : r = .ok x) : Prints (access r) x [] := by
  subst h
  exact prints_pure x

lemma Prints.bind (ha : Prints a x ls) (hf : Prints (f x) y ms) :
    Prints (a >>= f) y (ls ++ ms) := fun s => by
  rw [bind_ok (ha s), hf, map_append, append_assoc]

lemma Prints.silent_bind (ha : Prints a x []) (hf : Prints (f x) y ms) : Prints (a >>= f) y ms :=
  ha.bind hf

lemma prints_forIn {g : γ → PUnit → Action (ForInStep PUnit)} {blocks : List (List String)}
    (h : Forall₂ (fun x ls => Prints (g x ⟨⟩) (.yield ⟨⟩) ls) xs blocks) :
    Prints (forIn xs ⟨⟩ g) ⟨⟩ blocks.flatten := by
  induction h with
  | nil => exact prints_pure _
  | cons hx _ ih =>
    rw [forIn_cons]
    exact hx.bind ih

lemma Prints.begins (h : Prints a x ls) : Begins a [] := fun s => ⟨_, _, h s⟩

lemma Prints.begins_bind (ha : Prints a x ls) (hf : Begins (f x) ms) :
    Begins (a >>= f) (ls ++ ms) := fun s => by
  obtain ⟨r, more, hr⟩ := hf { s with printed := s.printed ++ ls.map (· ++ "\n") }
  exact ⟨r, more, by rw [bind_ok (ha s), hr]; simp only [map_append, append_assoc]⟩

lemma begins_access (r : Except AccessFault α) : Begins (access r) [] := by
  cases r with
  | ok x => exact (prints_pure x).begins
  | error e => exact fun s => ⟨.error (.access e), [], by rw [append_nil, map_nil, append_nil]; rfl⟩

lemma Begins.bind (ha : Begins a ls) (hf : ∀ x, Begins (f x) []) :
    Begins (a >>= f) ls := fun s => by
  obtain ⟨r, more, hr⟩ := ha s
  cases r with
  | error e => exact ⟨_, more, bind_error hr f⟩
  | ok x =>
    obtain ⟨r', more', hr'⟩ := hf x { s with printed := s.printed ++ (ls.map (· ++ "\n") ++ more) }
    refine ⟨r', more ++ more', ?_⟩
    rw [bind_ok hr, hr']
    simp only [map_nil, nil_append, append_assoc]

lemma begins_forIn {g : γ → PUnit → Action (ForInStep PUnit)} (h : ∀ x, Begins (g x ⟨⟩) []) :
    Begins (forIn xs ⟨⟩ g) [] := by
  induction xs with
  | nil => exact (prints_pure _).begins
  | cons x xs ih =>
    rw [forIn_cons]
    refine (h x).bind fun r => ?_
    cases r with
    | done b => exact (prints_pure b).begins
    | yield b => exact ih

lemma begins_foldlM {g : β → γ → Action β} (h : ∀ b x, Begins (g b x) []) (b : β) :
    Begins (xs.foldlM g b) [] := by
  induction xs generalizing b with
  | nil => exact (prints_pure b).begins
  | cons x xs ih => exact (h b x).bind ih

lemma begins_mapM {g : γ → Action β} (h : ∀ x, Begins (g x) []) : Begins (xs.mapM g) [] := by
  induction xs with
  | nil => exact (prints_pure _).begins
  | cons x xs ih =>
    rw [mapM_cons]
    exact (h x).bind fun y => ih.bind fun ys => (prints_pure _).begins

end Action

namespace Summary

open CodeAtlas.Action Index

/-! ### Sections -/

/-- The lines of a section: its heading, those of its first entries, and how many more there are. -/
def sectionLines (heading plural : String) (blocks : List (List String)) : List String :=
  if blocks = [] then []
  else [heading, "".pushn '-' 40] ++ (blocks.take shownEntries).flatten ++
    (if shownEntries < blocks.length then [s!"  ... and {blocks.length - shownEntries} more {plural}"] else []) ++ [""]

/-- The lines of entries, each with its number and what is read of it. -/
def blocksOf (lines : Nat → α → β → List String) (entries : List α) (readings : List β) :
    List (List String) :=
  (entries.zip readings).zipIdx.map fun p => lines p.2 p.1.1 p.1.2

lemma zipIdx_take (xs : List γ) (n k : Nat) : (xs.take n).zipIdx k = (xs.zipIdx k).take n := by
  induction xs generalizing n k with
  | nil => simp
  | cons x xs ih =>
    cases n with
    | zero => rfl
    | succ n => rw [take_succ_cons, zipIdx_cons, zipIdx_cons, take_succ_cons, ih]

lemma prints_title (text : String) : Prints (title text) () [text, "".pushn '-' 40] :=
  (prints_print text).bind (prints_print _)

/-- A section shows the first entries, if rows of them have three parts at least. -/
lemma prints_showEntries {index : Value} {key heading plural : String} {entries : List α}
    {readings : List β} {cells : α → Value} {lines : Nat → α → β → List String}
    {showEntry : Nat → Value → Value → Value → List Value → Action Unit} {R : α → β → Prop}
    (hindex : index.getOr key (.list []) = .ok (.list (entries.map cells)))
    (hread : Forall₂ R entries readings)
    (hrow : ∀ i e r, R e r → ∃ a b c rest, cells e = .list (a :: b :: c :: rest) ∧
      Prints (showEntry i a b c rest) () (lines i e r)) :
    Prints (showEntries index key heading plural showEntry) ()
      (sectionLines heading plural (blocksOf lines entries readings)) := by
  have hentries : Prints (entriesOf index key) (.list (entries.map cells)) [] :=
    prints_access hindex
  have hsize : (blocksOf lines entries readings).length = entries.length :=
    by simp [blocksOf, hread.length_eq]
  -- every row is printed as the block of its entry
  have hblocks : Forall₂ (fun (x : Value × Nat) ls => ∃ a b c rest,
      x.1 = .list (a :: b :: c :: rest) ∧
        Prints (showEntry x.2 a b c rest) () ls) (entries.map cells).zipIdx
        (blocksOf lines entries readings) := by
    obtain ⟨hlength, hzip⟩ := forall₂_iff_zip.mp hread
    have hcells : (entries.map cells).zipIdx = (entries.zip readings).zipIdx.map fun p =>
        (cells p.1.1, p.2) := by
      conv_lhs => rw [← map_fst_zip hlength.le, map_map, zipIdx_map]
      rfl
    rw [blocksOf, hcells, forall₂_map_right_iff, forall₂_map_left_iff, forall₂_same]
    rintro ⟨⟨e, r⟩, i⟩ hp
    exact hrow i e r (hzip (fst_mem_of_mem_zipIdx hp))
  refine hentries.silent_bind ?_
  by_cases hempty : entries = []
  · have hnone : blocksOf lines entries readings = [] :=
      length_eq_zero_iff.mp (by rw [hsize, hempty, length_nil])
    rw [hnone, hempty]
    exact prints_pure ()
  · have hrule : (!(Value.list (entries.map cells)).truth) = false := by
      simp [Value.truth, hempty]
    have hsome : blocksOf lines entries readings ≠ [] := by
      rw [← length_pos_iff, hsize]
      exact length_pos_iff.mpr hempty
    rw [hrule, if_neg Bool.false_ne_true, sectionLines, if_neg hsome, append_assoc, append_assoc,
      hsize]
    refine (prints_title heading).bind ?_
    refine (prints_access rfl).silent_bind ?_
    refine (prints_forIn ?_).bind ?_
    · rw [zipIdx_take]
      refine (forall₂_take shownEntries hblocks).imp fun x ls hx => ?_
      obtain ⟨v, i⟩ := x
      obtain ⟨a, b, c, rest, rfl, hprint⟩ := hx
      rw [← append_nil ls]
      exact hprint.bind (prints_pure _)
    · refine (prints_access rfl).silent_bind ?_
      rw [length_map]
      split_ifs
      · exact (prints_print _).bind (prints_print _)
      · exact prints_print _

/-! ### Entries of an index -/

variable {k : Skeleton} (header : Header)

lemma prints_resolveName {xs : List String} {i : Nat} {x : String} (h : xs[i]? = some x) :
    Prints (resolveName (.strings xs) (.nat i)) (.str x) [] := by
  have hlt : i < xs.length := (List.getElem?_eq_some_iff.mp h).1
  refine (prints_access (x := (xs.map Value.str).length) rfl).silent_bind ?_
  refine (prints_access (x := true) ?_).silent_bind ?_
  · simp [Value.isBelow, Value.nat, hlt]
  · refine prints_access ?_
    simp [Value.strings, Value.part, Value.nat, Value.asInt?, Value.atIndex?, h]

/-- The text of a list of numbers. -/
def numbersText (ns : List Nat) : String := "[" ++ ", ".intercalate (ns.map toString) ++ "]"

lemma display_row (ns : List Nat) : (row (ns.map Int.ofNat)).display = numbersText ns := by
  have hdetails : Value.details ((ns.map Int.ofNat).map .int) = ns.map toString := by
    induction ns with
    | nil => rfl
    | cons n ns ih => exact congrArg (toString (Int.ofNat n) :: ·) ih
  rw [numbersText, ← hdetails]
  rfl

/-- How a module is shown: its file takes the place of a line. -/
def moduleLines (i : Nat) (e : ModuleEntry) (r : String × String) : List String :=
  [s!"  [{i}] {r.1} (line {e.file})"]

/-- How a class is shown: its bases take the place of a line. -/
def classLines (i : Nat) (e : ClassEntry) (r : ClassReading) : List String := [
  s!"  [{i}] {r.name}",
  s!"      File: {(Path.ofString r.file).name} (line {numbersText e.bases})"]

/-- How a function is shown: its class takes the place of a line. -/
def functionLines (i : Nat) (e : FunctionEntry) (r : FunctionReading) : List String := [
  s!"  [{i}] {r.name}()",
  s!"      File: {(Path.ofString r.file).name} (line {e.parent})"]

lemma prints_showModules {readings : List (String × String)}
    (h : Forall₂ (fun e r => k.readModule e = some r) k.modules readings) :
    Prints (showModules (k.document header)) ()
      (sectionLines "MODULES" "modules" (blocksOf moduleLines k.modules readings)) := by
  refine prints_showEntries rfl h fun i e r hr => ⟨_, _, _, _, rfl, ?_⟩
  obtain ⟨hname, -⟩ := Skeleton.readModule_eq_some_iff.mp hr
  exact (prints_access rfl).silent_bind ((prints_resolveName hname).silent_bind (prints_print _))

lemma prints_showClasses {readings : List ClassReading}
    (h : Forall₂ (fun e r => k.readClass e = some r) k.classes readings) :
    Prints (showClasses (k.document header)) ()
      (sectionLines "CLASSES" "classes" (blocksOf classLines k.classes readings)) := by
  refine prints_showEntries rfl h fun i e r hr => ⟨_, _, _, _, rfl, ?_⟩
  obtain ⟨hname, -, hfile, -⟩ := Skeleton.readClass_eq_some_iff.mp hr
  refine (prints_access rfl).silent_bind ?_
  refine (prints_resolveName hname).silent_bind ?_
  refine (prints_access rfl).silent_bind ?_
  refine (prints_resolveName hfile).silent_bind ?_
  -- the fourth part of a row is a location, so no bases are found
  refine (prints_pure []).silent_bind ?_
  refine (prints_pure "").silent_bind ?_
  dsimp only
  have hbases : s!"  [{i}] {r.name}" ++ "" = s!"  [{i}] {r.name}" := String.append_empty
  rw [classLines, ← display_row, ← hbases]
  refine (prints_print _).bind ?_
  exact (prints_pure _).silent_bind (prints_print _)

lemma prints_showFunctions {readings : List FunctionReading}
    (h : Forall₂ (fun e r => k.readFunction e = some r) k.functions readings) :
    Prints (showFunctions (k.document header)) ()
      (sectionLines "FUNCTIONS" "functions" (blocksOf functionLines k.functions readings)) := by
  refine prints_showEntries rfl h fun i e r hr => ⟨_, _, _, _, rfl, ?_⟩
  obtain ⟨hname, hfile, -⟩ := Skeleton.readFunction_eq_some_iff.mp hr
  refine (prints_access rfl).silent_bind ?_
  refine (prints_resolveName hname).silent_bind ?_
  refine (prints_access rfl).silent_bind ?_
  refine (prints_resolveName hfile).silent_bind ?_
  refine (prints_print _).bind ?_
  exact (prints_pure _).silent_bind (prints_print _)

/-! ### The whole summary -/

lemma exists_prints_showMetadata (k : Skeleton) : ∃ ls, Prints (showMetadata (k.document header))
    () ls := by
  have hline : ∀ (label key : String) (v : Value),
      header.toValue.getOr key (.str "unknown") = .ok v →
        Prints (do
          let v ← access (header.toValue.getOr key (.str "unknown"))
          print s!"  {label}: {v.display}"
          pure (ForInStep.yield PUnit.unit) :
            Action (ForInStep PUnit)) (.yield ⟨⟩) [s!"  {label}: {v.display}"] :=
    fun label key v h => (prints_access h).silent_bind ((prints_print _).bind (prints_pure _))
  exact ⟨_, (prints_access rfl).bind <| (prints_title _).bind <| (prints_forIn <|
    .cons (hline "Version" "version" _ rfl) <| .cons (hline "Project" "project" _ rfl) <|
      .cons (hline "Generated" "generated" _ rfl) .nil).bind (prints_print "")⟩

lemma begins_print (line : String) : Begins (print line) [] := (prints_print line).begins

lemma begins_resolveName (table number : Value) : Begins (resolveName table number) [] := by
  refine (begins_access _).bind fun size => (begins_access _).bind fun below => ?_
  split_ifs
  · exact begins_access _
  · exact (prints_pure _).begins

lemma begins_showImports (index : Value) : Begins (showImports index) [] := by
  refine (begins_access _).bind fun imports => ?_
  split_ifs
  · exact (prints_pure _).begins
  refine (prints_title _).begins.bind fun _ => (begins_access _).bind fun names =>
    (begins_access _).bind fun members => ?_
  refine (begins_foldlM (fun counts entry => ?_) _).bind fun counts => ?_
  · split
    · refine (begins_resolveName _ _).bind fun name => ?_
      refine Begins.bind ?_ fun _ => (prints_pure _).begins
      unfold requireKey
      split
      · exact begins_access _
      · exact begins_access _
      · exact (prints_pure _).begins
    · exact (prints_pure _).begins
  · refine (begins_forIn fun x => (begins_print _).bind fun _ => (prints_pure _).begins).bind
      fun _ => ?_
    dsimp only
    split_ifs
    · exact (begins_print _).bind fun _ => begins_print _
    · exact begins_print _

lemma begins_showStatistics (index : Value) : Begins (showStatistics index) [] := by
  have hsizes : ∀ parts : List (String × String), Begins (parts.mapM fun part => do
      return (part.1, ← sectionSize index part.2)) [] := fun parts => begins_mapM fun x =>
    ((begins_access _).bind fun _ => begins_access _).bind fun _ => (prints_pure _).begins
  have hlines : ∀ sizes : List (String × Nat), Begins (forIn sizes PUnit.unit fun part _ => do
      print s!"  {part.1}: {part.2}"
      pure (ForInStep.yield PUnit.unit)) [] := fun sizes =>
    begins_forIn fun x => (begins_print _).bind fun _ => (prints_pure _).begins
  refine (prints_title _).begins.bind fun _ => (hsizes _).bind fun counted =>
    (hlines counted).bind fun _ => ?_
  refine (hsizes _).bind fun issues => ?_
  dsimp only
  split_ifs
  · exact (begins_print _).bind fun _ => (prints_title _).begins.bind fun _ =>
      (hlines _).bind fun _ => (prints_pure _).begins
  · exact (prints_pure _).begins

/-- The sections of an index are printed, whatever comes before and after them. -/
lemma exists_begins_showIndex {index : Value} {about ls ms ns : List String} (name : String)
    (habout : Prints (showMetadata index) () about) (hmodules : Prints (showModules index) () ls)
    (hclasses : Prints (showClasses index) () ms)
    (hfunctions : Prints (showFunctions index) () ns) :
    ∃ before, Begins (showIndex name index none true) (before ++ (ls ++ ms ++ ns)) := by
  have hsections : Begins (showSections index none) (ls ++ (ms ++ (ns ++ []))) :=
    hmodules.begins_bind (hclasses.begins_bind (hfunctions.begins_bind (begins_showImports index)))
  have hindex : Begins (showIndex name index none true) _ := (prints_print _).begins_bind <|
    (prints_print _).begins_bind <| (prints_print _).begins_bind <| habout.begins_bind <|
      hsections.bind fun _ => (begins_showStatistics index).bind fun _ => begins_print _
  rw [append_nil, ← append_assoc ls] at hindex
  simp only [← append_assoc _ _ (ls ++ ms ++ ns)] at hindex
  exact ⟨_, hindex⟩

lemma exists_view {path : String} {index : Value} {wanted : Option String} {statistics : Bool}
    {ls : List String}
    {s s₁ : Session} (hload : Document.loadJson (Path.ofString path) s = (.ok index, s₁))
    (hindex : Begins (showIndex (Path.ofString path).name index wanted statistics) ls) :
    ∃ s₂ after, view path wanted statistics s = (.ok (), s₂) ∧
      s₂.printed = s₁.printed ++ (ls.map (· ++ "\n") ++ after) := by
  obtain ⟨r, more, hr⟩ := hindex s₁
  have hattempt := (bind_ok hload fun index =>
    showIndex (Path.ofString path).name index wanted statistics).trans hr
  have hview : view path wanted statistics s = _ := bind_ok (by rw [attempt, hattempt]) _
  cases r with
  | ok _ => exact ⟨_, more, hview, rfl⟩
  | error e =>
    refine ⟨_, more ++ [s!"ERROR: Cannot view index - {e.message}" ++ "\n"], hview, ?_⟩
    simp only [← append_assoc]

/-- **What the summary of an index shows.** For an index of a project on file, in either layout, a
summary shows the first ten modules, classes and functions with their names and the names of their
files. The bases of a class are not shown, and what is shown as a line is the number of a module's
file, the numbers of a class's bases and the number of a function's class. -/
theorem sections_shown (p : Project) (files : List Outline.File) {path text : String}
    {minify : Bool} {time : Int} {s : Session} (hsuffix : (Path.ofString path).suffix ≠ ".gz")
    (htext : Json.write (Document.jsonStyle minify) ((p.atlas files).skeleton.document header) =
      .ok text)
    (hread : s.tree.read (Path.ofString path) = .ok (Text.utf8Bytes text, time)) :
    let k := (p.atlas files).skeleton
    ∃ s₁ s₂ before after, Document.loadJson (Path.ofString path) s = (.ok (k.document header), s₁) ∧
      view path none true s = (.ok (), s₂) ∧ s₂.printed = s₁.printed ++ (before ++
        (sectionLines "MODULES" "modules"
            (blocksOf moduleLines k.modules (files.map fun f => (f.moduleName, p.spelling f))) ++
          sectionLines "CLASSES" "classes"
            (blocksOf classLines k.classes
              (files.flatMap fun f => f.classes.map (classReading (p.spelling f)))) ++
          sectionLines "FUNCTIONS" "functions" (blocksOf functionLines k.functions
            ((functionsFrom 0 (files.map fun f => (p.spelling f, f))).map Prod.snd))).map
              (· ++ "\n") ++ after) := by
  intro k
  have hplain := p.plain_files files header ("tech-index", k.document header) mem_cons_self
  have hreads := Document.reads_of_write hplain htext
  have hcontent : s.tree.read (Path.ofString path) =
      .ok (Document.contentOf false text.toList, time) := by
    rw [hread, Document.contentOf, String.ofList_toList]
    rfl
  have hload := (Document.yields_of_reads hreads (absurd · hsuffix) hcontent).2
  obtain ⟨s₁, hs₁, -⟩ := hload s rfl
  -- the readings of the rows are those of the files
  have hmodules : k.modules.map k.readModule =
      (files.map fun f => (f.moduleName, p.spelling f)).map some := by
    simp only [k, Project.atlas, Atlas.readModule_ofFiles, map_map, comp_def,
      Project.fileName_inside]
  have hclasses : k.classes.map k.readClass =
      (files.flatMap fun f => f.classes.map (classReading (p.spelling f))).map some := by
    simp only [k, Project.atlas, Atlas.readClass_ofFiles, flatMap_map, Project.fileName_inside]
  have hmembers : k.functions.map k.readMember =
      (functionsFrom 0 (files.map fun f => (p.spelling f, f))).map some := by
    simp only [k, Project.atlas, Atlas.readMember_ofFiles, map_map, comp_def,
      Project.fileName_inside]
  have hfunctions : Forall₂ (fun e r => k.readFunction e = some r) k.functions
      ((functionsFrom 0 (files.map fun f => (p.spelling f, f))).map Prod.snd) :=
    forall₂_map_right_iff.mpr ((forall₂_of_map_eq hmembers).imp fun e g hg =>
      (Skeleton.owner_of_readMember hg).2)
  obtain ⟨about, habout⟩ := exists_prints_showMetadata header k
  obtain ⟨before, hindex⟩ := exists_begins_showIndex (Path.ofString path).name habout
    (prints_showModules header (forall₂_of_map_eq hmodules))
      (prints_showClasses header (forall₂_of_map_eq hclasses))
    (prints_showFunctions header hfunctions)
  obtain ⟨s₂, after, hview, hprinted⟩ := exists_view hs₁ hindex
  exact ⟨s₁, s₂, before.map (· ++ "\n"), after, hs₁, hview, by rw [hprinted, map_append]⟩

/-- A class with a base, in a file of its own. -/
def family : Skeleton :=
  (Project.deskProject.atlas
    [{ path := "/p/a.py", moduleName := "a"
       classes := [{ name := "A", bases := ["B"] }] }]).skeleton

/-- A session with an index on file. -/
def shelf (text : String) : Session :=
  { tree := ⟨.dir [("tech-index.json", .file (Text.utf8Bytes text) 0)], []⟩ }

theorem sections_shown_family : ∃ text s₂,
    Json.write (Document.jsonStyle true) (family.document ⟨"", "p"⟩) = .ok text ∧
      (Path.ofString "/tech-index.json").suffix ≠ ".gz" ∧
      (∃ time, (shelf text).tree.read (Path.ofString "/tech-index.json") =
        .ok (Text.utf8Bytes text, time)) ∧
      view "/tech-index.json" none true (shelf text) = (.ok (), s₂) ∧
      "      File: a.py (line [2])\n" ∈ s₂.printed := by
  have hsome : (Json.write (Document.jsonStyle true) (family.document ⟨"", "p"⟩)).toOption.isSome =
      true := by
    decide +kernel
  rcases htext : Json.write (Document.jsonStyle true) (family.document ⟨"", "p"⟩) with e | text
  · simp [htext, Except.toOption] at hsome
  have hpath : Path.ofString "/tech-index.json" = ⟨"/", ["tech-index.json"]⟩ := by decide +kernel
  have hsuffix : (Path.ofString "/tech-index.json").suffix ≠ ".gz" := by decide +kernel
  have hread : (shelf text).tree.read (Path.ofString "/tech-index.json") =
      .ok (Text.utf8Bytes text, 0) := by
    rw [hpath]
    rfl
  obtain ⟨s₁, s₂, before, after, -, hview, hprinted⟩ :=
    sections_shown ⟨"", "p"⟩ Project.deskProject _ hsuffix htext hread
  refine ⟨text, s₂, rfl, hsuffix, ⟨0, hread⟩, hview, ?_⟩
  rw [hprinted]
  refine mem_append_right _ (mem_append_left _ (mem_append_right _ (mem_map.mpr
    ⟨"      File: a.py (line [2])", mem_append_left _ (mem_append_right _ ?_), by decide⟩)))
  decide +kernel

theorem bases_shown_as_line : (showClasses (family.document ⟨"", "p"⟩) (shelf "")).2.printed =
    ["CLASSES\n", "".pushn '-' 40 ++ "\n", "  [0] A\n", "      File: a.py (line [2])\n", "\n"] := by
  decide +kernel

end Summary

end CodeAtlas
