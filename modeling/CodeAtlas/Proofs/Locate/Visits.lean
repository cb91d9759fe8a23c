import CodeAtlas.Locate.Build
import CodeAtlas.Proofs.Locate.Placing

/-!
# What a run over the files of a catalog comes to

It depends on what it finds at their paths (`Finding`) and on nothing else of the session: `meet` is
what becomes of the locations at one finding. Where all files are there, findings are readings
(`visit`).
-/

namespace CodeAtlas.Locate

open List Syntax Catalog CodeAtlas.Action Work
open Text (utf8 decodeAny)
open Value (strings)

variable {t : Files.Tree} {paths : List String} {cs : List Char} {e : Text.Utf8Fault} {γ : Type}
  {file root : Path} {bytes : List UInt8} {time : Int}

structure Reading where
  path : String
  bytes : List UInt8
  time : Int
  module : Module

variable {f : Reading}

namespace Reading

def source (f : Reading) : String × Module := (f.path, f.module)

def lines (f : Reading) : List (List Char) := Text.splitLines (decodeAny f.bytes).2

/-- Records the file, whose characters are known. -/
def record (f : Reading) (cs : List Char) (l : Locations) : Locations :=
  (l.addFile f.path (Text.fileLines (Text.unifyNewlines cs)).length f.bytes.length
    (Moment.ofMicros f.time).fullText (Digest.cut hashLength (Digest.ofPieces .sha256 f.bytes))).1

/-- This is read of the file in a project. -/
structure IsAt (f : Reading) (t : Files.Tree) (root : Path) : Prop where
  read : t.read (root.child f.path) = .ok (f.bytes, f.time)
  parses : parseModule? (decodeAny f.bytes).2 = some f.module

end Reading

/-- What becomes of locations when file `i` of a catalog is recorded and placed. -/
def visit (catalog : Value) (i : Nat) (f : Reading) (l : Locations) :
    Except Failure Unit × Locations :=
  match utf8 f.bytes with
  | .error e => (.error (.decoding e), l)
  | .ok cs =>
    let placed := Context.placeAll ⟨catalog, i, f.lines⟩ f.module (f.record cs l)
    (placed.1.mapError .access, placed.2)

/-- What becomes of locations when files are visited one after the other, the first of which is file
`i`. -/
def visitAll (catalog : Value) : Nat → List Reading → Locations → Except Failure Unit × Locations
  | _, [], l => (.ok (), l)
  | i, f :: fs, l =>
    match visit catalog i f l with
    | (.ok _, l) => visitAll catalog (i + 1) fs l
    | (.error e, l) => (.error e, l)

def outcome (catalog : Value) (fs : List Reading) : Except Failure Unit × Locations :=
  match visitAll catalog 0 fs {} with
  | (.ok _, l) => (.ok (), { l with counted := l.count })
  | (.error e, l) => (.error e, l)

/-! ### Findings -/

/-- What is found at the path of a file. -/
inductive Finding where
  | nothing
  /-- It cannot be asked after, or not be read as a file. -/
  | refused (e : Failure)
  /-- A file that holds no module. -/
  | text (path : String) (bytes : List UInt8) (time : Int)
  | source (f : Reading)

/-- What is found in a project at the path of a file. -/
def finding (t : Files.Tree) (root : Path) (path : String) : Finding :=
  match t.hasEntry (root.child path) with
  | .error f => .refused (.file f (root.child path).text)
  | .ok false => .nothing
  | .ok true =>
    match t.read (root.child path) with
    | .error (f, p) => .refused (.file f p.text)
    | .ok (bytes, time) =>
      match parseModule? (decodeAny bytes).2 with
      | none => .text path bytes time
      | some m => .source ⟨path, bytes, time, m⟩

/-- What becomes of locations when file `i` of a catalog is met: one that is not there is passed
over. -/
def meet (catalog : Value) (i : Nat) (l : Locations) : Finding → Except Failure Unit × Locations
  | .nothing => (.ok (), l)
  | .refused e => (.error e, l)
  | .text path bytes time =>
    match utf8 bytes with
    | .error e => (.error (.decoding e), l)
    | .ok cs => (.ok (),
      (l.addFile path (Text.fileLines (Text.unifyNewlines cs)).length bytes.length
        (Moment.ofMicros time).fullText (Digest.cut hashLength (Digest.ofPieces .sha256 bytes))).1)
  | .source f => visit catalog i f l

/-- What becomes of locations when files are met one after the other, the first of which is file
`i`. -/
def meetAll (catalog : Value) : Nat → List Finding → Locations → Except Failure Unit × Locations
  | _, [], l => (.ok (), l)
  | i, x :: xs, l =>
    match meet catalog i l x with
    | (.ok _, l) => meetAll catalog (i + 1) xs l
    | (.error e, l) => (.error e, l)

/-- What a run over all files of a catalog comes to, given what is found at their paths. -/
def outcomeOf (catalog : Value) (xs : List Finding) : Except Failure Unit × Locations :=
  match meetAll catalog 0 xs {} with
  | (.ok _, l) => (.ok (), { l with counted := l.count })
  | (.error e, l) => (.error e, l)

/-! ### Visits -/

section Visit

variable {catalog : Value} {i : Nat} {f : Reading} {fs : List Reading} {l l' : Locations}

lemma visit_of_utf8 (h : utf8 f.bytes = .ok cs) : visit catalog i f l =
      ((Context.placeAll ⟨catalog, i, f.lines⟩ f.module (f.record cs l)).1.mapError .access,
        (Context.placeAll ⟨catalog, i, f.lines⟩ f.module (f.record cs l)).2) := by
  simp only [visit, h]

lemma visit_of_error (h : utf8 f.bytes = .error e) :
    visit catalog i f l = (.error (.decoding e), l) := by
  simp only [visit, h]

lemma visitAll_cons_ok (h : visit catalog i f l = (.ok (), l')) :
    visitAll catalog i (f :: fs) l = visitAll catalog (i + 1) fs l' := by
  simp only [visitAll, h]

lemma visitAll_cons_error {e : Failure} (h : visit catalog i f l = (.error e, l')) :
    visitAll catalog i (f :: fs) l = (.error e, l') := by
  simp only [visitAll, h]

/-- Files that are visited to the end are in UTF-8. -/
lemma utf8_of_visitAll (h : (visitAll catalog i fs l).1 = .ok ()) :
    ∀ f ∈ fs, ∃ cs, utf8 f.bytes = .ok cs := by
  induction fs generalizing i l with
  | nil => simp
  | cons f fs ih =>
    intro g hg
    rcases hvisit : visit catalog i f l with ⟨e | _, l1⟩
    · rw [visitAll_cons_error hvisit] at h
      cases h
    · rw [visitAll_cons_ok hvisit] at h
      rcases mem_cons.mp hg with rfl | hg
      · rcases hutf8 : utf8 g.bytes with e | cs
        · rw [visit_of_error hutf8] at hvisit
          cases hvisit
        · exact ⟨cs, rfl⟩
      · exact ih h g hg

lemma view_visitAll {view : Locations → γ}
    (h : ∀ f ∈ fs, ∀ i l, view (visit catalog i f l).2 = view l) :
    view (visitAll catalog i fs l).2 = view l := by
  induction fs generalizing i l with
  | nil => rfl
  | cons f fs ih =>
    have hview := h f mem_cons_self i l
    rcases hvisit : visit catalog i f l with ⟨e | _, l1⟩ <;> rw [hvisit] at hview
    · rw [visitAll_cons_error hvisit]
      exact hview
    · rw [visitAll_cons_ok hvisit, ih fun g hg => h g (mem_cons_of_mem _ hg)]
      exact hview

lemma visitAll_congr {catalog' : Value}
    (h : ∀ f ∈ fs, ∀ i l, visit catalog' i f l = visit catalog i f l) :
    visitAll catalog' i fs l = visitAll catalog i fs l := by
  induction fs generalizing i l with
  | nil => rfl
  | cons f fs ih =>
    have hrest : ∀ i l, visitAll catalog' i fs l = visitAll catalog i fs l := fun _ _ =>
      ih fun g hg => h g (mem_cons_of_mem _ hg)
    simp only [visitAll, h f mem_cons_self, hrest]

lemma outcome_fst : (outcome catalog fs).1 = (visitAll catalog 0 fs {}).1 := by
  unfold outcome
  rcases visitAll catalog 0 fs {} with ⟨e | _, l⟩ <;> rfl

lemma outcome_view (view : Locations → γ)
    (hview : ∀ l totals, view { l with counted := totals } = view l)
    (catalog : Value) : view (outcome catalog fs).2 = view (visitAll catalog 0 fs {}).2 := by
  unfold outcome
  rcases visitAll catalog 0 fs {} with ⟨e | _, l⟩
  · rfl
  · exact hview l l.count

variable {x : Finding} {xs : List Finding}

lemma meetAll_cons_ok (h : meet catalog i l x = (.ok (), l')) :
    meetAll catalog i (x :: xs) l = meetAll catalog (i + 1) xs l' := by
  simp only [meetAll, h]

lemma meetAll_cons_error {e : Failure} (h : meet catalog i l x = (.error e, l')) :
    meetAll catalog i (x :: xs) l = (.error e, l') := by
  simp only [meetAll, h]

lemma meetAll_append (h : meetAll catalog i xs l = (.ok (), l')) (ys : List Finding) :
    meetAll catalog i (xs ++ ys) l = meetAll catalog (i + xs.length) ys l' := by
  induction xs generalizing i l with
  | nil =>
    cases h
    rfl
  | cons x xs ih =>
    rcases hmeet : meet catalog i l x with ⟨e | _, l1⟩
    · rw [meetAll_cons_error hmeet] at h
      cases h
    · rw [meetAll_cons_ok hmeet] at h
      rw [cons_append, meetAll_cons_ok hmeet, ih h, length_cons, Nat.add_assoc, Nat.add_comm 1]

/-- Files that are not there are passed over. -/
lemma meetAll_nothing (h : ∀ x ∈ xs, x = .nothing) : meetAll catalog i xs l = (.ok (), l) := by
  induction xs generalizing i with
  | nil => rfl
  | cons x xs ih =>
    obtain ⟨rfl, hxs⟩ := forall_mem_cons.mp h
    exact (meetAll_cons_ok rfl).trans (ih hxs)

lemma meetAll_source : meetAll catalog i (fs.map .source) l = visitAll catalog i fs l := by
  induction fs generalizing i l with
  | nil => rfl
  | cons f fs ih =>
    rw [map_cons]
    rcases hvisit : visit catalog i f l with ⟨e | _, l1⟩
    · rw [visitAll_cons_error hvisit]
      exact meetAll_cons_error hvisit
    · rw [visitAll_cons_ok hvisit, ← ih]
      exact meetAll_cons_ok hvisit

lemma outcomeOf_source : outcomeOf catalog (fs.map .source) = outcome catalog fs := by
  unfold outcomeOf outcome
  rw [meetAll_source]

lemma outcomeOf_fst : (outcomeOf catalog xs).1 = (meetAll catalog 0 xs {}).1 := by
  unfold outcomeOf
  rcases meetAll catalog 0 xs {} with ⟨e | _, l⟩ <;> rfl

end Visit

lemma finding_of_isAt (h : f.IsAt t root) : finding t root f.path = .source f := by
  have hthere := Files.Tree.hasEntry_of_read h.read
  unfold finding
  rw [hthere, h.read]
  simp only [h.parses]

/-- What is found at a path is as the tree has it. -/
inductive Finding.IsAt (t : Files.Tree) (root : Path) (path : String) : Finding → Prop
  | nothing (none : t.hasEntry (root.child path) = .ok false) : IsAt t root path .nothing
  | unasked {f : Files.Fault} (fault : t.hasEntry (root.child path) = .error f) :
      IsAt t root path (.refused (.file f (root.child path).text))
  | unread {f : Files.Fault} {p : Path} (there : t.hasEntry (root.child path) = .ok true)
      (fault : t.read (root.child path) = .error (f, p)) :
        IsAt t root path (.refused (.file f p.text))
  | text {bytes : List UInt8} {time : Int} (read : t.read (root.child path) = .ok (bytes, time))
      (parses : parseModule? (decodeAny bytes).2 = none) :
        IsAt t root path (.text path bytes time)
  | source {f : Reading} (is : f.IsAt t root) (here : f.path = path) : IsAt t root path (.source f)

lemma isAt_finding (t : Files.Tree) (root : Path) (path : String) :
    (finding t root path).IsAt t root path := by
  unfold finding
  rcases hthere : t.hasEntry (root.child path) with f | _ | _
  · exact .unasked hthere
  · exact .nothing hthere
  · rcases hread : t.read (root.child path) with ⟨f, p⟩ | ⟨bytes, time⟩
    · exact .unread hthere hread
    · rcases hparse : parseModule? (decodeAny bytes).2 with _ | m <;> simp only [hparse]
      · exact .text hread hparse
      · exact .source ⟨hread, hparse⟩ rfl

lemma isAt_of_finding {path : String} (h : finding t root path = .source f) :
    f.IsAt t root ∧ f.path = path := by
  have hfound := isAt_finding t root path
  rw [h] at hfound
  cases hfound with
  | source hat hhere => exact ⟨hat, hhere⟩

/-! ### Recording and placing a file -/

section Files

variable {t : Files.Tree} {q : Plan} {paths : List String} {i : Nat} {path : String}

lemma yields_filePath (hq : q.catalog.field "files" = .ok (strings paths))
    (hi : paths[i]? = some path) :
    Action.Yields (q.filePath i) t (.ok (path, q.root.child path)) := by
  have hpart : (strings paths).part (.int i) = .ok (.str path) :=
    Value.part_list (by rw [getElem?_map, hi, Option.map_some])
  refine Action.Yields.bind (yields_access (x := .str path) ?_) (yields_pure _)
  rw [hq]
  exact hpart

lemma yields_read (hread : t.read file = .ok (bytes, time)) :
    Action.Yields (do Action.ofFiles ((← Action.tree).read file)) t (.ok (bytes, time)) := by
  refine yields_tree.bind ?_
  rw [hread]
  exact yields_ofFiles_ok _

lemma yields_read_error {p : Path} {f : Files.Fault} (hread : t.read file = .error (f, p)) :
    Action.Yields (do Action.ofFiles ((← Action.tree).read file)) t (.error (.file f p.text)) := by
  refine yields_tree.bind ?_
  rw [hread]
  exact yields_ofFiles_error

lemma yields_fileHash (hread : t.read file = .ok (bytes, time)) :
    Action.Yields (fileHash file) t (.ok (Digest.cut hashLength (Digest.ofPieces .sha256 bytes))) :=
  (yields_readBytes hread).bind (yields_pure _)

section

variable (hq : q.catalog.field "files" = .ok (strings paths)) (hi : paths[i]? = some path)
  (hread : t.read (q.root.child path) = .ok (bytes, time))

include hq hi hread

lemma yields_addFile (hutf8 : utf8 bytes = .ok cs) (l : Locations) :
    Work.Yields (q.addFile i) t l (.ok l.files.length) (l.addFile path
      (Text.fileLines (Text.unifyNewlines cs)).length bytes.length (Moment.ofMicros time).fullText
      (Digest.cut hashLength (Digest.ofPieces .sha256 bytes))).1 := by
  exact (yields_lift (yields_filePath hq hi)).bind
    ((yields_lift (yields_isThere hread)).bind
      ((yields_lift (yields_read hread)).bind ((yields_lift (yields_decode hutf8)).bind
        ((yields_lift (yields_fileHash hread)).bind (yields_get.bind
          ((yields_set _).bind (yields_pure _)))))))

lemma yields_addFile_error
    (hutf8 : utf8 bytes = .error e) (l : Locations) :
    Work.Yields (q.addFile i) t l (.error (.decoding e)) l := by
  exact (yields_lift (yields_filePath hq hi)).bind
    ((yields_lift (yields_isThere hread)).bind
      ((yields_lift (yields_read hread)).bind
        ((yields_lift (yields_decode_error hutf8)).bind_error _)))

end

lemma yields_readModule? (hread : t.read file = .ok (bytes, time)) :
    Action.Yields (readModule? file) t (.ok ((parseModule? (decodeAny bytes).2).map
      (·, Text.splitLines (decodeAny bytes).2))) :=
  (yields_readBytes hread).attempt.bind (yields_pure _)

section

variable (hq : q.catalog.field "files" = .ok (strings paths)) (hi : paths[i]? = some path)

include hq hi

lemma yields_placeFile (hread : t.read (q.root.child path) = .ok (bytes, time)) {m : Module}
    (hm : parseModule? (decodeAny bytes).2 = some m) {l l' : Locations}
    {r : Except AccessFault Unit}
    (hall : Context.placeAll ⟨q.catalog, i, Text.splitLines (decodeAny bytes).2⟩ m l =
      (r, l')) :
    Work.Yields (q.placeFile i) t l (r.mapError .access) l' := by
  have hmodule := yields_readModule? hread
  rw [hm, Option.map_some] at hmodule
  refine (yields_lift (yields_filePath hq hi)).bind
    ((yields_lift (yields_isThere hread)).bind
      ((yields_lift hmodule).bind ?_))
  have hstep := yields_monadLift (t := t) (d := l)
    (Context.placeAll ⟨q.catalog, i, Text.splitLines (decodeAny bytes).2⟩ m)
  rwa [hall] at hstep

lemma yields_placeFile_text (hread : t.read (q.root.child path) = .ok (bytes, time))
    (hm : parseModule? (decodeAny bytes).2 = none) (l : Locations) :
    Work.Yields (q.placeFile i) t l (.ok ()) l := by
  have hmodule := yields_readModule? hread
  rw [hm, Option.map_none] at hmodule
  exact (yields_lift (yields_filePath hq hi)).bind
    ((yields_lift (yields_isThere hread)).bind
      ((yields_lift hmodule).bind (yields_pure ())))

lemma yields_meet_nothing (hthere : t.hasEntry (q.root.child path) = .ok false) (l : Locations) :
    Work.Yields (do let _ ← q.addFile i; q.placeFile i) t l (.ok ()) l := by
  have hadd : Work.Yields (q.addFile i) t l (.ok (-1)) l :=
    (yields_lift (yields_filePath hq hi)).bind
      ((yields_lift (yields_isThere_of_hasEntry hthere)).bind
        ((yields_lift (yields_print _)).bind (yields_pure _)))
  exact hadd.bind ((yields_lift (yields_filePath hq hi)).bind
    ((yields_lift (yields_isThere_of_hasEntry hthere)).bind (yields_pure ())))

lemma yields_meet (l : Locations) : Work.Yields (do let _ ← q.addFile i; q.placeFile i) t l
      (meet q.catalog i l (finding t q.root path)).1
        (meet q.catalog i l (finding t q.root path)).2 := by
  have hfound := isAt_finding t q.root path
  generalize finding t q.root path = x at hfound
  cases hfound with
  | nothing hthere => exact yields_meet_nothing hq hi hthere l
  | unasked hfault =>
    refine Work.Yields.bind_error ?_ _
    exact (yields_lift (yields_filePath hq hi)).bind
      ((yields_lift (yields_isThere_error hfault)).bind_error _)
  | unread hthere hfault =>
    refine Work.Yields.bind_error ?_ _
    exact (yields_lift (yields_filePath hq hi)).bind
      ((yields_lift (yields_isThere_of_hasEntry hthere)).bind
        ((yields_lift (yields_read_error hfault)).bind_error _))
  | @text bytes time hread hparse =>
    rcases hutf8 : utf8 bytes with e | cs <;> simp only [meet, hutf8]
    · exact (yields_addFile_error hq hi hread hutf8 l).bind_error _
    · exact (yields_addFile hq hi hread hutf8 l).bind (yields_placeFile_text hq hi hread hparse _)
  | @source f hf hpath =>
    subst hpath
    rcases hutf8 : utf8 f.bytes with e | cs
    · rw [meet, visit_of_error hutf8]
      exact (yields_addFile_error hq hi hf.read hutf8 l).bind_error _
    · rw [meet, visit_of_utf8 hutf8]
      exact (yields_addFile hq hi hf.read hutf8 l).bind
        (yields_placeFile hq hi hf.read hf.parses rfl)

end

end Files

/-! ### Runs -/

section Runs

variable {t : Files.Tree} {q : Plan}

lemma yields_buildFrom (hq : q.catalog.field "files" = .ok (strings paths))
    (total : Nat) (after : List String) :
    ∀ (before : List String) (l : Locations), paths = before ++ after →
      Work.Yields (q.buildFrom (strings paths) total before.length after.length) t l
        (meetAll q.catalog before.length (after.map (finding t q.root)) l).1
        (meetAll q.catalog before.length (after.map (finding t q.root)) l).2 := by
  induction after with
  | nil =>
    intro before l _
    exact yields_pure ()
  | cons path after ih =>
    intro before l hpaths
    have hi : paths[before.length]? = some path := by simp [hpaths]
    have hname : (strings paths).item before.length = .ok (.str path) :=
      Value.item_list (by rw [getElem?_map, hi, Option.map_some])
    refine (yields_lift (yields_access hname)).bind
      ((yields_lift (yields_print _)).bind ?_)
    rw [← bind_assoc, map_cons]
    have hmeet := yields_meet (t := t) hq hi l
    rcases hrun : meet q.catalog before.length l (finding t q.root path) with ⟨e | _, l1⟩ <;>
      rw [hrun] at hmeet
    · rw [meetAll_cons_error hrun]
      exact hmeet.bind_error _
    · rw [meetAll_cons_ok hrun]
      have hrest := ih (before ++ [path]) l1 (by simp [hpaths])
      rw [length_append, length_singleton] at hrest
      exact hmeet.bind hrest

/-- A run over all files of a catalog, whatever is found at their paths. -/
lemma yields_build_findings (hq : q.catalog.field "files" = .ok (strings paths)) :
    Work.Yields q.build t {} (outcomeOf q.catalog (paths.map (finding t q.root))).1
      (outcomeOf q.catalog (paths.map (finding t q.root))).2 := by
  have hbuild := yields_buildFrom (t := t) hq paths.length paths [] {} rfl
  have hsize : (strings paths).size = .ok paths.length := by simp [strings, Value.size]
  refine (yields_lift (yields_print _)).bind ((yields_lift (yields_access hq)).bind
    ((yields_lift (yields_access hsize)).bind ?_))
  rw [length_nil] at hbuild
  unfold outcomeOf
  rcases hmeet : meetAll q.catalog 0 (paths.map (finding t q.root)) {} with ⟨e | _, l⟩ <;>
    rw [hmeet] at hbuild
  · exact hbuild.bind_error _
  · refine hbuild.bind ((yields_modify _).bind (yields_get.bind
      ((yields_lift (yields_print _)).bind (Work.Yields.bind (yields_forIn ?_)
        (yields_pure _)))))
    rintro ⟨label, key, n⟩ -
    exact (yields_lift (yields_print _)).bind (yields_pure _)

/-- A run over all files of a catalog, if they hold modules. -/
lemma yields_build {fs : List Reading}
    (hq : q.catalog.field "files" = .ok (strings (fs.map (·.path))))
    (hat : ∀ f ∈ fs, f.IsAt t q.root) :
    Work.Yields q.build t {} (outcome q.catalog fs).1 (outcome q.catalog fs).2 := by
  have hfindings : (fs.map (·.path)).map (finding t q.root) = fs.map .source := by
    rw [map_map]
    refine map_congr_left fun f hf => ?_
    rw [Function.comp_apply, finding_of_isAt (hat f hf)]
  have hbuild := yields_build_findings (t := t) hq
  rwa [hfindings, outcomeOf_source] at hbuild

end Runs

lemma exists_readings {sources : List (String × Module)}
    (h : ∀ pm ∈ sources, module? t (root.child pm.1) = some pm.2) :
    ∃ fs : List Reading, fs.map Reading.source = sources ∧ ∀ f ∈ fs, f.IsAt t root := by
  induction sources with
  | nil => exact ⟨[], rfl, by simp⟩
  | cons pm sources ih =>
    obtain ⟨fs, hfs, hat⟩ := ih fun x hx => h x (mem_cons_of_mem _ hx)
    obtain ⟨bytes, time, hread, hparse⟩ := exists_read_of_module? (h pm mem_cons_self)
    refine ⟨⟨pm.1, bytes, time, pm.2⟩ :: fs, by rw [map_cons, hfs]; rfl, ?_⟩
    intro f hf
    rcases mem_cons.mp hf with rfl | hf
    · exact ⟨hread, hparse⟩
    · exact hat f hf

end CodeAtlas.Locate
