import CodeAtlas.Proofs.Document
import CodeAtlas.Proofs.Gathering
import CodeAtlas.Proofs.Index.Fidelity

/-!
# Documents as they are viewed

Both forms of a document read as the document, so viewing either file prints the indented text, if
the files are different ones (`Project.views_agree`).
-/

namespace CodeAtlas

open CodeAtlas.Action List Prod String
open Text (utf8Bytes)

variable {α β : Type} {a : Action α} {x : α} {st : Json.Style} {file name text : String}
  {f : α → PUnit → Action (ForInStep PUnit)} {Q : Session → Prop} {t : Files.Tree} {xs : List α}
  {data : Value} {d : Page.Documents} {header : Header}

namespace Action

lemma ok_of_onFailure {handle : Failure → Action Unit} {s s' : Session}
    (h : onFailure a handle s = (.ok x, s')) : a s = (.ok x, s') := by
  rcases ha : a s with ⟨e | y, s1⟩
  · have hattempt : attempt a s = (.ok (.error e), s1) := by simp only [attempt, ha]
    unfold onFailure at h
    rw [bind_ok hattempt] at h
    obtain ⟨⟨⟩, s2, -, hthrow⟩ := exists_of_bind_ok h
    cases hthrow
  · rw [onFailure_ok ha] at h
    exact h

lemma write_of_jsonText {v : Value} {s s' : Session} (h : jsonText st v s = (.ok text, s')) :
    Json.write st v = .ok text ∧ s' = s := by
  unfold jsonText at h
  rcases hwrite : Json.write st v with e | t <;> rw [hwrite] at h <;> cases h
  exact ⟨rfl, rfl⟩

/-- An action succeeds, in a session such that something holds. -/
def Reaches {α : Type} (a : Action α) (s : Session) (Q : Session → Prop) : Prop :=
  ∃ x s', a s = (.ok x, s') ∧ Q s'

lemma Reaches.bind {f : α → Action β} {s s1 : Session} (ha : a s = (.ok x, s1))
    (hf : Reaches (f x) s1 Q) : Reaches (a >>= f) s Q := by
  unfold Reaches
  rw [bind_ok ha]
  exact hf

lemma Yields.reaches_bind {f : α → Action β} {s : Session} (ha : Yields a t (.ok x))
    (hs : s.tree = t)
    (hf : ∀ s1 : Session, s1.tree = t → Reaches (f x) s1 Q) : Reaches (a >>= f) s Q := by
  obtain ⟨s1, hs1, htree⟩ := ha s hs
  exact .bind hs1 (hf s1 htree)

lemma wrote_of_forIn (good : α → Prop) (ws : α → List (Path × List UInt8))
    (hround : ∀ a ∈ xs, ∀ s s' r, f a ⟨⟩ s = (.ok r, s') → r = .yield ⟨⟩ ∧ good a ∧
      s.tree.Wrote (ws a) s'.tree)
    {s s' : Session} {r : PUnit} (h : forIn xs ⟨⟩ f s = (.ok r, s')) :
    (∀ a ∈ xs, good a) ∧ s.tree.Wrote (xs.flatMap ws) s'.tree := by
  induction xs generalizing s with
  | nil =>
    cases h
    exact ⟨by simp, .nil _⟩
  | cons a xs ih =>
    rw [forIn_cons] at h
    obtain ⟨r1, s1, hfirst, hrest⟩ := exists_of_bind_ok h
    obtain ⟨rfl, hgood, hwrote⟩ := hround a mem_cons_self _ _ _ hfirst
    obtain ⟨hgoods, hwrotes⟩ := ih (fun b hb => hround b (mem_cons_of_mem _ hb)) hrest
    exact ⟨forall_mem_cons.mpr ⟨hgood, hgoods⟩, by
      rw [flatMap_cons]
      exact hwrote.append hwrotes⟩

lemma Reaches.forIn_bind {k : PUnit → Action β} {inv : Session → Prop}
    (hround : ∀ a ∈ xs, ∀ s, inv s → ∃ s', f a ⟨⟩ s = (.ok (.yield ⟨⟩), s') ∧ inv s') {s : Session}
    (h : inv s)
    (hrest : ∀ s', inv s' → Reaches (k ⟨⟩) s' Q) : Reaches (forIn xs ⟨⟩ f >>= k) s Q := by
  induction xs generalizing s with
  | nil => exact .bind (show forIn [] ⟨⟩ f s = (.ok ⟨⟩, s) from rfl) (hrest s h)
  | cons a xs ih =>
    obtain ⟨s1, hfirst, h1⟩ := hround a mem_cons_self s h
    rw [forIn_cons, bind_assoc]
    exact .bind hfirst (ih (fun b hb => hround b (mem_cons_of_mem _ hb)) h1)

end Action

/-! ### Viewing a file -/

namespace Document

variable {s : Session} {path : Path} {time : Int} {minify : Bool} {v : Value} {ok : Int → Prop}

lemma exists_writeChars_of_write (h : Json.write st v = .ok text) :
    Json.writeChars st 0 v = .ok text.toList := by
  unfold Json.write at h
  rcases hcs : Json.writeChars st 0 v with e | cs
  · simp [hcs, Except.map] at h
  · rw [hcs] at h
    cases h
    rw [toList_ofList]

lemma reads_of_write (hv : v.Plain ok) (h : Json.write (jsonStyle minify) v = .ok text) :
    Json.Reads text.toList v :=
  Json.reads_of_writeChars hv (faithful_jsonStyle minify) (exists_writeChars_of_write h)

lemma readText_of_read (hreturn : '\r' ∉ text.toList)
    (hread : s.tree.read path = .ok (utf8Bytes text, time)) :
    readText path s = (.ok text.toList, s) := by
  have htree : tree s = (.ok s.tree, s) := rfl
  have hfiles : ofFiles (s.tree.read path) s = (.ok (utf8Bytes text, time), s) :=
    by rw [hread]; rfl
  have hbytes : readBytes path s = (.ok (utf8Bytes text), s) := by
    unfold readBytes
    rw [bind_ok htree, bind_ok hfiles]
    rfl
  have hdecode : decode (utf8Bytes text) s = (.ok text.toList, s) := by
    unfold decode
    rw [Text.utf8_utf8Bytes]
    rfl
  unfold readText
  rw [bind_ok hbytes, bind_ok hdecode, Text.unifyNewlines_of_notMem hreturn]
  rfl

lemma isThere_of_read {file : List UInt8 × Int} (hread : s.tree.read path = .ok file) :
    isThere path s = (.ok true, s) := by
  have htree : tree s = (.ok s.tree, s) := rfl
  unfold isThere ask
  rw [bind_ok htree, Files.Tree.hasEntry_of_read hread]
  rfl

lemma printJson_of_read (hv : v.Plain ok) {shown : String}
    (htext : Json.write (jsonStyle minify) v = .ok text)
    (hshown : Json.write (jsonStyle false) v = .ok shown)
    (hread : s.tree.read path = .ok (utf8Bytes text, time)) :
    printJson path s = (.ok true, { s with printed := s.printed ++ [shown ++ "\n"] }) := by
  have hreads := reads_of_write hv htext
  have hparse : parseJson text.toList s = (.ok v, s) := by
    unfold parseJson
    rw [hreads.readChars]
    rfl
  have hjson : jsonText (jsonStyle false) v s = (.ok shown, s) := by
    unfold jsonText
    rw [hshown]
    rfl
  have hact : (do
      let data ← parseJson (← readText path)
      print (← jsonText (jsonStyle false) data) : Action Unit) s =
        (.ok (), { s with printed := s.printed ++ [shown ++ "\n"] }) := by
    rw [bind_ok (readText_of_read hreads.returns hread), bind_ok hparse, bind_ok hjson]
    rfl
  unfold printJson
  rw [bind_ok (isThere_of_read hread)]
  refine Eq.trans (bind_ok (x := .ok ()) ?_ _) rfl
  unfold attempt
  rw [hact]

lemma text_ne_compact {e : String × Value} {es : List (String × Value)} {compact : String}
    (htext : Json.write (jsonStyle false) (.table (e :: es)) = .ok text)
    (hcompact : Json.write (jsonStyle true) (.table (e :: es)) = .ok compact) : text ≠ compact := by
  obtain ⟨ts, hts, heq⟩ := Json.exists_of_writeChars_table (exists_writeChars_of_write htext)
  obtain ⟨ts', hts', heq'⟩ := Json.exists_of_writeChars_table (exists_writeChars_of_write hcompact)
  rintro rfl
  rw [heq] at heq'
  cases hts with
  | cons _ _ =>
    cases hts' with
    | cons _ _ =>
      simp [jsonStyle, Json.Layout.enclose, Json.Layout.edge, Json.newlineIndent,
        Json.quote] at heq'

end Document

/-! ### The documents of a project are plain -/

namespace Index

open Value (AnyInt plain_nat plain_strings plain_table_map)

@[simp] lemma plain_row (ns : List Int) : (row ns).Plain AnyInt := by simp [row]

lemma plain_toValue (h : Header) : h.toValue.Plain AnyInt := by simp [Header.toValue]

lemma plain_hints (h : Hints) : (Skeleton.Hints.toValue h).Plain AnyInt := by
  have hparams : (Value.list (h.params.map fun pt => row [pt.1, pt.2])).Plain AnyInt :=
    Value.plain_list.mpr (forall_mem_map.mpr fun _ _ => plain_row _)
  unfold Skeleton.Hints.toValue
  cases h.returns with
  | none => exact .table (by simp) (by simpa using hparams)
  | some r => exact .table (by simp) (by simpa using hparams)

lemma plain_skeleton {s : Skeleton} (hhints : s.hints.keys.Nodup)
    (hdecorators : s.decorators.keys.Nodup) : (s.document header).Plain AnyInt := by
  have hh := plain_table_map toString (fun _ _ => Json.toString_int_inj) plain_hints hhints
  have hd := plain_table_map toString (fun _ _ => Json.toString_int_inj)
    (fun ds : List Nat => plain_row (ds.map Int.ofNat)) hdecorators
  rw [Skeleton.document, Value.plain_table]
  refine ⟨by simp, ?_⟩
  simp only [forall_mem_cons, not_mem_nil, false_imp_iff, implies_true, and_true]
  refine ⟨plain_toValue header, plain_strings _, plain_strings _, ?_, ?_, ?_, ?_, ?_, hh, hd⟩ <;>
    simp

lemma plain_places (p : Places) : (p.document header).Plain AnyInt := by
  simp [Places.document, Places.ranges, plain_toValue]

lemma plain_documentWith {ρ : Type} (n : Notes ρ) {texts : String}
    (htexts : texts ∉ ["meta", "modules", "classes", "functions"]) (place : ρ → List Int)
    (header : Header) : (n.documentWith texts place header).Plain AnyInt := by
  have hgroups : ∀ groups, (Notes.groupRows place groups).Plain AnyInt := fun groups =>
    Value.plain_list.mpr (forall_mem_map.mpr fun _ _ => by simp [AnyInt])
  rw [Notes.documentWith, Value.plain_table]
  refine ⟨?_, by simp [plain_toValue, hgroups]⟩
  simp at htexts
  simp
  grind

end Index

namespace Project

open Index
open Value (AnyInt)

/-- The documents of a project are plain. -/
lemma plain_files (p : Project) (outlines : List Outline.File) (header : Header) :
    ∀ e ∈ files (documents header (p.atlas outlines)), e.2.Plain AnyInt := by
  have hfaithful := Atlas.faithful_ofFiles
    (outlines.map fun o => (p.inside (Path.ofString o.path), o))
  have hhints : (p.atlas outlines).skeleton.hints.keys.Nodup := by
    rw [atlas, hfaithful.hints]
    exact Skeleton.nodup_located
  have hdecorators : (p.atlas outlines).skeleton.decorators.keys.Nodup := by
    rw [atlas, hfaithful.decorators]
    exact Skeleton.nodup_located
  simp only [files, forall_mem_cons, not_mem_nil, false_imp_iff, implies_true, and_true]
  exact ⟨plain_skeleton hhints hdecorators, plain_places _,
    plain_documentWith _ (by decide) _ _, plain_documentWith _ (by decide) _ _⟩

/-- Documents that can be written have no integers beyond the limit. -/
lemma plain_files_of_texts (p : Project) (outlines : List Outline.File) (header : Header)
    (st : Json.Style)
    (htexts : ((files (documents header (p.atlas outlines))).all fun e =>
      (Json.write st e.2).toOption.isSome) = true) :
    ∀ e ∈ files (documents header (p.atlas outlines)), e.2.Plain Digits.Within := by
  intro e he
  obtain ⟨text, htext⟩ := Option.isSome_iff_exists.mp (all_eq_true.mp htexts e he)
  have hwrite : Json.write st e.2 = .ok text := by
    rcases h : Json.write st e.2 with f | t <;> simp_all [Except.toOption]
  exact Json.plain_of_writeChars (p.plain_files _ _ e he)
    (Document.exists_writeChars_of_write hwrite)

/-! ### What an indexed project has written -/

def fileBytes (minify : Bool) (data : Value) : List UInt8 :=
  ((Json.write (Document.jsonStyle minify) data).toOption.map utf8Bytes).getD []

lemma fileBytes_of_write {minify : Bool}
    (h : Json.write (Document.jsonStyle minify) data = .ok text) :
    fileBytes minify data = utf8Bytes text := by
  simp [fileBytes, h, Except.toOption]

def documentPath (p : Project) (file : String) (minify : Bool) : Path :=
  p.output.child (file ++ if minify then "-mini.json" else ".json")

def documentWrites (p : Project) (e : String × Value) : List (Path × List UInt8) :=
  (p.documentPath e.1 false, fileBytes false e.2) ::
    if p.minified then [(p.documentPath e.1 true, fileBytes true e.2)] else []

def pagePaths (p : Project) : List Path := if p.page then [p.output.child Page.fileName] else []

/-- The files of an indexed project. -/
def outputs (p : Project) : List Path :=
  ["tech-index", "tech-location", "tech-docstrings", "tech-comments"].flatMap (fun file =>
    p.documentPath file false :: if p.minified then [p.documentPath file true] else []) ++
      p.pagePaths

variable {p : Project} {s s' : Session}

lemma parts_child_ne_nil (dir : Path) (h : (Path.ofString name).parts ≠ []) :
    (dir.child name).parts ≠ [] := by
  unfold Path.child Path.join
  split_ifs
  · exact h
  · simp [h]

lemma wrote_of_writeDocument {minify : Bool}
    (h : p.writeDocument file data minify s = (.ok (), s')) :
    (∃ text, Json.write (Document.jsonStyle minify) data = .ok text) ∧
      s.tree.Wrote [(p.output.child file, fileBytes minify data)] s'.tree := by
  obtain ⟨text, s1, htext, hbody⟩ := exists_of_bind_ok (ok_of_onFailure h)
  obtain ⟨hwrite, rfl⟩ := write_of_jsonText htext
  obtain ⟨⟨⟩, s2, hbytes, hsize⟩ := exists_of_bind_ok hbody
  have hread := read_of_writeBytes hbytes
  have hrest := ((yields_fileSize hread).bind (yields_log _ _ _)).of_run hsize
  refine ⟨⟨text, hwrite⟩, ?_⟩
  rw [fileBytes_of_write hwrite, hrest.2]
  exact .cons (write_of_writeBytes hbytes) (.nil _)

lemma yields_printCounts (title : String) (counts : Value) :
    Yields (printCounts title counts) t (.ok ()) := by
  refine (yields_print _).bind ?_
  cases counts with
  | table entries =>
    refine Yields.bind (x := ⟨⟩) (yields_forIn fun e _ => ?_) (yields_pure _)
    obtain ⟨key, v⟩ := e
    dsimp only
    exact (yields_print _).bind (yields_pure _)
  | _ => exact yields_pure _

lemma yields_printStatistics (a : Atlas) : Yields (printStatistics a) t (.ok ()) :=
  (yields_print _).bind <| (yields_print _).bind <| (yields_print _).bind <|
    (yields_printCounts _ _).bind <|
    (yields_printCounts _ _).bind <| (yields_printCounts _ _).bind <|
      (yields_printCounts _ _).bind <| yields_print _

/-- Whether the texts of a document exist in the styles that it is written in. -/
def Writes (p : Project) (v : Value) : Prop :=
  (∃ text, Json.write (Document.jsonStyle false) v = .ok text) ∧
    (p.minified = true → ∃ text, Json.write (Document.jsonStyle true) v = .ok text)

lemma wrote_of_round {r : ForInStep PUnit} (h : (do
      p.writeDocument (file ++ ".json") data false
      if p.minified then
        p.writeDocument (file ++ "-mini.json") data true
        pure (.yield ⟨⟩)
      else pure (.yield ⟨⟩) : Action (ForInStep PUnit)) s = (.ok r, s')) :
    r = .yield ⟨⟩ ∧ p.Writes data ∧ s.tree.Wrote (p.documentWrites (file, data)) s'.tree := by
  obtain ⟨⟨⟩, s1, hfirst, hrest⟩ := exists_of_bind_ok h
  obtain ⟨hregular, hwrote⟩ := wrote_of_writeDocument hfirst
  unfold Writes documentWrites
  by_cases hminified : p.minified
  · rw [if_pos hminified] at hrest ⊢
    obtain ⟨⟨⟩, s2, hsecond, hreturn⟩ := exists_of_bind_ok hrest
    obtain ⟨hmini, hwrote'⟩ := wrote_of_writeDocument hsecond
    cases hreturn
    exact ⟨rfl, ⟨hregular, fun _ => hmini⟩, hwrote.append hwrote'⟩
  · rw [if_neg hminified] at hrest ⊢
    cases hrest
    exact ⟨rfl, ⟨hregular, fun h => absurd h hminified⟩, hwrote⟩

lemma wrote_of_write {a : Atlas} (h : p.write a s = (.ok d, s')) :
    (∃ header, d = documents header a) ∧ (∀ e ∈ files d, p.Writes e.2) ∧
      ∃ t : Files.Tree, t.Wrote ((files d).flatMap p.documentWrites) s'.tree := by
  unfold write at h
  obtain ⟨⟨⟩, s1, -, h⟩ := exists_of_bind_ok h
  obtain ⟨⟨⟩, s2, -, h⟩ := exists_of_bind_ok h
  obtain ⟨s3, s4, -, h⟩ := exists_of_bind_ok h
  obtain ⟨⟨⟩, s5, -, h⟩ := exists_of_bind_ok h
  obtain ⟨⟨⟩, s6, -, h⟩ := exists_of_bind_ok h
  obtain ⟨⟨⟩, s7, -, h⟩ := exists_of_bind_ok h
  obtain ⟨⟨⟩, s8, -, h⟩ := exists_of_bind_ok h
  obtain ⟨⟨⟩, s9, hloop, h⟩ := exists_of_bind_ok h
  obtain ⟨⟨⟩, s10, hprint, h⟩ := exists_of_bind_ok h
  cases h
  obtain ⟨hgood, hwrote⟩ := wrote_of_forIn (fun e => p.Writes e.2) p.documentWrites
    (fun e _ _ _ _ => wrote_of_round) hloop
  rw [((yields_printStatistics a).of_run hprint).2]
  exact ⟨⟨_, rfl⟩, hgood, _, hwrote⟩

lemma eq_of_mapM_jsonText {vs : List Value} {texts : List String}
    (h : vs.mapM (jsonText st) s = (.ok texts, s')) : s' = s := by
  induction vs generalizing s texts with
  | nil =>
    cases h
    rfl
  | cons v vs ih =>
    rw [mapM_cons] at h
    obtain ⟨text, s1, htext, hrest⟩ := exists_of_bind_ok h
    obtain ⟨-, rfl⟩ := write_of_jsonText htext
    obtain ⟨texts', s2, htexts, hreturn⟩ := exists_of_bind_ok hrest
    cases hreturn
    exact ih htexts

lemma wrote_of_writePage (h : p.writePage d s = (.ok (), s')) :
    ∃ content, s.tree.Wrote [(p.output.child Page.fileName, content)] s'.tree := by
  unfold writePage at h
  obtain ⟨⟨⟩, s1, hinfo, h⟩ := exists_of_bind_ok h
  obtain ⟨file, s2, hgenerate, hinfo'⟩ := exists_of_bind_ok h
  have hgenerate := ok_of_onFailure hgenerate
  unfold Page.generate at hgenerate
  obtain ⟨⟨⟩, s3, hinfo1, hgenerate⟩ := exists_of_bind_ok hgenerate
  obtain ⟨template, s4, htemplate, hgenerate⟩ := exists_of_bind_ok hgenerate
  obtain ⟨page, s5, hembed, hgenerate⟩ := exists_of_bind_ok hgenerate
  obtain ⟨⟨⟩, s6, hbytes, hgenerate⟩ := exists_of_bind_ok hgenerate
  obtain ⟨size, s7, hsize, hgenerate⟩ := exists_of_bind_ok hgenerate
  obtain ⟨⟨⟩, s8, hinfo2, hreturn⟩ := exists_of_bind_ok hgenerate
  obtain ⟨texts, s9, htexts, hfill⟩ := exists_of_bind_ok hembed
  obtain rfl : s3 = s4 := congrArg snd htemplate
  obtain rfl : s8 = s2 := congrArg snd hreturn
  obtain rfl : s9 = s5 := congrArg snd hfill
  obtain rfl : s9 = s3 := eq_of_mapM_jsonText htexts
  refine ⟨utf8Bytes page, ?_⟩
  rw [((yields_log _ _ _).of_run hinfo').2, ((yields_log _ _ _).of_run hinfo2).2,
    ((yields_fileSize (read_of_writeBytes hbytes)).of_run hsize).2,
    ← ((yields_log _ _ _).of_run hinfo).2, ← ((yields_log _ _ _).of_run hinfo1).2]
  exact .cons (write_of_writeBytes hbytes) (.nil _)

lemma exists_atlas_of_gather {a : Atlas} (h : p.gather s = (.ok (some a), s')) :
    ∃ outlines, a = p.atlas outlines := by
  unfold gather at h
  obtain ⟨⟨⟩, s1, -, h⟩ := exists_of_bind_ok h
  obtain ⟨sources, s2, -, h⟩ := exists_of_bind_ok h
  obtain ⟨⟨⟩, s3, -, h⟩ := exists_of_bind_ok h
  split_ifs at h
  · obtain ⟨⟨⟩, s4, -, h⟩ := exists_of_bind_ok h
    cases h
  · obtain ⟨⟨outlines, r⟩, s4, -, h⟩ := exists_of_bind_ok h
    obtain ⟨⟨⟩, s5, -, h⟩ := exists_of_bind_ok h
    obtain ⟨⟨⟩, s6, -, h⟩ := exists_of_bind_ok h
    obtain ⟨⟨⟩, s7, -, h⟩ := exists_of_bind_ok h
    cases h
    exact ⟨outlines, rfl⟩

/-- An indexed project has written the documents of what was gathered, and then its page. -/
lemma wrote_of_index (h : p.index s = (.ok (some d), s')) :
    (∃ a header, (p.gather s).1 = .ok (some a) ∧ d = documents header a) ∧
      (∀ e ∈ files d, p.Writes e.2 ∧ e.2.Plain AnyInt) ∧
      ∃ (t : Files.Tree) (more : List (Path × List UInt8)),
        t.Wrote ((files d).flatMap p.documentWrites ++ more) s'.tree ∧
          more.map fst = p.pagePaths := by
  unfold index at h
  obtain ⟨found, s1, hgather, h⟩ := exists_of_bind_ok h
  cases found with
  | none => cases h
  | some a =>
    obtain ⟨d', s2, hwrite, h⟩ := exists_of_bind_ok h
    obtain ⟨⟨header, rfl⟩, hgood, t, hwrote⟩ := wrote_of_write hwrite
    obtain ⟨outlines, rfl⟩ := exists_atlas_of_gather hgather
    have hplain := p.plain_files outlines header
    unfold pagePaths
    by_cases hpage : p.page
    · rw [if_pos hpage] at h ⊢
      obtain ⟨⟨⟩, s3, hpage, h⟩ := exists_of_bind_ok h
      obtain ⟨⟨⟩, s4, hinfo, h⟩ := exists_of_bind_ok h
      cases h
      obtain ⟨content, hwrote'⟩ := wrote_of_writePage hpage
      refine ⟨⟨_, header, by rw [hgather], rfl⟩, fun e he => ⟨hgood e he, hplain e he⟩, t,
        [(p.output.child Page.fileName, content)], ?_, rfl⟩
      rw [((yields_log _ _ _).of_run hinfo).2]
      exact hwrote.append hwrote'
    · rw [if_neg hpage] at h ⊢
      obtain ⟨⟨⟩, s3, hinfo, h⟩ := exists_of_bind_ok h
      cases h
      refine ⟨⟨_, header, by rw [hgather], rfl⟩, fun e he => ⟨hgood e he, hplain e he⟩, t, [], ?_,
        rfl⟩
      rw [((yields_log _ _ _).of_run hinfo).2, append_nil]
      exact hwrote

lemma parts_ne_nil_of_mem_outputs {q : Path} (h : q ∈ p.outputs) : q.parts ≠ [] := by
  have hdocument : ∀ file ∈ ["tech-index", "tech-location", "tech-docstrings", "tech-comments"],
      ∀ minify, (p.documentPath file minify).parts ≠ [] := fun file hfile minify =>
    parts_child_ne_nil _ (by revert minify file; decide +kernel)
  rcases mem_append.mp h with h | h
  · obtain ⟨file, hfile, hq⟩ := mem_flatMap.mp h
    rcases mem_cons.mp hq with rfl | hq
    · exact hdocument file hfile false
    · rw [mem_ite_nil_right, mem_singleton] at hq
      exact hq.2 ▸ hdocument file hfile true
  · rw [pagePaths, mem_ite_nil_right, mem_singleton] at h
    exact h.2 ▸ parts_child_ne_nil _ (by decide +kernel)

lemma map_fst_writes (d : Page.Documents) {more : List (Path × List UInt8)}
    (hmore : more.map fst = p.pagePaths) :
    ((files d).flatMap p.documentWrites ++ more).map fst = p.outputs := by
  rw [map_append, hmore, outputs]
  cases hminified : p.minified <;> simp [files, documentWrites, hminified]

lemma mem_documentWrites (hminified : p.minified = true) (e : String × Value) (minify : Bool) :
    (p.documentPath e.1 minify, fileBytes minify e.2) ∈ p.documentWrites e := by
  unfold documentWrites
  cases minify <;> simp [hminified]

/-- **Both texts of a document are viewed alike.** An indexed project with compact documents has
written both texts of every document of what was gathered, unless two of its files are one. Both
files then hold the document, and viewing either prints the indented text and a line feed. -/
theorem views_agree {d : Page.Documents} (h : p.index s = (.ok (some d), s'))
    (hminified : p.minified = true) (hplaces : (p.outputs.map s'.tree.place?).Nodup) :
    (∃ a header, (p.gather s).1 = .ok (some a) ∧ d = documents header a) ∧
      ∀ e ∈ files d, ∃ text : Bool → String, ∀ minify,
        Json.write (Document.jsonStyle minify) e.2 = .ok (text minify) ∧
        (∃ time, s'.tree.read (p.documentPath e.1 minify) =
          .ok (utf8Bytes (text minify), time)) ∧
        (readText (p.documentPath e.1 minify) >>= parseJson) s' = (.ok e.2, s') ∧
        Document.printJson (p.documentPath e.1 minify) s' =
          (.ok true, { s' with printed := s'.printed ++ [text false ++ "\n"] }) := by
  obtain ⟨hgathered, hgood, t, more, hwrote, hmore⟩ := wrote_of_index h
  refine ⟨hgathered, fun e he => ?_⟩
  obtain ⟨⟨⟨regular, hregular⟩, hmini⟩, hplain⟩ := hgood e he
  obtain ⟨mini, hmini⟩ := hmini hminified
  have htext : ∀ minify, Json.write (Document.jsonStyle minify) e.2 =
      .ok (if minify then mini else regular) := by
    rintro (_ | _)
    · exact hregular
    · exact hmini
  refine ⟨fun minify => if minify then mini else regular, fun minify => ⟨htext minify, ?_⟩⟩
  rw [← map_fst_writes d hmore, List.map_map] at hplaces
  obtain ⟨time, hread⟩ := hwrote.read_of_nodup
    (fun w hw => parts_ne_nil_of_mem_outputs (map_fst_writes d hmore ▸ mem_map_of_mem hw)) hplaces
    (mem_append_left _ (mem_flatMap.mpr ⟨e, he, mem_documentWrites hminified e minify⟩))
  rw [fileBytes_of_write (htext minify)] at hread
  have hreads := Document.reads_of_write hplain (htext minify)
  refine ⟨⟨time, hread⟩, ?_, Document.printJson_of_read hplain (htext minify) (htext false) hread⟩
  rw [bind_ok (Document.readText_of_read hreads.returns hread), parseJson, hreads.readChars]
  rfl

/-! ### Projects that can be indexed -/

theorem exists_writeDocument {minify : Bool}
    (htext : Json.write (Document.jsonStyle minify) data = .ok text)
    (hpath : s.tree.Writable (p.output.child file)) :
    Reaches (p.writeDocument file data minify) s fun _ => True := by
  have hjson : jsonText (Document.jsonStyle minify) data s = (.ok text, s) := by
    unfold jsonText
    rw [htext]
    rfl
  obtain ⟨s1, hbytes, hread⟩ := exists_writeBytes hpath (utf8Bytes text)
  obtain ⟨⟨⟩, s2, hrun, -⟩ : Reaches (do
      writeText (p.output.child file) (← jsonText (Document.jsonStyle minify) data)
      let size ← fileSize (p.output.child file)
      let form := if minify then "minified" else "pretty-printed"
      info s!"Wrote: {file} ({form}, {Fixed.mebibytes size} MB)") s fun _ => True :=
    .bind hjson <| .bind hbytes <| (yields_fileSize hread).reaches_bind rfl fun _ _ =>
      ⟨_, _, rfl, trivial⟩
  exact ⟨_, s2, onFailure_ok hrun _, trivial⟩

/-- All files of a project can be written, and their paths lead where they led. -/
def Ready (p : Project) (t : Files.Tree) (s : Session) : Prop :=
  ∀ q ∈ p.outputs, s.tree.Writable q ∧ s.tree.place? q = t.place? q

lemma Ready.wrote {ws : List (Path × List UInt8)} (h : p.Ready t s)
    (hws : ∀ w ∈ ws, w.1 ∈ p.outputs) (hrun : s.tree.Wrote ws s'.tree) : p.Ready t s' := by
  intro q hq
  obtain ⟨hwritable, hplace⟩ :=
    (h q hq).1.wrote (fun w hw => parts_ne_nil_of_mem_outputs (hws w hw)) hrun
  exact ⟨hwritable, hplace.trans (h q hq).2⟩

lemma Ready.writeDocument {minify : Bool} (h : p.Ready t s)
    (htext : Json.write (Document.jsonStyle minify) data = .ok text)
    (hfile : p.output.child file ∈ p.outputs) :
    Reaches (p.writeDocument file data minify) s (p.Ready t) := by
  obtain ⟨⟨⟩, s', hrun, -⟩ := exists_writeDocument htext (h _ hfile).1
  exact ⟨_, s', hrun, h.wrote (by simpa using hfile) (wrote_of_writeDocument hrun).2⟩

lemma yields_ensureDirectory {path : Path} (h : t.hasDir path = .ok true) :
    Yields (Workspace.ensureDirectory path) t (.ok ()) := by
  refine (yields_isThere_of_hasEntry (Files.Tree.hasEntry_of_hasDir h)).bind ?_
  refine (yields_ask h).bind ?_
  exact yields_log _ _ _

lemma Ready.round (h : p.Ready t s) (hwrites : p.Writes data)
    (hfile : file ∈ ["tech-index", "tech-location", "tech-docstrings", "tech-comments"]) : ∃ s', (do
      p.writeDocument (file ++ ".json") data false
      if p.minified then
        p.writeDocument (file ++ "-mini.json") data true
        pure (.yield ⟨⟩)
      else pure (.yield ⟨⟩) : Action (ForInStep PUnit)) s = (.ok (.yield ⟨⟩), s') ∧
        p.Ready t s' := by
  obtain ⟨⟨text, htext⟩, hmini⟩ := hwrites
  have hregular : p.output.child (file ++ ".json") ∈ p.outputs :=
    mem_append_left _ (mem_flatMap.mpr ⟨file, hfile, mem_cons_self⟩)
  obtain ⟨⟨⟩, s1, hfirst, h1⟩ := h.writeDocument htext hregular
  rw [bind_ok hfirst]
  by_cases hminified : p.minified
  · obtain ⟨mini, hmini⟩ := hmini hminified
    have hcompact : p.output.child (file ++ "-mini.json") ∈ p.outputs :=
      mem_append_left _ (mem_flatMap.mpr ⟨file, hfile, by simp [hminified, documentPath]⟩)
    obtain ⟨⟨⟩, s2, hsecond, h2⟩ := h1.writeDocument hmini hcompact
    rw [if_pos hminified, bind_ok hsecond]
    exact ⟨s2, rfl, h2⟩
  · rw [if_neg hminified]
    exact ⟨s1, rfl, h1⟩

lemma Ready.write {a : Atlas} (h : p.Ready s.tree s) (hdir : s.tree.hasDir p.output = .ok true)
    (hwrites : ∀ header, ∀ e ∈ files (documents header a), p.Writes e.2) :
    Reaches (p.write a) s (p.Ready s.tree) := by
  unfold Project.write
  refine (yields_log _ _ _).reaches_bind rfl fun s1 hs1 => ?_
  refine (yields_ensureDirectory hdir).reaches_bind hs1 fun s2 hs2 => ?_
  refine Reaches.bind (show (get : Action Session) s2 = (.ok s2, s2) from rfl) ?_
  refine (yields_log _ _ _).reaches_bind hs2 fun s3 hs3 => ?_
  refine (yields_log _ _ _).reaches_bind hs3 fun s4 hs4 => ?_
  refine (yields_log _ _ _).reaches_bind hs4 fun s5 hs5 => ?_
  refine (yields_log _ _ _).reaches_bind hs5 fun s6 hs6 => ?_
  have hready : p.Ready s.tree s6 := by
    unfold Ready
    rw [hs6]
    exact h
  have hnames : ∀ d, ∀ e ∈ files d,
      e.1 ∈ ["tech-index", "tech-location", "tech-docstrings", "tech-comments"] := by
    simp [files]
  refine Reaches.forIn_bind (fun e he s' hs' => hs'.round (hwrites _ e he) (hnames _ e he)) hready
    fun s7 h7 => ?_
  refine (yields_printStatistics a).reaches_bind rfl fun s8 hs8 => ?_
  refine ⟨_, s8, rfl, ?_⟩
  unfold Ready
  rw [hs8]
  exact h7

lemma exists_index {a : Atlas} (hgather : Yields p.gather s.tree (.ok (some a)))
    (hdir : s.tree.hasDir p.output = .ok true) (hpage : p.page = false)
    (hwritable : ∀ q ∈ p.outputs, s.tree.Writable q)
    (hwrites : ∀ header, ∀ e ∈ files (documents header a), p.Writes e.2) :
    ∃ d s', p.index s = (.ok (some d), s') ∧
      ∀ q ∈ p.outputs, s'.tree.place? q = s.tree.place? q := by
  obtain ⟨s1, hs1, htree⟩ := hgather s rfl
  have hready : p.Ready s1.tree s1 := fun q hq => ⟨htree ▸ hwritable q hq, rfl⟩
  obtain ⟨d, s2, hs2, h2⟩ := hready.write (htree ▸ hdir) hwrites
  obtain ⟨s3, hs3, htree3⟩ := yields_log .info "Indexing complete!" none s2 rfl
  refine ⟨d, s3, ?_, fun q hq => ?_⟩
  · unfold index
    rw [bind_ok hs1]
    refine (bind_ok hs2 _).trans ?_
    rw [hpage]
    exact bind_ok hs3 _
  · rw [htree3, (h2 q hq).2, htree]

lemma writes_of_header {a : Atlas} {header : Header}
    (h : ∀ e ∈ files (documents header a), e.2.Plain Digits.Within) (again : Header) :
    ∀ e ∈ files (documents again a), p.Writes e.2 := by
  have hheader : ∀ entries : List (String × Value),
      (Value.table (("meta", header.toValue) :: entries)).Plain Digits.Within →
      p.Writes (.table (("meta", again.toValue) :: entries)) := by
    intro entries hplain
    obtain ⟨hkeys, hentries⟩ := Value.plain_table.mp hplain
    have hagain : (Value.table (("meta", again.toValue) :: entries)).Plain Digits.Within :=
      .table hkeys (forall_mem_cons.mpr ⟨by simp [Header.toValue], (forall_mem_cons.mp hentries).2⟩)
    exact ⟨Json.exists_write _ hagain, fun _ => Json.exists_write _ hagain⟩
  simp only [files, forall_mem_cons, not_mem_nil, false_imp_iff, implies_true, and_true] at h ⊢
  exact ⟨hheader _ h.1, hheader _ h.2.1, hheader _ h.2.2.1, hheader _ h.2.2.2⟩

/-- The files of a project: one whose docstring is a carriage return. -/
def deskEntries : List (String × Files.Entry) := [
  ("a.py", .file (utf8Bytes "'\\r' # a\nclass A: pass\n") 0)]

/-- The project and its output directory. -/
def deskTree (out : List (String × Files.Entry)) : Files.Tree :=
  ⟨.dir [("p", .dir deskEntries), ("o", .dir out)], []⟩

def deskProject : Project := { path := ⟨"/", ["p"]⟩, output := ⟨"/", ["o"]⟩, minified := true }

def deskAtlas : Atlas :=
  deskProject.atlas ((Outline.outlineAt? (deskTree []) ⟨"/", ["p", "a.py"]⟩).toList)

lemma yields_gather_deskTree (out : List (String × Files.Entry)) :
    Yields deskProject.gather (deskTree out) (.ok (some deskAtlas)) := by
  have hfind : (deskTree out).find deskProject.path = .ok (.entry ["p"] (.dir deskEntries)) := rfl
  have hbelow : (Files.sourcesBelow deskEntries).map (Files.below deskProject.path) =
      [⟨"/", ["p", "a.py"]⟩] := by
    decide +kernel
  have hsources : (deskTree out).sources deskProject.path true = .ok [⟨"/", ["p", "a.py"]⟩] := by
    rw [Files.Tree.sources_eq_ok_iff hfind, hbelow]
    exact ⟨by simp [deskEntries, Files.dirsBelow, Files.dirsOf], (mergeSort_singleton _).symm⟩
  obtain ⟨r, hr, hiff⟩ := Workspace.exists_yields_findSources (deskTree out) deskProject.path
  obtain rfl := (hiff _).mpr ⟨rfl, hsources⟩
  have hread : ∀ out, (deskTree out).read ⟨"/", ["p", "a.py"]⟩ =
      .ok (utf8Bytes "'\\r' # a\nclass A: pass\n", 0) := fun _ => rfl
  have hgather := yields_gather deskProject hr (by simp)
  rw [filterMap_cons, Outline.outlineAt?_eq_of_read (hread []) (hread out)] at hgather
  unfold deskAtlas
  rcases houtline : Outline.outlineAt? (deskTree []) ⟨"/", ["p", "a.py"]⟩ with _ | f <;>
    simpa [houtline] using hgather

lemma plain_deskAtlas : ∀ e ∈ files (documents ⟨"", ""⟩ deskAtlas), e.2.Plain Digits.Within :=
  plain_files_of_texts _ _ _ (Document.jsonStyle true) (by decide +kernel)

lemma writable_of_vacant {qs : List Path} {places : List Files.Place}
    (h : Forall₂ (fun q place => t.find q = .ok (.vacant place)) qs places) :
    (∀ q ∈ qs, t.Writable q) ∧ qs.map t.place? = places.map some := by
  induction h with
  | nil => simp
  | cons hq _ ih =>
    refine ⟨forall_mem_cons.mpr ⟨⟨_, hq, by simp⟩, ih.1⟩, ?_⟩
    rw [map_cons, map_cons, ih.2, Files.Tree.place?, hq]
    rfl

lemma exists_index_deskTree {out : List (String × Files.Entry)} {places : List Files.Place}
    (h : Forall₂ (fun q place => (deskTree out).find q = .ok (.vacant place))
      deskProject.outputs places) :
    ∃ d s', deskProject.index { tree := deskTree out } = (.ok (some d), s') ∧
      deskProject.outputs.map s'.tree.place? = places.map some := by
  obtain ⟨hwritable, hplaces⟩ := writable_of_vacant h
  obtain ⟨d, s', hindex, hplace⟩ := @exists_index deskProject { tree := deskTree out } deskAtlas
    (yields_gather_deskTree out) rfl rfl hwritable (writes_of_header plain_deskAtlas)
  exact ⟨d, s', hindex, (map_congr_left hplace).trans hplaces⟩

/-- The views of a project with a carriage return in its docstring. -/
theorem views_agree_desk :
    ∃ d s', deskProject.index { tree := deskTree [] } = (.ok (some d), s') ∧
      deskProject.minified = true ∧ (deskProject.outputs.map s'.tree.place?).Nodup ∧
      ∀ e ∈ files d, ∃ text : Bool → String, ∀ minify,
        Json.write (Document.jsonStyle minify) e.2 = .ok (text minify) ∧
        Document.printJson (deskProject.documentPath e.1 minify) s' =
          (.ok true, { s' with printed := s'.printed ++ [text false ++ "\n"] }) := by
  obtain ⟨d, s', hindex, hplaces⟩ := @exists_index_deskTree []
    (["tech-index.json", "tech-index-mini.json", "tech-location.json", "tech-location-mini.json",
      "tech-docstrings.json", "tech-docstrings-mini.json", "tech-comments.json",
      "tech-comments-mini.json"].map
        (["o", ·]))
    (.cons rfl <| .cons rfl <| .cons rfl <| .cons rfl <| .cons rfl <| .cons rfl <| .cons rfl <|
    .cons rfl .nil)
  have hnodup : (deskProject.outputs.map s'.tree.place?).Nodup := by
    rw [hplaces]
    decide +kernel
  refine ⟨d, s', hindex, rfl, hnodup, fun e he => ?_⟩
  obtain ⟨text, htext⟩ := (views_agree hindex rfl hnodup).2 e he
  exact ⟨text, fun minify => ⟨(htext minify).1, (htext minify).2.2.2⟩⟩

/-! ### Documents in one file -/

/-- Two names of an output directory that are links to one file. -/
def linkedOutputs : List (String × Files.Entry) :=
  [("tech-index.json", .link "x"), ("tech-index-mini.json", .link "x")]

lemma targetNames_x : Files.Entry.targetNames "x" = ["x"] := by
  have hsplit : "x".splitOn "/" = ["x"] := by
    unfold String.splitOn
    rw [if_neg (by decide)]
    unfold splitOnAux
    rw [if_neg (by decide +kernel), if_neg (by decide +kernel)]
    unfold splitOnAux
    rw [if_pos (by decide +kernel)]
    decide +kernel
  unfold Files.Entry.targetNames
  rw [hsplit]
  decide +kernel

lemma find_linkedOutputs (h : name ∈ ["tech-index.json", "tech-index-mini.json"]) :
    (deskTree linkedOutputs).find ⟨"/", ["o", name]⟩ = .ok (.vacant ["o", "x"]) := by
  have hstep : (deskTree linkedOutputs).find ⟨"/", ["o", name]⟩ =
      Files.followLinks (deskTree linkedOutputs).root true 39 (if "x".startsWith "/" then []
      else ["o"])
        (Files.Entry.targetNames "x" ++ []) := by
    obtain rfl | rfl : name = "tech-index.json" ∨ name = "tech-index-mini.json" := by simpa using h
    · rfl
    · rfl
  rw [hstep, targetNames_x, if_neg (by decide +kernel)]
  rfl

lemma flatMap_documentWrites (hminified : p.minified = true) :
    (files d).flatMap p.documentWrites =
      [(p.documentPath "tech-index" false, fileBytes false d.skeleton)] ++
      (p.documentPath "tech-index" true, fileBytes true d.skeleton) ::
        (files d).tail.flatMap p.documentWrites := by
  simp [files, documentWrites, hminified]

/-- **Links can make an indented document be lost.** Where the names of both texts of a document are
links to one file, the compact text stands in it. Viewing it prints the indented text, so it does
not print the text of the file. -/
theorem linked_document_overwritten :
    ∃ d s' text compact time, deskProject.index { tree := deskTree linkedOutputs } =
      (.ok (some d), s') ∧ Json.write (Document.jsonStyle false) d.skeleton = .ok text ∧
      Json.write (Document.jsonStyle true) d.skeleton = .ok compact ∧ text ≠ compact ∧
      s'.tree.read (deskProject.documentPath "tech-index" false) =
        .ok (utf8Bytes compact, time) ∧
      Document.printJson (deskProject.documentPath "tech-index" false) s' =
        (.ok true, { s' with printed := s'.printed ++ [text ++ "\n"] }) := by
  obtain ⟨d, s', hindex, hplaces⟩ := @exists_index_deskTree linkedOutputs
    (["x", "x", "tech-location.json", "tech-location-mini.json", "tech-docstrings.json",
      "tech-docstrings-mini.json", "tech-comments.json", "tech-comments-mini.json"].map (["o", ·]))
    (.cons (find_linkedOutputs (by decide)) <| .cons (find_linkedOutputs (by decide)) <|
    .cons rfl <| .cons rfl <|
      .cons rfl <| .cons rfl <| .cons rfl <| .cons rfl .nil)
  obtain ⟨⟨a, header, -, rfl⟩, hgood, t, more, hwrote, hmore⟩ := wrote_of_index hindex
  obtain rfl : more = [] := map_eq_nil_iff.mp hmore
  obtain ⟨⟨⟨text, htext⟩, hcompact⟩, hplain⟩ := hgood _ mem_cons_self
  obtain ⟨compact, hcompact⟩ := hcompact rfl
  -- all other files are elsewhere, so the second write to the shared one is the last
  have hfirst : s'.tree.place? (deskProject.documentPath "tech-index" false) = some ["o", "x"] :=
    Option.some.inj (congrArg head? hplaces)
  have hsecond : s'.tree.place? (deskProject.documentPath "tech-index" true) = some ["o", "x"] :=
    Option.some.inj (congrArg (head? ∘ tail) hplaces)
  have hrest : ((files (documents header a)).tail.flatMap deskProject.documentWrites).map fst =
      deskProject.outputs.drop 2 := by
    simp [files, documentWrites, outputs, pagePaths, deskProject]
  have helse : ∀ w ∈ (files (documents header a)).tail.flatMap deskProject.documentWrites,
      w.1.parts ≠ [] ∧ s'.tree.place? w.1 ≠ some ["o", "x"] := by
    intro w hw
    have hmem : w.1 ∈ deskProject.outputs.drop 2 := hrest ▸ mem_map_of_mem hw
    refine ⟨parts_ne_nil_of_mem_outputs (mem_of_mem_drop hmem), fun hx => ?_⟩
    have hx' := mem_map_of_mem (f := s'.tree.place?) hmem
    rw [map_drop, hplaces, hx] at hx'
    exact absurd hx' (by decide)
  rw [append_nil, flatMap_documentWrites rfl] at hwrote
  obtain ⟨time, hread⟩ :=
    hwrote.read (fun w hw => (helse w hw).1) fun w hw => hsecond ▸ (helse w hw).2
  rw [fileBytes_of_write hcompact] at hread
  have hread' := Files.Tree.read_of_place?_eq (p := deskProject.documentPath "tech-index" false)
    (by decide +kernel) (by decide +kernel) (hfirst.trans hsecond.symm) hread
  exact ⟨_, s', text, compact, time, hindex, htext, hcompact,
    Document.text_ne_compact htext hcompact, hread',
    Document.printJson_of_read hplain hcompact htext hread'⟩

end Project

end CodeAtlas
