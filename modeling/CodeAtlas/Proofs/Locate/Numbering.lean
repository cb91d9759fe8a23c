import CodeAtlas.Proofs.Locate.Endings
import CodeAtlas.Proofs.Locate.Soundness
import CodeAtlas.Proofs.Outline.Comments

/-!
# The numbers of lines

Files and definitions count lines at line feeds, comments and indentations at all that ends lines of
plain text (`numbered_by_line_feeds_iff`).
-/

namespace CodeAtlas

open List

variable {cs line : List Char} {n i : Nat} {f : Reading} {fs : List Reading}

namespace Text

/-! ### Two ways to end lines -/

lemma notMem_decodeAny (bytes : List UInt8) : '\r' ∉ (decodeAny bytes).2 := by
  unfold decodeAny
  split
  · exact notMem_unifyNewlines _
  · split <;> exact notMem_unifyNewlines _

lemma decodeAny_of_utf8 {bytes : List UInt8} (h : utf8 bytes = .ok cs) :
    (decodeAny bytes).2 = unifyNewlines cs := by
  simp only [decodeAny, h]

lemma exists_of_getElem?_splitLinesFrom {back : List Char} (hcr : '\r' ∉ cs)
    (hback : ∀ ch ∈ back, isLineBoundary ch = false)
    (h : (splitLinesFrom back cs)[n]? = some line) :
    ∃ above below, back.reverse ++ cs = above ++ (line ++ below) ∧ above.countP isLineBoundary = n ∧
      (∀ ch ∈ line, isLineBoundary ch = false) ∧ ∀ ch ∈ below.head?, isLineBoundary ch = true := by
  fun_induction splitLinesFrom back cs generalizing n with
  | case1 back hempty => simp at h
  | case2 back hempty =>
    obtain ⟨rfl, rfl⟩ : n = 0 ∧ back.reverse = line := by
      cases n <;> simp_all
    exact ⟨[], [], by simp, rfl, by simpa using hback, by simp⟩
  | case3 back cs ih => simp at hcr
  | case4 back c cs hne hc ih =>
    rw [mem_cons, not_or] at hcr
    cases n with
    | zero =>
      obtain rfl : back.reverse = line := by simpa using h
      exact ⟨[], c :: cs, by simp, rfl, by simpa using hback, by simpa using hc⟩
    | succ n =>
      obtain ⟨above, below, hcs, hcount, hline, hbelow⟩ := ih hcr.2 (by simp) (by simpa using h)
      refine ⟨back.reverse ++ c :: above, below, ?_, ?_, hline, hbelow⟩
      · simpa using hcs
      · have hnone : back.countP isLineBoundary = 0 := countP_eq_zero.mpr (by simpa using hback)
        simp [hc, hcount, hnone]
  | case5 back c cs hne hc ih =>
    rw [mem_cons, not_or] at hcr
    simpa using ih hcr.2 (forall_mem_cons.mpr ⟨by simpa using hc, hback⟩) h

lemma countP_isLineBoundary_eq_iff :
    cs.countP isLineBoundary = cs.count '\n' ↔ ∀ ch ∈ cs, isLineBoundary ch = true → ch = '\n' := by
  have hle : ∀ cs : List Char, cs.count '\n' ≤ cs.countP isLineBoundary := fun cs =>
    countP_mono_left fun ch _ hch => by rw [eq_of_beq hch]; rfl
  induction cs with
  | nil => simp
  | cons ch cs ih =>
    have hrest := hle cs
    rw [forall_mem_cons, countP_cons, count_cons]
    by_cases hfeed : ch = '\n'
    · subst hfeed
      simpa [show isLineBoundary '\n' = true from rfl] using ih
    · by_cases hch : isLineBoundary ch = true
      · simp only [hch, hfeed, beq_iff_eq, if_true, if_false, forall_const, false_and, iff_false]
        omega
      · simpa [hch, hfeed] using ih

lemma count_add_one_eq (cs : List Char) :
    cs.count '\n' + 1 = (fileLines cs).length + if cs ≠ [] ∧ cs.getLast? ≠ some '\n' then 0
      else 1 := by
  rcases eq_nil_or_concat cs with rfl | ⟨front, ch, rfl⟩
  · rfl
  rw [concat_eq_append]
  by_cases hch : ch = '\n'
  · subst hch
    simp [fileLines, splitOnChar_concat, length_splitOnChar]
  · obtain ⟨parts, w, hparts⟩ :=
      exists_splitOnChar_append (show '\n' ∉ [ch] by simpa using Ne.symm hch) front
    have hlength := length_splitOnChar '\n' (front ++ [ch])
    rw [← hlength]
    simp [fileLines, hparts, hch]

lemma count_lt_length_fileLines (above rest : List Char) {ch : Char} (hch : ch ≠ '\n') :
    above.count '\n' < (fileLines (above ++ ch :: rest)).length := by
  have hlines := count_add_one_eq (above ++ ch :: rest)
  rw [count_append, count_cons_of_ne hch] at hlines
  by_cases hrest : '\n' ∈ rest
  · have hpos := count_pos_iff.mpr hrest
    split at hlines <;> omega
  · -- the last line is the one of the character, so it is not ended
    have hlast : (above ++ ch :: rest).getLast? ≠ some '\n' := by
      rw [getLast?_append_cons]
      exact fun h => not_mem_cons_of_ne_of_not_mem (Ne.symm hch) hrest (mem_of_getLast? h)
    rw [if_pos ⟨by simp, hlast⟩] at hlines
    omega

lemma splitLinesFrom_append (h : ∀ ch ∈ line, isLineBoundary ch = false) (back cs : List Char) :
    splitLinesFrom back (line ++ cs) = splitLinesFrom (line.reverse ++ back) cs := by
  induction line generalizing back with
  | nil => rfl
  | cons ch line ih =>
    obtain ⟨hch, hline⟩ := forall_mem_cons.mp h
    have hcr : ch ≠ '\r' := by
      rintro rfl
      cases hch
    rw [cons_append, splitLinesFrom.eq_3 _ _ _ (fun _ hc _ => hcr hc), if_neg (by simp [hch]),
      ih hline]
    simp

lemma splitLines_append_cons (h : ∀ ch ∈ line, isLineBoundary ch = false) (rest : List Char) :
    splitLines (line ++ '\n' :: rest) = line :: splitLines rest := by
  rw [splitLines, splitLinesFrom_append h, splitLinesFrom.eq_3 _ _ _ (fun _ hc _ => by cases hc),
    if_pos (show isLineBoundary '\n' = true from rfl), append_nil, reverse_reverse, splitLines]

lemma getD_splitLines {text : List Char}
    (h : ∀ part ∈ (newlineParts text).take (n + 1), ∀ ch ∈ part, isLineBoundary ch = false) :
    (splitLines text)[n]?.getD [] = (newlineParts text)[n]?.getD [] := by
  induction hparts : newlineParts text generalizing text n with
  | nil =>
    have hlength := length_splitOnChar '\n' text
    rw [← newlineParts, hparts] at hlength
    cases hlength
  | cons part parts ih =>
    have hpart : ∀ ch ∈ part, isLineBoundary ch = false := h part (by simp [hparts])
    by_cases hfeed : '\n' ∈ text
    · obtain ⟨line, rest, rfl, hline⟩ := eq_append_cons_of_mem hfeed
      rw [newlineParts, splitOnChar_append_cons hline] at h hparts
      obtain ⟨rfl, hrest⟩ := List.cons.inj hparts
      rw [splitLines_append_cons hpart]
      cases n with
      | zero => rfl
      | succ n => exact ih (fun part hp => h part (mem_cons_of_mem _ hp)) hrest
    · rw [newlineParts, splitOnChar_of_notMem hfeed] at hparts
      obtain ⟨rfl, rfl⟩ := List.cons.inj hparts
      have hlines : splitLines text = if text = [] then [] else [text] := by
        simpa [splitLines, splitLinesFrom] using splitLinesFrom_append hpart [] []
      rw [hlines]
      split
      · next hnil => cases n <;> simp [hnil]
      · rfl

end Text

namespace Locate

open Syntax Catalog

/-! ### Comments and indentations -/

def Reading.text (f : Reading) : List Char := (Text.decodeAny f.bytes).2

/-- A marked comment stands in a text, behind all that is above it. -/
def CommentRow.StandsBehind (e : CommentRow) (texts : Table) (above text : List Char) : Prop :=
  ∃ rest note, text = above ++ '#' :: rest ∧
    remarkAfter? e.mark.word.toList (rest.takeWhile (!Text.isLineBoundary ·)) = some note ∧
    texts.get? e.text = some (String.ofList note)

lemma exists_of_remark? {word note : List Char} (h : remark? word line = some note) :
    ∃ before rest, line = before ++ '#' :: rest ∧ remarkAfter? word rest = some note := by
  fun_induction remark? word line with
  | case1 => cases h
  | case2 c cs text hfound =>
    split at hfound
    · next hc => exact ⟨[], cs, by simp [eq_of_beq hc], hfound.trans h⟩
    · cases hfound
  | case3 c cs hnone ih =>
    obtain ⟨before, rest, rfl, hnote⟩ := ih h
    exact ⟨c :: before, rest, rfl, hnote⟩

lemma CommentFrom.exists_above {F : Nat → Reading → Prop} {texts : Table} {e : CommentRow}
    (h : CommentFrom F texts e) :
    ∃ (i : Nat) (f : Reading) (above : List Char), F i f ∧ e.file = i ∧
      e.StandsBehind texts above f.text ∧ e.line = above.countP Text.isLineBoundary + 1 := by
  obtain ⟨i, f, n, line, text, hf, hfile, hline, hthere, hmarked, htext⟩ := h
  obtain ⟨mark, -, hremark⟩ := mem_filterMap.mp hmarked
  obtain ⟨note, hnote, hpair⟩ := Option.map_eq_some_iff.mp hremark
  obtain ⟨rfl, rfl⟩ := Prod.mk.inj hpair
  obtain ⟨before, rest, rfl, hafter⟩ := exists_of_remark? hnote
  obtain ⟨above, below, hcs, hcount, hplain, hbelow⟩ :=
    Text.exists_of_getElem?_splitLinesFrom (Text.notMem_decodeAny f.bytes) (by simp) hthere
  -- nothing ends the line between its beginning and the comment, nor behind that
  have hbefore : before.countP Text.isLineBoundary = 0 :=
    countP_eq_zero.mpr fun ch hch => by simp [hplain ch (by simp [hch])]
  have hrest : (rest ++ below).takeWhile (!Text.isLineBoundary ·) = rest := by
    rw [takeWhile_append_of_pos fun ch hch => by simp [hplain ch (by simp [hch])]]
    cases below <;> simp_all
  refine ⟨i, f, above ++ before, hf, hfile, ⟨rest ++ below, note, ?_, by rwa [hrest], htext⟩, ?_⟩
  · simpa [Reading.text] using hcs
  · rw [hline, countP_append, hcount, hbefore]

lemma indentation_lines (h : ∀ part ∈ (Text.newlineParts f.text).take n, ∀ ch ∈ part,
    Text.isLineBoundary ch = false) :
    indentation f.lines n = indentation (Text.newlineParts f.text) n := by
  have hgetD : ∀ lines (k : Nat), indentation lines (k + 1 : Nat) =
      (lines[k]?.getD []).length - (Text.stripLeft (lines[k]?.getD [])).length := by
    intro lines k
    have hpos : ¬ ((k + 1 : Nat) : Int) < 1 := by omega
    rw [indentation, if_neg hpos, show (((k + 1 : Nat) : Int) - 1).toNat = k by omega]
    cases lines[k]? <;> rfl
  cases n with
  | zero => rfl
  | succ n => rw [hgetD, hgetD, Reading.lines, ← Reading.text, Text.getD_splitLines h]

lemma DefinitionRow.StandsAt.indentation_eq {d : DefinitionRow} {marks : Table} {span : Span}
    {ds : List Decorator} {body : List Stmt} (h : d.StandsAt marks i f.lines span ds body)
    (hplain : ∀ part ∈ (Text.newlineParts f.text).take d.line, ∀ ch ∈ part,
      Text.isLineBoundary ch = false) :
    d.indentation = Locate.indentation (Text.newlineParts f.text) d.line := by
  obtain ⟨-, hline, -⟩ := DefinitionRow.lines_of_coordinates? h.coordinates
  rw [← indentation_lines hplain, h.indentation, hline]
  rfl

lemma files_visit (v : Value) (i : Nat) (l : Locations) (h : Text.utf8 f.bytes = .ok cs) :
    (visit v i f l).2.files.map (·.lines) = l.files.map (·.lines) ++
      [(Text.fileLines f.text).length] := by
  have hfiles : (visit v i f l).2.files = (f.record cs l).files := by
    rw [visit_of_utf8 h, view_placeAll (·.files) (fun _ => rfl) (fun _ _ => rfl)]
    exact (sameRows_addModuleImports _ _ _).files.trans (sameRows_addComments _ _ _ _).files
  rw [hfiles, Reading.text, Text.decodeAny_of_utf8 h]
  simp [Reading.record, Locations.addFile]

lemma append_outcome {γ : Type} (view : Locations → List γ) (added : Reading × Nat → List γ)
    {v : Value} (hcounted : ∀ l totals, view { l with counted := totals } = view l)
    (hvisit : ∀ f cs l, Text.utf8 f.bytes = .ok cs →
      view (visit v l.files.length f l).2 = view l ++ added (f, l.files.length))
    (h : (outcome v fs).1 = .ok ()) :
    view (outcome v fs).2 = view {} ++ fs.zipIdx.flatMap added := by
  have hvisits : ∀ (fs : List Reading) (i : Nat) (l : Locations), l.files.length = i →
      (visitAll v i fs l).1 = .ok () →
      view (visitAll v i fs l).2 = view l ++ (fs.zipIdx i).flatMap added := by
    intro fs
    induction fs with
    | nil => simp [visitAll]
    | cons f fs ih =>
      rintro i l rfl hok
      obtain ⟨cs, hcs⟩ := utf8_of_visitAll hok f mem_cons_self
      have hadded := hvisit f cs l hcs
      have hlength := congrArg List.length (files_visit v l.files.length l hcs)
      rcases hrun : visit v l.files.length f l with ⟨e | _, l1⟩ <;> rw [hrun] at hadded hlength
      · rw [visitAll_cons_error hrun] at hok
        cases hok
      · rw [visitAll_cons_ok hrun] at hok ⊢
        rw [ih _ l1 (by simpa using hlength) hok, hadded, zipIdx_cons, flatMap_cons, append_assoc]
  rw [outcome_fst] at h
  rw [outcome_view view hcounted, hvisits fs 0 {} rfl h]

lemma files_outcome (v : Value) (h : (outcome v fs).1 = .ok ()) :
    (outcome v fs).2.files.map (·.lines) = fs.map fun f => (Text.fileLines f.text).length := by
  rw [append_outcome (·.files.map (·.lines)) (fun f => [(Text.fileLines f.1.text).length])
    (fun _ _ => rfl) (fun f cs l hcs => files_visit v _ l hcs) h]
  conv_rhs => rw [← zipIdx_map_fst 0 fs, map_map, map_eq_flatMap]
  rfl

lemma IsFile.exists_reading {c : Catalog} {t : Files.Tree} {root : Path}
    (h : IsFile c t root i f) (hpaths : c.files.items = fs.map (·.path))
    (hat : ∀ g ∈ fs, g.IsAt t root) : ∃ g, fs[i]? = some g ∧ g.text = f.text := by
  obtain ⟨hpath, hread⟩ := h
  rw [Table.get?, hpaths, getElem?_map] at hpath
  obtain ⟨g, hg, hgpath⟩ := Option.map_eq_some_iff.mp hpath
  have hsame := (hat g (mem_of_getElem? hg)).read
  rw [hgpath, hread.read] at hsame
  have hbytes : f.bytes = g.bytes := congrArg Prod.fst (Except.ok.inj hsame)
  exact ⟨g, hg, by rw [Reading.text, Reading.text, hbytes]⟩

lemma lines_addComments (file : Int) (lines : List (List Char)) (l : Locations) :
    (l.addComments file n lines).comments.map (·.line) =
      l.comments.map (·.line) ++
        (lines.zipIdx n).flatMap fun x => (remarks x.1).map fun _ => x.2 := by
  induction lines generalizing n l with
  | nil => simp [Locations.addComments]
  | cons line lines ih =>
    have hline : ∀ (found : List (Mark × String)) (l : Locations),
        (found.foldl (fun l x => l.addComment file n x.1 x.2) l).comments.map (·.line) =
          l.comments.map (·.line) ++ found.map fun _ => n := by
      intro found
      induction found with
      | nil => simp
      | cons x found ih' =>
        intro l
        rw [foldl_cons, ih']
        simp [Locations.addComment]
    rw [Locations.addComments, ih, hline]
    simp [zipIdx_cons]

lemma comments_visit (v : Value) (i : Nat) (l : Locations) (h : Text.utf8 f.bytes = .ok cs) :
    (visit v i f l).2.comments.map (·.line) =
      l.comments.map (·.line) ++
        (f.lines.zipIdx 1).flatMap fun x => (remarks x.1).map fun _ => x.2 := by
  rw [visit_of_utf8 h, view_placeAll (·.comments) (fun _ => rfl) (fun _ _ => rfl),
    view_addModuleImports (·.comments) (fun _ _ => rfl), lines_addComments]
  rfl

/-! ### The main result -/

/-- Which numbers the lines of a project have when its definitions are located by its own catalog;
everything comes from the files. (With compressed names the run over the files may break off.) The
line of a comment is counted at all that ends lines of plain text above it. This is the line counted
at line feeds, which is one of those recorded for the file, just if nothing else ends lines above
the comment. The indentation of a class or a function is that of the line where it starts, if
nothing else ends lines up to there. -/
theorem numbered_by_line_feeds_iff (p : Catalog.Plan) (q : Plan) (s s' : Session)
    (h : Revisits p q s s')
    (hutf8 : InUtf8 s.tree p.root) : ∃ c l located, q.Locates p s s' c (.ok (), l) ∧
      Traced c (IsFile c s.tree p.root) located l ∧
      (∀ e ∈ l.comments, ∃ (i : Nat) (f : Reading) (row : FileRow) (above : List Char),
        IsFile c s.tree p.root i f ∧ e.file = i ∧ l.files[i]? = some row ∧
        row.lines = (Text.fileLines f.text).length ∧ e.StandsBehind l.commentTexts above f.text ∧
        e.line = above.countP Text.isLineBoundary + 1 ∧ above.count '\n' + 1 ≤ row.lines ∧
        (e.line = above.count '\n' + 1 ↔ ∀ ch ∈ above, Text.isLineBoundary ch = true → ch = '\n')) ∧
      ∀ d ∈ l.classes ++ l.functions, ∃ (i : Nat) (f : Reading), IsFile c s.tree p.root i f ∧
      d.file = i ∧
        ((∀ part ∈ (Text.newlineParts f.text).take d.line, ∀ ch ∈ part,
        Text.isLineBoundary ch = false) →
          d.indentation = indentation (Text.newlineParts f.text) d.line) := by
  obtain ⟨c, fs, ⟨s₁, s₂, hrun₁, hrun₂⟩, -, hfs, hat, hpaths, hon⟩ := h.exists_outcome
  have hok := outcome_ok_of_utf8 hon ((inUtf8_iff hfs hat).mp hutf8)
  have hlines := files_outcome _ hok
  rcases houtcome : outcome (c.document p.about p.options) fs with ⟨r, l⟩
  rw [houtcome] at hrun₂ hok hlines
  obtain rfl : r = .ok () := hok
  obtain ⟨-, ⟨located, htraced⟩, -⟩ := sound_of_build h.plain hrun₂
  rw [h.tree, h.root] at htraced
  refine ⟨c, l, located, ⟨s₁, s₂, hrun₁, hrun₂⟩, htraced, fun e he => ?_, fun d hd => ?_⟩
  · obtain ⟨i, f, above, hf, hfile, hstands, hline⟩ := (htraced.comments e he).exists_above
    obtain ⟨row, hrow, hlength⟩ :
        ∃ row, l.files[i]? = some row ∧ row.lines = (Text.fileLines f.text).length := by
      rw [← Option.map_eq_some_iff, ← getElem?_map, hlines, getElem?_map]
      obtain ⟨g, hg, htext⟩ := hf.exists_reading hpaths hat
      rw [hg, Option.map_some, htext]
    refine ⟨i, f, row, above, hf, hfile, hrow, hlength, hstands, hline, ?_, ?_⟩
    · obtain ⟨rest, note, htext, -⟩ := hstands
      rw [hlength, htext]
      exact Text.count_lt_length_fileLines above rest (by decide)
    · rw [hline, Nat.add_right_cancel_iff, Text.countP_isLineBoundary_eq_iff]
  · obtain ⟨i, f, span, ds, body, hf, hstands⟩ := htraced.exists_standsAt d hd
    exact ⟨i, f, hf, hstands.file, hstands.indentation_eq⟩

/-- A text with a form feed in quotes on its first line and a comment on its second. -/
def formFeedText : String := "x = '\x0c'\n# TODO: y\n"

lemma isRecordable_formFeed : twinCatalog.isRecordable (loneTree formFeedText) = true :=
  isRecordable_loneTree _ _ rfl (by decide +kernel)

/-- The main result at a project with that text. -/
theorem numbered_by_line_feeds_iff_formFeed :
    InUtf8 (loneTree formFeedText) twinRoot ∧ ∃ c l, twinPlan.Locates twinCatalog
        { tree := loneTree formFeedText } { tree := loneTree formFeedText } c (.ok (), l) ∧
        ∀ e ∈ l.comments, ∃ (f : Reading)
          (above : List Char), e.StandsBehind l.commentTexts above f.text ∧
          (e.line = above.count '\n' + 1 ↔ ∀ ch ∈ above, Text.isLineBoundary ch = true →
          ch = '\n') := by
  have hutf8 := inUtf8_loneTree formFeedText
  obtain ⟨c, l, -, hruns, -, hcomments, -⟩ := numbered_by_line_feeds_iff twinCatalog twinPlan _ _
    (revisits_twin (wellFormed_loneTree formFeedText) isRecordable_formFeed) hutf8
  refine ⟨hutf8, c, l, hruns, fun e he => ?_⟩
  obtain ⟨-, f, -, above, -, -, -, -, hstands, -, -, hiff⟩ := hcomments e he
  exact ⟨f, above, hstands, hiff⟩

lemma exists_reading_lone {text : String}
    (hfs : fs.map Reading.source = projectModules (loneTree text) twinRoot)
    (hat : ∀ f ∈ fs, f.IsAt (loneTree text) twinRoot)
    (h : (projectModules (loneTree text) twinRoot).map Prod.fst = ["a.py"]) :
    ∃ f, fs = [f] ∧ f.path = "a.py" ∧ f.bytes = Text.utf8Bytes text := by
  rw [← hfs, map_map] at h
  obtain ⟨f, rfl, hpath⟩ := map_eq_singleton_iff.mp h
  have hread := (hat f mem_cons_self).read
  rw [show f.path = "a.py" from hpath] at hread
  exact ⟨f, rfl, hpath, (congrArg Prod.fst (Except.ok.inj hread)).symm⟩

lemma exists_generate_lone {text : String} (hrec : twinCatalog.isRecordable (loneTree text) = true)
    (h : (projectModules (loneTree text) twinRoot).map Prod.fst = ["a.py"]) :
    ∃ c f, f.bytes = Text.utf8Bytes text ∧
      (outcome (c.document twinCatalog.about twinCatalog.options) [f]).1 = .ok () ∧
      twinPlan.Locates twinCatalog { tree := loneTree text } { tree := loneTree text } c
        (.ok (), (outcome (c.document twinCatalog.about twinCatalog.options) [f]).2) := by
  obtain ⟨c, fs, hruns, -, hfs, hat, -, hon⟩ :=
    (revisits_twin (wellFormed_loneTree text) hrec).exists_outcome
  have hok := outcome_ok_of_utf8 hon ((inUtf8_iff hfs hat).mp (inUtf8_loneTree text))
  obtain ⟨f, rfl, -, hbytes⟩ := exists_reading_lone hfs hat h
  exact ⟨c, f, hbytes, hok, by rwa [← hok]⟩

/-- The comment on the second of two lines is located on the third. -/
theorem comment_located_behind_file :
    ∃ c l, twinPlan.Locates twinCatalog { tree := loneTree formFeedText }
      { tree := loneTree formFeedText } c
        (.ok (), l) ∧
      l.comments.map (·.line) = [3] ∧ l.files.map (·.lines) = [2] := by
  have hpaths : (projectModules (loneTree formFeedText) twinRoot).map Prod.fst = ["a.py"] := by
    rw [projectModules, prunedSources_loneTree]
    decide +kernel
  obtain ⟨c, f, hbytes, hok, hruns⟩ := exists_generate_lone isRecordable_formFeed hpaths
  have hutf8 : Text.utf8 f.bytes = .ok formFeedText.toList := by rw [hbytes, Text.utf8_utf8Bytes]
  refine ⟨c, _, hruns, ?_, ?_⟩
  · have hvisit : ∀ v, (visitAll v 0 [f] {}).2 = (visit v 0 f {}).2 := by
      intro v
      rcases hrun : visit v 0 f {} with ⟨e | _, l⟩
      · rw [visitAll_cons_error hrun]
      · rw [visitAll_cons_ok hrun, visitAll]
    rw [outcome_view (·.comments.map (·.line)) (fun _ _ => rfl), hvisit, comments_visit _ _ _ hutf8,
      Reading.lines, hbytes]
    decide +kernel
  · rw [files_outcome _ hok, map_singleton, Reading.text, hbytes]
    decide +kernel

end Locate

end CodeAtlas
