import CodeAtlas.Path
import CodeAtlas.Proofs.Text
import CodeAtlas.Text.Search
import Mathlib.Data.List.Basic

/-!
# Written paths

A relative path is its written form: reading drops nothing from a text that was written from names
of files.
-/

namespace CodeAtlas

open List

variable {root s : String} {c sep : Char} {cs w : List Char} {ws : List String} {p : Path}

namespace Text

/-! ### Replacing a character -/

lemma replaceFrom_singleton (a b : Char) :
    replaceFrom [a] [b] 0 cs = cs.map fun c => if c = a then b else c := by
  induction cs with
  | nil => rfl
  | cons c cs ih =>
    by_cases h : c = a
    · simp [replaceFrom, h, ih]
    · simp [replaceFrom, h, Ne.symm h, ih]

/-- Replacing a character by another one. -/
lemma toList_replaceAll_char (a b : Char) :
    (replaceAll s (String.singleton a) (String.singleton b)).toList =
      s.toList.map fun c => if c = a then b else c := by
  rw [replaceAll, String.toList_ofList, String.toList_singleton, String.toList_singleton,
    replaceFrom_singleton]

lemma replaceAll_char_of_notMem {a : Char} (h : a ∉ s.toList) (b : Char) :
    replaceAll s (String.singleton a) (String.singleton b) = s := by
  have hkeep : ∀ c ∈ s.toList, (if c = a then b else c) = c := by
    intro c hc
    rw [if_neg]
    rintro rfl
    exact h hc
  rw [← String.toList_inj, toList_replaceAll_char, map_congr_left hkeep, map_id']

/-! ### Texts inside others -/

lemma occursIn_iff {k : List Char} : occursIn k cs = true ↔ k <:+: cs := by
  induction cs with
  | nil => simp [occursIn]
  | cons c cs ih => rw [occursIn, Bool.or_eq_true, ih, isPrefixOf_iff_prefix, infix_cons_iff]

/-! ### Splitting at a character -/

lemma splitOnChar_eq_splitOn : splitOnChar sep cs = cs.splitOn sep := by
  induction cs with
  | nil => simp [splitOnChar]
  | cons c cs ih =>
    rw [splitOn_eq_splitOnP, splitOnP_cons_eq_if_modifyHead, ← splitOn_eq_splitOnP,
      splitOnChar, ih]
    obtain ⟨w, ws, hw⟩ := exists_cons_of_ne_nil (splitOnP_ne_nil (· == sep) cs)
    rw [← splitOn_eq_splitOnP] at hw
    by_cases h : c = sep <;> simp [h, hw]

lemma splitOnChar_append (as cs : List Char) :
    splitOnChar sep (as ++ sep :: cs) = splitOnChar sep as ++ splitOnChar sep cs := by
  induction as with
  | nil => simp [splitOnChar]
  | cons a as ih =>
    obtain ⟨w, ws, hparts⟩ := exists_cons_of_ne_nil (splitOnP_ne_nil (· == sep) as)
    rw [← splitOn_eq_splitOnP, ← splitOnChar_eq_splitOn] at hparts
    rw [cons_append, splitOnChar, splitOnChar, ih, hparts]
    split <;> rfl

lemma infix_of_mem_splitOnChar (h : w ∈ splitOnChar sep cs) : w <:+: cs := by
  have hjoin : ∀ ws : List (List Char), w ∈ ws → w <:+: [sep].intercalate ws := by
    intro ws hw
    induction ws with
    | nil => cases hw
    | cons v ws ih =>
      rcases ws with _ | ⟨u, ws⟩
      · simp_all
      rw [intercalate_cons_cons]
      rcases mem_cons.mp hw with rfl | hw
      · exact ⟨[], [sep] ++ [sep].intercalate (u :: ws), by simp⟩
      · exact (ih hw).trans (suffix_append _ _).isInfix
  rw [splitOnChar_eq_splitOn] at h
  have hwhole := hjoin _ h
  rwa [intercalate_splitOn] at hwhole

lemma mem_of_mem_splitOnChar (hw : w ∈ splitOnChar sep cs) (hc : c ∈ w) : c ∈ cs ∧ c ≠ sep := by
  induction cs generalizing w with
  | nil => simp_all [splitOnChar]
  | cons d cs ih =>
    rw [splitOnChar] at hw
    by_cases hd : d = sep
    · rw [if_pos hd, mem_cons] at hw
      rcases hw with rfl | hw
      · simp at hc
      · exact ⟨mem_cons_of_mem _ (ih hw hc).1, (ih hw hc).2⟩
    · rw [if_neg hd] at hw
      rcases hs : splitOnChar sep cs with _ | ⟨v, vs⟩
      · simp_all
      · simp only [hs, mem_cons] at hw
        rcases hw with rfl | hw
        · rcases mem_cons.mp hc with rfl | hc
          · exact ⟨mem_cons_self, hd⟩
          · have h := ih (hs ▸ mem_cons_self) hc
            exact ⟨mem_cons_of_mem _ h.1, h.2⟩
        · have h := ih (hs ▸ mem_cons_of_mem _ hw) hc
          exact ⟨mem_cons_of_mem _ h.1, h.2⟩

lemma splitOnChar_of_notMem (h : sep ∉ cs) : splitOnChar sep cs = [cs] := by
  induction cs with
  | nil => rfl
  | cons c cs ih =>
    rw [mem_cons, not_or] at h
    simp only [splitOnChar, if_neg (Ne.symm h.1), ih h.2]

lemma exists_splitOnChar_append {tail : List Char} (h : sep ∉ tail) (cs : List Char) :
    ∃ front w, splitOnChar sep (cs ++ tail) = front ++ [w ++ tail] := by
  induction cs with
  | nil => exact ⟨[], [], by simp [splitOnChar_of_notMem h]⟩
  | cons c cs ih =>
    obtain ⟨front, w, hsplit⟩ := ih
    simp only [cons_append, splitOnChar, hsplit]
    by_cases hc : c = sep
    · exact ⟨[] :: front, w, by simp [hc]⟩
    · rw [if_neg hc]
      rcases front with _ | ⟨first, front⟩
      · exact ⟨[], c :: w, rfl⟩
      · exact ⟨(c :: first) :: front, w, rfl⟩

end Text

namespace Path

/-! ### Names in a path -/

/-- A name that a path can hold: it is not empty, not a dot, and has no slash. -/
def IsName (w : String) : Prop := w ≠ "" ∧ w ≠ "." ∧ '/' ∉ w.toList

lemma isName_of_mem_ofString {w : String} (h : w ∈ (ofString s).parts) : IsName w := by
  simp only [ofString, mem_filter, mem_map, decide_eq_true_eq] at h
  obtain ⟨⟨cs, hcs, rfl⟩, hne, hdot⟩ := h
  refine ⟨hne, hdot, fun hslash => ?_⟩
  rw [String.toList_ofList] at hslash
  exact (Text.mem_of_mem_splitOnChar hcs hslash).2 rfl

lemma parts_ofString_intercalate (h : ∀ w ∈ ws, IsName w) (hne : ws ≠ []) :
    (ofString ("/".intercalate ws)).parts = ws := by
  have hsplit : ("/".intercalate ws).toList.splitOn '/' = ws.map String.toList := by
    rw [String.toList_intercalate]
    refine splitOn_intercalate '/' (fun cs hcs => ?_) (by simpa using hne)
    obtain ⟨w, hw, rfl⟩ := mem_map.mp hcs
    exact (h w hw).2.2
  have hid : String.ofList ∘ String.toList = id := funext fun _ => String.ofList_toList
  simp only [ofString, Text.splitOnChar_eq_splitOn, hsplit, map_map, hid, map_id]
  rw [filter_eq_self]
  intro w hw
  simpa using ⟨(h w hw).1, (h w hw).2.1⟩

lemma rootOf_append (hroot : root ∈ ["", "/", "//"]) (h : cs.head? ≠ some '/') :
    rootOf (root.toList ++ cs) = root := by
  simp only [mem_cons, not_mem_nil, or_false] at hroot
  rcases cs with _ | ⟨c, cs⟩
  · rcases hroot with rfl | rfl | rfl <;> rfl
  · have hc : c ≠ '/' := by simpa using h
    rcases hroot with rfl | rfl | rfl <;> simp [rootOf, hc]

lemma head?_intercalate_ne (h : ∀ w ∈ ws, IsName w) :
    ("/".intercalate ws).toList.head? ≠ some '/' := by
  rcases ws with _ | ⟨w, ws⟩
  · simp
  · obtain ⟨hne, -, hslash⟩ := h w mem_cons_self
    obtain ⟨c, cs, hw⟩ := exists_cons_of_ne_nil (mt String.toList_eq_nil_iff.mp hne)
    have hc : c ≠ '/' := fun hc => hslash (by simp [hw, hc])
    rcases ws with _ | ⟨v, ws⟩ <;> simp [String.toList_intercalate, hw, hc]

lemma parts_ofString_append (hroot : root ∈ ["", "/", "//"]) :
    (ofString (root ++ s)).parts = (ofString s).parts := by
  simp only [mem_cons, not_mem_nil, or_false] at hroot
  rcases hroot with rfl | rfl | rfl <;> simp [ofString, Text.splitOnChar]

lemma root_ofString (s : String) : (ofString s).root ∈ ["", "/", "//"] := by
  simp only [ofString]
  unfold rootOf
  split <;> decide

lemma ofString_text_of_root (hroot : p.root ∈ ["", "/", "//"]) (hparts : ∀ w ∈ p.parts, IsName w) :
    ofString p.text = p := by
  obtain ⟨root, parts⟩ := p
  simp only at hroot hparts
  have hread : ofString (root ++ "/".intercalate parts) = ⟨root, parts⟩ := by
    rw [Path.mk.injEq, parts_ofString_append hroot]
    constructor
    · rw [ofString, String.toList_append]
      exact rootOf_append hroot (head?_intercalate_ne hparts)
    · by_cases hne : parts = []
      · rw [hne]
        decide
      · exact parts_ofString_intercalate hparts hne
  unfold text
  split
  · rename_i hempty
    obtain ⟨rfl, rfl⟩ : root = "" ∧ parts = [] := by simpa using hempty
    decide
  · exact hread

/-- A relative path is read back from its written form. -/
lemma ofString_text (hroot : p.root = "") (hparts : ∀ w ∈ p.parts, IsName w) :
    ofString p.text = p :=
  ofString_text_of_root (by simp [hroot]) hparts

lemma text_ofString_replaceAll (hroot : p.root = "") (hp : ∀ w ∈ p.parts, IsName w)
    (h : '\\' ∉ p.text.toList) : (ofString (Text.replaceAll p.text "\\" "/")).text = p.text := by
  have hkeep : Text.replaceAll p.text "\\" "/" = p.text := Text.replaceAll_char_of_notMem h '/'
  rw [hkeep, ofString_text hroot hp]

/-! ### The characters of a path -/

lemma mem_toList_intercalate (h : c ∈ ("/".intercalate ws).toList) :
    c = '/' ∨ ∃ w ∈ ws, c ∈ w.toList := by
  rw [String.toList_intercalate] at h
  simpa using Text.mem_of_mem_intercalate h

lemma eq_slash_of_mem_rootOf (h : c ∈ (rootOf cs).toList) : c = '/' := by
  unfold rootOf at h
  split at h <;> simp_all

lemma notMem_text_ofString (hs : c ∉ s.toList) (hslash : c ≠ '/') (hdot : c ≠ '.') :
    c ∉ (ofString s).text.toList := by
  intro h
  unfold text at h
  split at h
  · exact hdot (by simpa using h)
  · rw [String.toList_append, mem_append] at h
    rcases h with h | h
    · exact hslash (eq_slash_of_mem_rootOf h)
    · rcases mem_toList_intercalate h with h | ⟨w, hw, hc⟩
      · exact hslash h
      · simp only [ofString, mem_filter, mem_map] at hw
        obtain ⟨⟨cs, hcs, rfl⟩, -⟩ := hw
        rw [String.toList_ofList] at hc
        exact hs (Text.mem_of_mem_splitOnChar hcs hc).1

/-! ### Endings -/

lemma exists_name_child (dir : Path) (stem : String) {e : String} (hslash : '/' ∉ e.toList)
    (hlong : 2 ≤ e.toList.length) : ∃ w, (dir.child (stem ++ e)).name.toList = w ++ e.toList := by
  obtain ⟨front, w, hsplit⟩ := Text.exists_splitOnChar_append hslash stem.toList
  obtain ⟨last, hlast⟩ : ∃ last, last = String.ofList (w ++ e.toList) := ⟨_, rfl⟩
  have hlist : last.toList = w ++ e.toList := by rw [hlast, String.toList_ofList]
  have hlength : 2 ≤ last.toList.length := by
    rw [hlist, length_append]
    omega
  have hkeep : last ≠ "" ∧ last ≠ "." := by
    constructor <;> intro heq <;> rw [heq] at hlength <;> revert hlength <;> decide
  have hparts : ∃ names, (ofString (stem ++ e)).parts = names ++ [last] := by
    refine ⟨(front.map String.ofList).filter fun w => w ≠ "" ∧ w ≠ ".", ?_⟩
    rw [ofString, String.toList_append, hsplit, map_append, filter_append, map_singleton,
      ← hlast, filter_cons_of_pos (by simpa using hkeep), filter_nil]
  obtain ⟨names, hnames⟩ := hparts
  have hchild : ∃ names, (dir.child (stem ++ e)).parts = names ++ [last] := by
    unfold child join
    split_ifs with habs
    · exact ⟨names, hnames⟩
    · exact ⟨dir.parts ++ names, by rw [hnames, append_assoc]⟩
  obtain ⟨names, hnames⟩ := hchild
  exact ⟨w, by rw [name, hnames, getLast?_concat, Option.getD_some, hlist]⟩

lemma splitSuffix_json {name : String} (h : name.toList = w ++ ".json".toList) :
    (splitSuffix name).2 ≠ ".gz" := by
  have hback : name.toList.reverse = 'n' :: 'o' :: 's' :: 'j' :: '.' :: w.reverse := by
    rw [h, reverse_append]
    rfl
  have htail : name.toList.reverse.takeWhile (· != '.') = ['n', 'o', 's', 'j'] := by rw [hback]; rfl
  have hrest : name.toList.reverse.dropWhile (· != '.') = '.' :: w.reverse := by rw [hback]; rfl
  simp only [splitSuffix, htail, hrest]
  have hplain : ("" : String) ≠ ".gz" := by decide
  have hjson : String.ofList ['.', 'j', 's', 'o', 'n'] ≠ ".gz" := by decide
  split_ifs
  · exact hplain
  · exact hjson

end Path

end CodeAtlas
