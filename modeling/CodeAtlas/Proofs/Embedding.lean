import CodeAtlas.Proofs.Json.Document
import CodeAtlas.Proofs.Session
import CodeAtlas.View.Page
import Mathlib.Data.List.Find
import Mathlib.Data.List.Infix

/-!
# Documents in a page

Filling the marks one after the other never makes a mark out of pieces, so it comes to the same as
replacing all marks at once (`embed_at_once`).
-/

namespace CodeAtlas

open List Nat

variable {k w : List Char} {fs : List (String × String)} {texts : List String}

namespace Text

/-- The mark that a text begins with, and its filling. -/
def markAt? (fillings : List (List Char × List Char)) (cs : List Char) :
    Option (List Char × List Char) :=
  fillings.find? fun f => f.1.isPrefixOf cs

/-- Replaces marks by their fillings, all at once: what is put in is not looked at again. The number
counts the characters of a mark that are still to be passed over. -/
def substituteFrom (fillings : List (List Char × List Char)) : Nat → List Char → List Char
  | _, [] => []
  | 0, c :: cs =>
    match markAt? fillings (c :: cs) with
    | some f => f.2 ++ substituteFrom fillings (f.1.length - 1) cs
    | none => c :: substituteFrom fillings 0 cs
  | skip + 1, _ :: cs => substituteFrom fillings skip cs

/-- No occurrence of a mark goes over the beginning or the end of a text, whatever stands around it.
-/
structure Clear (m x : List Char) : Prop where
  first : ∀ w rest, w <:+ m.tail → w ≠ [] → ¬ w <+: x ++ rest
  last : ∀ u, u <+: m.dropLast → u ≠ [] → ¬ u <:+ x

/-- A mark does not begin inside another one. -/
def Apart (m k : List Char) : Prop := ∀ w rest, w <:+ k.tail → w ≠ [] → ¬ m <+: w ++ rest

variable {m x cs : List Char} {G : List (List Char × List Char)} {g : List Char × List Char}
  {c : Char}

lemma mem_of_markAt? (h : markAt? G cs = some g) : g ∈ G ∧ g.1 <+: cs :=
  ⟨mem_of_find?_eq_some h, by simpa using find?_some h⟩

lemma markAt?_congr {ds : List Char} (h : ∀ g ∈ G, g.1 <+: cs ↔ g.1 <+: ds) :
    markAt? G cs = markAt? G ds :=
  find?_congr fun g hg => by
    rw [Bool.eq_iff_iff, isPrefixOf_iff_prefix, isPrefixOf_iff_prefix, h g hg]

lemma substituteFrom_some (h : markAt? G (c :: cs) = some g) :
    substituteFrom G 0 (c :: cs) = g.2 ++ substituteFrom G (g.1.length - 1) cs := by
  rw [substituteFrom, h]

lemma substituteFrom_none (h : markAt? G (c :: cs) = none) :
    substituteFrom G 0 (c :: cs) = c :: substituteFrom G 0 cs := by
  rw [substituteFrom, h]

lemma substituteFrom_length : substituteFrom G w.length (w ++ cs) = substituteFrom G 0 cs := by
  induction w with
  | nil => rfl
  | cons c w ih => exact ih

lemma substituteFrom_nil : substituteFrom [] 0 cs = cs := by
  induction cs with
  | nil => rfl
  | cons c cs ih => rw [substituteFrom_none rfl, ih]

lemma substituteFrom_append (h : ∀ g ∈ G, ∀ u, u <+: g.1.dropLast → u ≠ [] → ¬ u <:+ x) {n : Nat}
    (hn : n ≤ x.length) (rest : List Char) :
    substituteFrom G n (x ++ rest) = substituteFrom G n x ++ substituteFrom G 0 rest := by
  induction x generalizing n with
  | nil =>
    obtain rfl : n = 0 := by simpa using hn
    cases rest <;> rfl
  | cons c x ih =>
    have ih := @ih fun g hg u hprefix hu hsuffix =>
      h g hg u hprefix hu (hsuffix.trans (suffix_cons c x))
    cases n with
    | succ n => exact ih (le_of_succ_le_succ hn)
    | zero =>
      have hmark : markAt? G (c :: (x ++ rest)) = markAt? G (c :: x) := by
        refine markAt?_congr fun g hg =>
          ⟨fun hp => ?_, fun hp => hp.trans (prefix_append (c :: x) rest)⟩
        by_cases hlength : g.1.length ≤ (c :: x).length
        · exact prefix_of_prefix_length_le hp (prefix_append (c :: x) rest) hlength
        · have hdrop : (c :: x).length ≤ g.1.dropLast.length := by rw [length_dropLast]; omega
          exact absurd suffix_rfl (h g hg (c :: x) (prefix_of_prefix_length_le
            (prefix_append (c :: x) rest) ((List.dropLast_prefix _).trans hp) hdrop) (by simp))
      rw [cons_append]
      rcases hfind : markAt? G (c :: x) with _ | g
      · rw [substituteFrom_none hfind, substituteFrom_none (hmark.trans hfind), ih (zero_le _),
          cons_append]
      · have hlength := (mem_of_markAt? hfind).2.length_le
        rw [substituteFrom_some hfind, substituteFrom_some (hmark.trans hfind),
          ih (by rw [length_cons] at hlength; omega), append_assoc]

lemma prefix_of_prefix_replaceFrom (hk : Clear k x) (hw : w <:+ k.tail)
    (h : w <+: replaceFrom m x 0 cs) : w <+: cs := by
  induction cs generalizing w with
  | nil => simpa [replaceFrom] using h
  | cons d cs ih =>
    rcases w with _ | ⟨c, w⟩
    · exact nil_prefix
    rw [replaceFrom] at h
    split_ifs at h
    · exact absurd h (hk.first _ _ hw (by simp))
    · obtain ⟨hcd, h⟩ := cons_prefix_cons.mp h
      exact cons_prefix_cons.mpr ⟨hcd, ih ((suffix_cons c w).trans hw) h⟩

lemma replaceFrom_of_mark (hk : Apart m k) (hw : w <:+ k.tail) (h : w <+: cs) :
    replaceFrom m x 0 cs = w ++ replaceFrom m x w.length cs := by
  induction w generalizing cs with
  | nil => rfl
  | cons c w ih =>
    obtain ⟨cs, rfl⟩ := h
    have hnot : ¬ m.isPrefixOf (c :: (w ++ cs)) = true := by
      rw [List.isPrefixOf_iff_prefix]
      exact hk _ cs hw (by simp)
    rw [cons_append, replaceFrom, if_neg hnot, ih ((suffix_cons c w).trans hw) (prefix_append w cs)]
    rfl

lemma substituteFrom_replaceFrom (hG : ∀ g ∈ G, g.1 ≠ [] ∧ Clear g.1 x ∧ Apart m g.1) (n : Nat) :
    substituteFrom G 0 (replaceFrom m x n cs) =
      substituteFrom ((m, substituteFrom G 0 x) :: G) n cs := by
  induction cs generalizing n with
  | nil => simp [replaceFrom, substituteFrom]
  | cons c cs ih =>
    cases n with
    | succ n => exact ih n
    | zero =>
      rw [replaceFrom]
      by_cases hprefix : m.isPrefixOf (c :: cs) = true
      · have hmark : markAt? ((m, substituteFrom G 0 x) :: G) (c :: cs) =
            some (m, substituteFrom G 0 x) :=
          find?_cons_of_pos hprefix
        rw [if_pos hprefix, substituteFrom_some hmark,
          substituteFrom_append (fun g hg => (hG g hg).2.1.last) (zero_le _), ih]
      have hmark : markAt? ((m, substituteFrom G 0 x) :: G) (c :: cs) = markAt? G (c :: cs) :=
        find?_cons_of_neg hprefix
      -- the other marks begin at the same places as before
      have hsame : markAt? G (c :: replaceFrom m x 0 cs) = markAt? G (c :: cs) := by
        refine markAt?_congr fun g hg => ?_
        obtain ⟨hne, hclear, hapart⟩ := hG g hg
        obtain ⟨a, w, hw⟩ := exists_cons_of_ne_nil hne
        have htail : w <:+ g.1.tail := by rw [hw]; exact suffix_rfl
        rw [hw, cons_prefix_cons, cons_prefix_cons]
        refine and_congr_right fun _ => ⟨prefix_of_prefix_replaceFrom hclear htail, fun hp => ?_⟩
        rw [replaceFrom_of_mark hapart htail hp]
        exact prefix_append _ _
      rw [if_neg hprefix]
      rcases hfind : markAt? G (c :: cs) with _ | g
      · rw [substituteFrom_none (hsame.trans hfind), substituteFrom_none (hmark.trans hfind), ih]
      obtain ⟨hg, hp⟩ := mem_of_markAt? hfind
      obtain ⟨hne, -, hapart⟩ := hG g hg
      obtain ⟨a, w, hw⟩ := exists_cons_of_ne_nil hne
      have hkeep := replaceFrom_of_mark (x := x) hapart (w := w) (by rw [hw]; exact suffix_rfl)
        (cons_prefix_cons.mp (hw ▸ hp)).2
      have hlength : g.1.length - 1 = w.length := by rw [hw]; rfl
      rw [substituteFrom_some (hsame.trans hfind), substituteFrom_some (hmark.trans hfind), hlength,
        ← ih, hkeep, substituteFrom_length]

lemma replaceFrom_of_not_occurs (h : occursIn m cs = false) : replaceFrom m x 0 cs = cs := by
  induction cs with
  | nil => rfl
  | cons c cs ih =>
    obtain ⟨hnot, h⟩ := Bool.or_eq_false_iff.mp h
    rw [replaceFrom, if_neg (by simp [hnot]), ih h]

end Text

namespace Page

open Text

/-! ### Filling one after the other, and at once -/

def atOnce (template : String) (fillings : List (String × String)) : String :=
  String.ofList (substituteFrom (fillings.map fun f => (f.1.toList, f.2.toList)) 0 template.toList)

/-- The texts that come into a page in the end: in each of them the later marks are filled. -/
def settled : List (String × String) → List (String × String)
  | [] => []
  | (mark, text) :: rest => (mark, fill text rest) :: settled rest

/-- A filling does not get in the way of one that comes later. -/
structure Precedes (f g : String × String) : Prop where
  named : g.1.toList ≠ []
  clear : Clear g.1.toList f.2.toList
  apart : Apart f.1.toList g.1.toList

lemma exists_of_mem_settled {g : String × String} (h : g ∈ settled fs) : ∃ f ∈ fs, f.1 = g.1 := by
  induction fs with
  | nil => cases h
  | cons f fs ih =>
    rcases mem_cons.mp h with rfl | h
    · exact ⟨f, mem_cons_self, rfl⟩
    · obtain ⟨f', hf', heq⟩ := ih h
      exact ⟨f', mem_cons_of_mem _ hf', heq⟩

/-- Filling marks one after the other is filling them at once, each with its text in which the later
ones are filled. -/
lemma fill_eq_atOnce (h : fs.Pairwise Precedes) (template : String) :
    fill template fs = atOnce template (settled fs) := by
  induction h generalizing template with
  | nil => simp [fill, atOnce, settled, substituteFrom_nil]
  | @cons f fs hf _ ih =>
    have hG : ∀ g ∈ (settled fs).map fun f => (f.1.toList, f.2.toList),
        g.1 ≠ [] ∧ Clear g.1 f.2.toList ∧ Apart f.1.toList g.1 := by
      rw [forall_mem_map]
      intro g hg
      obtain ⟨g', hg', heq⟩ := exists_of_mem_settled hg
      have hprecedes := hf g' hg'
      exact heq ▸ ⟨hprecedes.named, hprecedes.clear, hprecedes.apart⟩
    calc fill template (f :: fs) = fill (replaceAll template f.1 f.2) fs := rfl
      _ = atOnce (replaceAll template f.1 f.2) (settled fs) := ih _
      _ = atOnce template ((f.1, atOnce f.2 (settled fs)) :: settled fs) := by
        simp only [atOnce, replaceAll, String.toList_ofList, map_cons,
          substituteFrom_replaceFrom hG]
      _ = atOnce template (settled (f :: fs)) := by rw [← ih f.2]; rfl

lemma settled_eq (h : fs.Pairwise fun f g => Text.contains f.2 g.1 = false) : settled fs = fs := by
  have hfill : ∀ {gs : List (String × String)} {text : String},
      (∀ g ∈ gs, Text.contains text g.1 = false) →
        fill text gs = text := by
    intro gs text hgs
    induction gs with
    | nil => rfl
    | cons g gs ih =>
      have hkeep : replaceAll text g.1 g.2 = text := by
        rw [replaceAll, replaceFrom_of_not_occurs (hgs g mem_cons_self), String.ofList_toList]
      exact (congrArg (fill · gs) hkeep).trans (ih fun g' hg' => hgs g' (mem_cons_of_mem _ hg'))
  induction h with
  | nil => rfl
  | cons hf _ ih => rw [settled, hfill hf, ih]

/-! ### The texts of documents -/

/-- The characters that begin the text of a value that is not a table. -/
def openers : List Char := "-0123456789\"[ntf".toList

/-- The characters that end the text of a value that is not a table. -/
def closers : List Char := "0123456789\"]le".toList

def starts : List (List Char) := openers.map ([·]) ++ [['\x7b', '"'], ['\x7b', '\x7d']]

def ends : List (List Char) := closers.map ([·]) ++ ('\x7b' :: '\x7d' :: closers).map ([·, '\x7d'])

/-- No mark goes on like the text of a value, or has begun as one ends. -/
lemma clear_of_edges {x s e : List Char} (hs : s ∈ starts) (hsx : s <+: x) (he : e ∈ ends)
    (hex : e <:+ x) {m : String} (hm : m ∈ marks) : Clear m.toList x where
  first w rest hw hne hp := by
    have hall : ∀ m ∈ marks, ∀ w ∈ m.toList.tail.tails, w ≠ [] → ∀ s ∈ starts, ¬ w <+: s ∧
      ¬ s <+: w := by decide +kernel
    have hnot := hall m hm w ((mem_tails _ _).mpr hw) hne s hs
    exact (List.prefix_or_prefix_of_prefix hp (hsx.trans (prefix_append x rest))).elim hnot.1 hnot.2
  last u hu hne hsuffix := by
    have hall : ∀ m ∈ marks, ∀ u ∈ m.toList.dropLast.inits, u ≠ [] → ∀ e ∈ ends, ¬ u <:+ e ∧
      ¬ e <:+ u := by decide +kernel
    have hnot := hall m hm u ((mem_inits _ _).mpr hu) hne e he
    exact (suffix_or_suffix_of_suffix hsuffix hex).elim hnot.1 hnot.2

lemma apart_of_mem_marks {m k : String} (hm : m ∈ marks) (hk : k ∈ marks) :
    Apart m.toList k.toList := by
  intro w rest hw hne hp
  have hall : ∀ m ∈ marks, ∀ k ∈ marks, ∀ w ∈ k.toList.tail.tails, w ≠ [] → ¬ m.toList <+: w ∧
      ¬ w <+: m.toList := by decide +kernel
  have hnot := hall m hm k hk w ((mem_tails _ _).mpr hw) hne
  exact (List.prefix_or_prefix_of_prefix hp (prefix_append w rest)).elim hnot.1 hnot.2

variable {ok : Int → Prop} {v : Value} {depth : Nat} {t : List Char}

lemma exists_edges_of_ne_table (hv : v.Plain ok) (htable : ∀ es, v ≠ .table es)
    (h : Json.writeChars style depth v = .ok t) :
    (∃ a ∈ openers, [a] <+: t) ∧ ∃ a ∈ closers, [a] <:+ t := by
  cases hv with
  | null => exact ⟨⟨'n', by decide, by cases h; decide⟩, 'l', by decide, by cases h; decide⟩
  | bool b =>
    cases h
    cases b
    · exact ⟨⟨'f', by decide, by decide⟩, 'e', by decide, by decide⟩
    · exact ⟨⟨'t', by decide, by decide⟩, 'e', by decide, by decide⟩
  | @int n hn =>
    have hdigit : ∀ d ∈ Nat.toDigits 10 n.natAbs, d ∈ openers ∧ d ∈ closers := by
      intro d hd
      have hall : ∀ k < 128, (Char.ofNat k).isDigit → Char.ofNat k ∈ openers ∧
        Char.ofNat k ∈ closers := by decide
      have hd := Json.isDigit_of_mem_toDigits d hd
      have hle : d.toNat ≤ '9'.toNat := (Char.isDigit_iff_toNat.mp hd).2
      rw [← Char.ofNat_toNat d] at hd ⊢
      exact hall _ (lt_of_le_of_lt hle (by decide)) hd
    have hne : Nat.toDigits 10 n.natAbs ≠ [] := by simp
    rw [Json.writeChars] at h
    rcases htext : Digits.text? n with _ | s
    · simp [htext] at h
    · obtain ⟨hwithin, rfl⟩ := Json.within_of_text? htext
      simp only [htext, Except.ok.injEq, Json.toList_toString] at h
      obtain ⟨u, z, hz⟩ := (eq_nil_or_concat' _).resolve_left hne
      obtain ⟨a, u', ha⟩ := exists_cons_of_ne_nil hne
      refine ⟨?_, z, (hdigit z (by rw [hz]; simp)).2, ?_⟩
      · rw [← h]
        split_ifs
        · exact ⟨'-', by decide, by simp⟩
        · exact ⟨a, (hdigit a (by rw [ha]; simp)).1, by rw [ha]; simp⟩
      · rw [← h, hz]
        split_ifs
        · exact ⟨'-' :: u, rfl⟩
        · exact ⟨u, rfl⟩
  | str s => exact ⟨⟨'"', by decide, by cases h; exact ⟨_, rfl⟩⟩, '"', by decide,
      by cases h; exact ⟨'"' :: _, rfl⟩⟩
  | list _ =>
    obtain ⟨ts, -, rfl⟩ := Json.exists_of_writeChars_list h
    refine ⟨⟨'[', by decide, ?_⟩, ']', by decide, ?_⟩
    · cases ts <;> exact ⟨_, rfl⟩
    · cases ts
      · exact ⟨['['], rfl⟩
      · exact ⟨'[' :: _, rfl⟩
  | table _ _ => exact absurd rfl (htable _)

lemma suffix_intercalate (sep : List Char) {u : List Char} {ts : List (List Char)}
    (h : u ∈ ts.getLast?) : u <:+ sep.intercalate ts := by
  induction ts with
  | nil => simp at h
  | cons s ts ih =>
    rcases ts with _ | ⟨s', ts⟩
    · simp_all
    · rw [intercalate_cons_of_ne_nil (by simp)]
      exact (ih (by simpa using h)).trans (suffix_append _ _)

lemma exists_last_of_writeChars (hv : v.Plain ok) (h : Json.writeChars style depth v = .ok t) :
    ∃ a ∈ '\x7d' :: closers, [a] <:+ t := by
  by_cases htable : ∃ es, v = .table es
  · obtain ⟨es, rfl⟩ := htable
    obtain ⟨ts, -, rfl⟩ := Json.exists_of_writeChars_table h
    refine ⟨'\x7d', mem_cons_self, ?_⟩
    cases ts
    · exact ⟨['\x7b'], rfl⟩
    · exact ⟨'\x7b' :: _, rfl⟩
  · obtain ⟨-, a, ha, hsuffix⟩ := exists_edges_of_ne_table hv (fun es hes => htable ⟨es, hes⟩) h
    exact ⟨a, mem_cons_of_mem _ ha, hsuffix⟩

lemma exists_edges_of_writeChars (hv : v.Plain ok) (h : Json.writeChars style depth v = .ok t) :
    (∃ s ∈ starts, s <+: t) ∧ ∃ e ∈ ends, e <:+ t := by
  by_cases htable : ∃ es, v = .table es
  · obtain ⟨es, rfl⟩ := htable
    obtain ⟨ts, hts, rfl⟩ := Json.exists_of_writeChars_table h
    rcases ts with _ | ⟨p, ts⟩
    · exact ⟨⟨['\x7b', '\x7d'], by decide, ⟨[], rfl⟩⟩, ['\x7b', '\x7d'], by decide, ⟨[], rfl⟩⟩
    refine ⟨⟨['\x7b', '"'], by decide, ?_⟩, ?_⟩
    · cases ts <;> exact ⟨_, rfl⟩
    -- the last character before the brace is that of the last value
    obtain ⟨q, hq⟩ : ∃ q, q ∈ (p :: ts).getLast? := ⟨_, getLast?_cons⟩
    obtain ⟨e, a, ha, hsuffix⟩ := exists_of_forall₂ (forall₂_imp_of_mem hts fun e he t ht =>
      exists_last_of_writeChars ((Value.plain_table.mp hv).2 e he) ht.2) (mem_of_getLast? hq)
    let entry (p : String × List Char) := Json.quote style.ascii p.1 ++ style.layout.colon ++ p.2
    have hlast : entry q ∈ ((p :: ts).map entry).getLast? := by rw [getLast?_map, hq]; rfl
    obtain ⟨u, hu⟩ := hsuffix.trans
      ((suffix_append _ q.2).trans (suffix_intercalate [',', ' '] hlast))
    refine ⟨[a, '\x7d'], mem_append_right _ (mem_map_of_mem (mem_cons_of_mem _ ha)), '\x7b' :: u,
      ?_⟩
    calc '\x7b' :: u ++ [a, '\x7d'] = '\x7b' :: ((u ++ [a]) ++ ['\x7d']) := by simp
      _ = '\x7b' :: ([',', ' '].intercalate ((p :: ts).map entry) ++ ['\x7d']) := by rw [hu]
      _ = '\x7b' :: ([] ++ [',', ' '].intercalate ((p :: ts).map entry) ++ [] ++ ['\x7d']) :=
      by simp
  · obtain ⟨⟨a, ha, hprefix⟩, b, hb, hsuffix⟩ :=
      exists_edges_of_ne_table hv (fun es hes => htable ⟨es, hes⟩) h
    exact ⟨⟨[a], mem_append_left _ (mem_map_of_mem ha), hprefix⟩, [b],
      mem_append_left _ (mem_map_of_mem hb), hsuffix⟩

/-! ### Pages -/

/-- The values of the documents, in the order of their marks. -/
def Documents.values (d : Documents) : List Value :=
  [d.skeleton, d.places, d.docstrings, d.comments]

lemma mapM_jsonText {st : Json.Style} {vs : List Value}
    (h : Forall₂ (fun v text => Json.write st v = .ok text) vs texts) (s : Session) :
    vs.mapM (Action.jsonText st) s = (.ok texts, s) := by
  induction h with
  | nil => rfl
  | cons hv _ ih =>
    rw [mapM_cons]
    refine bind_ok (by rw [Action.jsonText, hv]; rfl) _ |>.trans (bind_ok ih _)

lemma embed_eq_fill {d : Documents}
    (h : Forall₂ (fun v text => Json.write style v = .ok text) d.values texts) (template : String)
    (s : Session) : embed template d s = (.ok (fill template (marks.zip texts)), s) :=
  bind_ok (mapM_jsonText h s) _

lemma exists_text (hv : v.Plain Digits.Within) : ∃ text, Json.write style v = .ok text ∧
    Json.readChars text.toList = .ok v ∧ ∀ m ∈ marks, Clear m.toList text.toList := by
  obtain ⟨cs, hcs⟩ := Json.exists_writeChars style hv 0
  obtain ⟨⟨s, hs, hsx⟩, e, he, hex⟩ := exists_edges_of_writeChars hv hcs
  refine ⟨String.ofList cs, by rw [Json.write, hcs]; rfl, ?_⟩
  rw [String.toList_ofList]
  exact ⟨(Json.reads_of_writeChars hv ⟨rfl, rfl⟩ hcs).readChars,
    fun m hm => clear_of_edges hs hsx he hex hm⟩

/-- **Documents in a page.** The page is the template with all marks replaced at once, each by the
text of its document in which the later marks are filled; if no document holds a later mark, by the
very texts of the documents. Each of these texts reads as its document. -/
theorem embed_at_once (template : String) (d : Documents)
    (hd : ∀ v ∈ d.values, v.Plain Digits.Within) (s : Session) :
    ∃ texts, Forall₂ (fun v text => Json.write style v = .ok text ∧
      Json.readChars text.toList = .ok v) d.values texts ∧
      embed template d s = (.ok (atOnce template (settled (marks.zip texts))), s) ∧
      ((marks.zip texts).Pairwise (fun f g => Text.contains f.2 g.1 = false) →
        embed template d s = (.ok (atOnce template (marks.zip texts)), s)) := by
  choose! f hf using fun v (hv : v ∈ d.values) => exists_text (hd v hv)
  have htexts : Forall₂ (fun v text => Json.write style v = .ok text ∧
      Json.readChars text.toList = .ok v)
        d.values (d.values.map f) :=
    forall₂_map_right_iff.mpr (forall₂_same.mpr fun v hv => ⟨(hf v hv).1, (hf v hv).2.1⟩)
  have hprecedes : (marks.zip (d.values.map f)).Pairwise Precedes := by
    refine pairwise_of_forall_mem_list fun p hp q hq => ?_
    obtain ⟨hpm, hpt⟩ := of_mem_zip hp
    have hqm := (of_mem_zip hq).1
    obtain ⟨v, hv, hpf⟩ := mem_map.mp hpt
    have hnamed : ∀ m ∈ marks, m.toList ≠ [] := by decide
    exact ⟨hnamed _ hqm, hpf ▸ (hf v hv).2.2 _ hqm, apart_of_mem_marks hpm hqm⟩
  have hembed : embed template d s =
      (.ok (atOnce template (settled (marks.zip (d.values.map f)))), s) := by
    rw [embed_eq_fill (htexts.imp fun v text h => h.1), fill_eq_atOnce hprecedes]
  refine ⟨_, htexts, hembed, fun hpairs => ?_⟩
  rw [hembed, settled_eq hpairs]

/-- Documents of which one holds the mark of another. -/
def marked : Documents where
  skeleton := .table [("names", .list [.str "\x7b\x7bCOMMENTS_DATA\x7d\x7d"])]
  places := .table []
  docstrings := .table []
  comments := .table []

def blank : Session := { tree := ⟨.dir [], []⟩ }

theorem embed_at_once_marked : (∀ v ∈ marked.values, v.Plain Digits.Within) ∧
    ∃ texts, Forall₂ (fun v text => Json.write style v = .ok text ∧
      Json.readChars text.toList = .ok v)
        marked.values texts ∧
      embed (Text.join " " marks) marked blank =
        (.ok (atOnce (Text.join " " marks) (settled (marks.zip texts))), blank) := by
  have hplain : ∀ v ∈ marked.values, v.Plain Digits.Within := by
    intro v hv
    simp only [Documents.values, marked, mem_cons, not_mem_nil, or_false] at hv
    rcases hv with rfl | rfl | rfl | rfl
    · exact .table (by decide) (by simp [Value.plain_list])
    all_goals exact .table .nil (by simp)
  obtain ⟨texts, htexts, hembed, -⟩ := embed_at_once (Text.join " " marks) marked hplain blank
  exact ⟨hplain, texts, htexts, hembed⟩

theorem mark_in_document_filled :
    ∃ texts, Forall₂ (fun v text => Json.write style v = .ok text) marked.values texts ∧
    atOnce (Text.join " " marks) (marks.zip texts) =
      "\x7b\"names\": [\"\x7b\x7bCOMMENTS_DATA\x7d\x7d\"]\x7d \x7b\x7d \x7b\x7d \x7b\x7d" ∧
    embed (Text.join " " marks) marked blank =
      (.ok "\x7b\"names\": [\"\x7b\x7d\"]\x7d \x7b\x7d \x7b\x7d \x7b\x7d", blank) := by
  have htexts : Forall₂ (fun v text => Json.write style v = .ok text) marked.values
      ["\x7b\"names\": [\"\x7b\x7bCOMMENTS_DATA\x7d\x7d\"]\x7d", "\x7b\x7d", "\x7b\x7d",
      "\x7b\x7d"] := by
    simp only [Documents.values, forall₂_cons, forall₂_nil_left_iff, and_true]
    decide +kernel
  have hfill : fill (Text.join " " marks) (marks.zip
      ["\x7b\"names\": [\"\x7b\x7bCOMMENTS_DATA\x7d\x7d\"]\x7d", "\x7b\x7d", "\x7b\x7d",
      "\x7b\x7d"]) = "\x7b\"names\": [\"\x7b\x7d\"]\x7d \x7b\x7d \x7b\x7d \x7b\x7d" := by decide +kernel
  refine ⟨_, htexts, by decide +kernel, ?_⟩
  rw [embed_eq_fill htexts, hfill]

end Page

end CodeAtlas
