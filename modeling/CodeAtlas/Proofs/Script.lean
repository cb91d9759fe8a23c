import CodeAtlas.Proofs.Embedding
import CodeAtlas.Proofs.Viewing

/-!
# Ends of scripts in a page

What ends a script has no brace and no quote in it, so it lies in the template or in one text of a
document, whole (`script_kept_iff`).
-/

namespace CodeAtlas

open List CodeAtlas.Action

variable {k w : List Char}

namespace Text

/-- The characters that may stand at each place of what ends a script. -/
def scriptEnd : List (List Char) := ["<", "/", "sS", "cC", "rR", "iI", "pP", "tT"].map (·.toList)

/-- A text begins with characters out of sets. -/
def opensWith : List (List Char) → List Char → Bool
  | [], _ => true
  | _ :: _, [] => false
  | p :: ps, c :: cs => p.contains c && opensWith ps cs

/-- How often a text ends a script, in any letter case. -/
def scriptEnds : List Char → Nat
  | [] => 0
  | c :: cs => (if opensWith scriptEnd (c :: cs) then 1 else 0) + scriptEnds cs

variable {b c : Char} {cs m r u x : List Char} {ps : List (List Char)}

lemma opensWith_append_cons (hb : ∀ p ∈ ps, b ∉ p) (u r : List Char) :
    opensWith ps (u ++ b :: r) = opensWith ps u := by
  induction ps generalizing u with
  | nil => rfl
  | cons p ps ih =>
    cases u with
    | nil => simp [opensWith, hb p mem_cons_self]
    | cons c u => simp [opensWith, ih fun q hq => hb q (mem_cons_of_mem _ hq)]

/-- A character that is nowhere in what ends a script parts a text. -/
lemma scriptEnds_append_cons (hb : ∀ p ∈ scriptEnd, b ∉ p) (u r : List Char) :
    scriptEnds (u ++ b :: r) = scriptEnds u + scriptEnds r := by
  induction u with
  | nil =>
    have hnot : opensWith scriptEnd (b :: r) = false := opensWith_append_cons hb [] r
    simp [scriptEnds, hnot]
  | cons c u ih =>
    have hsame := opensWith_append_cons hb (c :: u) r
    rw [cons_append] at hsame ⊢
    rw [scriptEnds, scriptEnds, hsame, ih, Nat.add_assoc]

lemma scriptEnds_cons (hc : c ≠ '<') (cs : List Char) : scriptEnds (c :: cs) = scriptEnds cs := by
  have hnot : opensWith scriptEnd (c :: cs) = false := by
    change (['<'].contains c && _) = false
    simp [hc]
  simp [scriptEnds, hnot]

lemma scriptEnds_append (hu : '<' ∉ u) (r : List Char) : scriptEnds (u ++ r) = scriptEnds r := by
  induction u with
  | nil => rfl
  | cons c u ih =>
    rw [mem_cons, not_or] at hu
    rw [cons_append, scriptEnds_cons (Ne.symm hu.1), ih hu.2]

/-! ### Filling marks -/

/-- A text starts and ends with braces, as marks and the texts of tables do. -/
structure Braced (x : List Char) : Prop where
  first : ['\x7b'] <+: x
  last : ['\x7d'] <:+ x

lemma opensWith_replaceFrom (hm : Braced m) (hx : Braced x) (hps : ∀ p ∈ ps, '\x7b' ∉ p)
    (cs : List Char) : opensWith ps (replaceFrom m x 0 cs) = opensWith ps cs := by
  obtain ⟨m, rfl⟩ := hm.first
  obtain ⟨x, rfl⟩ := hx.first
  induction ps generalizing cs with
  | nil => rfl
  | cons p ps ih =>
    have hp := hps p mem_cons_self
    cases cs with
    | nil => rfl
    | cons c cs =>
      rw [replaceFrom]
      split_ifs with hprefix
      · obtain rfl : '\x7b' = c := (cons_prefix_cons.mp (List.isPrefixOf_iff_prefix.mp hprefix)).1
        simp [opensWith, hp]
      · exact congrArg (p.contains c && ·) (ih (fun q hq => hps q (mem_cons_of_mem _ hq)) cs)

lemma scriptEnds_braced_append (hx : Braced x) (r : List Char) :
    scriptEnds (x ++ r) = scriptEnds x + scriptEnds r := by
  obtain ⟨y, rfl⟩ := hx.last
  have hparts := scriptEnds_append_cons (b := '\x7d') (by decide) y
  rw [append_assoc, singleton_append, hparts, hparts]
  rfl

/-- Filling a mark adds the ends of scripts in the text, as often as the mark is there. -/
lemma exists_scriptEnds_replaceFrom (hm : Braced m) (hlt : '<' ∉ m) (hx : Braced x) (n : Nat) :
    ∃ k, scriptEnds (replaceFrom m x n cs) = scriptEnds (cs.drop n) + k * scriptEnds x ∧
      (m <:+: cs.drop n → 0 < k) := by
  have hempty : m ≠ [] := by
    obtain ⟨y, rfl⟩ := hm.first
    simp
  induction cs generalizing n with
  | nil => exact ⟨0, by simp [replaceFrom, scriptEnds], by simp [hempty]⟩
  | cons c cs ih =>
    cases n with
    | succ n => exact ih n
    | zero =>
      rw [replaceFrom, drop_zero]
      by_cases hprefix : m.isPrefixOf (c :: cs) = true
      · obtain ⟨k, hk, -⟩ := ih (m.length - 1)
        obtain ⟨r, hr⟩ := isPrefixOf_iff_prefix.mp hprefix
        have hdrop : cs.drop (m.length - 1) = r := by
          obtain ⟨y, rfl⟩ := hm.first
          obtain ⟨-, rfl⟩ := cons.inj hr
          simp
        refine ⟨k + 1, ?_, fun _ => Nat.succ_pos k⟩
        rw [if_pos hprefix, scriptEnds_braced_append hx, hk, hdrop, ← hr, scriptEnds_append hlt,
          Nat.succ_mul]
        omega
      · obtain ⟨k, hk, hpos⟩ := ih 0
        refine ⟨k, ?_, fun h => hpos ?_⟩
        · rw [if_neg hprefix, scriptEnds, scriptEnds, hk, drop_zero]
          have hhead : opensWith scriptEnd (c :: replaceFrom m x 0 cs) =
              opensWith scriptEnd (c :: cs) := by
            have htail : opensWith scriptEnd.tail (replaceFrom m x 0 cs) =
                opensWith scriptEnd.tail cs :=
              opensWith_replaceFrom hm hx (by decide) cs
            exact congrArg (List.contains _ c && ·) htail
          rw [hhead, Nat.add_assoc]
        · exact (infix_cons_iff.mp h).resolve_left (mt isPrefixOf_iff_prefix.mpr hprefix)

/-- A mark stays when another one is filled. -/
lemma infix_replaceFrom (hmk : Apart m k) (hkm : Apart k m) (hne : k ≠ [])
    (hm : ¬ k <+: m ∧ ¬ m <+: k) (n : Nat)
    (h : k <:+: cs.drop n) : k <:+: replaceFrom m x n cs := by
  induction cs generalizing n with
  | nil => simpa [replaceFrom] using h
  | cons c cs ih =>
    cases n with
    | succ n => exact ih n h
    | zero =>
      rw [replaceFrom]
      split_ifs with hprefix
      · obtain ⟨r, hr⟩ := isPrefixOf_iff_prefix.mp hprefix
        -- no mark begins in the one that is filled
        have hrest : ∀ w, w <:+ m → k <:+: w ++ r → k <:+: r := by
          intro w
          induction w with
          | nil => exact fun _ h => h
          | cons a w ihw =>
            intro hw h
            rw [cons_append, infix_cons_iff] at h
            refine ihw ((suffix_cons a w).trans hw) (h.resolve_left fun hk => ?_)
            rcases m with _ | ⟨b, m⟩
            · simp at hw
            rcases suffix_cons_iff.mp hw with heq | htail
            · rw [← cons_append, heq] at hk
              exact (List.prefix_or_prefix_of_prefix hk (prefix_append _ r)).elim hm.1 hm.2
            · exact hkm (a :: w) r htail (by simp) hk
        have hdrop : cs.drop (m.length - 1) = r := by
          rcases m with _ | ⟨b, m⟩
          · simp at hm
          obtain ⟨-, rfl⟩ := cons.inj hr
          simp
        have hlater : k <:+: replaceFrom m x (m.length - 1) cs :=
          ih _ (hdrop ▸ hrest m suffix_rfl (hr.symm ▸ h))
        exact hlater.trans (suffix_append x _).isInfix
      · rcases infix_cons_iff.mp h with hk | h
        · obtain ⟨a, w, rfl⟩ := exists_cons_of_ne_nil hne
          obtain ⟨rfl, hw⟩ := cons_prefix_cons.mp hk
          rw [replaceFrom_of_mark hmk suffix_rfl hw]
          exact (prefix_append (a :: w) _).isInfix
        · exact (ih 0 h).trans (suffix_cons c _).isInfix

/-! ### Texts of values -/

/-- A character stands for itself in a string, or its escape begins with a backslash and it has no
part in what ends a script. -/
lemma escapedChar_cases : Json.escapedChar false c = [c] ∨
    ((Json.escapedChar false c).head? = some '\\' ∧ '<' ∉ Json.escapedChar false c) ∧
      ∀ p ∈ scriptEnd, c ∉ p := by
  have hspecial : ∀ n ∈ 34 :: 92 :: range 32,
    ((Json.escapedChar false (Char.ofNat n)).head? = some '\\' ∧
      '<' ∉ Json.escapedChar false (Char.ofNat n)) ∧ ∀ p ∈ scriptEnd, Char.ofNat n ∉ p := by decide
  by_cases hc : c.toNat ∈ 34 :: 92 :: range 32
  · right
    simpa only [Char.ofNat_toNat] using hspecial _ hc
  · left
    have hne : ∀ d : Char, d.toNat ∈ 34 :: 92 :: range 32 → c ≠ d := fun d hd h => hc (h ▸ hd)
    have hlow : ¬ c.toNat < 32 :=
      fun h => hc (mem_cons_of_mem _ (mem_cons_of_mem _ (mem_range.mpr h)))
    rw [Json.escapedChar, if_neg (hne '"' (by decide)), if_neg (hne '\\' (by decide)),
      if_neg (hne '\n' (by decide)),
      if_neg (hne '\r' (by decide)), if_neg (hne '\t' (by decide)), if_neg (by omega),
      if_neg (by omega), if_neg hlow, if_neg (by simp)]

lemma opensWith_escaped (hps : ps <:+ scriptEnd) (cs : List Char) :
    opensWith ps (cs.flatMap (Json.escapedChar false)) = opensWith ps cs := by
  induction ps generalizing cs with
  | nil => rfl
  | cons p ps ih =>
    cases cs with
    | nil => rfl
    | cons c cs =>
      have hp : p ∈ scriptEnd := hps.subset mem_cons_self
      rcases escapedChar_cases with hc | ⟨⟨hhead, -⟩, hnot⟩
      · rw [flatMap_cons, hc, singleton_append]
        simp [opensWith, ih ((suffix_cons p ps).trans hps)]
      · have hback : ∀ p ∈ scriptEnd, '\\' ∉ p := by decide
        obtain ⟨e, he⟩ := head?_eq_some_iff.mp hhead
        rw [flatMap_cons, he]
        simp [opensWith, hback p hp, hnot p hp]

lemma scriptEnds_escaped (cs : List Char) :
    scriptEnds (cs.flatMap (Json.escapedChar false)) = scriptEnds cs := by
  induction cs with
  | nil => rfl
  | cons c cs ih =>
    have hsame := opensWith_escaped suffix_rfl (c :: cs)
    rw [flatMap_cons] at hsame ⊢
    rcases escapedChar_cases with hc | ⟨⟨-, hlt⟩, hnot⟩
    · rw [hc, singleton_append] at hsame ⊢
      rw [scriptEnds, scriptEnds, hsame, ih]
    · rw [scriptEnds_append hlt, ih, scriptEnds_cons]
      exact fun h => hnot ['<'] (by decide) (by simp [h])

lemma scriptEnds_quote_append (s : String) (r : List Char) :
    scriptEnds (Json.quote false s ++ r) = scriptEnds s.toList + scriptEnds r := by
  rw [Json.quote, cons_append, scriptEnds_cons (by decide), append_assoc,
    ← scriptEnds_escaped s.toList]
  exact scriptEnds_append_cons (by decide) _ r

lemma scriptEnds_enclose {o c : Char} (ho : o = '\x7b' ∨ o = '[') (hc : c = '\x7d' ∨ c = ']')
    (depth : Nat) (ts : List (List Char)) :
    scriptEnds (Json.Layout.enclose .spaced o c depth ts) = 0 ↔ ∀ t ∈ ts, scriptEnds t = 0 := by
  have hparts : ∀ ts : List (List Char),
      scriptEnds ([',', ' '].intercalate ts) = 0 ↔ ∀ t ∈ ts, scriptEnds t = 0 := by
    intro ts
    induction ts with
    | nil => simp [scriptEnds]
    | cons t ts ih =>
      rcases ts with _ | ⟨t', ts⟩
      · simp
      · rw [intercalate_cons_of_ne_nil (by simp), append_assoc, cons_append,
          scriptEnds_append_cons (by decide), singleton_append, scriptEnds_cons (by decide),
          Nat.add_eq_zero_iff, ih]
        simp only [forall_mem_cons]
  have hopen : o ≠ '<' := by rcases ho with rfl | rfl <;> decide
  have hclose : ∀ p ∈ scriptEnd, c ∉ p := by rcases hc with rfl | rfl <;> decide
  cases ts with
  | nil =>
    have hsplit := scriptEnds_append_cons hclose [] []
    simp only [Json.Layout.enclose, scriptEnds_cons hopen]
    simpa [scriptEnds] using hsplit
  | cons t ts =>
    have hsplit := scriptEnds_append_cons hclose ([',', ' '].intercalate (t :: ts)) []
    rw [← hparts]
    simp only [Json.Layout.enclose, Json.Layout.edge, Json.Layout.between, nil_append, append_nil,
      scriptEnds_cons hopen, hsplit]
    simp [scriptEnds]

end Text

/-- A text in a value: a string or a key of it, at any depth. -/
inductive Value.Holds : Value → String → Prop
  | str (s : String) : Holds (.str s) s
  | item {vs : List Value} {v : Value} {s : String} (hv : v ∈ vs) (h : Holds v s) :
  Holds (.list vs) s
  | key {es : List (String × Value)} {e : String × Value} (he : e ∈ es) : Holds (.table es) e.1
  | entry {es : List (String × Value)} {e : String × Value} {s : String} (he : e ∈ es)
  (h : Holds e.2 s) :
      Holds (.table es) s

namespace Text

variable {v : Value} {ok : Int → Prop} {depth : Nat} {t : List Char}

/-- The text of a value ends no script exactly if no text in it does. -/
lemma scriptEnds_eq_zero_iff (hv : v.Plain ok) (h : Json.writeChars Page.style depth v = .ok t) :
    scriptEnds t = 0 ↔ ∀ s, v.Holds s → scriptEnds s.toList = 0 := by
  induction hv generalizing depth t with
  | null => exact iff_of_true (by cases h; rfl) nofun
  | bool b =>
    refine iff_of_true ?_ nofun
    cases h
    cases b <;> rfl
  | @int n hn =>
    refine iff_of_true ?_ nofun
    have hdigits : '<' ∉ Nat.toDigits 10 n.natAbs :=
      fun hmem => absurd (Json.isDigit_of_mem_toDigits _ hmem) (by decide)
    rw [Json.writeChars] at h
    rcases htext : Digits.text? n with _ | s
    · simp [htext] at h
    obtain ⟨-, rfl⟩ := Json.within_of_text? htext
    simp only [htext, Except.ok.injEq, Json.toList_toString] at h
    rw [← h, ← append_nil (ite _ _ _)]
    split_ifs <;> exact scriptEnds_append (by simp [hdigits]) []
  | str s =>
    cases h
    have hquote := scriptEnds_quote_append s []
    rw [append_nil] at hquote
    refine ⟨?_, fun h => hquote.trans (h s (.str s))⟩
    rintro h s' ⟨⟩
    exact hquote.symm.trans h
  | @list vs _ ih =>
    obtain ⟨ts, hts, rfl⟩ := Json.exists_of_writeChars_list h
    rw [Page.style, scriptEnds_enclose (.inr rfl) (.inr rfl),
      forall_mem_iff_of_forall₂ (forall₂_imp_of_mem hts fun v hv t ht => ih v hv ht) fun _ _ => id]
    refine ⟨?_, fun h v hv s hs => h s (.item hv hs)⟩
    rintro h s ⟨⟩
    exact h _ ‹_› s ‹_›
  | @table es _ _ ih =>
    obtain ⟨ts, hts, rfl⟩ := Json.exists_of_writeChars_table h
    have hentry : Forall₂ (fun p e => scriptEnds (Json.quote false p.1 ++ [':', ' '] ++ p.2) = 0 ↔
        scriptEnds e.1.toList = 0 ∧ ∀ s, e.2.Holds s → scriptEnds s.toList = 0) ts es := by
      refine forall₂_imp_of_mem hts fun e he p hp => ?_
      rw [append_assoc, scriptEnds_quote_append, scriptEnds_append (by decide), Nat.add_eq_zero_iff,
        hp.1, ih e he hp.2]
    have hall := forall_mem_iff_of_forall₂ hentry fun _ _ => id
    rw [Page.style, scriptEnds_enclose (.inl rfl) (.inl rfl)]
    simp only [Bool.false_eq_true, if_false, forall_mem_map]
    refine hall.trans ⟨?_, fun h e he => ⟨h e.1 (.key he), fun s hs => h s (.entry he hs)⟩⟩
    rintro h s (_ | _ | he | ⟨he, hs⟩)
    · exact (h _ he).1
    · exact (h _ he).2 s hs

end Text

namespace Page

open Text

/-! ### Pages -/

lemma braced_of_mem_marks {m : String} (hm : m ∈ marks) : Braced m.toList ∧ '<' ∉ m.toList := by
  have hall : ∀ m ∈ marks, (['\x7b'] <+: m.toList ∧ ['\x7d'] <:+ m.toList) ∧ '<' ∉ m.toList :=
    by decide
  exact ⟨⟨(hall m hm).1.1, (hall m hm).1.2⟩, (hall m hm).2⟩

lemma contains_replaceAll {t m k : String} (text : String) (hm : m ∈ marks) (hk : k ∈ marks)
    (hne : m ≠ k)
    (h : Text.contains t k = true) : Text.contains (replaceAll t m text) k = true := by
  have hall : ∀ m ∈ marks, ∀ k ∈ marks, k.toList ≠ [] ∧
      (m ≠ k → ¬ k.toList <+: m.toList ∧ ¬ m.toList <+: k.toList) := by
    decide
  obtain ⟨hnil, hsplit⟩ := hall m hm k hk
  rw [Text.contains, occursIn_iff] at h ⊢
  rw [replaceAll, String.toList_ofList]
  exact infix_replaceFrom (apart_of_mem_marks hm hk) (apart_of_mem_marks hk hm) hnil
    (hsplit hne) 0 h

/-- Texts that fill all marks leave the number of ends of scripts as it is exactly if they have
none. -/
lemma scriptEnds_fill {fs : List (String × String)}
    (hfs : ∀ f ∈ fs, f.1 ∈ marks ∧ Braced f.2.toList)
    (hpairs : fs.Pairwise fun f g => f.1 ≠ g.1) {t : String}
    (ht : ∀ f ∈ fs, Text.contains t f.1 = true) :
    scriptEnds t.toList ≤ scriptEnds (fill t fs).toList ∧
      (scriptEnds (fill t fs).toList = scriptEnds t.toList ↔
        ∀ f ∈ fs, scriptEnds f.2.toList = 0) := by
  induction hpairs generalizing t with
  | nil => simp [fill]
  | @cons f fs hf _ ih =>
    obtain ⟨hfirst, hrest⟩ := forall_mem_cons.mp hfs
    obtain ⟨hthere, ht⟩ := forall_mem_cons.mp ht
    obtain ⟨hbraced, hlt⟩ := braced_of_mem_marks hfirst.1
    obtain ⟨k, hk, hpos⟩ := exists_scriptEnds_replaceFrom hbraced hlt hfirst.2 0
    have hk : scriptEnds (replaceAll t f.1 f.2).toList =
        scriptEnds t.toList + k * scriptEnds f.2.toList := by
      rw [replaceAll, String.toList_ofList, hk, drop_zero]
    have hpos : 0 < k := hpos (occursIn_iff.mp hthere)
    obtain ⟨hle, hiff⟩ :=
      ih hrest fun g hg => contains_replaceAll f.2 hfirst.1 (hrest g hg).1 (hf g hg) (ht g hg)
    have hfill : fill t (f :: fs) = fill (replaceAll t f.1 f.2) fs := rfl
    rw [hfill, forall_mem_cons]
    refine ⟨by omega, fun h => ?_, fun h => ?_⟩
    · have hzero : k * scriptEnds f.2.toList = 0 := by omega
      exact ⟨(Nat.mul_eq_zero.mp hzero).resolve_left (by omega), hiff.mp (by omega)⟩
    · obtain ⟨hzero, hall⟩ := h
      rw [hiff.mpr hall, hk, hzero, Nat.mul_zero, Nat.add_zero]

/-- All marks are in the template of the page. -/
lemma contains_template : ∀ m ∈ marks, Text.contains template m = true := by
  have hlines : ∀ m ∈ marks, ∃ line ∈ dataScript, Text.contains line m = true := by decide
  intro m hm
  obtain ⟨line, hline, hmark⟩ := hlines m hm
  have hmem : line ++ "\n" ∈ lines.map (· ++ "\n") := mem_map_of_mem
    (mem_append_left _ (mem_append_left _ (mem_append_right _ hline)))
  obtain ⟨before, after, hsplit⟩ := append_of_mem hmem
  rw [Text.contains, occursIn_iff, template, hsplit, String.join_append, String.join_cons]
  simp only [String.toList_append]
  exact (occursIn_iff.mp hmark).trans
    (((prefix_append _ _).isInfix.trans (prefix_append _ _).isInfix).trans
    (suffix_append _ _).isInfix)

/-- Where a page can be written, it is written as the documents embed in the template. -/
lemma exists_generate {dir : Path} {source : Source} {template page : String} {d : Documents}
    {s : Session} (hsource : Action.Yields source.read s.tree (.ok template))
    (hembed : ∀ s, embed template d s = (.ok page, s))
    (hplace : s.tree.Writable (dir.child fileName)) :
    ∃ s' time, generate dir source d s = (.ok (dir.child fileName), s') ∧
      s'.tree.read (dir.child fileName) = .ok (utf8Bytes page, time) := by
  obtain ⟨s1, hinfo, htree⟩ := yields_log .info "Generating static HTML viewer..." none s rfl
  obtain ⟨s2, hread, htree2⟩ := hsource s1 htree
  rw [← htree2] at hplace
  obtain ⟨s3, hwrite, hthere⟩ := exists_writeBytes hplace (utf8Bytes page)
  obtain ⟨s4, hsize, htree4⟩ := yields_fileSize hthere s3 rfl
  obtain ⟨s5, hdone, htree5⟩ := yields_log .info
    s!"Generated HTML viewer: {(dir.child fileName).text} ({Fixed.mebibytes (utf8Bytes page).length} MB)" none s4 htree4
  refine ⟨s5, s2.now, ?_, htree5 ▸ hthere⟩
  rw [generate, Action.info, bind_ok hinfo, bind_ok hread, bind_ok (hembed s2)]
  exact ((bind_ok hwrite _).trans (bind_ok hsize _)).trans (bind_ok hdone _)

/-- **Ends of scripts in a page.** A page ends scripts at least as often as its template, which has
all marks, and exactly as often if and only if no text in the documents, be it a string or a key at
any depth, ends a script. -/
theorem script_kept_iff {template : String} (hmarks : ∀ m ∈ marks, Text.contains template m = true)
    (d : Documents) (hd : ∀ v ∈ d.values, v.Plain Digits.Within ∧ ∃ es, v = .table es) :
    ∃ page, (∀ s, embed template d s = (.ok page, s)) ∧
      (∀ dir source s, Action.Yields source.read s.tree (.ok template) →
      s.tree.Writable (dir.child fileName) →
        ∃ s' time, generate dir source d s = (.ok (dir.child fileName), s') ∧
          s'.tree.read (dir.child fileName) = .ok (utf8Bytes page, time)) ∧
      scriptEnds template.toList ≤ scriptEnds page.toList ∧
      (scriptEnds page.toList = scriptEnds template.toList ↔
        ∀ v ∈ d.values, ∀ t, v.Holds t → scriptEnds t.toList = 0) := by
  have htext : ∀ v ∈ d.values, ∃ text, Json.write style v = .ok text ∧ Braced text.toList ∧
      (scriptEnds text.toList = 0 ↔ ∀ t, v.Holds t → scriptEnds t.toList = 0) := by
    intro v hv
    obtain ⟨hplain, es, rfl⟩ := hd v hv
    obtain ⟨cs, hcs⟩ := Json.exists_writeChars style hplain 0
    refine ⟨String.ofList cs, by rw [Json.write, hcs]; rfl, ?_⟩
    rw [String.toList_ofList]
    refine ⟨?_, scriptEnds_eq_zero_iff hplain hcs⟩
    obtain ⟨ts, -, rfl⟩ := Json.exists_of_writeChars_table hcs
    cases ts with
    | nil => exact ⟨⟨_, rfl⟩, ['\x7b'], rfl⟩
    | cons p ts => exact ⟨⟨_, rfl⟩, '\x7b' :: _, rfl⟩
  choose! f hf using htext
  have htexts : Forall₂ (fun v text => Json.write style v = .ok text) d.values (d.values.map f) :=
    forall₂_map_right_iff.mpr (forall₂_same.mpr fun v hv => (hf v hv).1)
  have hzip : ∀ p ∈ marks.zip (d.values.map f), p.1 ∈ marks ∧ Braced p.2.toList := by
    intro p hp
    obtain ⟨hm, ht⟩ := of_mem_zip hp
    obtain ⟨v, hv, hpf⟩ := mem_map.mp ht
    exact ⟨hm, hpf ▸ (hf v hv).2.1⟩
  have hpairs : (marks.zip (d.values.map f)).Pairwise fun p q => p.1 ≠ q.1 := by
    have hnodup : marks.Nodup := by decide
    rw [← pairwise_map (f := Prod.fst), map_fst_zip (by rfl)]
    exact hnodup
  obtain ⟨hle, hiff⟩ := scriptEnds_fill hzip hpairs fun p hp => hmarks _ (hzip p hp).1
  have hembed := embed_eq_fill htexts template
  refine ⟨_, hembed, fun _ _ _ hsource hplace => exists_generate hsource hembed hplace, hle,
    hiff.trans ?_⟩
  have hvalues := forall_mem_map (f := Prod.snd) (l := marks.zip (d.values.map f))
    (P := fun t => scriptEnds t.toList = 0)
  rw [map_snd_zip (by rfl)] at hvalues
  rw [← hvalues, forall_mem_map]
  exact forall₂_congr fun v hv => (hf v hv).2.2

/-- The documents of a project with one module, whose docstring ends a script. -/
def breaking : Documents :=
  Project.documents ⟨"", "p"⟩ (Project.deskProject.atlas
    [{ path := "/p/a.py", moduleName := "a", docstring := some "</Script>", lineCount := 2 }])

lemma plain_breaking : ∀ v ∈ breaking.values, v.Plain Digits.Within ∧ ∃ es, v = .table es := by
  have hplain := Project.plain_files_of_texts Project.deskProject _ ⟨"", "p"⟩ style
    (show ((Project.files breaking).all fun e => (Json.write style e.2).toOption.isSome) =
    true by decide +kernel)
  simp only [Project.files, forall_mem_cons] at hplain
  simp only [Documents.values, forall_mem_cons]
  exact ⟨⟨hplain.1, _, rfl⟩, ⟨hplain.2.1, _, rfl⟩, ⟨hplain.2.2.1, _, rfl⟩, ⟨hplain.2.2.2.1, _, rfl⟩,
    forall_mem_nil _⟩

theorem script_kept_iff_breaking : (∀ m ∈ marks, Text.contains template m = true) ∧
    (∀ v ∈ breaking.values, v.Plain Digits.Within ∧ ∃ es, v = .table es) ∧
    ∃ page, embed template breaking blank = (.ok page, blank) ∧
      scriptEnds page.toList ≠ scriptEnds template.toList := by
  obtain ⟨page, hpage, -, -, hiff⟩ := script_kept_iff contains_template breaking plain_breaking
  refine ⟨contains_template, plain_breaking, page, hpage blank, fun hsame => ?_⟩
  have hnone := hiff.mp hsame breaking.docstrings (by simp [Documents.values]) "</Script>"
    (.entry (mem_cons_of_mem _ mem_cons_self) (.item mem_cons_self (.str _)))
  exact absurd hnone (by decide)

/-- The script of a page with these documents ends twice, and that of its template once. -/
theorem document_ends_script : let template := "<script>" ++ Text.join " " marks ++ "</script>"
    scriptEnds template.toList = 1 ∧
      ∃ page, embed template breaking blank = (.ok page, blank) ∧ scriptEnds page.toList = 2 := by
  intro template
  let texts := breaking.values.map fun v =>
    String.ofList ((Json.writeChars style 0 v).toOption.getD [])
  have htexts : Forall₂ (fun v text => Json.write style v = .ok text) breaking.values texts := by
    refine forall₂_map_right_iff.mpr (forall₂_same.mpr fun v hv => ?_)
    obtain ⟨cs, hcs⟩ := Json.exists_writeChars style (plain_breaking v hv).1 0
    rw [Json.write, hcs]
    rfl
  refine ⟨by decide +kernel, _, embed_eq_fill htexts template blank, ?_⟩
  -- the texts are filled in as lists of characters; as strings they would be decoded at every step
  simp only [fill, marks, texts, Documents.values, map_cons, map_nil, zip_cons_cons, zip_nil_right,
    foldl_cons, foldl_nil, replaceAll, String.toList_ofList]
  decide +kernel

end Page

end CodeAtlas
