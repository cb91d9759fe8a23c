import CodeAtlas.Proofs.Json.Scalar
import CodeAtlas.Proofs.Table
import CodeAtlas.Proofs.Text

/-!
# Documents in JSON

Plain values can be written in every style, and what is written in the styles of documents is read
as the value; the proofs follow the value.
-/

namespace CodeAtlas

open List

variable {v : Value} {c : Char} {t : List Char} {ts : List (List Char)} {vs : List Value}
  {depth m : Nat} {l : Layout} {e : String × Value} {n : Int} {es : List (String × Value)}
  {st : Style}

/-- A value that a JSON document holds as it is: no fractions and no bytes, integers that are `ok`,
and tables without a key that stands twice. -/
inductive Value.Plain (ok : Int → Prop) : Value → Prop
  | null : Plain ok .null
  | bool (b : Bool) : Plain ok (.bool b)
  | int {n : Int} (h : ok n) : Plain ok (.int n)
  | str (s : String) : Plain ok (.str s)
  | list {items : List Value} (h : ∀ v ∈ items, Plain ok v) : Plain ok (.list items)
  | table {entries : List (String × Value)} (hkeys : (entries.map Prod.fst).Nodup)
      (h : ∀ e ∈ entries, Plain ok e.2) : Plain ok (.table entries)

namespace Value

variable {ok : Int → Prop}

@[simp] lemma plain_int {n : Int} : (int n).Plain ok ↔ ok n :=
  ⟨fun h => by cases h; assumption, .int⟩

@[simp] lemma plain_str (s : String) : (str s).Plain ok := .str s

@[simp] lemma plain_list {items : List Value} : (list items).Plain ok ↔ ∀ v ∈ items, v.Plain ok :=
  ⟨fun h => by cases h; assumption, .list⟩

@[simp] lemma plain_table {entries : List (String × Value)} : (table entries).Plain ok ↔
    (entries.map Prod.fst).Nodup ∧ ∀ e ∈ entries, e.2.Plain ok :=
  ⟨fun h => by cases h; exact ⟨by assumption, by assumption⟩, fun h => .table h.1 h.2⟩

lemma Plain.imp {ok' : Int → Prop} (hok : ∀ n, ok n → ok' n) (h : v.Plain ok) : v.Plain ok' := by
  induction h with
  | null => exact .null
  | bool b => exact .bool b
  | int hn => exact .int (hok _ hn)
  | str s => exact .str s
  | list _ ih => exact .list ih
  | table hkeys _ ih => exact .table hkeys ih

abbrev AnyInt (_ : Int) : Prop := True

@[simp] lemma plain_nat (n : Nat) : (nat n).Plain AnyInt := .int trivial

@[simp] lemma plain_strings (ss : List String) : (strings ss).Plain AnyInt := by
  simp [strings]

lemma plain_table_map {κ α : Type} (key : κ → String) (hkey : ∀ k l, key k = key l → k = l)
    {f : α → Value} (hf : ∀ a, (f a).Plain AnyInt) {l : Keyed κ α} (hl : l.keys.Nodup) :
    (table (l.map fun e => (key e.1, f e.2))).Plain AnyInt := by
  rw [plain_table, map_map]
  refine ⟨?_, ?_⟩
  · have hkeys : l.map (Prod.fst ∘ fun e => (key e.1, f e.2)) = l.keys.map key := by
      simp [Keyed.keys]
    rw [hkeys]
    exact hl.map fun k l => hkey k l
  · intro e he
    obtain ⟨e, -, rfl⟩ := mem_map.mp he
    exact hf e.2

end Value

namespace Json

/-! ### Lists -/

section

variable (l : Layout) (depth : Nat)

lemma ends_edge (hc : c ∈ [']', '\x7d']) (rest : List Char) : Ends (l.edge depth ++ c :: rest) := by
  intro d hd
  cases l with
  | indented =>
    obtain rfl : '\n' = d := by simpa [Layout.edge, newlineIndent] using hd
    decide
  | _ =>
    obtain rfl : c = d := by simpa [Layout.edge] using hd
    revert hc
    simp only [mem_cons]
    tauto

lemma ends_between (rest : List Char) : Ends (l.between depth ++ rest) := by
  intro d hd
  rw [l.between_eq] at hd
  obtain rfl : ',' = d := by simpa using hd
  decide

lemma skipBlanks_edge (hc : isSpace c = false) (rest : List Char) :
    skipBlanks (l.edge depth ++ c :: rest) = c :: rest := by
  rw [skipBlanks_append fun _ h => isSpace_of_mem_edge h, skipBlanks_cons hc]

lemma skipBlanks_between (rest : List Char) :
    skipBlanks (l.between depth ++ rest) = ',' :: (l.gap depth ++ rest) := by
  rw [l.between_eq, cons_append, skipBlanks_cons (by decide)]

end

lemma Reads.skipBlanks (h : Reads t v) (rest : List Char) :
    Json.skipBlanks (t ++ rest) = t ++ rest := by
  obtain ⟨c, cs, rfl, hc⟩ := h.opens
  exact skipBlanks_cons (of_mem_openings hc).1 _

lemma skipBlanks_gap (hc : isSpace c = false) (cs : List Char) (rest : List Char) :
    skipBlanks (l.gap depth ++ ((l.between depth).intercalate ((c :: cs) :: ts) ++ rest)) =
      (l.between depth).intercalate ((c :: cs) :: ts) ++ rest := by
  rw [skipBlanks_append fun _ h => isSpace_of_mem_gap h, intercalate_cons_cons_left, cons_append]
  exact skipBlanks_cons hc _

lemma length_between_pos (l : Layout) (depth : Nat) : 1 ≤ (l.between depth).length := by
  rw [l.between_eq]
  simp

/-- A text is read as a member of a list or a table, whether the end follows it or a comma and more
of them. -/
structure ReadsMember {α : Type} (read : Nat → List Char → Except ReadError (List α × List Char))
    (closing : Char) (t : List Char) (a : α) : Prop where
  opens : ∃ c cs, t = c :: cs ∧ isSpace c = false ∧ c ≠ closing
  returns : '\r' ∉ t
  last : ∀ {tail rest n}, Ends tail → 2 * t.length ≤ n → skipBlanks tail = closing :: rest →
    read (n + 1) (t ++ tail) = .ok ([a], rest)
  more : ∀ {tail rest rest' as n}, Ends tail → 2 * t.length ≤ n → skipBlanks tail = ',' :: rest →
    read n (skipBlanks rest) = .ok (as, rest') → read (n + 1) (t ++ tail) = .ok (a :: as, rest')

section

variable {α : Type} {read : Nat → List Char → Except ReadError (List α × List Char)} {as : List α}
  {opening closing : Char}

lemma read_intercalate (l : Layout) (depth depth' : Nat) (rest : List Char)
    (hclosing : closing ∈ [']', '\x7d'])
    (h : Forall₂ (ReadsMember read closing) ts as) (hne : ts ≠ [])
    (hm : 2 * ((l.between depth).intercalate ts).length < m) :
    read m ((l.between depth).intercalate ts ++ (l.edge depth' ++ closing :: rest)) =
      .ok (as, rest) := by
  induction h generalizing m with
  | nil => exact absurd rfl hne
  | @cons t a ts as ht hts ih =>
    obtain ⟨n, rfl⟩ := Nat.exists_eq_add_one_of_ne_zero (Nat.ne_of_gt (Nat.zero_lt_of_lt hm))
    by_cases hlast : ts = []
    · subst hlast
      cases hts
      rw [intercalate_singleton] at hm ⊢
      have hspace : isSpace closing = false := by
        rcases mem_pair.mp hclosing with rfl | rfl <;> rfl
      exact ht.last (ends_edge l depth' hclosing rest) (by omega)
        (skipBlanks_edge l depth' hspace rest)
    · have hmore := ih hlast (m := n)
      obtain ⟨t', ts', rfl⟩ := exists_cons_of_ne_nil hlast
      obtain ⟨a', as', ht', -, rfl⟩ := forall₂_cons_left_iff.mp hts
      obtain ⟨c, cs, rfl, hc, -⟩ := ht'.opens
      have hcomma := length_between_pos l depth
      rw [intercalate_cons_cons] at hm ⊢
      simp only [length_append] at hm
      rw [append_assoc, append_assoc]
      refine ht.more (ends_between l depth _) (by omega) (skipBlanks_between l depth _) ?_
      rw [skipBlanks_gap hc]
      exact hmore (by omega)

lemma notMem_newlineIndent : '\r' ∉ newlineIndent depth := by
  simp [newlineIndent]

lemma notMem_between (l : Layout) (depth : Nat) : '\r' ∉ l.between depth := by
  cases l with
  | indented => simpa [Layout.between] using notMem_newlineIndent
  | _ => simp [Layout.between]

lemma notMem_edge : '\r' ∉ l.edge depth := by
  cases l with
  | indented => exact notMem_newlineIndent
  | _ => simp [Layout.edge]

lemma notMem_intercalate {sep : List Char} (hsep : '\r' ∉ sep) (hts : ∀ t ∈ ts, '\r' ∉ t) :
    '\r' ∉ sep.intercalate ts := fun h =>
  (Text.mem_of_mem_intercalate h).elim hsep fun ⟨t, ht, hmem⟩ => hts t ht hmem

lemma notMem_enclose (l : Layout) {opening closing : Char} (hopening : opening ≠ '\r')
    (hclosing : closing ≠ '\r') (depth : Nat) (hts : ∀ t ∈ ts, '\r' ∉ t) :
    '\r' ∉ l.enclose opening closing depth ts := by
  cases ts with
  | nil => simp [Layout.enclose, hopening.symm, hclosing.symm]
  | cons t ts =>
    have hinner := notMem_intercalate (notMem_between l (depth + 1)) hts
    simp [Layout.enclose, hopening.symm, hclosing.symm, notMem_edge, hinner]

/-- Members in brackets are read as the value that is made of them. -/
lemma reads_enclose (hopening : opening ∈ openings) (hclosing : closing ∈ [']', '\x7d'])
    (make : List α → Value)
    (hempty : ∀ n rest, readValue (n + 1) (opening :: closing :: rest) = .ok (make [], rest))
    (hfirst : ∀ {n inner c cs as rest}, skipBlanks inner = c :: cs → c ≠ closing →
      read n (c :: cs) = .ok (as, rest) →
      readValue (n + 1) (opening :: inner) = .ok (make as, rest))
    (h : Forall₂ (ReadsMember read closing) ts as) : Reads (l.enclose opening closing depth ts)
    (make as) := by
  have hreturns : '\r' ∉ l.enclose opening closing depth ts := by
    refine notMem_enclose l ?_ ?_ depth fun t ht => ?_
    · rintro rfl
      exact absurd hopening (by decide)
    · rintro rfl
      exact absurd hclosing (by decide)
    · obtain ⟨a, ha⟩ := exists_of_forall₂ h ht
      exact ha.returns
  rcases h with _ | @⟨t, a, ts, as, ht, hts⟩
  · refine ⟨⟨_, _, rfl, hopening⟩, hreturns, fun rest m _ hm => ?_⟩
    obtain ⟨n, rfl, -⟩ := exists_steps hm
    exact hempty n rest
  · refine ⟨⟨_, _, rfl, hopening⟩, hreturns, fun rest m _ hm => ?_⟩
    obtain ⟨n, rfl, hn⟩ := exists_steps hm
    simp only [length_append] at hn
    have hmembers := read_intercalate l (depth + 1) depth rest hclosing (.cons ht hts) (by simp)
      (m := n) (by omega)
    obtain ⟨c, cs, rfl, hspace, hc⟩ := ht.opens
    have htext : l.enclose opening closing depth ((c :: cs) :: ts) ++ rest =
        opening :: (l.edge (depth + 1) ++
          ((l.between (depth + 1)).intercalate ((c :: cs) :: ts) ++
          (l.edge depth ++ closing :: rest))) := by
      simp [Layout.enclose]
    rw [intercalate_cons_cons_left, cons_append] at hmembers htext
    rw [htext]
    exact hfirst (skipBlanks_edge l (depth + 1) hspace _) hc hmembers

end

lemma Reads.member (h : Reads t v) : ReadsMember readItems ']' t v := by
  obtain ⟨c, cs, hcs, hc⟩ := h.opens
  obtain ⟨hspace, hbracket, -⟩ := of_mem_openings hc
  refine ⟨⟨c, cs, hcs, hspace, hbracket⟩, h.returns, fun htail hn hrest => ?_,
    fun htail hn hrest hmore => ?_⟩
  · simp only [readItems, h.read _ _ htail hn, bind, Except.bind, hrest]
  · simp only [readItems, h.read _ _ htail hn, bind, Except.bind, hrest, hmore]

lemma reads_list (h : Forall₂ Reads ts vs) : Reads (l.enclose '[' ']' depth ts) (.list vs) := by
  refine reads_enclose (by decide) (by decide) .list (fun _ _ => rfl) (fun hskip hc hread => ?_)
    (h.imp fun _ _ => Reads.member)
  simp only [readValue, hskip]
  split
  · rename_i heq
    exact absurd (List.cons.inj heq).1 hc
  · rw [hread]
    rfl

/-! ### Tables -/

/-- A text stands for an entry of a table: the key in quotes, a colon and a text of the value. -/
def ReadsEntry (l : Layout) (t : List Char) (e : String × Value) : Prop :=
  ∃ u, t = quote false e.1 ++ l.colon ++ u ∧ Reads u e.2

lemma Layout.colon_eq (l : Layout) : ∃ bs, l.colon = ':' :: bs ∧ ∀ c ∈ bs, isSpace c := by
  cases l with
  | compact => exact ⟨[], rfl, by simp⟩
  | _ => exact ⟨[' '], rfl, forall_mem_singleton.mpr rfl⟩

lemma ReadsEntry.member (h : ReadsEntry l t e) : ReadsMember readEntries '\x7d' t e := by
  obtain ⟨u, rfl, hu⟩ := h
  obtain ⟨bs, hcolon, hbs⟩ := l.colon_eq
  have hreturn : '\r' ∉ l.colon := by cases l <;> decide
  have htext : ∀ tail, quote false e.1 ++ l.colon ++ u ++ tail =
      '"' :: (e.1.toList.flatMap (escapedChar false) ++ '"' :: (':' :: (bs ++ (u ++ tail)))) := by
    simp [quote, hcolon]
  have hkey : ∀ tail n, 2 * (quote false e.1 ++ l.colon ++ u).length ≤ n → _ := fun tail n hn =>
    readString_quote (quote false e.1 ++ l.colon ++ u ++ tail) e.1 (':' :: (bs ++ (u ++ tail)))
      (n := n) (by simp only [length_append, hcolon, length_cons] at hn; omega)
  have hvalue : ∀ {tail n}, Ends tail → 2 * (quote false e.1 ++ l.colon ++ u).length ≤ n → _ :=
    fun {tail n} htail hn =>
    hu.read tail n htail (by simp only [length_append] at hn; omega)
  refine ⟨⟨_, _, rfl, rfl, by decide⟩, by simp [notMem_quote, hreturn, hu.returns],
    fun {tail rest n} htail hn hrest => ?_, fun {tail rest rest' as n} htail hn hrest hmore => ?_⟩
  · have hk := hkey tail n hn
    rw [htext] at hk ⊢
    simp only [readEntries, hk, bind, Except.bind, skipBlanks_cons (c := ':') (by decide),
      skipBlanks_append hbs, hu.skipBlanks, hvalue htail hn, hrest, String.ofList_toList]
  · have hk := hkey tail n hn
    rw [htext] at hk ⊢
    simp only [readEntries, hk, bind, Except.bind, skipBlanks_cons (c := ':') (by decide),
      skipBlanks_append hbs, hu.skipBlanks, hvalue htail hn, hrest, hmore, String.ofList_toList]

lemma putEntry_of_notMem {key : String} (h : key ∉ es.map Prod.fst) :
    Value.putEntry key v es = es ++ [(key, v)] := by
  induction es with
  | nil => rfl
  | cons e es ih =>
    obtain ⟨k, w⟩ := e
    rw [map_cons, mem_cons, not_or] at h
    rw [Value.putEntry, if_neg (Ne.symm h.1), ih h.2, cons_append]

lemma entriesOf_of_nodup (h : (es.map Prod.fst).Nodup) : Value.entriesOf es = es := by
  induction es using reverseRecOn with
  | nil => rfl
  | append_singleton es e ih =>
    rw [map_append, map_singleton, nodup_append] at h
    have hold : Value.entriesOf es = es := ih h.1
    rw [Value.entriesOf] at hold ⊢
    rw [foldl_concat, hold]
    exact putEntry_of_notMem fun hmem => h.2.2 _ hmem _ mem_cons_self rfl

lemma reads_table (h : Forall₂ (ReadsEntry l) ts es)
    (hkeys : (es.map Prod.fst).Nodup) : Reads (l.enclose '\x7b' '\x7d' depth ts) (.table es) := by
  rw [← entriesOf_of_nodup hkeys]
  refine reads_enclose (by decide) (by decide) (fun es => .table (Value.entriesOf es))
    (fun _ _ => rfl) (fun hskip hc hread => ?_) (h.imp fun _ _ => ReadsEntry.member)
  simp only [readValue, hskip]
  split
  · rename_i heq
    exact absurd (List.cons.inj heq).1 hc
  · rw [hread]
    rfl

/-! ### Documents -/

/-- The styles in which documents are kept: characters and entries as they are. -/
structure Style.Faithful (st : Style) : Prop where
  ascii : st.ascii = false
  sorted : st.sorted = false

lemma within_iff : Digits.Within n ↔ n.natAbs < Nat.pow 10 Digits.limit := by
  rw [Nat.pow_eq, Digits.Within, Nat.length_toDigits_le_iff (by decide) (by decide)]

lemma text?_of_within (h : Digits.Within n) : Digits.text? n = some (toString n) := by
  have hexceeds : Digits.exceeds n.natAbs = false := by
    rw [Digits.exceeds, decide_eq_false (Nat.not_le.mpr (within_iff.mp h)), Bool.and_false]
  rw [Digits.text?, hexceeds]
  rfl

lemma lt_of_log2_lt {n q bits digits : Nat} (h : n.log2 < bits) (hbits : bits = 93 * q + 51)
    (hdigits : digits = 28 * q + 16) : n < Nat.pow 10 digits := by
  refine Nat.lt_of_lt_of_le Nat.lt_log2_self (Nat.le_trans (Nat.pow_le_pow_right (by decide) h) ?_)
  rw [Nat.pow_eq, hbits, hdigits, Nat.pow_add, Nat.pow_add, Nat.pow_mul, Nat.pow_mul]
  exact Nat.mul_le_mul (Nat.pow_le_pow_left (by decide) q) (by decide)

lemma within_of_text? {t : String} (h : Digits.text? n = some t) :
    Digits.Within n ∧ t = toString n := by
  unfold Digits.text? at h
  split_ifs at h with hexceeds
  refine ⟨within_iff.mpr ?_, (Option.some.inj h).symm⟩
  rw [Digits.exceeds, Bool.and_eq_true, decide_eq_true_iff, decide_eq_true_iff, not_and_or,
    Nat.not_le, Nat.not_le] at hexceeds
  rcases hexceeds with hbits | hlt
  · have hlimit : Digits.limit = 28 * 153 + 16 := rfl
    exact lt_of_log2_lt hbits rfl hlimit
  · exact hlt

/-! ### What writing comes to -/

lemma writeItems_eq : writeItems st depth vs = vs.mapM (writeChars st depth) := by
  induction vs with
  | nil => rfl
  | cons v vs ih =>
    rw [writeItems, mapM_cons, ih]
    rfl

lemma writeEntries_eq : writeEntries st depth es = es.mapM fun e =>
    (writeChars st depth e.2).map (e.1, ·) := by
  induction es with
  | nil => rfl
  | cons e es ih =>
    rw [writeEntries, mapM_cons, ih]
    cases writeChars st depth e.2 <;> rfl

lemma exists_of_writeChars_list (h : writeChars st depth (.list vs) = .ok t) :
    ∃ ts, Forall₂ (fun t v => writeChars st (depth + 1) v = .ok t) ts vs ∧
      t = st.layout.enclose '[' ']' depth ts := by
  rw [writeChars] at h
  rcases hvs : writeItems st (depth + 1) vs with e | ts
  · simp [hvs, bind, Except.bind] at h
  · simp only [hvs, bind, Except.bind, Except.ok.injEq] at h
    exact ⟨ts, forall₂_of_mapM (writeItems_eq ▸ hvs), h.symm⟩

lemma exists_of_writeChars_table (h : writeChars st depth (.table es) = .ok t) : ∃ ts :
    List (String × List Char),
      Forall₂ (fun t e => t.1 = e.1 ∧ writeChars st (depth + 1) e.2 = .ok t.2) ts es ∧
      t = st.layout.enclose '\x7b' '\x7d' depth
        ((if st.sorted then sortEntries ts else ts).map fun p =>
        quote st.ascii p.1 ++ st.layout.colon ++ p.2) := by
  rw [writeChars] at h
  rcases hes : writeEntries st (depth + 1) es with e | ts
  · simp [hes, bind, Except.bind] at h
  · simp only [hes, bind, Except.bind, Except.ok.injEq] at h
    refine ⟨ts, (forall₂_of_mapM (writeEntries_eq ▸ hes)).imp fun p e hp => ?_, h.symm⟩
    rcases hw : writeChars st (depth + 1) e.2 with f | u <;> rw [hw] at hp <;> cases hp
    exact ⟨rfl, rfl⟩

/-- Only integers within the limit can be written. -/
lemma plain_of_writeChars {ok : Int → Prop} (hv : v.Plain ok) :
    ∀ {depth t}, writeChars st depth v = .ok t → v.Plain Digits.Within := by
  induction hv with
  | null => exact fun _ => .null
  | bool b => exact fun _ => .bool b
  | @int n hn =>
    intro depth t h
    rw [writeChars] at h
    rcases htext : Digits.text? n with _ | s
    · simp [htext] at h
    · exact .int (within_of_text? htext).1
  | str s => exact fun _ => .str s
  | list _ ih =>
    intro depth t h
    obtain ⟨ts, hts, -⟩ := exists_of_writeChars_list h
    refine .list fun v hv => ?_
    obtain ⟨u, hu⟩ := exists_of_forall₂ hts.flip hv
    exact ih v hv hu
  | table hkeys _ ih =>
    intro depth t h
    obtain ⟨ts, hts, -⟩ := exists_of_writeChars_table h
    refine .table hkeys fun e he => ?_
    obtain ⟨u, -, hu⟩ := exists_of_forall₂ hts.flip he
    exact ih e he hu

/-- What is written in a faithful style is read as the value. -/
lemma reads_of_writeChars {ok : Int → Prop} (hv : v.Plain ok) (hst : st.Faithful) :
    ∀ {depth t}, writeChars st depth v = .ok t → Reads t v := by
  induction hv with
  | null =>
    intro depth t h
    cases h
    exact reads_null
  | bool b =>
    intro depth t h
    cases h
    exact reads_bool b
  | @int n hn =>
    intro depth t h
    rw [writeChars] at h
    rcases htext : Digits.text? n with _ | s
    · simp [htext] at h
    · obtain ⟨hwithin, rfl⟩ := within_of_text? htext
      simp only [htext, Except.ok.injEq] at h
      exact h ▸ reads_int hwithin
  | str s =>
    intro depth t h
    rw [writeChars, hst.ascii] at h
    cases h
    exact reads_quote
  | list _ ih =>
    intro depth t h
    obtain ⟨ts, hts, rfl⟩ := exists_of_writeChars_list h
    exact reads_list (forall₂_imp_of_mem hts fun v hv u hu => ih v hv hu)
  | table hkeys _ ih =>
    intro depth t h
    obtain ⟨ts, hts, rfl⟩ := exists_of_writeChars_table h
    simp only [hst.sorted, hst.ascii, Bool.false_eq_true, if_false]
    refine reads_table ?_ hkeys
    exact forall₂_map_left_iff.mpr
      (forall₂_imp_of_mem hts fun e he t ht => ⟨t.2, by rw [ht.1], ih e he ht.2⟩)

lemma exists_writeChars (st : Style) (hv : v.Plain Digits.Within) :
    ∀ depth, ∃ t, writeChars st depth v = .ok t := by
  induction hv with
  | null => exact fun depth => ⟨_, rfl⟩
  | bool b => exact fun depth => ⟨_, rfl⟩
  | @int n hn =>
    intro depth
    refine ⟨(toString n).toList, ?_⟩
    simp only [writeChars, text?_of_within hn]
  | str s => exact fun depth => ⟨_, rfl⟩
  | list _ ih =>
    intro depth
    obtain ⟨ts, hts⟩ := exists_mapM fun v hv => ih v hv (depth + 1)
    refine ⟨st.layout.enclose '[' ']' depth ts, ?_⟩
    simp only [writeChars, writeItems_eq, hts, bind, Except.bind]
  | table hkeys _ ih =>
    intro depth
    obtain ⟨ts, hts⟩ := exists_mapM fun e he => by
      obtain ⟨t, ht⟩ := ih e he (depth + 1)
      exact ⟨(e.1, t), congrArg (Except.map (e.1, ·)) ht⟩
    simp only [writeChars, writeEntries_eq, hts, bind, Except.bind]
    exact ⟨_, rfl⟩

lemma exists_write (st : Style) (hv : v.Plain Digits.Within) : ∃ t, write st v = .ok t := by
  obtain ⟨cs, hcs⟩ := exists_writeChars st hv 0
  refine ⟨String.ofList cs, ?_⟩
  rw [write, hcs]
  rfl

lemma Reads.readChars (h : Reads t v) : Json.readChars t = .ok v := by
  have hskip := h.skipBlanks []
  have hread := h.read [] (2 * t.length + 2) (by simp [Ends]) (by omega)
  obtain ⟨c, cs, rfl, hc⟩ := h.opens
  rw [append_nil] at hskip hread
  have hmark : ¬ (c.toNat = 0xfeff) := by
    have := (of_mem_openings hc).2.2.2
    omega
  simp only [Json.readChars, head?_cons, Option.any_some, hmark, decide_false, hskip, hread, bind,
    Except.bind]
  rfl

end Json

end CodeAtlas
