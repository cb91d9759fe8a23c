import CodeAtlas.Proofs.Grammar
import CodeAtlas.Proofs.Text

/-!
# Reading annotations from text

A text that spells an expression reads as that expression (`Spells.readsAs`): a word ends where a
symbol begins, and every bracket is closed by its own.
-/

namespace CodeAtlas.Syntax

open List

variable {a : Char} {cs rest : List Char} {i : Identifier} {plain tight : Bool} {p : Char × Char}
  {e : Expr} {k : TokenKind} {fuel : Nat} {st : LexState}

/-! ### Words -/

lemma isWordChar_of_isIdentContinue (h : Text.isIdentContinue a = true) : isWordChar a = true := by
  unfold Text.isIdentContinue at h
  split at h
  · exact Bool.or_eq_true_iff.mpr (.inl h)
  · exact Bool.or_eq_true_iff.mpr (.inr (decide_eq_true (Nat.le_of_not_lt ‹_›)))

lemma isWordChar_of_isIdentStart (h : Text.isIdentStart a = true) : isWordChar a = true := by
  unfold Text.isIdentStart at h
  split at h
  · simp only [isWordChar, Char.isAlphanum, Bool.or_eq_true] at h ⊢
    exact .inl (h.imp_left .inl)
  · exact Bool.or_eq_true_iff.mpr (.inr (decide_eq_true (Nat.le_of_not_lt ‹_›)))

lemma not_isDigit_of_isIdentStart (h : Text.isIdentStart a = true) : a.isDigit = false := by
  rw [← Bool.not_eq_true]
  intro hdigit
  have hrange : 48 ≤ a.toNat ∧ a.toNat ≤ 57 := by
    simpa [Char.isDigit, UInt32.le_iff_toNat_le] using hdigit
  rw [Text.isIdentStart, if_pos (by omega)] at h
  have hletter : 65 ≤ a.toNat := by
    rcases Bool.or_eq_true_iff.mp h with h | h
    · rcases Bool.or_eq_true_iff.mp h with h | h
      · exact UInt32.le_iff_toNat_le.mp (of_decide_eq_true h).1
      · have hlow := UInt32.le_iff_toNat_le.mp (of_decide_eq_true (Bool.and_eq_true_iff.mp h).1)
        exact Nat.le_trans (by decide) hlow
    · obtain rfl := of_decide_eq_true h
      decide
  omega

lemma Identifier.chars (i : Identifier) :
    ∃ a cs, i.text.toList = a :: cs ∧ a.isDigit = false ∧ ∀ b ∈ a :: cs, isWordChar b = true := by
  have h := i.valid
  rcases htext : i.text.toList with _ | ⟨a, cs⟩
  · rw [htext] at h
    cases h
  rw [htext] at h
  obtain ⟨hstart, hcontinue⟩ := Bool.and_eq_true_iff.mp h
  refine ⟨a, cs, rfl, not_isDigit_of_isIdentStart hstart, forall_mem_cons.mpr
    ⟨isWordChar_of_isIdentStart hstart, fun b hb => ?_⟩⟩
  exact isWordChar_of_isIdentContinue (all_eq_true.mp hcontinue b hb)

/-- No word or literal goes on with these characters. -/
def Ends (cs : List Char) : Prop := ∀ a ∈ cs.head?, isWordChar a = false ∧ a ≠ '\'' ∧ a ≠ '"'

lemma lexFrom_blank (fuel : Nat) (st : LexState) :
    lexFrom fuel false st (' ' :: cs) = lexFrom fuel false st cs := by
  cases fuel <;> rfl

lemma lexFrom_of_lexToken {st st' : LexState}
    (ha : (isInlineBlank a || a = '#' || a = '\n' || a = '\\') = false)
    (h : lexToken st (a :: cs) = some (st', rest)) :
    lexFrom (fuel + 1) false st (a :: cs) = lexFrom fuel false st' rest := by
  simp only [Bool.or_eq_false_iff, decide_eq_false_iff_not] at ha
  obtain ⟨⟨⟨hblank, hcomment⟩, hnewline⟩, hback⟩ := ha
  rw [lexFrom, dropWhile_cons_of_neg (by simp [hblank])]
  split
  · cases ‹_›
  · exact absurd (List.cons.inj ‹_›).1 hcomment
  · exact absurd (List.cons.inj ‹_›).1 hnewline
  · exact absurd (List.cons.inj ‹_›).1 hback
  · rw [h]
    rfl

lemma lexToken_word (h : wordKind i.text.toList = some (.ident i plain)) (st : LexState)
    (hrest : Ends rest) :
    lexToken st (i.text.toList ++ rest) = some (st.add (.ident i plain), rest) := by
  obtain ⟨a, cs, htext, hdigit, hword⟩ := i.chars
  rw [htext] at h ⊢
  have ha : isWordChar a = true := hword a mem_cons_self
  have htake : (a :: cs ++ rest).takeWhile isWordChar = a :: cs := by
    rw [takeWhile_append_of_pos hword]
    cases rest with
    | nil => simp
    | cons b rest => simp [(hrest b rfl).1]
  have hdrop : (a :: cs ++ rest).dropWhile isWordChar = rest := by
    rw [dropWhile_append_of_pos hword]
    cases rest with
    | nil => rfl
    | cons b rest => exact dropWhile_cons_of_neg (by simp [(hrest b rfl).1])
  have hquote : rest.head?.any (fun q => q = '\'' || q = '"') = false := by
    cases rest with
    | nil => rfl
    | cons b rest => simp [(hrest b rfl).2]
  have hdot : a ≠ '.' := by
    rintro rfl
    exact absurd ha (by decide)
  rw [cons_append] at htake hdrop ⊢
  simp [lexToken, hdigit, hdot, ha, htake, hdrop, hquote, h]

/-! ### Tokens -/

/-- How a token is spelled: a blank follows a comma, and a bar stands between blanks. -/
def spelling : TokenKind → List Char
  | .ident i _ => i.text.toList
  | .op s => if s = "," then [',', ' '] else if s = "|" then [' ', '|', ' '] else s.toList
  | _ => []

def LexState.after (st : LexState) (ks : List TokenKind) : LexState :=
  { st with done := (ks.map (⟨·, st.line, st.line⟩)).reverse ++ st.done }

lemma LexState.after_append (ks ks' : List TokenKind) :
    st.after (ks ++ ks') = (st.after ks).after ks' := by
  simp only [after, map_append, reverse_append, append_assoc]

/-- The lexer takes tokens of these kinds, and every bracket among them is closed. -/
def Lexes (ks : List TokenKind) : Prop :=
  ∀ (fuel : Nat) (st : LexState) (rest : List Char), Ends rest →
    st.brackets.length + ks.length ≤ st.room →
    lexFrom (fuel + ks.length) false st (ks.flatMap spelling ++ rest) =
      lexFrom fuel false (st.after ks) rest

variable {ks ks' : List TokenKind}

lemma Lexes.append (h : Lexes ks) (h' : Lexes ks')
    (hends : ∀ rest, Ends (ks'.flatMap spelling ++ rest)) : Lexes (ks ++ ks') := by
  intro fuel st rest hrest hroom
  rw [length_append] at hroom
  have hrun := h (fuel + ks'.length) st _ (hends rest) (by omega)
  have hrun' := h' fuel (st.after ks) rest hrest (by simp only [LexState.after]; omega)
  rw [length_append, Nat.add_comm ks.length, ← Nat.add_assoc, flatMap_append, append_assoc, hrun,
    hrun', LexState.after_append]

lemma Lexes.cons {s : String} (h : Lexes ks)
    (hs : ∀ fuel st rest,
      lexFrom (fuel + 1) false st (spelling (.op s) ++ (ks.flatMap spelling ++ rest)) =
      lexFrom fuel false (st.add (.op s)) (ks.flatMap spelling ++ rest)) : Lexes (.op s :: ks) := by
  intro fuel st rest hrest hroom
  rw [length_cons] at hroom
  have hrun := h fuel (st.add (.op s)) rest hrest
    (by simp only [LexState.add, LexState.push]; omega)
  rw [flatMap_cons, append_assoc, length_cons, ← Nat.add_assoc, hs, hrun, ← singleton_append,
    LexState.after_append]
  rfl

lemma Lexes.comma (h : Lexes ks) : Lexes (.op "," :: ks) :=
  h.cons fun fuel _ _ => lexFrom_blank fuel _

lemma Lexes.bar (h : Lexes ks) : Lexes (.op "|" :: ks) :=
  h.cons fun fuel _ _ => lexFrom_blank fuel _

/-- The brackets that annotations are written with. -/
def pairs : List (Char × Char) := [('[', ']'), ('(', ')')]

lemma lexFrom_bracket (hp : p ∈ pairs) :
    (st.brackets.length < st.room → lexFrom (fuel + 1) false st (p.1 :: cs) =
      lexFrom fuel false { st.add (.op (String.singleton p.1)) with brackets :=
        p.1 :: st.brackets } cs) ∧
    ∀ brackets, st.brackets = p.1 :: brackets → lexFrom (fuel + 1) false st (p.2 :: cs) =
      lexFrom fuel false { st.add (.op (String.singleton p.2)) with brackets } cs := by
  simp only [pairs, mem_cons, not_mem_nil, or_false] at hp
  refine ⟨fun hroom => ?_, fun brackets h => ?_⟩
  · have htrack : trackBracket st.room p.1 st.brackets = some (p.1 :: st.brackets) := by
      obtain rfl | rfl := hp <;> exact if_neg (Nat.not_le_of_lt hroom)
    obtain rfl | rfl := hp <;>
    · refine lexFrom_of_lexToken rfl ?_
      change Option.bind (trackBracket _ _ _) _ = _
      rw [htrack]
      rfl
  · have htrack : trackBracket st.room p.2 st.brackets = some brackets := by
      rw [h]
      obtain rfl | rfl := hp <;> rfl
    obtain rfl | rfl := hp <;>
    · refine lexFrom_of_lexToken rfl ?_
      change Option.bind (trackBracket _ _ _) _ = _
      rw [htrack]
      rfl

lemma Lexes.enclosed (hp : p ∈ pairs) (h : Lexes ks) :
    Lexes (.op (String.singleton p.1) :: (ks ++ [.op (String.singleton p.2)])) := by
  intro fuel st rest hrest hroom
  rw [length_cons, length_append, length_singleton] at hroom ⊢
  let inner : LexState :=
    { st.add (.op (String.singleton p.1)) with brackets := p.1 :: st.brackets }
  obtain ⟨hends, hspell⟩ : (isWordChar p.2 = false ∧ p.2 ≠ '\'' ∧ p.2 ≠ '"') ∧
      spelling (.op (String.singleton p.1)) = [p.1] ∧ spelling (.op (String.singleton p.2)) =
        [p.2] := by
    simp only [pairs, mem_cons, not_mem_nil, or_false] at hp
    obtain rfl | rfl := hp <;> decide
  have hrun := h (fuel + 1) inner (p.2 :: rest) (fun _ hb => Option.some.inj hb ▸ hends) (by
    simp only [inner, LexState.add, LexState.push, length_cons]
    omega)
  have htext :
      (.op (String.singleton p.1) :: (ks ++ [.op (String.singleton p.2)])).flatMap spelling ++ rest =
        p.1 :: (ks.flatMap spelling ++ p.2 :: rest) := by
    simp [hspell]
  rw [htext, show fuel + (ks.length + 1 + 1) = fuel + 1 + ks.length + 1 by omega,
    (lexFrom_bracket hp).1 (by omega), hrun, (lexFrom_bracket hp).2 st.brackets rfl]
  simp [LexState.after, LexState.add, LexState.push, inner]

lemma lexes_name (h : wordKind i.text.toList = some (.ident i plain)) : Lexes [.ident i plain] := by
  intro fuel st rest hrest _
  have htoken := lexToken_word h st hrest
  obtain ⟨a, cs, htext, -, hword⟩ := i.chars
  have hne {b : Char} (hb : isWordChar b = false) : a ≠ b := by
    rintro rfl
    exact Bool.false_ne_true (hb.symm.trans (hword a mem_cons_self))
  have hlayout : (isInlineBlank a || a = '#' || a = '\n' || a = '\\') = false := by
    simp only [isInlineBlank, Bool.or_eq_false_iff, decide_eq_false_iff_not, and_assoc]
    exact ⟨hne rfl, hne rfl, hne rfl, hne rfl, hne rfl, hne rfl⟩
  simp only [flatMap_cons, flatMap_nil, append_nil, spelling]
  rw [htext] at htoken ⊢
  exact lexFrom_of_lexToken hlayout htoken

lemma lexes_attribute (h : wordKind i.text.toList = some (.ident i plain)) :
    Lexes [.op ".", .ident i plain] := by
  obtain ⟨a, cs, htext, hdigit, hword⟩ := i.chars
  have hdots : ('.' == a) = false := by
    refine beq_false_of_ne ?_
    rintro rfl
    exact absurd (hword '.' mem_cons_self) (by decide)
  refine (lexes_name h).cons fun fuel st rest => lexFrom_of_lexToken rfl ?_
  have hsymbol : symbol? ('.' :: a :: (cs ++ rest)) = some "." := by
    simp [symbol?, symbols, isPrefixOf, hdots]
  simp only [flatMap_cons, flatMap_nil, append_nil, spelling, htext]
  change lexToken st ('.' :: a :: (cs ++ rest)) = _
  rw [lexToken, if_neg (by simp [hdigit]), if_neg (by decide), hsymbol]
  rfl

lemma ends_op {s : String} (hs : spelling (.op s) = a :: cs)
    (ha : isWordChar a = false ∧ a ≠ '\'' ∧ a ≠ '"')
    (ks : List TokenKind) (rest : List Char) : Ends ((.op s :: ks).flatMap spelling ++ rest) := by
  intro b hb
  rw [flatMap_cons, hs] at hb
  cases hb
  exact ha

open Grammar in
lemma Lexes.items (h : Lexes ks) {more : List (List TokenKind × Expr)}
    (hmore : ∀ p ∈ more, Lexes p.1) : Lexes (ks ++ moreTokens more) := by
  induction more generalizing ks with
  | nil => rwa [moreTokens, flatMap_nil, append_nil]
  | cons p more ih =>
    obtain ⟨hp, hmore⟩ := forall_mem_cons.mp hmore
    exact h.append (ih hp hmore).comma (ends_op rfl (by decide) _)

/-- What is spelled is read as its tokens. -/
lemma Spells.lexes (h : Spells tight ks e) : Lexes ks := by
  induction h with
  | name i h => exact lexes_name h
  | dot _ i h ih => exact ih.append (lexes_attribute h) (ends_op rfl (by decide) _)
  | index _ _ ih ihs =>
    obtain ⟨hfirst, hmore⟩ := forall_mem_cons.mp ihs
    exact ih.append ((hfirst.items hmore).enclosed (p := ('[', ']')) (by decide))
      (ends_op rfl (by decide) _)
  | round _ ih => exact ih.enclosed (p := ('(', ')')) (by decide)
  | loose _ ih => exact ih
  | union _ _ ih ih' => exact ih.append ih'.bar (ends_op rfl (by decide) _)

/-! ### Texts -/

lemma IsLexeme.length_pos (h : IsLexeme k) : 0 < (spelling k).length := by
  obtain ⟨i, plain, rfl⟩ | ⟨s, hs, rfl⟩ := h
  · obtain ⟨a, cs, htext, -⟩ := i.chars
    rw [spelling, htext]
    exact Nat.succ_pos _
  · exact (by decide : ∀ s ∈ ["(", ")", "[", "]", ",", ".", "|"],
      0 < (spelling (.op s)).length) s hs

lemma IsLexeme.notMem (h : IsLexeme k) (ha : isWordChar a = false)
    (hsign : a ∉ ['(', ')', '[', ']', ',', '.', '|', ' ']) : a ∉ spelling k := by
  intro hmem
  obtain ⟨i, plain, rfl⟩ | ⟨s, hs, rfl⟩ := h
  · obtain ⟨b, cs, htext, -, hword⟩ := i.chars
    rw [spelling, htext] at hmem
    exact Bool.false_ne_true (ha.symm.trans (hword a hmem))
  · have hall : (["(", ")", "[", "]", ",", ".", "|"].all fun s =>
        (spelling (.op s)).all (['(', ')', '[', ']', ',', '.', '|', ' '].contains ·)) = true :=
          by decide
    exact hsign (contains_iff_mem.mp (all_eq_true.mp (all_eq_true.mp hall s hs) a hmem))

lemma length_le_spelled (h : ∀ k ∈ ks, IsLexeme k) : ks.length ≤ (ks.flatMap spelling).length := by
  induction ks with
  | nil => exact Nat.le_refl 0
  | cons k ks ih =>
    obtain ⟨hk, hks⟩ := forall_mem_cons.mp h
    have := hk.length_pos
    have := ih hks
    rw [flatMap_cons, length_append, length_cons]
    omega

lemma Spells.notMem_spelled (h : Spells tight ks e) (ha : isWordChar a = false)
    (hsign : a ∉ ['(', ')', '[', ']', ',', '.', '|', ' ']) : a ∉ ks.flatMap spelling := by
  intro hmem
  obtain ⟨k, hk, hmem⟩ := mem_flatMap.mp hmem
  exact (h.forall_isLexeme k hk).notMem ha hsign hmem

lemma Spells.head_spelled (h : Spells tight ks e) :
    ∃ a cs, ks.flatMap spelling = a :: cs ∧ (a = '(' ∨ isWordChar a = true) := by
  obtain ⟨k, ks, rfl, rfl | ⟨i, plain, rfl⟩⟩ := h.begins
  · exact ⟨'(', _, rfl, .inl rfl⟩
  · obtain ⟨a, cs, htext, -, hword⟩ := i.chars
    rw [flatMap_cons, spelling, htext]
    exact ⟨a, _, rfl, .inr (hword a mem_cons_self)⟩

lemma measureIndent_of_ne (h : a ≠ ' ' ∧ a ≠ '\t' ∧ a ≠ '\x0c' ∧ a ≠ '\\') :
    measureIndent 0 0 0 1 (a :: cs) = some (0, 0, 1, a :: cs) := by
  unfold measureIndent
  split
  · exact absurd (List.cons.inj ‹_›).1 h.1
  · exact absurd (List.cons.inj ‹_›).1 h.2.1
  · exact absurd (List.cons.inj ‹_›).1 h.2.2.1
  · exact absurd (List.cons.inj ‹_›).1 h.2.2.2
  · exact absurd (List.cons.inj ‹_›).1 h.2.2.2
  · rfl

lemma lexFrom_start (ha : a = '(' ∨ isWordChar a = true) (cs : List Char) (fuel room : Nat) :
    lexFrom (fuel + 1) true { room } (a :: cs) = lexFrom fuel false { room } (a :: cs) := by
  have hne {b : Char} (hb : b ≠ '(' ∧ isWordChar b = false) : a ≠ b := by
    rintro rfl
    exact ha.elim hb.1 fun h => Bool.false_ne_true (hb.2.symm.trans h)
  rw [lexFrom, measureIndent_of_ne ⟨hne (by decide), hne (by decide), hne (by decide),
    hne (by decide)⟩]
  simp only [Option.bind_eq_bind, Option.bind_some]
  split
  · exact absurd (List.cons.inj ‹_›).1 (hne (by decide))
  · exact absurd (List.cons.inj ‹_›).1 (hne (by decide))
  · rfl

lemma Spells.tokensWithin?_eq (h : Spells tight ks e) {room : Nat} (hroom : ks.length ≤ room) :
    tokensWithin? room (ks.flatMap spelling) = some ((ks ++ [TokenKind.stop]).map (⟨·, 1, 1⟩)) := by
  have hlength := length_le_spelled h.forall_isLexeme
  -- Every token takes one step; beginning the line and ending the text are two more.
  obtain ⟨spare, hspare⟩ : ∃ spare, 2 * (ks.flatMap spelling).length + 1 = spare + 1 + ks.length :=
    ⟨2 * (ks.flatMap spelling).length - ks.length, by omega⟩
  have hrun := h.lexes (spare + 1) { room } [] nofun (by simpa using hroom)
  obtain ⟨a, cs, hhead, ha⟩ := h.head_spelled
  rw [tokensWithin?, if_neg (by simpa using h.notMem_spelled (by decide) (by decide)), hhead,
    lexFrom_start ha, ← hhead, hspare]
  rw [append_nil] at hrun
  refine hrun.trans ?_
  simp [lexFrom, LexState.after, LexState.add, LexState.push]

/-- **A text reads as an expression,** if as many brackets may be open and expressions may be nested
as deep as it has characters. -/
def ReadsAs (text : String) (e : Expr) : Prop :=
  ∀ room depth, text.length ≤ room → text.length < depth →
    expressionWithin? room (Grammar.levels depth) text.toList = some e

lemma ReadsAs.unique {text : String} {e' : Expr} (h : ReadsAs text e) (h' : ReadsAs text e') :
    e = e' := by
  have hread := h _ _ (Nat.le_refl _) (Nat.lt_succ_self _)
  rwa [h' _ _ (Nat.le_refl _) (Nat.lt_succ_self _), Option.some_inj, eq_comm] at hread

def spelled (ks : List TokenKind) : String := String.ofList (ks.flatMap spelling)

lemma spelled_append (ks ks' : List TokenKind) :
    spelled (ks ++ ks') = spelled ks ++ spelled ks' := by
  rw [spelled, flatMap_append, String.ofList_append, spelled, spelled]

open Reader Grammar in
/-- Text that spells an expression reads as it. -/
lemma Spells.readsAs (h : Spells tight ks e) : ReadsAs (spelled ks) e := by
  intro room depth hroom hdepth
  have htext : (spelled ks).toList = ks.flatMap spelling := String.toList_ofList
  have hlength := length_le_spelled h.forall_isLexeme
  rw [← htext, String.length_toList] at hlength
  have hreturn : '\r' ∉ (spelled ks).toList := htext ▸ h.notMem_spelled (by decide) (by decide)
  obtain ⟨depth, rfl⟩ := Nat.exists_eq_add_one_of_ne_zero (Nat.ne_zero_of_lt hdepth)
  obtain ⟨n, hn, hstart⟩ : ∃ n, (ks ++ [TokenKind.stop]).length < n ∧
      Cursor.start ((ks ++ [TokenKind.stop]).map (⟨·, 1, 1⟩)) = ahead n (ks ++ [.stop]) :=
    ⟨((ks ++ [TokenKind.stop]).map _).length + 1, by rw [length_map]; exact Nat.lt_succ_self _, rfl⟩
  have hrun : (levels (depth + 1)).expression (ahead n (ks ++ [.stop])) =
      some (e, ahead n [.stop]) :=
    (h.parses (by omega : ks.length ≤ depth)).2.expression h.begins n .stop []
      (.inr (.inr (.inr rfl))) hn
  have hmany : many (attempt (do op ","; (levels (depth + 1)).expression)) (ahead n [.stop]) =
      some ([], ahead n [.stop]) := many_none (by simp)
  rw [expressionWithin?, Text.unifyNewlines_of_notMem hreturn, htext,
    h.tokensWithin?_eq (Nat.le_trans hlength hroom)]
  simp only [Option.bind_eq_bind, Option.bind_some, hstart, bind_apply, commas, hrun, hmany]
  rfl

end CodeAtlas.Syntax
