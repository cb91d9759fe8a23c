import CodeAtlas.Syntax.Token.Lexer
import Mathlib.Data.List.TakeWhile

/-!
# Literals and comments in a source text

A source text falls into pieces: string literals, comments and single characters. The lexer agrees
with this on the texts that it accepts (`literalLines_of_tokens?`).
-/

namespace CodeAtlas.Syntax

open List Option Bool Prod Nat

variable {c : Char} {cs rest : List Char} {body text w : List Char} {isDigit p : Char → Bool}
  {v : Constant} {d : DecimalLiteral} {alt column : Nat} {st st' : LexState} {toks : List Token}
  {done : List Token} {line : Nat}

/-! ### Literals -/

def isQuote (c : Char) : Bool := c = '\'' || c = '"'

lemma scanString_eq {quote : Char} {triple : Bool} {back : List Char}
    (h : scanString quote triple back cs = some (body, rest)) :
    ∃ inner, body = back.reverse ++ inner ∧
      cs = inner ++ ((if triple then [quote, quote, quote] else [quote]) ++ rest) := by
  fun_induction scanString quote triple back cs with
  | case1 back => simp at h
  | case2 back c cs ih =>
    obtain ⟨inner, rfl, rfl⟩ := ih h
    exact ⟨'\\' :: c :: inner, by simp, rfl⟩
  | case3 back c cs _ after hafter =>
    obtain ⟨rfl, rfl⟩ := Prod.mk.inj (Option.some.inj h)
    obtain ⟨hfence, hdrop⟩ := Option.ite_none_right_eq_some.mp hafter
    obtain ⟨rest, hrest⟩ := isPrefixOf_iff_prefix.mp hfence
    rw [← hrest, drop_left, Option.some.injEq] at hdrop
    exact ⟨[], by simp, by rw [← hdrop, nil_append, hrest]⟩
  | case4 => simp at h
  | case5 back c cs _ _ _ ih =>
    obtain ⟨inner, rfl, rfl⟩ := ih h
    exact ⟨c :: inner, by simp, rfl⟩

lemma readStringBody_eq (h : readStringBody (c :: cs) = some (body, rest)) :
    ∃ fence, (fence = [] ∨ fence = [c, c]) ∧ c :: cs = (c :: fence ++ body ++ fence ++ [c]) ++
      rest := by
  unfold readStringBody at h
  split at h
  · next a x y cs heq =>
    obtain ⟨rfl, rfl⟩ := List.cons.inj heq
    split at h
    · next hsame =>
      obtain ⟨rfl, rfl⟩ := hsame
      obtain ⟨inner, rfl, rfl⟩ := scanString_eq h
      exact ⟨[c, c], .inr rfl, by simp⟩
    · obtain ⟨inner, rfl, hcs⟩ := scanString_eq h
      exact ⟨[], .inl rfl, by simp [hcs]⟩
  · next a cs _ heq =>
    obtain ⟨rfl, rfl⟩ := List.cons.inj heq
    obtain ⟨inner, rfl, rfl⟩ := scanString_eq h
    exact ⟨[], .inl rfl, by simp⟩
  · next heq => cases heq

/-! ### Pieces -/

inductive Piece where
  /-- A character outside of literals and comments. -/
  | char (c : Char)
  /-- A string literal with its quotes. -/
  | literal (text : List Char)
  /-- A comment from its hash on. -/
  | comment (text : List Char)
deriving DecidableEq, Repr

/-- The literal at the head of a text, and what follows it. -/
def literal? : List Char → Option (List Char × List Char)
  | [] => none
  | c :: cs =>
    if isQuote c then
      (readStringBody (c :: cs)).map fun r => ((c :: cs).take (cs.length + 1 - r.2.length), r.2)
    else none

/-- The pieces of a text; the first argument bounds their number. -/
def piecesFrom : Nat → List Char → List Piece
  | 0, _ => []
  | _ + 1, [] => []
  | bound + 1, c :: cs =>
    if c = '#' then .comment (c :: cs.takeWhile (· != '\n')) :: piecesFrom bound (dropComment cs)
    else
      match literal? (c :: cs) with
      | some (text, rest) => .literal text :: piecesFrom bound rest
      | none => .char c :: piecesFrom bound cs

/-- The pieces of a text. A quote that opens no literal is a character like any other. -/
def pieces (cs : List Char) : List Piece := piecesFrom cs.length cs

lemma literal?_eq (h : literal? (c :: cs) = some (text, rest)) :
    isQuote c = true ∧ c :: cs = text ++ rest ∧ (∃ inner, text = c :: inner ++ [c]) ∧
      ∃ body, readStringBody (c :: cs) = some (body, rest) ∧ text.count '\n' = body.count '\n' := by
  unfold literal? at h
  obtain ⟨hquote, h⟩ := Option.ite_none_right_eq_some.mp h
  obtain ⟨⟨body, after⟩, hread, heq⟩ := Option.map_eq_some_iff.mp h
  obtain ⟨htext, rfl⟩ := Prod.mk.inj heq
  obtain ⟨fence, hfence, hcs⟩ := readStringBody_eq hread
  have hlength : cs.length + 1 - after.length = (c :: fence ++ body ++ fence ++ [c]).length := by
    have := congrArg List.length hcs
    rw [length_append, length_cons] at this
    omega
  rw [hlength, hcs, take_left] at htext
  subst htext
  have hne : c ≠ '\n' := by
    rintro rfl
    exact absurd hquote (by decide)
  refine ⟨hquote, hcs, ⟨fence ++ body ++ fence, by simp⟩, body, hread, ?_⟩
  rcases hfence with rfl | rfl <;> simp [hne]

lemma literal?_of_readStringBody (hquote : isQuote c = true)
    (h : readStringBody (c :: cs) = some (body, rest)) :
    ∃ text, literal? (c :: cs) = some (text, rest) ∧ text.count '\n' = body.count '\n' := by
  have hliteral : ∃ text, literal? (c :: cs) = some (text, rest) := by
    rw [literal?, if_pos hquote, h]
    exact ⟨_, rfl⟩
  obtain ⟨text, htext⟩ := hliteral
  obtain ⟨-, -, -, body', hread, hcount⟩ := literal?_eq htext
  obtain ⟨rfl, -⟩ := Prod.mk.inj (Option.some.inj (hread.symm.trans h))
  exact ⟨text, htext, hcount⟩

lemma length_lt_of_literal? (h : literal? (c :: cs) = some (text, rest)) :
    rest.length < cs.length + 1 := by
  obtain ⟨-, hcs, ⟨inner, rfl⟩, -⟩ := literal?_eq h
  have hlength := congrArg List.length hcs
  simp only [length_append, length_cons, length_nil] at hlength
  omega

lemma length_dropComment_le (cs : List Char) : (dropComment cs).length ≤ cs.length :=
  (dropWhile_sublist _).length_le

/-- The bound does not matter if it covers the text. -/
lemma piecesFrom_of_le {bound : Nat} (h : cs.length ≤ bound) : piecesFrom bound cs = pieces cs := by
  induction bound using Nat.strongRecOn generalizing cs with
  | ind bound ih =>
    rcases cs with _ | ⟨c, cs⟩
    · cases bound <;> rfl
    obtain ⟨bound, rfl⟩ : ∃ b, bound = b + 1 := exists_eq_add_one.mpr (by simp at h; omega)
    -- both sides go on with what is left, which is shorter than either bound
    have hrest : ∀ rest : List Char, rest.length < cs.length + 1 →
        piecesFrom bound rest = piecesFrom cs.length rest := by
      intro rest hlt
      simp only [length_cons] at h
      rw [ih bound (by omega) (by omega)]
      by_cases hcs : cs.length = bound
      · rw [hcs, ih bound (by omega) (by omega)]
      · rw [ih cs.length (by omega) (by omega)]
    unfold pieces
    simp only [length_cons, piecesFrom]
    split
    · rw [hrest _ (lt_succ_of_le (length_dropComment_le cs))]
    · split
      · next htext => rw [hrest _ (length_lt_of_literal? htext)]
      · rw [hrest _ (lt_succ_self _)]

@[simp] lemma pieces_nil : pieces [] = [] := rfl

lemma pieces_comment : pieces ('#' :: cs) = .comment ('#' :: cs.takeWhile (· != '\n')) ::
    pieces (dropComment cs) := by
  rw [← piecesFrom_of_le (length_dropComment_le cs)]
  rfl

lemma pieces_literal (h : literal? (c :: cs) = some (text, rest)) :
    pieces (c :: cs) = .literal text :: pieces rest := by
  have hc : c ≠ '#' := by
    rintro rfl
    exact absurd (literal?_eq h).1 (by decide)
  have hrest := piecesFrom_of_le (le_of_lt_succ (length_lt_of_literal? h))
  rw [← hrest, pieces, length_cons, piecesFrom, if_neg hc, h]

lemma pieces_char (hc : c ≠ '#') (h : literal? (c :: cs) = none) :
    pieces (c :: cs) = .char c :: pieces cs := by
  rw [pieces, length_cons, piecesFrom, if_neg hc, h]
  rfl

@[elab_as_elim]
lemma pieces_induction {P : List Char → Prop} (nil : P [])
    (comment : ∀ cs, P (dropComment cs) → P ('#' :: cs))
    (literal : ∀ c cs text rest, literal? (c :: cs) = some (text, rest) → P rest → P (c :: cs))
    (char : ∀ c cs, c ≠ '#' → literal? (c :: cs) = none → P cs → P (c :: cs)) (cs : List Char) :
    P cs := by
  induction hn : cs.length using Nat.strongRecOn generalizing cs with
  | ind n ih =>
    rcases cs with _ | ⟨c, cs⟩
    · exact nil
    rw [length_cons] at hn
    by_cases hc : c = '#'
    · subst hc
      have hle := length_dropComment_le cs
      exact comment cs (ih _ (by omega) _ rfl)
    · rcases h : literal? (c :: cs) with _ | ⟨text, rest⟩
      · exact char c cs hc h (ih _ (by omega) _ rfl)
      · have hlt := length_lt_of_literal? h
        exact literal c cs text rest h (ih _ (by omega) _ rfl)

example : pieces "a '#' # b".toList =
    [.char 'a', .char ' ', .literal "'#'".toList, .char ' ', .comment "# b".toList] :=
  by decide +kernel

/-! ### Lines of literals -/

/-- The first and last lines of the literals among pieces, the first of which begins on line `n`. -/
def literalLinesFrom (n : Nat) : List Piece → List (Nat × Nat)
  | [] => []
  | .literal text :: ps => (n, n + text.count '\n') :: literalLinesFrom (n + text.count '\n') ps
  | .comment _ :: ps => literalLinesFrom n ps
  | .char c :: ps => literalLinesFrom (n + [c].count '\n') ps

/-- The first and last lines of the literals of a text. -/
def literalLines (cs : List Char) : List (Nat × Nat) := literalLinesFrom 1 (pieces cs)

/-- The first and the last line of a string token. -/
def Token.literalLines? (t : Token) : Option (Nat × Nat) :=
  match t.kind with
  | .string .. => some (t.line, t.endLine)
  | _ => none

/-! ### What the lexer passes -/

/-- Whether a character neither opens a literal or a comment nor ends a line. -/
def isPlain (c : Char) : Bool := !isQuote c && c != '#' && c != '\n'

lemma isPlain_of (hp : ['\'', '"', '#', '\n'].all (!p ·) = true) (hc : p c = true) :
    isPlain c = true := by
  simp only [all_cons, all_nil, Bool.and_true, Bool.and_eq_true, Bool.not_eq_true'] at hp
  obtain ⟨hsingle, hdouble, hhash, hfeed⟩ := hp
  have hne : ∀ {d : Char}, p d = false → c ≠ d := by
    rintro d hd rfl
    simp [hd] at hc
  simp [isPlain, isQuote, hne hsingle, hne hdouble, hne hhash, hne hfeed]

/-- From `cs` to `rest` there are `n` line feeds, but no quotes and no hashes. -/
def Passes (n : Nat) (cs rest : List Char) : Prop :=
  ∃ w, cs = w ++ rest ∧ (∀ c ∈ w, isQuote c = false ∧ c ≠ '#') ∧ w.count '\n' = n

namespace Passes

variable {n : Nat} {c : Char} {cs rest rest' : List Char}

lemma refl (cs : List Char) : Passes 0 cs cs := ⟨[], rfl, by simp, rfl⟩

lemma of_some_eq {α : Type} {a b : α} (h : some (a, cs) = some (b, rest)) : Passes 0 cs rest := by
  obtain ⟨-, rfl⟩ := mk.inj (some.inj h)
  exact refl cs

lemma cons (hc : isPlain c = true) (h : Passes n cs rest) : Passes n (c :: cs) rest := by
  obtain ⟨w, rfl, hw, rfl⟩ := h
  simp only [isPlain, and_eq_true, not_eq_true', bne_iff_ne] at hc
  exact ⟨c :: w, rfl, forall_mem_cons.mpr ⟨hc.1, hw⟩, count_cons_of_ne hc.2⟩

lemma newline (h : Passes n cs rest) : Passes (n + 1) ('\n' :: cs) rest := by
  obtain ⟨w, rfl, hw, rfl⟩ := h
  exact ⟨'\n' :: w, rfl, forall_mem_cons.mpr ⟨by decide, hw⟩, count_cons_self⟩

lemma append (hw : ∀ c ∈ w, isPlain c = true) (h : Passes n cs rest) : Passes n (w ++ cs) rest := by
  induction w with
  | nil => exact h
  | cons c w ih => exact (ih fun d hd => hw d (mem_cons_of_mem _ hd)).cons (hw c mem_cons_self)

lemma dropWhile (hp : ∀ c, p c = true → isPlain c = true) (cs : List Char) :
    Passes 0 cs (cs.dropWhile p) := by
  have h : Passes 0 (cs.takeWhile p ++ cs.dropWhile p) (cs.dropWhile p) :=
    append (fun c hc => hp c (mem_takeWhile_imp hc)) (refl _)
  rwa [takeWhile_append_dropWhile] at h

lemma trans (h : Passes 0 cs rest) (h' : Passes n rest rest') : Passes n cs rest' := by
  obtain ⟨w, rfl, hw, hcount⟩ := h
  refine append (fun c hc => ?_) h'
  have hfeed : c ≠ '\n' := fun heq => count_eq_zero.mp hcount (heq ▸ hc)
  simp [isPlain, hw c hc, hfeed]

end Passes

lemma passes_digitTail (hdigit : ∀ c, isDigit c = true → isPlain c = true) {ds : List Char}
    (h : digitTail isDigit cs = some (ds, rest)) : Passes 0 cs rest := by
  fun_induction digitTail isDigit cs generalizing ds with
  | case1 => exact .of_some_eq h
  | case2 => simp at h
  | case3 d more hd ih =>
    obtain ⟨⟨ds', r⟩, hmore, heq⟩ := map_eq_some_iff.mp h
    obtain ⟨-, rfl⟩ := mk.inj heq
    exact ((ih hmore).cons (hdigit d hd)).cons (by decide)
  | case4 => simp at h
  | case5 c more _ hc ih =>
    obtain ⟨⟨ds', r⟩, hmore, heq⟩ := map_eq_some_iff.mp h
    obtain ⟨-, rfl⟩ := mk.inj heq
    exact (ih hmore).cons (hdigit c hc)
  | case6 => exact .of_some_eq h

lemma isPlain_of_isDigit (c : Char) (h : c.isDigit = true) : isPlain c = true :=
  isPlain_of (by decide) h

lemma passes_basedNumber {base : Nat} (hdigit : ['\'', '"', '#', '\n'].all (!isDigit ·) = true)
     (h : basedNumber base isDigit cs = some (v, rest)) : Passes 0 cs rest := by
  have hdigits : ∀ {cs}, basedDigits base isDigit cs = some (v, rest) → Passes 0 cs rest := by
    intro cs h
    obtain ⟨-, h⟩ := ite_none_right_eq_some.mp h
    obtain ⟨⟨ds, after⟩, hread, h⟩ := bind_eq_some_iff.mp h
    obtain ⟨-, h⟩ := ite_none_left_eq_some.mp h
    exact (passes_digitTail (fun _ => isPlain_of hdigit) hread).trans (.of_some_eq h)
  unfold basedNumber at h
  split at h
  · exact (hdigits h).cons (by decide)
  · exact hdigits h

lemma passes_fractionPart {whole : List Char} (h : fractionPart whole cs = some (d, rest)) :
    Passes 0 cs rest := by
  unfold fractionPart at h
  split at h
  · refine Passes.cons (by decide) ?_
    split at h
    · split at h
      · obtain ⟨⟨ds, after⟩, hread, h⟩ := bind_eq_some_iff.mp h
        exact (passes_digitTail isPlain_of_isDigit hread).trans (.of_some_eq h)
      · exact .of_some_eq h
    · exact .of_some_eq h
  · exact .of_some_eq h

lemma passes_exponentPart {d' : DecimalLiteral} (h : exponentPart d cs = some (d', rest)) :
    Passes 0 cs rest := by
  have htail : ∀ {neg cs}, exponentTail d neg cs = some (d', rest) → Passes 0 cs rest := by
    intro neg cs h
    obtain ⟨-, h⟩ := ite_none_right_eq_some.mp h
    obtain ⟨⟨ds, after⟩, hread, h⟩ := bind_eq_some_iff.mp h
    exact (passes_digitTail isPlain_of_isDigit hread).trans (.of_some_eq h)
  unfold exponentPart at h
  split at h
  · split at h
    · next c _ hc =>
      have hplain : isPlain c = true := isPlain_of (p := fun c => c = 'e' || c = 'E') (by decide) hc
      split at h
      · exact ((htail h).cons (by decide)).cons hplain
      · exact ((htail h).cons (by decide)).cons hplain
      · split at h
        · exact (htail h).cons hplain
        · exact .of_some_eq (ite_none_right_eq_some.mp h).2
    · exact .of_some_eq h
  · exact .of_some_eq h

lemma passes_decimalEnd (h : decimalEnd d cs = some (v, rest)) : Passes 0 cs rest := by
  unfold decimalEnd at h
  split at h
  · next hj =>
    have htail : Passes 0 cs.tail rest := .of_some_eq (ite_none_right_eq_some.mp h).2
    rcases cs with _ | ⟨c, cs⟩
    · exact htail
    · exact htail.cons (isPlain_of (p := fun c => c = 'j' || c = 'J') (by decide) hj)
  · obtain ⟨-, h⟩ := ite_none_right_eq_some.mp h
    obtain ⟨c, -, heq⟩ := map_eq_some_iff.mp h
    exact .of_some_eq (congrArg some heq)

lemma passes_decimalNumber (h : decimalNumber cs = some (v, rest)) : Passes 0 cs rest := by
  obtain ⟨⟨whole, r1⟩, hwhole, h⟩ := bind_eq_some_iff.mp h
  obtain ⟨⟨d2, r2⟩, hfraction, h⟩ := bind_eq_some_iff.mp h
  obtain ⟨⟨d3, r3⟩, hexponent, h⟩ := bind_eq_some_iff.mp h
  have hfirst : Passes 0 cs r1 := by
    unfold wholePart at hwhole
    split at hwhole
    · exact .of_some_eq hwhole
    · exact passes_digitTail isPlain_of_isDigit hwhole
  exact hfirst.trans ((passes_fractionPart hfraction).trans
    ((passes_exponentPart hexponent).trans (passes_decimalEnd h)))

lemma passes_readNumber (h : readNumber cs = some (v, rest)) : Passes 0 cs rest := by
  unfold readNumber at h
  split at h
  · next c cs =>
    have hmark : ∀ a b :
        Char, isPlain a = true → isPlain b = true → (decide (c = a) || decide (c = b)) = true →
          isPlain c = true := by
      intro a b ha hb hc
      rcases or_eq_true_iff.mp hc with hc | hc <;> rwa [of_decide_eq_true hc]
    split at h
    · next hc => exact ((passes_basedNumber (by decide) h).cons
        (hmark _ _ (by decide) (by decide) hc)).cons (by decide)
    · split at h
      · next hc => exact ((passes_basedNumber (by decide) h).cons
          (hmark _ _ (by decide) (by decide) hc)).cons (by decide)
      · split at h
        · next hc =>
          exact ((passes_basedNumber (by decide) h).cons
            (hmark _ _ (by decide) (by decide) hc)).cons (by decide)
        · exact passes_decimalNumber h
  · exact passes_decimalNumber h

lemma passes_measureIndent {joined line : Nat} {r : Nat × Nat × Nat × List Char}
    (h : measureIndent column alt joined line cs = some r) :
    ∃ n, Passes n cs r.2.2.2 ∧ r.2.2.1 = line + n := by
  fun_induction measureIndent column alt joined line cs with
  | case1 column alt joined line cs ih | case2 column alt joined line cs ih
  | case3 column alt joined line cs ih =>
    obtain ⟨n, hpass, hline⟩ := ih h
    exact ⟨n, hpass.cons (by decide), hline⟩
  | case4 => simp at h
  | case5 column alt joined line cs _ ih =>
    obtain ⟨n, hpass, hline⟩ := ih h
    exact ⟨n + 1, hpass.newline.cons (by decide), by omega⟩
  | case6 => simp at h
  | case7 | case8 =>
    cases h
    exact ⟨0, .refl _, rfl⟩

lemma passes_symbol? {s : String} (h : symbol? cs = some s) : Passes 0 cs (cs.drop s.length) := by
  have hplain : symbols.all (fun s => s.toList.all isPlain) = true := by decide +kernel
  have hs := all_eq_true.mp (all_eq_true.mp hplain s (mem_of_find?_eq_some h))
  have hhead : s.toList.isPrefixOf cs = true :=
    find?_some (p := fun s : String => s.toList.isPrefixOf cs) h
  obtain ⟨rest, rfl⟩ := isPrefixOf_iff_prefix.mp hhead
  rw [← String.length_toList, drop_left]
  exact .append hs (.refl rest)

/-! ### What is read and what is ahead -/

/-- The lines of the literals among the tokens that were read, last first, and of those in the text
ahead. -/
def outlook (done : List Token) (line : Nat) (cs : List Char) : List (Nat × Nat) :=
  done.reverse.filterMap Token.literalLines? ++ literalLinesFrom line (pieces cs)

lemma outlook_cons {t : Token} (h : t.literalLines? = none) :
    outlook (t :: done) line cs = outlook done line cs := by
  simp [outlook, h]

lemma outlook_passes {n : Nat} (h : Passes n cs rest) (line : Nat) :
    outlook done line cs = outlook done (line + n) rest := by
  obtain ⟨w, rfl, hw, rfl⟩ := h
  induction w generalizing line with
  | nil => rfl
  | cons c w ih =>
    obtain ⟨hc, hw⟩ := forall_mem_cons.mp hw
    have hnone : literal? (c :: (w ++ rest)) = none := by simp [literal?, hc.1]
    have hstep : outlook done line (c :: w ++ rest) =
        outlook done (line + [c].count '\n') (w ++ rest) := by
      rw [cons_append, outlook, pieces_char hc.2 hnone]
      rfl
    rw [hstep, ih _ hw, Nat.add_assoc, ← count_append, singleton_append]

lemma outlook_comment (done : List Token) (line : Nat) :
    outlook done line ('#' :: cs) = outlook done line (dropComment cs) := by
  rw [outlook, pieces_comment]
  rfl

lemma outlook_literal (hquote : isQuote c = true)
    (h : readStringBody (c :: cs) = some (body, rest)) (mark : List Char) :
    outlook (⟨.string mark body, line, line + body.count '\n'⟩ :: done)
      (line + body.count '\n') rest = outlook done line (c :: cs) := by
  obtain ⟨text, htext, hcount⟩ := literal?_of_readStringBody hquote h
  simp [outlook, pieces_literal htext, literalLinesFrom, Token.literalLines?, hcount]

lemma outlook_closeIndents {indents : List (Nat × Nat)}
    (h : closeIndents column alt st indents = some st')
    : outlook st'.done st'.line cs = outlook st.done st.line cs := by
  fun_induction closeIndents column alt st indents with
  | case1 => simp at h
  | case2 st c a rest _ ih => exact (ih h).trans (outlook_cons rfl ..)
  | case3 st c a rest =>
    cases h
    rfl
  | case4 => simp at h

lemma outlook_applyIndent (h : applyIndent column alt st = some st') :
    outlook st'.done st'.line cs = outlook st.done st.line cs := by
  unfold applyIndent at h
  split at h
  · simp at h
  · split at h
    · cases (ite_none_right_eq_some.mp h).2
      rfl
    · split at h
      · cases (ite_none_left_eq_some.mp h).2
        exact outlook_cons rfl ..
      · exact outlook_closeIndents h

lemma literalLines?_of_wordKind {kind : TokenKind} (h : wordKind w = some kind)
    (line endLine : Nat) : Token.literalLines? ⟨kind, line, endLine⟩ = none := by
  simp only [wordKind] at h
  split at h
  · rw [← some.inj h]
    rfl
  · split at h
    · obtain ⟨i, -, rfl⟩ := map_eq_some_iff.mp h
      rfl
    · obtain ⟨i, -, rfl⟩ := map_eq_some_iff.mp (ite_none_right_eq_some.mp h).2
      rfl

lemma outlook_lexToken (h : lexToken st cs = some (st', rest)) :
    outlook st'.done st'.line rest = outlook st.done st.line cs := by
  unfold lexToken at h
  split at h
  · simp at h
  next c cs =>
  split at h
  · obtain ⟨⟨v, after⟩, hread, h⟩ := bind_eq_some_iff.mp h
    obtain ⟨rfl, rfl⟩ := mk.inj (some.inj h)
    rw [outlook_passes (passes_readNumber hread)]
    exact outlook_cons rfl ..
  split at h
  · have hword := Passes.dropWhile (p := isWordChar) (fun _ => isPlain_of (by decide)) (c :: cs)
    rw [outlook_passes hword]
    simp only at h
    generalize (c :: cs).dropWhile isWordChar = after at h
    split at h
    · next hmark =>
      obtain ⟨-, hquote⟩ := and_eq_true_iff.mp hmark
      obtain ⟨⟨body, after'⟩, hread, h⟩ := bind_eq_some_iff.mp h
      obtain ⟨rfl, rfl⟩ := mk.inj (some.inj h)
      rcases after with _ | ⟨q, after⟩
      · simp at hquote
      · exact outlook_literal hquote hread ..
    · obtain ⟨kind, hkind, h⟩ := bind_eq_some_iff.mp h
      obtain ⟨rfl, rfl⟩ := mk.inj (some.inj h)
      exact outlook_cons (literalLines?_of_wordKind hkind ..) ..
  · obtain ⟨s, hs, h⟩ := bind_eq_some_iff.mp h
    obtain ⟨brackets, -, h⟩ := bind_eq_some_iff.mp h
    obtain ⟨rfl, rfl⟩ := mk.inj (some.inj h)
    rw [outlook_passes (passes_symbol? hs)]
    exact outlook_cons rfl ..

lemma eq_newline_of_dropComment (h : dropComment cs = c :: rest) : c = '\n' := by
  have hhead := head?_dropWhile_not (· != '\n') cs
  rw [dropComment] at h
  rw [h] at hhead
  simpa using hhead

lemma literalLines_of_lexFrom {fuel : Nat} {atStart : Bool}
    (h : lexFrom fuel atStart st cs = some toks) :
    toks.filterMap Token.literalLines? = outlook st.done st.line cs := by
  induction fuel generalizing atStart st cs with
  | zero => simp [lexFrom] at h
  | succ fuel ih =>
    cases atStart with
    | true =>
      rw [lexFrom] at h
      obtain ⟨⟨column, alt, line, rest⟩, hindent, h⟩ := bind_eq_some_iff.mp h
      obtain ⟨n, hpass, rfl⟩ := passes_measureIndent hindent
      rw [outlook_passes hpass]
      simp only at h ⊢
      split at h
      · rw [outlook_passes (.newline (.refl _))]
        exact ih h
      · next rest' =>
        rw [outlook_comment]
        split at h
        · next c rest'' hdrop =>
          obtain rfl := eq_newline_of_dropComment hdrop
          rw [hdrop, outlook_passes (.newline (.refl _))]
          exact ih h
        · next hdrop =>
          rw [hdrop]
          exact ih h
      · split at h
        · obtain ⟨st', hst', h⟩ := bind_eq_some_iff.mp h
          rw [ih h]
          exact outlook_applyIndent hst'
        · exact ih h
    | false =>
      rw [lexFrom] at h
      rw [outlook_passes (.dropWhile (p := isInlineBlank) (fun _ => isPlain_of (by decide)) cs),
        Nat.add_zero]
      split at h
      · next hnil =>
        rw [hnil, ← some.inj (ite_none_right_eq_some.mp h).2]
        simp [outlook, LexState.add, LexState.push, Token.literalLines?, pieces_nil,
          literalLinesFrom]
      · next rest hrest =>
        rw [hrest, outlook_comment]
        exact ih h
      · next rest hrest =>
        rw [hrest, outlook_passes (.newline (.refl _))]
        simp only at h
        split at h
        · exact (ih h).trans (outlook_cons rfl ..)
        · exact ih h
      · next rest hrest =>
        rw [hrest, outlook_passes (.cons (by decide) (.newline (.refl _)))]
        exact ih (ite_none_left_eq_some.mp h).2
      · obtain ⟨⟨st', rest'⟩, htoken, h⟩ := bind_eq_some_iff.mp h
        rw [← outlook_lexToken htoken]
        exact ih h

/-- The string tokens of a text stand on the lines of its literals. -/
lemma literalLines_of_tokens? (h : tokens? cs = some toks) :
    toks.filterMap Token.literalLines? = literalLines cs :=
  literalLines_of_lexFrom (ite_none_left_eq_some.mp h).2

end CodeAtlas.Syntax
