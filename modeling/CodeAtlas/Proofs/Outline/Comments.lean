import CodeAtlas.Outline.Extract
import CodeAtlas.Proofs.Path
import CodeAtlas.Proofs.Pieces
import Mathlib.Data.List.DropRight

/-!
# Comments and the lines that look like them

Comments are found line by line, while a text is made of pieces that may reach over lines
(`comments_eq_remarks_iff`).
-/

namespace CodeAtlas

open List

variable {toks : List Token} {blanks cs : List Char} {p : Char → Bool} {i n : Nat} {c : Char}
  {g : List Char → Bool → Option String} {ps : List Piece}

namespace Text

lemma splitOnChar_append_cons {sep : Char} {w : List Char} (h : sep ∉ w) :
    splitOnChar sep (w ++ sep :: cs) = w :: splitOnChar sep cs := by
  rw [splitOnChar_append, splitOnChar_of_notMem h, singleton_append]

lemma splitOnChar_concat (sep : Char) :
    splitOnChar sep (cs ++ [sep]) = splitOnChar sep cs ++ [[]] :=
  splitOnChar_append cs []

lemma length_splitOnChar (sep : Char) (cs : List Char) :
    (splitOnChar sep cs).length = cs.count sep + 1 := by
  induction cs with
  | nil => rfl
  | cons c cs ih =>
    rw [splitOnChar]
    split
    · next hc => rw [length_cons, ih, hc, count_cons_self]
    · next hc =>
      rw [count_cons_of_ne hc, ← ih]
      cases hparts : splitOnChar sep cs
      · simp [hparts] at ih
      · rfl

/-! ### Blanks at the ends -/

lemma stripRight_append_of_blank (h : blanks.all isBlank = true) :
    stripRight (cs ++ blanks) = stripRight cs := by
  have hdrop : blanks.reverse.dropWhile isBlank = [] := by
    rw [dropWhile_eq_nil_iff]
    simpa using h
  simp [stripRight, dropWhile_append, hdrop]

lemma stripChars_append_of_blank (h : blanks.all isBlank = true) :
    stripChars (cs ++ blanks) = stripChars cs := by
  have hdrop : blanks.dropWhile isBlank = [] := by
    rw [dropWhile_eq_nil_iff]
    simpa using h
  unfold stripChars stripLeft
  rw [dropWhile_append]
  split
  · next hnil => rw [hdrop, isEmpty_iff.mp hnil]
  · exact stripRight_append_of_blank h

lemma exists_eq_stripRight_append (cs : List Char) :
    ∃ blanks : List Char, cs = stripRight cs ++ blanks ∧ blanks.all isBlank = true := by
  refine ⟨(cs.reverse.takeWhile isBlank).reverse, ?_, ?_⟩
  · rw [stripRight, ← reverse_append, takeWhile_append_dropWhile, reverse_reverse]
  · rw [all_reverse, all_eq_true]
    exact fun c hc => mem_takeWhile_imp hc

lemma countP_dropWhile {q : Char → Bool} (h : ∀ c, q c = true → p c = false) :
    (cs.dropWhile q).countP p = cs.countP p := by
  induction cs with
  | nil => rfl
  | cons c cs ih =>
    rw [dropWhile_cons]
    split
    · next hc => rw [ih, countP_cons_of_neg (by simp [h c hc])]
    · rfl

lemma countP_stripChars (h : ∀ c, isBlank c = true → p c = false) :
    (stripChars cs).countP p = cs.countP p := by
  rw [stripChars, stripRight, countP_reverse, countP_dropWhile h, countP_reverse, stripLeft,
    countP_dropWhile h]

end Text

namespace Outline

open Syntax Text

/-! ### Numbered comments -/

section Numbered

variable {α : Type} {f : α → Option String}

/-- The comments that are read from lines that are numbered from `n` on. -/
def numberedFrom (f : α → Option String) (n : Nat) : List α → List Comment
  | [] => []
  | x :: xs => ((f x).map fun text => ⟨text, n⟩).toList ++ numberedFrom f (n + 1) xs

lemma commentsFrom_eq (ls : List (List Char)) :
    commentsFrom n ls = numberedFrom commentOfLine? n ls := by
  induction ls generalizing n with
  | nil => rfl
  | cons l ls ih =>
    rw [commentsFrom, numberedFrom, ← ih]
    cases commentOfLine? l <;> rfl

lemma mem_numberedFrom {f : α → Option String} {xs : List α} {c : Comment} :
    c ∈ numberedFrom f n xs ↔ ∃ (i : Nat) (x : α), xs[i]? = some x ∧ f x = some c.text ∧
      c.line = (n + i : Nat) := by
  induction xs generalizing n with
  | nil => simp [numberedFrom]
  | cons x xs ih =>
    rw [numberedFrom, mem_append, ih]
    constructor
    · rintro (h | ⟨i, y, hy, htext, hline⟩)
      · obtain ⟨text, htext, rfl⟩ := by simpa using h
        exact ⟨0, x, rfl, htext, rfl⟩
      · exact ⟨i + 1, y, hy, htext, by rw [hline]; congr 1; omega⟩
    · rintro ⟨_ | i, y, hy, htext, hline⟩
      · obtain rfl : x = y := by simpa using hy
        obtain ⟨text, line⟩ := c
        obtain rfl : line = n := hline
        exact .inl (by simp [htext])
      · exact .inr ⟨i, y, by simpa using hy, htext, by rw [hline]; congr 1; omega⟩

lemma numberedFrom_append (xs ys : List α) :
    numberedFrom f n (xs ++ ys) = numberedFrom f n xs ++ numberedFrom f (n + xs.length) ys := by
  induction xs generalizing n with
  | nil => rfl
  | cons x xs ih =>
    have hlength : n + (x :: xs).length = n + 1 + xs.length := by
      rw [length_cons]
      omega
    rw [cons_append, numberedFrom, numberedFrom, ih, hlength, append_assoc]

lemma numberedFrom_map {β : Type} (g : β → α) (xs : List β) :
    numberedFrom f n (xs.map g) = numberedFrom (f ∘ g) n xs := by
  induction xs generalizing n with
  | nil => rfl
  | cons x xs ih => rw [map_cons, numberedFrom, numberedFrom, ih, Function.comp_apply]

lemma numberedFrom_eq_nil_iff {f : α → Option String} {xs : List α} :
    numberedFrom f n xs = [] ↔ ∀ x ∈ xs, f x = none := by
  induction xs generalizing n with
  | nil => simp [numberedFrom]
  | cons x xs ih => simp [numberedFrom, ih]

lemma filter_numberedFrom {f : α → Option String} {p : Int → Bool} {q : α → Bool} {xs : List α}
    (h : ∀ i x, xs[i]? = some x → p (n + i : Nat) = q x) :
    (numberedFrom f n xs).filter (fun c => p c.line) =
      numberedFrom (fun x => if q x then f x else none) n xs := by
  induction xs generalizing n with
  | nil => rfl
  | cons x xs ih =>
    have hrest : ∀ i y, xs[i]? = some y → p (n + 1 + i : Nat) = q y := by
      intro i y hy
      rw [Nat.add_right_comm, Nat.add_assoc]
      exact h (i + 1) y hy
    have hx : p n = q x := h 0 x rfl
    rw [numberedFrom, numberedFrom, filter_append, ih hrest]
    congr 1
    cases f x <;> cases hq : q x <;> simp [hx, hq]

lemma pairwise_numberedFrom (n : Nat) (xs : List α) :
    (numberedFrom f n xs).Pairwise (·.line < ·.line) := by
  induction xs generalizing n with
  | nil => exact .nil
  | cons x xs ih =>
    rw [numberedFrom, pairwise_append]
    refine ⟨by cases f x <;> simp, ih _, fun a ha b hb => ?_⟩
    obtain ⟨text, -, rfl⟩ := by simpa using ha
    obtain ⟨i, y, -, -, hline⟩ := mem_numberedFrom.mp hb
    rw [hline]
    exact Int.ofNat_lt.mpr (by omega)

lemma numberedFrom_eq_iff {f g : α → Option String} {xs : List α} :
    numberedFrom f n xs = numberedFrom g n xs ↔ ∀ x ∈ xs, f x = g x := by
  constructor
  · intro h x hx
    obtain ⟨i, hi⟩ := getElem?_of_mem hx
    have hsome : ∀ text, f x = some text ↔ g x = some text := by
      intro text
      have hmem : ∀ e : α → Option String, (⟨text, (n + i : Nat)⟩ : Comment) ∈ numberedFrom e n xs ↔
          e x = some text := by
        intro e
        rw [mem_numberedFrom]
        constructor
        · rintro ⟨j, y, hy, htext, hline⟩
          obtain rfl : i = j := by
            have : ((n + i : Nat) : Int) = (n + j : Nat) := hline
            omega
          obtain rfl : x = y := by simpa [hi] using hy
          exact htext
        · exact fun htext => ⟨i, x, hi, htext, rfl⟩
      rw [← hmem f, h, hmem g]
    exact Option.ext hsome
  · intro h
    induction xs generalizing n with
    | nil => rfl
    | cons x xs ih =>
      rw [numberedFrom, numberedFrom, h x mem_cons_self, ih fun y hy => h y (mem_cons_of_mem _ hy)]

end Numbered

lemma pairwise_comments (cs : List Char) : (comments cs).Pairwise (·.line < ·.line) := by
  rw [comments, commentsFrom_eq]
  exact pairwise_numberedFrom ..

lemma line_of_mem_comments {c : Comment} (h : c ∈ comments cs) :
    1 ≤ c.line ∧ c.line ≤ (cs.count '\n' + 1 : Nat) := by
  rw [comments, commentsFrom_eq] at h
  obtain ⟨i, x, hx, -, hline⟩ := mem_numberedFrom.mp h
  have hi := (List.getElem?_eq_some_iff.mp hx).1
  rw [newlineParts, length_splitOnChar] at hi
  omega

/-! ### Comments of a text -/

/-- What a comment says, if it says anything. -/
def remarkText? (cs : List Char) : Option String :=
  let text := stripChars (cs.dropWhile (· = '#'))
  if text.isEmpty then none else some (String.ofList text)

/-- A comment of a text. -/
structure Remark where
  /-- The comment from its hash on. -/
  chars : List Char
  line : Nat
  /-- Whether there are only blanks before it on its line. -/
  alone : Bool
deriving DecidableEq, Repr

def Remark.comment? (r : Remark) : Option Comment :=
  (remarkText? r.chars).map fun text => ⟨text, r.line⟩

/-- The comments among pieces, of which the first is on line `n`; the flag says whether only blanks
were on that line before. -/
def remarksFrom (n : Nat) (alone : Bool) : List Piece → List Remark
  | [] => []
  | .comment text :: ps => ⟨text, n, alone⟩ :: remarksFrom n alone ps
  | .literal text :: ps => remarksFrom (n + text.count '\n') false ps
  | .char c :: ps => if c = '\n' then remarksFrom (n + 1) true ps
  else remarksFrom n (alone && isBlank c) ps

def remarks (cs : List Char) : List Remark := remarksFrom 1 true (pieces cs)

example : remarks "a = '''\n# b''' # c\n # d\n".toList =
    [⟨"# c".toList, 2, false⟩, ⟨"# d".toList, 3, true⟩] := by decide +kernel

/-! ### The lines of a text -/

/-- A line of a text. -/
structure Line where
  /-- Whether the line begins inside of a literal. -/
  inside : Bool := false
  /-- What stands on the line before its comment. -/
  before : List Char := []
  /-- The comment from its hash on, empty if there is none. -/
  comment : List Char := []
deriving DecidableEq, Repr

variable {l x : Line}

namespace Line

def chars (l : Line) : List Char := l.before ++ l.comment

/-- Whether there are only blanks before the comment. -/
def alone (l : Line) : Bool := l.before.all isBlank

/-- Writes characters on a line, which may be those of a literal. There are the lines that are full
then, and the one that is left. -/
def write (literal : Bool) (l : Line) : List Char → List Line × Line
  | [] => ([], l)
  | c :: cs =>
    if c = '\n' then
      let r := write literal { inside := literal } cs
      (l :: r.1, r.2)
    else write literal { l with before := l.before ++ [c] } cs

end Line

/-- The lines that pieces make up after what is on a line already. -/
def linesFrom (l : Line) : List Piece → List Line
  | [] => [l]
  | .comment text :: ps => linesFrom { l with comment := text } ps
  | .literal text :: ps => (l.write true text).1 ++ linesFrom (l.write true text).2 ps
  | .char c :: ps => (l.write false [c]).1 ++ linesFrom (l.write false [c]).2 ps

def lines (cs : List Char) : List Line := linesFrom {} (pieces cs)

lemma ne_of_isQuote (h : isQuote c = true) : c ≠ '\n' ∧ c ≠ '#' ∧ isBlank c = false := by
  rcases Bool.or_eq_true_iff.mp h with hc | hc <;> rw [of_decide_eq_true hc] <;> decide

lemma isQuote_of_isBlank (h : isBlank c = true) : isQuote c = false := by
  rw [Bool.eq_false_iff]
  intro hquote
  rw [(ne_of_isQuote hquote).2.2] at h
  cases h

namespace Line

/-- What holds of a line between two pieces. -/
structure Ready (l : Line) : Prop where
  comment_eq : l.comment = [] ∨ ∃ cs, l.comment = '#' :: cs
  notMem : '\n' ∉ l.chars
  /-- A hash outside of literals would have begun a comment. -/
  head_ne : l.inside = false → (stripLeft l.before).head? ≠ some '#'
  /-- A literal has been left by its quote. -/
  quote : l.inside = true → 0 < l.before.countP isQuote

/-- What holds of every line of a text. -/
structure Sound (l : Line) : Prop where
  comment_eq : l.comment = [] ∨ ∃ cs, l.comment = '#' :: cs
  head_ne : l.inside = false → (stripLeft l.before).head? ≠ some '#'
  quote : l.inside = true → l.comment ≠ [] → 0 < l.before.countP isQuote

lemma Ready.sound (h : l.Ready) : l.Sound :=
  ⟨h.comment_eq, h.head_ne, fun hinside _ => h.quote hinside⟩

lemma ready_empty : Ready {} := ⟨.inl rfl, by simp [chars], by simp [stripLeft], by simp⟩

/-! ### Writing on a line -/

lemma length_write (literal : Bool) : (l.write literal cs).1.length = cs.count '\n' := by
  fun_induction write literal l cs with
  | case1 => rfl
  | case2 l cs r ih => simp [r, ih]
  | case3 l c cs hc ih => rw [ih, count_cons_of_ne hc]

lemma write_append (literal : Bool) (cs ds : List Char) : l.write literal (cs ++ ds) =
      ((l.write literal cs).1 ++ ((l.write literal cs).2.write literal ds).1,
        ((l.write literal cs).2.write literal ds).2) := by
  fun_induction write literal l cs with
  | case1 => rfl
  | case2 l cs r ih => simp [write, r, ih]
  | case3 l c cs hc ih => simp [write, hc, ih]

lemma comment_write (literal : Bool) (h : l.comment = []) (cs : List Char) :
    (∀ x ∈ (l.write literal cs).1, x.comment = []) ∧ (l.write literal cs).2.comment = [] := by
  fun_induction write literal l cs with
  | case1 => exact ⟨by simp, h⟩
  | case2 l cs r ih => exact ⟨forall_mem_cons.mpr ⟨h, (ih rfl).1⟩, (ih rfl).2⟩
  | case3 l c cs hc ih => exact ih h

lemma exists_before_write (hc : c ≠ '\n') (literal : Bool) (l : Line) (cs : List Char) :
    ∃ w, (l.write literal (cs ++ [c])).2.before = w ++ [c] := by
  rw [write_append]
  simp [write, hc]

lemma alone_write (hblank : isBlank c = false) (hc : c ≠ '\n') (literal : Bool) :
    (l.write literal (cs ++ [c])).2.alone = false := by
  obtain ⟨w, hw⟩ := exists_before_write hc literal l cs
  rw [alone, hw, all_append, all_cons, hblank, Bool.false_and, Bool.and_false]

lemma newlineParts_write {literal : Bool} (hcomment : l.comment = []) (hbefore : '\n' ∉ l.before)
    (cs rest : List Char) :
    newlineParts (l.chars ++ (cs ++ rest)) =
      (l.write literal cs).1.map chars ++ newlineParts ((l.write literal cs).2.chars ++ rest) ∧
    '\n' ∉ (l.write literal cs).2.before := by
  fun_induction write literal l cs with
  | case1 => exact ⟨rfl, hbefore⟩
  | case2 l cs r ih =>
    obtain ⟨hparts, hlast⟩ := ih rfl (by simp)
    refine ⟨?_, hlast⟩
    have hchars : l.chars = l.before := by rw [chars, hcomment, append_nil]
    rw [hchars, newlineParts, cons_append, splitOnChar_append_cons hbefore, map_cons, hchars,
      cons_append]
    exact congrArg _ hparts
  | case3 l c cs hc ih =>
    obtain ⟨hparts, hlast⟩ := ih hcomment (by simpa [hbefore] using Ne.symm hc)
    refine ⟨?_, hlast⟩
    rw [← hparts]
    simp [chars, hcomment]

lemma inside_write (literal : Bool) :
    ((l.write literal cs).1 ++ [(l.write literal cs).2]).map inside =
      l.inside :: replicate (cs.count '\n') literal := by
  fun_induction write literal l cs with
  | case1 => rfl
  | case2 l cs r ih => simp only [cons_append, map_cons, r, ih, count_cons_self, replicate_succ]
  | case3 l c cs hc ih => rw [ih, count_cons_of_ne hc]

lemma sound_write (hcomment : l.comment = [])
    (hhead : l.inside = false → ∃ c, (stripLeft l.before).head? = some c ∧ c ≠ '#')
    (cs : List Char) : (∀ x ∈ (l.write true cs).1, x.Sound) ∧
      ((l.write true cs).2.inside = false →
      (stripLeft (l.write true cs).2.before).head? ≠ some '#') := by
  have hne : ∀ {l : Line}, (l.inside = false → ∃ c, (stripLeft l.before).head? = some c ∧ c ≠ '#') →
      l.inside = false → (stripLeft l.before).head? ≠ some '#' := by
    intro l hhead hinside hhash
    obtain ⟨c, hc, hcne⟩ := hhead hinside
    exact hcne (Option.some.inj (hc.symm.trans hhash))
  fun_induction write true l cs with
  | case1 => exact ⟨by simp, hne hhead⟩
  | case2 l cs r ih =>
    obtain ⟨hsound, hlast⟩ := ih rfl (by simp)
    refine ⟨forall_mem_cons.mpr ⟨⟨.inl hcomment, hne hhead, fun _ h => absurd hcomment h⟩, hsound⟩,
      hlast⟩
  | case3 l c cs hc ih =>
    refine ih hcomment fun hinside => ?_
    obtain ⟨d, hd, hdne⟩ := hhead hinside
    have hcons : (l.before.dropWhile isBlank).isEmpty = false := by
      cases h : l.before.dropWhile isBlank <;> simp_all [stripLeft]
    refine ⟨d, ?_, hdne⟩
    rw [stripLeft, dropWhile_append, hcons]
    simp_all [stripLeft]

/-! ### Between pieces -/

variable {l : Line}

lemma Ready.notMem_before (h : l.Ready) : '\n' ∉ l.before :=
  fun hmem => h.notMem (mem_append_left _ hmem)

lemma Ready.comment (h : l.Ready) (cs : List Char) :
    Ready { l with comment := '#' :: cs.takeWhile (· != '\n') } where
  comment_eq := .inr ⟨_, rfl⟩
  notMem := by
    simp only [chars, mem_append, mem_cons, not_or]
    refine ⟨h.notMem_before, by decide, fun hmem => ?_⟩
    have := mem_takeWhile_imp hmem
    simp at this
  head_ne := h.head_ne
  quote := h.quote

lemma head?_stripLeft_concat :
    (stripLeft (cs ++ [c])).head? =
      (stripLeft cs).head?.or (if isBlank c then none else some c) := by
  unfold stripLeft
  rw [dropWhile_append]
  cases h : cs.dropWhile isBlank
  · cases hc : isBlank c <;> simp [hc]
  · simp

lemma Ready.char (h : l.Ready) (hcomment : l.comment = []) (hhash : c ≠ '#') (hfeed : c ≠ '\n') :
    Ready { l with before := l.before ++ [c] } where
  comment_eq := .inl hcomment
  notMem := by simp [chars, hcomment, h.notMem_before, Ne.symm hfeed]
  head_ne hinside := by
    rw [head?_stripLeft_concat]
    cases hhead : (stripLeft l.before).head? with
    | none => cases isBlank c <;> simp [hhash]
    | some d => simpa [hhead] using h.head_ne hinside
  quote hinside := by
    rw [countP_append]
    exact Nat.lt_add_right _ (h.quote hinside)

lemma Ready.literal (h : l.Ready) (hcomment : l.comment = []) {q : Char} (hquote : isQuote q = true)
    (inner : List Char) :
    (∀ x ∈ (l.write true (q :: inner ++ [q])).1, x.Sound) ∧
      (l.write true (q :: inner ++ [q])).2.Ready := by
  obtain ⟨hfeed, hhash, hblank⟩ := ne_of_isQuote hquote
  have hfirst : l.write true (q :: inner ++ [q]) =
      write true { l with before := l.before ++ [q] } (inner ++ [q]) := by
    rw [cons_append, write, if_neg hfeed]
  have hhead : l.inside = false → ∃ c, (stripLeft (l.before ++ [q])).head? = some c ∧ c ≠ '#' := by
    intro hinside
    rw [head?_stripLeft_concat, hblank]
    cases hhead : (stripLeft l.before).head? with
    | none => exact ⟨q, rfl, hhash⟩
    | some d => exact ⟨d, rfl, fun hd => h.head_ne hinside (hd ▸ hhead)⟩
  obtain ⟨w, hw⟩ := exists_before_write hfeed true l (q :: inner)
  have hsound := sound_write (l := { l with before := l.before ++ [q] }) hcomment hhead
    (inner ++ [q])
  rw [← hfirst] at hsound
  have hnone := (comment_write true hcomment (q :: inner ++ [q])).2
  refine ⟨hsound.1, .inl hnone, ?_, hsound.2, fun _ => ?_⟩
  · rw [chars, hnone, append_nil]
    exact (newlineParts_write hcomment h.notMem_before _ []).2
  · rw [hw, countP_append, countP_singleton, if_pos hquote]
    exact Nat.succ_pos _

end Line

/-! ### The lines of the pieces -/

lemma head?_dropComment : ∀ c ∈ (dropComment cs).head?, c = '\n' := by
  intro c hc
  obtain ⟨rest, hrest⟩ := head?_eq_some_iff.mp hc
  exact eq_newline_of_dropComment hrest

/-- The lines of pieces are those of the text, and sound. -/
lemma map_chars_linesFrom (hl : l.Ready) (h : l.comment = [] ∨ ∀ c ∈ cs.head?, c = '\n') :
    (linesFrom l (pieces cs)).map Line.chars = newlineParts (l.chars ++ cs) ∧
      ∀ x ∈ linesFrom l (pieces cs), x.Sound := by
  induction cs using pieces_induction generalizing l with
  | nil =>
    rw [append_nil, newlineParts, splitOnChar_of_notMem hl.notMem]
    exact ⟨rfl, by simpa [linesFrom] using hl.sound⟩
  | comment cs ih =>
    have hcomment : l.comment = [] := h.resolve_right (by simp)
    rw [pieces_comment, linesFrom]
    obtain ⟨hchars, hsound⟩ := ih (hl.comment cs) (.inr head?_dropComment)
    refine ⟨hchars.trans ?_, hsound⟩
    have hcs : cs.takeWhile (· != '\n') ++ dropComment cs = cs := takeWhile_append_dropWhile
    simp [Line.chars, hcomment, hcs]
  | literal c cs text rest htext ih =>
    obtain ⟨hquote, hcs, ⟨inner, rfl⟩, -⟩ := literal?_eq htext
    have hcomment : l.comment = [] := h.resolve_right fun hc => (ne_of_isQuote hquote).1 (hc c rfl)
    obtain ⟨hfull, hlast⟩ := hl.literal hcomment hquote inner
    obtain ⟨hchars, hsound⟩ := ih hlast (.inl (Line.comment_write true hcomment _).2)
    rw [pieces_literal htext, linesFrom, map_append, hchars, hcs]
    refine ⟨(Line.newlineParts_write hcomment hl.notMem_before _ rest).1.symm, fun x hx => ?_⟩
    exact (mem_append.mp hx).elim (hfull x) (hsound x)
  | char c cs hhash hnone ih =>
    rw [pieces_char hhash hnone, linesFrom]
    by_cases hfeed : c = '\n'
    · subst hfeed
      obtain ⟨hchars, hsound⟩ := ih Line.ready_empty (.inl rfl)
      simp only [Line.write, if_true, singleton_append, map_cons, hchars]
      rw [newlineParts, newlineParts, splitOnChar_append_cons hl.notMem]
      exact ⟨rfl, forall_mem_cons.mpr ⟨hl.sound, hsound⟩⟩
    · have hcomment : l.comment = [] := h.resolve_right fun hc => hfeed (hc c rfl)
      obtain ⟨hchars, hsound⟩ := ih (hl.char hcomment hhash hfeed) (.inl hcomment)
      simp only [Line.write, if_neg hfeed, nil_append, hchars]
      exact ⟨by simp [Line.chars, hcomment], hsound⟩

lemma numberedFrom_linesFrom (hg : ∀ alone, g [] alone = none) (cs : List Char)
    (h : l.comment = [] ∨ ∀ c ∈ cs.head?, c = '\n') (n : Nat) :
    numberedFrom (fun x => g x.comment x.alone) n (linesFrom l (pieces cs)) =
      ((g l.comment l.alone).map fun text => ⟨text, n⟩).toList ++
        (remarksFrom n l.alone (pieces cs)).filterMap fun r => (g r.chars r.alone).map fun text =>
          ⟨text, r.line⟩ := by
  induction cs using pieces_induction generalizing l n with
  | nil => rfl
  | comment cs ih =>
    have hcomment : l.comment = [] := h.resolve_right (by simp)
    rw [pieces_comment, linesFrom, ih (.inr head?_dropComment), hcomment, hg, remarksFrom,
      filterMap_cons]
    cases hone : g ('#' :: cs.takeWhile (· != '\n')) l.alone <;> simp [Line.alone] at hone ⊢ <;>
      simp [hone]
  | literal c cs text rest htext ih =>
    obtain ⟨hquote, -, ⟨inner, rfl⟩, -⟩ := literal?_eq htext
    obtain ⟨hfeed, -, hblank⟩ := ne_of_isQuote hquote
    have hcomment : l.comment = [] := h.resolve_right fun hc => hfeed (hc c rfl)
    obtain ⟨hfull, hlast⟩ := Line.comment_write true hcomment (c :: inner ++ [c])
    have hnone : ∀ x ∈ (l.write true (c :: inner ++ [c])).1, g x.comment x.alone = none :=
      fun x hx => by rw [hfull x hx, hg]
    rw [pieces_literal htext, linesFrom, numberedFrom_append, numberedFrom_eq_nil_iff.mpr hnone,
      Line.length_write, ih (.inl hlast), hlast, hg, hcomment, hg, Line.alone_write hblank hfeed]
    rfl
  | char c cs hhash hnone ih =>
    rw [pieces_char hhash hnone, linesFrom, remarksFrom]
    by_cases hfeed : c = '\n'
    · subst hfeed
      simp only [Line.write, if_true, singleton_append, numberedFrom]
      rw [ih (.inl rfl), hg]
      rfl
    · have hcomment : l.comment = [] := h.resolve_right fun hc => hfeed (hc c rfl)
      simp only [Line.write, if_neg hfeed, nil_append]
      rw [ih (l := { l with before := l.before ++ [c] }) (.inl hcomment), hcomment, hg, hg]
      simp [Line.alone]

/-! ### Lines that begin inside of literals -/

/-- For each line feed of a piece, whether it is inside of a literal. -/
def feeds : Piece → List Bool
  | .char c => replicate ([c].count '\n') false
  | .literal text => replicate (text.count '\n') true
  | .comment _ => []

lemma map_inside_linesFrom : (linesFrom l ps).map Line.inside = l.inside :: ps.flatMap feeds := by
  have hwrite : ∀ {l : Line} {literal : Bool} {cs : List Char} {ls : List Line} {flags : List Bool},
      ls.map Line.inside = (l.write literal cs).2.inside :: flags →
      ((l.write literal cs).1 ++ ls).map Line.inside =
        l.inside :: (replicate (cs.count '\n') literal ++ flags) := by
    intro l literal cs ls flags h
    rw [map_append, h, ← cons_append, ← Line.inside_write, map_append, append_assoc]
    rfl
  fun_induction linesFrom l ps with
  | case1 => rfl
  | case2 l text ps ih => exact ih
  | case3 l text ps ih | case4 l c ps ih => exact hwrite ih

lemma le_fst_of_mem_literalLinesFrom {r : Nat × Nat} (h : r ∈ literalLinesFrom n ps) : n ≤ r.1 := by
  fun_induction literalLinesFrom n ps with
  | case1 => simp at h
  | case2 n text ps ih =>
    rcases mem_cons.mp h with rfl | h
    · exact Nat.le_refl n
    · exact Nat.le_trans (Nat.le_add_right ..) (ih h)
  | case3 n text ps ih => exact ih h
  | case4 n c ps ih => exact Nat.le_trans (Nat.le_add_right ..) (ih h)

lemma getElem?_feeds_iff {b : Bool} (h : (ps.flatMap feeds)[i]? = some b) :
    b = true ↔ ∃ r ∈ literalLinesFrom n ps, r.1 ≤ n + i ∧ n + i < r.2 := by
  induction ps generalizing n i with
  | nil => simp at h
  | cons p ps ih =>
    -- the line feeds of the first piece, and those of the others after them
    have hsplit : ∀ {k : Nat} {flag : Bool}, feeds p = replicate k flag →
        (b = true ↔ (flag = true ∧ i < k) ∨ ∃ r ∈ literalLinesFrom (n + k) ps, r.1 ≤ n + i ∧
        n + i < r.2) := by
      intro k flag hfeeds
      rw [flatMap_cons, hfeeds] at h
      by_cases hi : i < k
      · rw [getElem?_append_left (by simpa using hi), getElem?_replicate, if_pos hi] at h
        obtain rfl := Option.some.inj h
        refine ⟨fun hb => .inl ⟨hb, hi⟩, ?_⟩
        rintro (hb | ⟨r, hr, hle, -⟩)
        · exact hb.1
        · have := le_fst_of_mem_literalLinesFrom hr
          omega
      · rw [getElem?_append_right (by simpa using hi), length_replicate] at h
        have hsum : n + k + (i - k) = n + i := by omega
        rw [ih (n := n + k) h, hsum]
        simp [hi]
    cases p with
    | char c =>
      rw [hsplit rfl, literalLinesFrom]
      simp
    | comment text =>
      rw [hsplit (replicate_zero (a := false)).symm, literalLinesFrom]
      simp
    | literal text =>
      rw [hsplit rfl, literalLinesFrom, exists_mem_cons_iff]
      simp

/-- A line is inside if a literal from above reaches it. -/
lemma inside_iff (h : (lines cs)[i]? = some x) :
    x.inside = true ↔ ∃ r ∈ literalLines cs, r.1 < 1 + i ∧ 1 + i ≤ r.2 := by
  have hflag := congrArg (Option.map Line.inside) h
  rw [← getElem?_map, lines, map_inside_linesFrom] at hflag
  rcases i with _ | i
  · have hx : x.inside = false := (Option.some.inj hflag).symm
    simp only [hx, Bool.false_eq_true, false_iff, not_exists, not_and]
    intro r hr hlt
    have := le_fst_of_mem_literalLinesFrom hr
    omega
  · rw [getElem?_cons_succ] at hflag
    rw [getElem?_feeds_iff (n := 1) hflag]
    constructor
    · rintro ⟨r, hr, hle, hlt⟩
      exact ⟨r, hr, by omega, by omega⟩
    · rintro ⟨r, hr, hlt, hle⟩
      exact ⟨r, hr, by omega, by omega⟩

/-! ### What a line says -/

lemma remarkText?_nil : remarkText? [] = none := rfl

lemma remarkText?_stripRight : remarkText? (stripRight cs) = remarkText? cs := by
  obtain ⟨blanks, hsplit, hblanks⟩ := exists_eq_stripRight_append cs
  suffices hstrip : stripChars ((stripRight cs).dropWhile (· = '#')) =
      stripChars (cs.dropWhile (· = '#')) by
    rw [remarkText?, remarkText?, hstrip]
  conv_rhs => rw [hsplit, dropWhile_append]
  split
  · next hnil =>
    have hrest : (blanks.dropWhile (· = '#')).all isBlank = true :=
      all_eq_true.mpr fun c hc => all_eq_true.mp hblanks c ((dropWhile_sublist _).subset hc)
    rw [isEmpty_iff.mp hnil, ← nil_append (blanks.dropWhile _), stripChars_append_of_blank hrest]
  · rw [stripChars_append_of_blank hblanks]

lemma commentOfLine?_eq :
    commentOfLine? cs = if (stripLeft cs).head? = some '#' then remarkText? (stripLeft cs)
      else none := by
  unfold commentOfLine?
  rw [stripChars]
  obtain ⟨blanks, hsplit, hblanks⟩ := exists_eq_stripRight_append (stripLeft cs)
  have hhead : (stripRight (stripLeft cs)).head? = (stripLeft cs).head? := by
    rcases hright : stripRight (stripLeft cs) with _ | ⟨c, right⟩
    · rw [hright, nil_append] at hsplit
      have hnone : (stripLeft cs).dropWhile isBlank = [] := by
        rw [hsplit, dropWhile_eq_nil_iff]
        exact all_eq_true.mp hblanks
      rw [stripLeft, dropWhile_idempotent] at hnone
      rw [stripLeft, hnone]
    · rw [hsplit, hright]
      rfl
  rw [← hhead, ← remarkText?_stripRight]
  split
  · next rest hrest =>
    rw [hrest]
    rfl
  · next hne =>
    rw [if_neg]
    intro hhash
    obtain ⟨rest, hrest⟩ := head?_eq_some_iff.mp hhash
    exact hne rest hrest

lemma countP_isQuote_remarkText? {text : String} (h : remarkText? cs = some text) :
    text.toList.countP isQuote = cs.countP isQuote := by
  have hhash : ∀ c : Char, decide (c = '#') = true → isQuote c = false := by
    intro c hc
    rw [of_decide_eq_true hc]
    decide
  simp only [remarkText?] at h
  rw [← Option.some.inj (Option.ite_none_left_eq_some.mp h).2, String.toList_ofList,
    countP_stripChars fun _ => isQuote_of_isBlank, countP_dropWhile hhash]

namespace Line

variable {l : Line}

lemma Sound.commentOfLine?_of_alone (h : l.Sound) (halone : l.alone = true) :
    commentOfLine? l.chars = remarkText? l.comment := by
  have hleft : stripLeft l.chars = stripLeft l.comment := by
    rw [stripLeft, chars, dropWhile_append_of_pos (all_eq_true.mp halone)]
    rfl
  rw [commentOfLine?_eq, hleft]
  rcases h.comment_eq with hcomment | ⟨cs, hcomment⟩
  · rw [hcomment]
    rfl
  · have hstart : stripLeft l.comment = '#' :: cs := by
      rw [hcomment]
      rfl
    rw [hstart, hcomment]
    rfl

lemma Sound.commentOfLine?_of_not_alone (h : l.Sound) (hinside : l.inside = false)
    (halone : l.alone = false) : commentOfLine? l.chars = none := by
  have hne : (l.before.dropWhile isBlank).isEmpty = false := by
    rw [Bool.eq_false_iff]
    intro hnil
    have hall := dropWhile_eq_nil_iff.mp (isEmpty_iff.mp hnil)
    rw [alone, all_eq_true.mpr hall] at halone
    cases halone
  have hhead : (stripLeft l.chars).head? = (stripLeft l.before).head? := by
    rw [stripLeft, chars, dropWhile_append, hne, stripLeft]
    cases hdrop : l.before.dropWhile isBlank
    · simp [hdrop] at hne
    · rfl
  rw [commentOfLine?_eq, hhead, if_neg (h.head_ne hinside)]

lemma Sound.eq_none_of_inside (h : l.Sound) (hinside : l.inside = true)
    (heq : commentOfLine? l.chars = remarkText? l.comment) : remarkText? l.comment = none := by
  by_contra hsome
  obtain ⟨text, htext⟩ := Option.ne_none_iff_exists'.mp hsome
  have hline := heq.trans htext
  rw [commentOfLine?_eq] at hline
  have hquotes := countP_isQuote_remarkText? (Option.ite_none_right_eq_some.mp hline).2
  rw [countP_isQuote_remarkText? htext, stripLeft, countP_dropWhile (p := isQuote) fun _ =>
    isQuote_of_isBlank, chars, countP_append] at hquotes
  have hcomment : l.comment ≠ [] := by
    intro hnil
    rw [hnil] at htext
    cases htext
  have := h.quote hinside hcomment
  omega

lemma Sound.commentOfLine?_eq_iff (h : l.Sound) : commentOfLine? l.chars = remarkText? l.comment ↔
      ((if l.alone then none else remarkText? l.comment) = none) ∧
        (if l.inside then commentOfLine? l.chars else none) = none := by
  cases hinside : l.inside <;> cases halone : l.alone
  · simp [h.commentOfLine?_of_not_alone hinside halone, eq_comm]
  · simp [h.commentOfLine?_of_alone halone]
  · simp only [if_true, Bool.false_eq_true, if_false]
    constructor
    · intro heq
      exact ⟨h.eq_none_of_inside hinside heq, heq.trans (h.eq_none_of_inside hinside heq)⟩
    · exact fun hnone => hnone.2.trans hnone.1.symm
  · have heq := h.commentOfLine?_of_alone halone
    simp [heq, h.eq_none_of_inside hinside heq]

end Line

/-! ### The comments that are found -/

def beginsInside (toks : List Token) (line : Int) : Bool :=
  (toks.filterMap Token.literalLines?).any fun r => r.1 < line && line ≤ r.2

lemma beginsInside_eq (htoks : tokens? cs = some toks) (h : (lines cs)[i]? = some x) :
    beginsInside toks (1 + i : Nat) = x.inside := by
  rw [Bool.eq_iff_iff, inside_iff h, beginsInside, literalLines_of_tokens? htoks, any_eq_true]
  simp only [Bool.and_eq_true, decide_eq_true_eq, Int.ofNat_lt, Int.ofNat_le]

lemma sound_of_mem_lines (h : x ∈ lines cs) : x.Sound :=
  (map_chars_linesFrom Line.ready_empty (.inl rfl)).2 x h

lemma comments_eq_numberedFrom :
    comments cs = numberedFrom (fun x : Line => commentOfLine? x.chars) 1 (lines cs) := by
  have hchars : (lines cs).map Line.chars = newlineParts cs :=
    (map_chars_linesFrom Line.ready_empty (.inl rfl)).1
  rw [comments, commentsFrom_eq, ← hchars, numberedFrom_map]
  rfl

lemma numberedFrom_lines (hg : ∀ alone, g [] alone = none) (cs : List Char) :
    numberedFrom (fun x : Line => g x.comment x.alone) 1 (lines cs) =
      (remarks cs).filterMap fun r => (g r.chars r.alone).map fun text => ⟨text, r.line⟩ := by
  have h := numberedFrom_linesFrom hg cs (l := {}) (.inl rfl) 1
  rwa [hg] at h

lemma filter_comments (htoks : tokens? cs = some toks) :
    (comments cs).filter (fun c => !beginsInside toks c.line) =
      ((remarks cs).filter (·.alone)).filterMap Remark.comment? := by
  have hfilter := filter_numberedFrom (f := fun x : Line => commentOfLine? x.chars)
    (p := fun line => !beginsInside toks line) (q := fun x : Line => !x.inside)
    fun i x (hx : (lines cs)[i]? = some x) => congrArg (!·) (beginsInside_eq htoks hx)
  rw [comments_eq_numberedFrom, hfilter, filterMap_filter]
  have halone := numberedFrom_lines (g := fun cs alone => if alone then remarkText? cs else none)
    (by simp [remarkText?_nil]) cs
  refine (numberedFrom_eq_iff.mpr fun x hx => ?_).trans (halone.trans ?_)
  · have hsound := sound_of_mem_lines hx
    cases hinside : x.inside <;> cases halone : x.alone
    · simp [hsound.commentOfLine?_of_not_alone hinside halone]
    · simp [hsound.commentOfLine?_of_alone halone]
    · rfl
    · simp [hsound.eq_none_of_inside hinside (hsound.commentOfLine?_of_alone halone)]
  · refine filterMap_congr fun r _ => ?_
    cases r.alone <;> rfl

/-- When the comments found are those that stand in the text. -/
lemma comments_eq_iff (htoks : tokens? cs = some toks) :
    comments cs = (remarks cs).filterMap Remark.comment? ↔
      (∀ r ∈ remarks cs, r.comment?.isSome = true → r.alone = true) ∧
        ∀ c ∈ comments cs, beginsInside toks c.line = false := by
  have hremarks : numberedFrom (fun x : Line => remarkText? x.comment) 1 (lines cs) =
      (remarks cs).filterMap Remark.comment? :=
      numberedFrom_lines (g := fun cs _ => remarkText? cs) (fun _ => rfl) cs
  have halone : (∀ r ∈ remarks cs, r.comment?.isSome = true → r.alone = true) ↔
      ∀ x ∈ lines cs, (if x.alone then none else remarkText? x.comment) = none := by
    rw [← numberedFrom_eq_nil_iff,
      numberedFrom_lines (g := fun cs alone => if alone then none else remarkText? cs)
      (by simp [remarkText?_nil]), filterMap_eq_nil_iff]
    refine forall₂_congr fun r _ => ?_
    cases r.alone <;> simp [Remark.comment?]
  have hinside : (∀ c ∈ comments cs, beginsInside toks c.line = false) ↔
      ∀ x ∈ lines cs, (if x.inside then commentOfLine? x.chars else none) = none := by
    rw [← numberedFrom_eq_nil_iff, ← filter_numberedFrom (p := beginsInside toks) fun i x =>
      beginsInside_eq htoks, ← comments_eq_numberedFrom, filter_eq_nil_iff]
    simp
  rw [halone, hinside, ← hremarks, comments_eq_numberedFrom, numberedFrom_eq_iff, ← forall₂_and]
  exact forall₂_congr fun x hx => (sound_of_mem_lines hx).commentOfLine?_eq_iff

lemma comments_moduleChars (h : '\r' ∉ cs) : comments (moduleChars cs) = comments cs := by
  have hfeed : comments (cs ++ ['\n']) = comments cs := by
    rw [comments, newlineParts, splitOnChar_concat, commentsFrom_eq, numberedFrom_append, comments,
      commentsFrom_eq]
    exact append_nil _
  simp only [moduleChars, unifyNewlines_of_notMem h]
  split
  · next hnil =>
    rw [getLast?_eq_none_iff.mp hnil]
    rfl
  · rfl
  · exact hfeed

/-- Where a text can be read, its comments are found on each line that begins outside of its string
tokens and has nothing else on it; the other lines that are taken for comments begin inside of
string tokens. So the comments are those of the text just if each of them that says something stands
alone on its line, and no line that begins inside of a string token is taken for one. -/
theorem comments_eq_remarks_iff (raw : List Char) {m : Module}
    (h : parseModule? (unifyNewlines raw) = some m) : let source := unifyNewlines raw
    let text := moduleChars source
    ∃ toks, tokens? text = some toks ∧ (comments source).Pairwise (·.line < ·.line) ∧
      (comments source).filter (fun c => !beginsInside toks c.line) =
        ((remarks text).filter (·.alone)).filterMap Remark.comment? ∧
      (comments source = (remarks text).filterMap Remark.comment? ↔
        (∀ r ∈ remarks text, r.comment?.isSome = true → r.alone = true) ∧
          ∀ c ∈ comments source, beginsInside toks c.line = false) := by
  intro source text
  obtain ⟨toks, htoks, -⟩ := Option.bind_eq_some_iff.mp h
  have hcomments : comments source = comments text :=
    (comments_moduleChars (notMem_unifyNewlines raw)).symm
  rw [hcomments]
  exact ⟨toks, htoks, pairwise_comments text, filter_comments htoks, comments_eq_iff htoks⟩

theorem comments_of_hash_in_literal :
    comments "x = '#'\n  # a\n".toList =
      (remarks "x = '#'\n  # a\n".toList).filterMap Remark.comment? := by
  have hparse : ∃ m, parseModule? (unifyNewlines "x = '#'\n  # a\n".toList) = some m :=
    Option.isSome_iff_exists.mp (by decide +kernel)
  obtain ⟨m, hm⟩ := hparse
  obtain ⟨toks, htoks, -, -, hiff⟩ := comments_eq_remarks_iff _ hm
  refine hiff.mpr ⟨by decide +kernel, ?_⟩
  simp only [beginsInside, literalLines_of_tokens? htoks]
  decide +kernel

/-- A comment after a literal is missed, and a line of the literal is taken for one. -/
theorem comments_ne_remarks :
    (parseModule? "x = '''\n# a\n'''  # b\n".toList).isSome = true ∧
      comments "x = '''\n# a\n'''  # b\n".toList = [⟨"a", 2⟩] ∧
      (remarks (moduleChars "x = '''\n# a\n'''  # b\n".toList)).filterMap Remark.comment? =
        [⟨"b", 3⟩] := by
  decide +kernel

end Outline

end CodeAtlas
