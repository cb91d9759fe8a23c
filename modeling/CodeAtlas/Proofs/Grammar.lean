import CodeAtlas.Syntax.Grammar.Statement
import Mathlib.Tactic.Lemma

/-!
# Reading annotations from tokens

What is spelled is read (`Spells.parses`). Readers are run by simplification, on cursors in front of
tokens whose kinds are known (`Reader.ahead`).
-/

namespace CodeAtlas.Syntax

variable {ops : List (String × BinaryOp)} {operand : Reader Expr} {v : Expr}

namespace Reader

/-- The cursor in front of tokens of these kinds, which stand on the first line. -/
def ahead (bound : Nat) (ks : List TokenKind) : Cursor := ⟨ks.map (⟨·, 1, 1⟩), 1, bound⟩

variable {α β : Type} {n : Nat} {k : TokenKind} {ks : List TokenKind} {p : Reader α} {c : Cursor}

@[simp] lemma bind_apply (f : α → Reader β) : (p >>= f) c = (p c).bind fun x => f x.1 x.2 := rfl

@[simp] lemma map_apply (f : α → β) : (f <$> p) c = (p c).map fun x => (f x.1, x.2) := by
  change (p c).bind _ = _
  cases p c <;> rfl

@[simp] lemma pure_apply (a : α) : (pure a : Reader α) c = some (a, c) := rfl

@[simp] lemma failure_apply : (failure : Reader α) c = none := rfl

@[simp] lemma peek_ahead : peek (ahead n (k :: ks)) = some (k, ahead n (k :: ks)) := rfl

@[simp] lemma next_ahead : next (ahead n (k :: ks)) = some (k, ahead n ks) := by
  cases k <;> rfl

@[simp] lemma accept_ahead (k' : TokenKind) :
    accept k' (ahead n (k :: ks)) =
      some (decide (k = k'), ahead n (if k = k' then ks else k :: ks)) := by
  unfold accept
  by_cases h : k = k' <;> simp [h]

@[simp] lemma expect_ahead (k' : TokenKind) :
    expect k' (ahead n (k :: ks)) = if k = k' then some ((), ahead n ks) else none := by
  unfold expect
  by_cases h : k = k' <;> simp [h]

@[simp] lemma attempt_apply :
    attempt p c = some ((p c).elim (none, c) fun x => (some x.1, x.2)) := by
  unfold attempt
  rcases p c with _ | ⟨a, c'⟩ <;> rfl

attribute [simp] op? op keyword? keyword atOp atKeyword

end Reader

namespace Grammar

open List Reader

variable {g : Deeper} {e : Expr} {c : Cursor} {n : Nat} {k k' : TokenKind} {ks ks' : List TokenKind}

/-- The kinds of tokens that end an annotation. -/
def Closes (k : TokenKind) : Prop := k = .op "]" ∨ k = .op "," ∨ k = .op ")" ∨ k = .stop

/-- The kinds of tokens that an operand may stand in front of. -/
def Follows (k : TokenKind) : Prop := k = .op "|" ∨ Closes k

/-- The kinds of tokens that an operand may begin with. -/
def Starts (k : TokenKind) : Prop := k = .op "(" ∨ ∃ i plain, k = .ident i plain

lemma factor_of_primary (h : primary g (ahead n (k :: ks)) = some (e, ahead n (k' :: ks')))
    (hk : Starts k)
    (hk' : Follows k') : factor g (ahead n (k :: ks)) = some (e, ahead n (k' :: ks')) := by
  have hpow : k' ≠ .op "**" := by
    rintro rfl
    simp [Follows, Closes] at hk'
  obtain rfl | ⟨i, plain, rfl⟩ := hk <;> simp [factor, power, awaitPrimary, h, hpow]

lemma extendUpTo_none {α : Type} {step : α → Reader (Option α)} {a : α}
    (h : step a c = some (none, c)) (m : Nat) : extendUpTo step m a c = some (a, c) := by
  cases m <;> simp [extendUpTo, h]

lemma extendUpTo_some {α : Type} {step : α → Reader (Option α)} {a b : α} {c' : Cursor}
    (h : step a c = some (some b, c')) (m : Nat) :
    extendUpTo step (m + 1) a c = extendUpTo step m b c' := by
  simp [extendUpTo, h]

lemma joinStep_none (h : ∀ s, k = .op s → ops.lookup s = none) :
    joinStep ops operand e (ahead n (k :: ks)) = some (none, ahead n (k :: ks)) := by
  cases k with
  | op s => simp [joinStep, h s rfl]
  | _ => simp [joinStep]

lemma leftJoined_of_operand (h : operand c = some (e, ahead n (k :: ks)))
    (hops : ∀ s, k = .op s → ops.lookup s = none) :
    leftJoined ops operand c = some (e, ahead n (k :: ks)) := by
  simp only [leftJoined, bind_apply, h, Option.bind_some]
  exact extendUpTo_none (joinStep_none hops) _

lemma Follows.lookup_eq_none (h : Follows k)
    (hops : ∀ s ∈ ["|", "]", ",", ")"], ops.lookup s = none)
    (s : String) (hs : k = .op s) : ops.lookup s = none := by
  subst hs
  apply hops
  simpa [Follows, Closes] using h

lemma bitwiseXor_of_primary (h : primary g (ahead n (k :: ks)) = some (e, ahead n (k' :: ks')))
    (hk : Starts k)
    (hk' : Follows k') : bitwiseXor g (ahead n (k :: ks)) = some (e, ahead n (k' :: ks')) := by
  refine leftJoined_of_operand (leftJoined_of_operand (leftJoined_of_operand (leftJoined_of_operand
    (leftJoined_of_operand (factor_of_primary h hk hk') ?_) ?_) ?_) ?_) ?_
  all_goals exact hk'.lookup_eq_none (by decide)

lemma many_none {α : Type} {p : Reader (Option α)} (h : p c = some (none, c)) :
    many p c = some ([], c) := by
  change untilNone p c.bound c = _
  cases c.bound <;> simp [untilNone, h]

lemma wordJoined_of_operand {word : String} {o : BoolOp}
    (h : operand c = some (e, ahead n (k :: ks)))
    (hk : Closes k) : wordJoined word o operand c = some (e, ahead n (k :: ks)) := by
  have hword : k ≠ .keyword word := by
    rintro rfl
    simp [Closes] at hk
  have hmany :
      many (do if ← keyword? word then return some (← operand) else return none)
        (ahead n (k :: ks)) = some ([], ahead n (k :: ks)) := many_none (by simp [hword])
  simp only [wordJoined, bind_apply, h, Option.bind_some, hmany]
  rfl

lemma expression_of_bitwiseOr (h : bitwiseOr g (ahead n (k :: ks)) = some (e, ahead n (k' :: ks')))
    (hk : Starts k) (hk' : Closes k') :
    expression g (ahead n (k :: ks)) = some (e, ahead n (k' :: ks')) := by
  have hcompare : compareOp (ahead n (k' :: ks')) = some (none, ahead n (k' :: ks')) := by
    obtain rfl | rfl | rfl | rfl := hk' <;> rfl
  have hcomparison : comparison g (ahead n (k :: ks)) = some (e, ahead n (k' :: ks')) := by
    simp only [comparison, bind_apply, h, Option.bind_some]
    rw [many_none (by simp [hcompare])]
    rfl
  have hinversion : inversion g (ahead n (k :: ks)) = some (e, ahead n (k' :: ks')) := by
    obtain rfl | ⟨i, plain, rfl⟩ := hk <;> simp [inversion, hcomparison]
  have hdisjunction : disjunction g (ahead n (k :: ks)) = some (e, ahead n (k' :: ks')) :=
    wordJoined_of_operand (wordJoined_of_operand hinversion hk') hk'
  have hif : k' ≠ .keyword "if" := by
    rintro rfl
    simp [Closes] at hk'
  obtain rfl | ⟨i, plain, rfl⟩ := hk <;> simp [expression, hdisjunction, hif]

/-! ### Operands and unions -/

/-- A reader takes tokens of these kinds in front of what ends an annotation. -/
def Takes {α : Type} (p : Reader α) (ks : List TokenKind) (a : α) : Prop :=
  ∀ n k rest, Closes k → (ks ++ k :: rest).length < n →
    p (ahead n (ks ++ k :: rest)) = some (a, ahead n (k :: rest))

/-- A primary expression is read up to the end of these tokens. -/
def Opens (g : Deeper) (ks : List TokenKind) (e : Expr) : Prop :=
  ∀ n rest, (ks ++ rest).length < n →
    ∃ m, rest.length < m ∧
    primary g (ahead n (ks ++ rest)) = extendUpTo (trailer g) m e (ahead n rest)

/-- A union is read up to the end of these tokens. -/
def Joins (g : Deeper) (ks : List TokenKind) (e : Expr) : Prop :=
  ∀ n k rest, Follows k → (ks ++ k :: rest).length < n → ∃ m, (k :: rest).length < m ∧
    bitwiseOr g (ahead n (ks ++ k :: rest)) =
      extendUpTo (joinStep [("|", .bitOr)] (bitwiseXor g)) m e (ahead n (k :: rest))

/-- The first of some tokens is one that an operand may begin with. -/
def Begins (ks : List TokenKind) : Prop := ∃ k ks', ks = k :: ks' ∧ Starts k

lemma Begins.append (h : Begins ks) (ks' : List TokenKind) : Begins (ks ++ ks') := by
  obtain ⟨k, ks, rfl, hk⟩ := h
  exact ⟨k, ks ++ ks', rfl, hk⟩

variable {rest : List TokenKind}

lemma Opens.bitwiseXor (h : Opens g ks e) (hks : Begins ks) (hk : Follows k)
    (hn : (ks ++ k :: rest).length < n) :
    bitwiseXor g (ahead n (ks ++ k :: rest)) = some (e, ahead n (k :: rest)) := by
  obtain ⟨m, -, hrun⟩ := h n (k :: rest) hn
  have hstep : trailer g e (ahead n (k :: rest)) = some (none, ahead n (k :: rest)) := by
    obtain rfl | rfl | rfl | rfl | rfl := hk <;> simp [trailer]
  obtain ⟨k0, ks0, rfl, hk0⟩ := hks
  exact bitwiseXor_of_primary (hrun.trans (extendUpTo_none hstep m)) hk0 hk

lemma Opens.joins (h : Opens g ks e) (hks : Begins ks) : Joins g ks e := by
  intro n k rest hk hn
  refine ⟨n, by rw [length_append] at hn; omega, ?_⟩
  simp only [bitwiseOr, leftJoined, bind_apply, h.bitwiseXor hks hk hn, Option.bind_some]
  rfl

lemma Joins.union {l r : Expr} (hl : Joins g ks l) (hr : Opens g ks' r) (hks' : Begins ks') :
    Joins g (ks ++ .op "|" :: ks') (.binary l .bitOr r) := by
  intro n k rest hk hn
  rw [append_assoc, cons_append] at hn ⊢
  obtain ⟨m, hm, hrun⟩ := hl n _ _ (.inl rfl) hn
  simp only [length_append, length_cons] at hm hn
  obtain ⟨m, rfl⟩ := Nat.exists_eq_add_one_of_ne_zero (Nat.ne_zero_of_lt hm)
  refine ⟨m, by rw [length_cons]; omega, hrun.trans (extendUpTo_some ?_ m)⟩
  have hoperand : bitwiseXor g (ahead n (ks' ++ k :: rest)) = some (r, ahead n (k :: rest)) :=
    hr.bitwiseXor hks' hk (by simp only [length_append, length_cons]; omega)
  simp [joinStep, hoperand]

lemma Joins.expression (h : Joins g ks e) (hks : Begins ks) : Takes (expression g) ks e := by
  intro n k rest hk hn
  obtain ⟨m, -, hrun⟩ := h n k rest (.inr hk) hn
  have hstep : joinStep [("|", .bitOr)] (Grammar.bitwiseXor g) e (ahead n (k :: rest)) =
      some (none, ahead n (k :: rest)) := by
    refine joinStep_none fun s hs => ?_
    have hs : s ∈ ["]", ",", ")"] := by simpa [hs, Closes] using hk
    exact (by decide : ∀ s ∈ ["]", ",", ")"], [("|", BinaryOp.bitOr)].lookup s = none) s hs
  obtain ⟨k0, ks0, rfl, hk0⟩ := hks
  exact expression_of_bitwiseOr (hrun.trans (extendUpTo_none hstep m)) hk0 hk

/-! ### Names, attributes and subscripts -/

lemma atBinding_of_notMem (hks : Begins ks) (hmem : .op ":=" ∉ ks) (hk : Closes k) :
    atBinding (ahead n (ks ++ k :: rest)) = some (false, ahead n (ks ++ k :: rest)) := by
  obtain ⟨k0, ks0, rfl, -⟩ := hks
  have hsecond : ∃ k1 rest', ks0 ++ k :: rest = k1 :: rest' ∧ k1 ≠ .op ":=" := by
    cases ks0 with
    | nil => exact ⟨k, rest, rfl, by rintro rfl; simp [Closes] at hk⟩
    | cons k1 ks1 => exact ⟨k1, _, rfl, by rintro rfl; simp at hmem⟩
  obtain ⟨k1, rest', heq, hne⟩ := hsecond
  rw [cons_append, heq]
  have hpeek : peekSecond (ahead n (k0 :: k1 :: rest')) = some (k1, ahead n (k0 :: k1 :: rest')) :=
    rfl
  simp only [atBinding, bind_apply, peek_ahead, hpeek, Option.bind_some]
  refine congrFun (g := (pure false : Reader Bool)) ?_ _
  split
  · exact absurd rfl hne
  · rfl

lemma Takes.namedExpression (h : Takes g.expression ks e) (hks : Begins ks) (hmem : .op ":=" ∉ ks) :
    Takes (namedExpression g) ks e := by
  intro n k rest hk hn
  have hop : k ≠ .op ":=" := by
    rintro rfl
    simp [Closes] at hk
  simp [Grammar.namedExpression, atBinding_of_notMem hks hmem hk, h n k rest hk hn, require, hop]

lemma Takes.subscriptItem (h : Takes g.expression ks e) (hks : Begins ks) (hmem : .op ":=" ∉ ks) :
    Takes (subscriptItem g) ks e := by
  intro n k rest hk hn
  have hnamed := h.namedExpression hks hmem n k rest hk hn
  have hbinding : atBinding (ahead n (ks ++ k :: rest)) = _ := atBinding_of_notMem hks hmem hk
  have hcolon : k ≠ .op ":" := by
    rintro rfl
    simp [Closes] at hk
  have hslice : slice g (ahead n (ks ++ k :: rest)) = some (e, ahead n (k :: rest)) := by
    simp [slice, hbinding, hnamed, hcolon]
  obtain ⟨k0, ks0, rfl, rfl | ⟨i, plain, rfl⟩⟩ := hks <;>
  · rw [cons_append] at hslice ⊢
    simp [Grammar.subscriptItem, hslice]

variable {first : List TokenKind × Expr} {more : List (List TokenKind × Expr)}

/-- The tokens of further arguments, each behind a comma. -/
def moreTokens (more : List (List TokenKind × Expr)) : List TokenKind :=
  more.flatMap fun p => .op "," :: p.1

lemma moreTokens_cons (p : List TokenKind × Expr) (more : List (List TokenKind × Expr)) :
    moreTokens (p :: more) = .op "," :: (p.1 ++ moreTokens more) := rfl

lemma length_le_moreTokens (more : List (List TokenKind × Expr)) :
    more.length ≤ (moreTokens more).length := by
  induction more with
  | nil => exact Nat.le_refl 0
  | cons p more ih =>
    rw [moreTokens_cons, length_cons, length_cons, length_append]
    omega

lemma length_lt_moreTokens {p : List TokenKind × Expr} (hp : p ∈ more) :
    p.1.length < (moreTokens more).length := by
  have hsub := sublist_flatten_of_mem (mem_map_of_mem (f := fun p => TokenKind.op "," :: p.1) hp)
  rw [← flatMap_def] at hsub
  exact hsub.length_le

lemma closes_moreTokens :
    ∃ k rest', moreTokens more ++ .op "]" :: rest = k :: rest' ∧ Closes k := by
  cases more with
  | nil => exact ⟨_, _, rfl, .inl rfl⟩
  | cons p more => exact ⟨_, _, rfl, .inr (.inl rfl)⟩

lemma untilNone_items {item : Reader Expr} (hmore : ∀ p ∈ more, Takes item p.1 p.2) {m : Nat}
    (hm : more.length < m) (hn : (moreTokens more ++ .op "]" :: rest).length < n) :
    untilNone (attempt (do op ","; item)) m (ahead n (moreTokens more ++ .op "]" :: rest)) =
      some (more.map (·.2), ahead n (.op "]" :: rest)) := by
  induction more generalizing m with
  | nil =>
    obtain ⟨m, rfl⟩ := Nat.exists_eq_add_one_of_ne_zero (Nat.ne_zero_of_lt hm)
    simp [untilNone, moreTokens]
  | cons p more ih =>
    obtain ⟨m, rfl⟩ := Nat.exists_eq_add_one_of_ne_zero (Nat.ne_zero_of_lt hm)
    obtain ⟨hp, hmore⟩ := forall_mem_cons.mp hmore
    simp only [moreTokens_cons, cons_append, append_assoc, length_cons, length_append] at hn ⊢
    have hitems := ih hmore (Nat.lt_of_succ_lt_succ hm)
      (by simp only [length_append, length_cons]; omega)
    obtain ⟨k, rest', heq, hk⟩ := closes_moreTokens
    rw [heq] at hitems ⊢
    have hitem := hp n k rest' hk (by rw [← heq]; simp only [length_append, length_cons]; omega)
    simpa [untilNone, hitem] using hitems

/-- Arguments as one expression: a single one stands for itself. -/
def together : List Expr → Expr
  | [e] => e
  | es => .tuple es

lemma slices_of_items (hitems : ∀ p ∈ first :: more, Takes (subscriptItem g) p.1 p.2)
    (hfirst : isStarred first.2 = false)
    (hn : (first.1 ++ (moreTokens more ++ .op "]" :: rest)).length < n) :
    slices g (ahead n (first.1 ++ (moreTokens more ++ .op "]" :: rest))) =
      some (together ((first :: more).map (·.2)), ahead n (.op "]" :: rest)) := by
  obtain ⟨hitem, hmore⟩ := forall_mem_cons.mp hitems
  have hlength := length_le_moreTokens more
  have hmany : many (attempt (do op ","; subscriptItem g))
      (ahead n (moreTokens more ++ .op "]" :: rest)) =
        some (more.map (·.2), ahead n (.op "]" :: rest)) := by
    simp only [length_append, length_cons] at hn
    exact untilNone_items hmore (show more.length < n by omega)
      (by simp only [length_append, length_cons]; omega)
  obtain ⟨k, rest', heq, hk⟩ := closes_moreTokens
  rw [heq] at hmany hn ⊢
  simp only [slices, commas, bind_apply, hitem n k rest' hk hn, hmany, Option.bind_some, pure_apply]
  cases more with
  | nil => simp [hfirst, together]
  | cons q more => simp [together]

lemma opens_name (g : Deeper) (i : Identifier) (plain : Bool) :
    Opens g [.ident i plain] (.name i.text) := by
  intro n rest hn
  refine ⟨n, Nat.lt_of_succ_lt hn, ?_⟩
  simp [primary, atom]
  rfl

lemma Opens.trailer (hv : Opens g ks v) (hks' : ks' ≠ [])
    (hstep : ∀ n rest, (ks' ++ rest).length < n →
      trailer g v (ahead n (ks' ++ rest)) = some (some e, ahead n rest)) :
        Opens g (ks ++ ks') e := by
  intro n rest hn
  rw [append_assoc] at hn ⊢
  obtain ⟨m, hm, hrun⟩ := hv n _ hn
  have hpos := length_pos_iff.mpr hks'
  rw [length_append] at hm hn
  obtain ⟨m, rfl⟩ := Nat.exists_eq_add_one_of_ne_zero (Nat.ne_zero_of_lt hm)
  exact ⟨m, by omega, hrun.trans (extendUpTo_some (hstep n rest (by omega)) m)⟩

lemma Opens.attribute (hv : Opens g ks v) (i : Identifier) (plain : Bool) :
    Opens g (ks ++ [.op ".", .ident i plain]) (.attribute v i.text) := by
  refine hv.trailer (by simp) fun n rest _ => ?_
  simp [Grammar.trailer, ident, identifier]

lemma Opens.index {v : Expr} (hv : Opens g ks v)
    (hitems : ∀ p ∈ first :: more, Takes (subscriptItem g) p.1 p.2)
    (hfirst : isStarred first.2 = false) :
    Opens g (ks ++ .op "[" :: (first.1 ++ moreTokens more ++ [.op "]"]))
      (.subscript v (together ((first :: more).map (·.2)))) := by
  refine hv.trailer (by simp) fun n rest hn => ?_
  simp only [cons_append, append_assoc, nil_append, length_cons] at hn ⊢
  simp [Grammar.trailer, slices_of_items hitems hfirst (Nat.lt_of_succ_lt hn)]

lemma Opens.round (h : Takes g.expression ks e) (hks : Begins ks) (hmem : .op ":=" ∉ ks)
    (hstar : isStarred e = false) : Opens g (.op "(" :: (ks ++ [.op ")"])) e := by
  intro n rest hn
  simp only [cons_append, append_assoc, nil_append, length_cons] at hn ⊢
  have hnamed := h.namedExpression hks hmem n (.op ")") rest (.inr (.inr (.inl rfl)))
    (Nat.lt_of_succ_lt hn)
  have hround : Grammar.round g (ahead n (ks ++ .op ")" :: rest)) = some (e, ahead n rest) := by
    obtain ⟨k0, ks0, rfl, rfl | ⟨i, plain, rfl⟩⟩ := hks <;>
    · rw [cons_append] at hnamed ⊢
      simp [Grammar.round, starNamed, hnamed, require, hstar, atClause]
  refine ⟨n, by simp only [length_append, length_cons] at hn; omega, ?_⟩
  simp [primary, atom, hround]
  rfl

/-! ### What is spelled is read -/

def levels (depth : Nat) : Deeper := Nat.repeat level depth bottom

end Grammar

open Grammar

/-- How an annotation is spelled in tokens: with `tight`, so that it can stand in front of a dot or
a bracket. -/
inductive Spells : Bool → List TokenKind → Expr → Prop
  | name (i : Identifier) {plain : Bool} (h : wordKind i.text.toList = some (.ident i plain)) :
    Spells true [.ident i plain] (.name i.text)
  | dot {ks : List TokenKind} {v : Expr} (hv : Spells true ks v) (i : Identifier) {plain : Bool}
      (h : wordKind i.text.toList = some (.ident i plain)) :
    Spells true (ks ++ [.op ".", .ident i plain]) (.attribute v i.text)
  | index {ks : List TokenKind} {v : Expr} (hv : Spells true ks v) {first : List TokenKind × Expr}
      {more : List (List TokenKind × Expr)} (hitems : ∀ p ∈ first :: more, Spells false p.1 p.2) :
    Spells true (ks ++ .op "[" :: (first.1 ++ moreTokens more ++ [.op "]"]))
      (.subscript v (together ((first :: more).map (·.2))))
  | round {ks : List TokenKind} {e : Expr} (h : Spells false ks e) :
  Spells true (.op "(" :: (ks ++ [.op ")"])) e
  | loose {ks : List TokenKind} {e : Expr} (h : Spells true ks e) : Spells false ks e
  | union {ks ks' : List TokenKind} {l r : Expr} (hl : Spells false ks l) (hr : Spells true ks' r) :
    Spells false (ks ++ .op "|" :: ks') (.binary l .bitOr r)

/-- The kinds of tokens that annotations are spelled with. -/
def IsLexeme (k : TokenKind) : Prop :=
  (∃ i plain, k = .ident i plain) ∨ ∃ s ∈ ["(", ")", "[", "]", ",", ".", "|"], k = .op s

namespace Spells

variable {tight : Bool} {ks : List TokenKind} {e : Expr}

section

variable (h : Spells tight ks e)

include h

lemma begins : Begins ks := by
  induction h with
  | name i _ => exact ⟨_, _, rfl, .inr ⟨i, _, rfl⟩⟩
  | dot _ _ _ ih => exact ih.append _
  | index _ _ ih _ => exact ih.append _
  | round _ _ => exact ⟨_, _, rfl, .inl rfl⟩
  | loose _ ih => exact ih
  | union _ _ ih _ => exact ih.append _

lemma not_isStarred : isStarred e = false := by
  induction h with
  | round _ ih => exact ih
  | loose _ ih => exact ih
  | _ => rfl

lemma forall_isLexeme : ∀ k ∈ ks, IsLexeme k := by
  have hsign {s : String} (hs : s ∈ ["(", ")", "[", "]", ",", ".", "|"]) :
    IsLexeme (.op s) := .inr ⟨s, hs, rfl⟩
  induction h with
  | name i _ => exact List.forall_mem_singleton.mpr (.inl ⟨i, _, rfl⟩)
  | dot _ i _ ih =>
    refine List.forall_mem_append.mpr ⟨ih, List.forall_mem_cons.mpr ⟨hsign (by decide), ?_⟩⟩
    exact List.forall_mem_singleton.mpr (.inl ⟨i, _, rfl⟩)
  | index _ _ ih ihs =>
    refine List.forall_mem_append.mpr ⟨ih, List.forall_mem_cons.mpr ⟨hsign (by decide), ?_⟩⟩
    obtain ⟨hfirst, hmore⟩ := List.forall_mem_cons.mp ihs
    refine List.forall_mem_append.mpr ⟨List.forall_mem_append.mpr ⟨hfirst, fun k hk => ?_⟩, ?_⟩
    · obtain ⟨p, hp, hk⟩ := List.mem_flatMap.mp hk
      rcases List.mem_cons.mp hk with rfl | hk
      · exact hsign (by decide)
      · exact hmore p hp k hk
    · exact List.forall_mem_singleton.mpr (hsign (by decide))
  | round _ ih =>
    refine List.forall_mem_cons.mpr ⟨hsign (by decide), List.forall_mem_append.mpr ⟨ih, ?_⟩⟩
    exact List.forall_mem_singleton.mpr (hsign (by decide))
  | loose _ ih => exact ih
  | union _ _ ih ih' =>
      exact List.forall_mem_append.mpr ⟨ih, List.forall_mem_cons.mpr ⟨hsign (by decide), ih'⟩⟩

lemma notMem_binding : .op ":=" ∉ ks := by
  intro hmem
  simpa [IsLexeme] using h.forall_isLexeme _ hmem

/-- What is spelled is read, if the grammar has as many levels as there are tokens. -/
lemma parses {depth : Nat} (hdepth : ks.length ≤ depth) :
    (tight = true → Opens (levels depth) ks e) ∧ Joins (levels depth) ks e := by
  induction h generalizing depth with
  | @name i plain h =>
    have hopens := opens_name (levels depth) i plain
    exact ⟨fun _ => hopens, hopens.joins (name i h).begins⟩
  | @dot _ _ hv i plain h ih =>
    rw [List.length_append] at hdepth
    have hopens := ((ih (Nat.le_of_add_right_le hdepth)).1 rfl).attribute i plain
    exact ⟨fun _ => hopens, hopens.joins (dot hv i h).begins⟩
  | @index ks v hv first more hitems ih ihs =>
    simp only [List.length_append, List.length_cons, List.length_nil] at hdepth
    obtain ⟨depth, rfl⟩ := Nat.exists_eq_add_one_of_ne_zero (by omega : depth ≠ 0)
    have hlength : ∀ p ∈ first :: more, p.1.length ≤ depth := by
      intro p hp
      rcases List.mem_cons.mp hp with rfl | hp
      · omega
      · have := length_lt_moreTokens hp
        omega
    have htakes : ∀ p ∈ first :: more, Takes (subscriptItem (levels (depth + 1))) p.1 p.2 :=
      fun p hp =>
      Takes.subscriptItem ((ihs p hp (hlength p hp)).2.expression (hitems p hp).begins)
        (hitems p hp).begins (hitems p hp).notMem_binding
    have hopens := ((ih (by omega)).1 rfl).index htakes
      (hitems first List.mem_cons_self).not_isStarred
    exact ⟨fun _ => hopens, hopens.joins (index hv hitems).begins⟩
  | round h ih =>
    simp only [List.length_append, List.length_cons, List.length_nil] at hdepth
    obtain ⟨depth, rfl⟩ := Nat.exists_eq_add_one_of_ne_zero (by omega : depth ≠ 0)
    have hopens := Opens.round
      (g := levels (depth + 1)) ((ih (by omega)).2.expression h.begins) h.begins
      h.notMem_binding h.not_isStarred
    exact ⟨fun _ => hopens, hopens.joins (round h).begins⟩
  | loose h ih => exact ⟨nofun, (ih hdepth).2⟩
  | union hl hr ihl ihr =>
    rw [List.length_append, List.length_cons] at hdepth
    exact ⟨nofun, ((ihl (by omega)).2).union ((ihr (by omega)).1 rfl) hr.begins⟩

end

end Spells

end CodeAtlas.Syntax
