import CodeAtlas.Catalog.Digest
import CodeAtlas.Proofs.Json.Scalar
import Mathlib.Data.List.TakeWhile

/-!
# Quoted texts can be told from what follows them

A text in quotes ends at the first quote that is not escaped, so quoted texts, and lists of them,
can be read off the front of any text (`Delimits`).
-/

namespace CodeAtlas

open List Nat

namespace Text

/-- What is written can be read off the front of a text: it tells what it was written for and where
it ends. -/
structure Delimits {α : Type} (f : α → List Char) : Prop where
  inj : ∀ {a b : α} {r s : List Char}, f a ++ r = f b ++ s → a = b ∧ r = s

lemma Delimits.flatMap {α : Type} {f : α → List Char} (hf : Delimits f) {z : Char}
    (hz : ∀ a r s, f a ++ r ≠ z :: s) : Delimits fun as : List α => as.flatMap f ++ [z] := by
  refine ⟨fun {as bs r s} h => ?_⟩
  induction as generalizing bs with
  | nil =>
    cases bs with
    | nil => exact ⟨rfl, append_cancel_left h⟩
    | cons b bs =>
      simp only [flatMap_cons, append_assoc] at h
      exact absurd h.symm (hz b _ r)
  | cons a as ih =>
    cases bs with
    | nil =>
      simp only [flatMap_cons, append_assoc] at h
      exact absurd h (hz a _ s)
    | cons b bs =>
      simp only [flatMap_cons, append_assoc] at h
      obtain ⟨rfl, hseries⟩ := hf.inj h
      obtain ⟨rfl, hrest⟩ := ih (by simpa only [append_assoc] using hseries)
      exact ⟨rfl, hrest⟩

/-! ### Escapes -/

lemma length_hexDigits (width n : Nat) : (hexDigits width n).length = width := by
  induction width generalizing n with
  | zero => rfl
  | succ width ih => rw [hexDigits, length_append, ih, length_singleton]

lemma hexDigits_inj {width n m : Nat} (hn : n < Nat.pow 16 width) (hm : m < Nat.pow 16 width)
    (h : hexDigits width n = hexDigits width m) : n = m := by
  induction width generalizing n m with
  | zero => exact (lt_one_iff.mp hn).trans (lt_one_iff.mp hm).symm
  | succ width ih =>
    change _ < Nat.pow 16 width * 16 at hn hm
    obtain ⟨hhigh, hlow⟩ := append_inj h (by rw [length_hexDigits, length_hexDigits])
    have hdigit {k : Nat} := Json.hexValue?_hexDigit (mod_lt k (by decide : 0 < 16))
    have hmod : n % 16 = m % 16 := by
      have := congrArg hexValue? (singleton_inj.mp hlow)
      rwa [hdigit, hdigit, Option.some.injEq] at this
    have hdiv := ih (by omega) (by omega) hhigh
    omega

/-- How many digits follow the letter of an escape. -/
def escapeWidth (k : Char) : Nat :=
  if k = 'x' then 2 else if k = 'u' then 4 else if k = 'U' then 8 else 0

/-- What an escape without digits stands for. -/
def escapedBy (k : Char) : Char :=
  if k = 't' then '\t' else if k = 'n' then '\n' else if k = 'r' then '\r' else k

/-- Different characters stand for different code points: those of surrogates belong to no
character. -/
lemma codeOf_inj {c d : Char} (h : codeOf c = codeOf d) : c = d := by
  refine Char.toNat_inj.mp ?_
  have hc : c.toNat.isValidChar := c.valid
  have hd : d.toNat.isValidChar := d.valid
  simp only [codeOf, isLone, Bool.and_eq_true, decide_eq_true_eq, Nat.isValidChar] at h hc hd
  split_ifs at h <;> omega

lemma codeOf_le {c : Char} : codeOf c ≤ c.toNat := by
  unfold codeOf
  split_ifs
  · exact sub_le _ _
  · exact le_refl _

/-- An escape with this letter and these digits stands for a character. -/
structure Escapes (c k : Char) (digits : List Char) : Prop where
  digits : digits = hexDigits (escapeWidth k) (codeOf c)
  stands : if escapeWidth k = 0 then c = escapedBy k else codeOf c < Nat.pow 16 (escapeWidth k)

lemma Escapes.inj {c d k : Char} {digits : List Char} (hc : Escapes c k digits)
    (hd : Escapes d k digits) : c = d := by
  have hstands := hc.stands
  have hstands' := hd.stands
  split_ifs at hstands hstands'
  · rw [hstands, hstands']
  · exact codeOf_inj (hexDigits_inj hstands hstands' (hc.digits.symm.trans hd.digits))

lemma quotedChar_cases {q : Char} (hq : q = '\'' ∨ q = '"') (c : Char) :
    (quotedChar q c = [c] ∧ c ≠ '\\' ∧ c ≠ q) ∨
      ∃ k digits, quotedChar q c = '\\' :: k :: digits ∧ Escapes c k digits := by
  unfold quotedChar
  split_ifs with hquote hescape
  · refine .inr ⟨c, [], rfl, ?_⟩
    subst hquote
    rcases hq with rfl | rfl <;> exact ⟨rfl, rfl⟩
  · right
    unfold escapeChar
    split_ifs with hbackslash htab hfeed hreturn
    · exact ⟨'\\', [], rfl, rfl, hbackslash⟩
    · exact ⟨'t', [], rfl, rfl, htab⟩
    · exact ⟨'n', [], rfl, rfl, hfeed⟩
    · exact ⟨'r', [], rfl, rfl, hreturn⟩
    · unfold codeEscape
      split_ifs with hbyte hplane
      · exact ⟨'x', _, rfl, rfl, hbyte⟩
      · exact ⟨'u', _, rfl, rfl, hplane⟩
      · exact ⟨'U', _, rfl, rfl, lt_of_le_of_lt codeOf_le c.val.toNat_lt⟩
  · refine .inl ⟨rfl, fun h => hescape (by simp [h]), hquote⟩

lemma delimits_quotedChar {q : Char} (hq : q = '\'' ∨ q = '"') : Delimits (quotedChar q) := by
  refine ⟨fun {c d r s} h => ?_⟩
  rcases quotedChar_cases hq c with ⟨hc, hbackslash, -⟩ | ⟨k, digits, hc, hescapes⟩ <;>
    rcases quotedChar_cases hq d with ⟨hd, hbackslash', -⟩ | ⟨k', digits', hd, hescapes'⟩ <;>
      rw [hc, hd] at h
  · exact List.cons.inj h
  · exact absurd (List.cons.inj h).1 hbackslash
  · exact absurd (List.cons.inj h).1.symm hbackslash'
  · obtain ⟨rfl, hdigits⟩ := List.cons.inj (List.cons.inj h).2
    have hlength : digits.length = digits'.length := by
      rw [hescapes.digits, hescapes'.digits, length_hexDigits, length_hexDigits]
    obtain ⟨rfl, hrest⟩ := append_inj hdigits hlength
    exact ⟨hescapes.inj hescapes', hrest⟩

/-! ### Quoted texts can be encoded -/

lemma isLone_eq_false_of_lt {c : Char} (h : c.toNat < 128) : isLone c = false := by
  have hlow : ¬ 0x10d800 ≤ c.toNat := by omega
  simp [isLone, hlow]

lemma isEncodable_append (s t : String) :
    isEncodable (s ++ t) = (isEncodable s && isEncodable t) := by
  simp [isEncodable]

lemma encodeFault?_eq_none_iff {s : String} : encodeFault? s = none ↔ isEncodable s = true := by
  unfold encodeFault? isEncodable
  rcases h : s.toList.dropWhile (!isLone ·) with _ | ⟨c, cs⟩
  · rw [dropWhile_eq_nil_iff] at h
    simpa using h
  · have hc : c ∈ s.toList ∧ isLone c = true := by
      have hhead := head?_dropWhile_not (!isLone ·) s.toList
      rw [h] at hhead
      exact ⟨(dropWhile_sublist _).subset (h ▸ mem_cons_self), by simpa using hhead⟩
    simp only [reduceCtorEq, false_iff, all_eq_true, Bool.not_eq_true']
    exact fun hall => by simp [hall c hc.1] at hc

/-- An escape stands in ASCII. -/
lemma lt_of_mem_escapeChar (c : Char) : ∀ d ∈ escapeChar c, d.toNat < 128 := by
  have hdigit : ∀ n < 16, (hexDigit n).toNat < 128 := by decide
  have hdigits (width n : Nat) : ∀ d ∈ hexDigits width n, d.toNat < 128 := by
    induction width generalizing n with
    | zero => simp [hexDigits]
    | succ width ih =>
      simp only [hexDigits, forall_mem_append, forall_mem_singleton]
      exact ⟨ih _, hdigit _ (mod_lt _ (by decide))⟩
  unfold escapeChar codeEscape
  split_ifs
  all_goals refine forall_mem_cons.mpr ⟨by decide, forall_mem_cons.mpr ⟨by decide, ?_⟩⟩
  all_goals first | exact hdigits _ _ | exact forall_mem_nil _

lemma isLone_of_mem_quotedChar {q c d : Char} (hq : q = '\'' ∨ q = '"') (h : d ∈ quotedChar q c) :
    isLone d = false := by
  unfold quotedChar at h
  split_ifs at h with hquote hescape
  · have hd : d = '\\' ∨ d = q := by simpa [hquote] using h
    rcases hd with rfl | rfl
    · rfl
    · rcases hq with rfl | rfl <;> rfl
  · exact isLone_eq_false_of_lt (lt_of_mem_escapeChar c d h)
  · obtain rfl := mem_singleton.mp h
    simp only [Bool.or_eq_true, not_or, Bool.not_eq_true] at hescape
    exact hescape.1.2

lemma quoteFor_cases (cs : List Char) : quoteFor cs = '\'' ∨ quoteFor cs = '"' := by
  unfold quoteFor
  split_ifs <;> simp

lemma delimits_quotedChars : Delimits quotedChars := by
  refine ⟨fun {cs ds r s} h => ?_⟩
  obtain ⟨hquote, hbody⟩ := List.cons.inj h
  have hq := quoteFor_cases cs
  rw [← hquote] at hbody
  refine ((delimits_quotedChar hq).flatMap fun c r s hcs => ?_).inj hbody
  rcases quotedChar_cases hq c with ⟨hc, -, hne⟩ | ⟨k, digits, hc, -⟩ <;> rw [hc] at hcs
  · exact hne (List.cons.inj hcs).1
  · rcases hq with hq | hq <;> rw [hq] at hcs <;> simp at hcs

lemma isLone_of_mem_quotedChars {cs : List Char} {d : Char} (h : d ∈ quotedChars cs) :
    isLone d = false := by
  have hq := quoteFor_cases cs
  have hquote : isLone (quoteFor cs) = false := by rcases hq with h | h <;> rw [h] <;> rfl
  simp only [quotedChars, mem_cons, mem_append, mem_flatMap, not_mem_nil, or_false] at h
  rcases h with rfl | ⟨c, -, hc⟩ | rfl
  · exact hquote
  · exact isLone_of_mem_quotedChar hq hc
  · exact hquote

end Text

namespace Catalog

open Text

/-- What is written for a text that is not the first one in a list. -/
def nextQuoted (s : String) : List Char := ',' :: ' ' :: quotedChars s.toList

lemma toList_quotedList_cons (s : String) (ss : List String) :
    (quotedList (s :: ss)).toList =
      '[' :: (quotedChars s.toList ++ (ss.flatMap nextQuoted ++ [']'])) := by
  have hdetails : ∀ ss : List String, Value.details (ss.map .str) = ss.map quoted := by
    intro ss
    induction ss with
    | nil => rfl
    | cons s ss ih => exact congrArg (quoted s :: ·) ih
  have hjoined : ∀ (s : String) (ss : List String),
      (", ".intercalate ((s :: ss).map quoted)).toList = quotedChars s.toList ++
      ss.flatMap nextQuoted := by
    intro s ss
    induction ss generalizing s with
    | nil => simp [quoted]
    | cons s' ss ih =>
      rw [map_cons, map_cons, String.intercalate_cons_cons, String.toList_append,
        String.toList_append,
        ← map_cons, ih, quoted, String.toList_ofList, flatMap_cons, append_assoc]
      rfl
  have htext : quotedList (s :: ss) = "[" ++ ", ".intercalate ((s :: ss).map quoted) ++ "]" := by
    rw [← hdetails]
    rfl
  rw [htext, String.toList_append, String.toList_append, hjoined, append_assoc, append_assoc]
  rfl

/-- Whatever texts a list holds, the list in quotes can be encoded. -/
lemma isEncodable_quotedList (ss : List String) : isEncodable (quotedList ss) = true := by
  have hchars (s : String) : ∀ c ∈ quotedChars s.toList, isLone c = false := fun _ =>
    isLone_of_mem_quotedChars
  cases ss with
  | nil => rfl
  | cons s ss =>
    simp only [isEncodable, toList_quotedList_cons, all_cons, all_append, all_flatMap, nextQuoted,
      all_nil, Bool.and_true, Bool.and_eq_true, all_eq_true, Bool.not_eq_true']
    exact ⟨rfl, hchars s, fun t _ => ⟨rfl, rfl, hchars t⟩, rfl⟩

lemma delimits_quotedList : Delimits fun ss => (quotedList ss).toList := by
  have hnext : Delimits nextQuoted := by
    refine ⟨fun h => ?_⟩
    obtain ⟨hchars, hrest⟩ := delimits_quotedChars.inj (List.cons.inj (List.cons.inj h).2).2
    exact ⟨String.toList_inj.mp hchars, hrest⟩
  have hseries := hnext.flatMap (z := ']') fun s r r' h => by cases h
  have hempty (s : String) (r r' : List Char) : ']' :: r ≠ quotedChars s.toList ++ r' := by
    intro h
    have hquote : ']' = quoteFor s.toList := (List.cons.inj h).1
    rcases quoteFor_cases s.toList with hq | hq <;> rw [hq] at hquote <;> cases hquote
  refine ⟨fun {ss ss' r r'} h => ?_⟩
  rcases ss with _ | ⟨s, ss⟩ <;> rcases ss' with _ | ⟨s', ss'⟩
  · exact ⟨rfl, append_cancel_left h⟩
  · rw [toList_quotedList_cons, cons_append, append_assoc] at h
    exact absurd (List.cons.inj h).2 (hempty s' r _)
  · rw [toList_quotedList_cons, cons_append, append_assoc] at h
    exact absurd (List.cons.inj h).2.symm (hempty s r' _)
  · rw [toList_quotedList_cons, toList_quotedList_cons, cons_append, cons_append,
      append_assoc (quotedChars s.toList), append_assoc (quotedChars s'.toList)] at h
    obtain ⟨hchars, hmore⟩ := delimits_quotedChars.inj (List.cons.inj h).2
    obtain ⟨rfl, hrest⟩ := hseries.inj hmore
    exact ⟨by rw [String.toList_inj.mp hchars], hrest⟩

/-! ### Texts that are digested -/

variable {c c' : Catalog}

lemma isEncodable_classText (k : ClassRow) :
    isEncodable (c.classText k) = isEncodable (c.nameAt k.name) := by
  have h : isEncodable "class:" ∧ isEncodable ":bases:" ∧ isEncodable ":methods:" ∧
      isEncodable ":attrs:" ∧ isEncodable "" := by decide
  simp [classText, toString, isEncodable_append, isEncodable_quotedList, h]

lemma isEncodable_functionText (i : Nat) (f : FunctionRow) : isEncodable (c.functionText i f) =
    (isEncodable (c.nameAt f.name) && isEncodable ((f.returns.map c.nameAt).getD "None")) := by
  have h : isEncodable "func:" ∧ isEncodable ":params:" ∧ isEncodable ":return:" ∧
      isEncodable "" := by
    decide
  simp [functionText, toString, isEncodable_append, isEncodable_quotedList, h]

/-- Whether the names of classes and functions and the texts of what functions return can be
encoded. -/
def isDigestible (c : Catalog) : Bool :=
  c.classes.all (fun k => isEncodable (c.nameAt k.name))
    && c.functions.all fun f =>
    isEncodable (c.nameAt f.name) && f.returns.all (isEncodable <| c.nameAt ·)

lemma findSome?_objectTexts_iff :
    c.objectTexts.findSome? (encodeFault? ·.2) = none ↔ c.isDigestible = true := by
  have hreturns : ∀ f : FunctionRow, isEncodable ((f.returns.map c.nameAt).getD "None") =
      f.returns.all (isEncodable <| c.nameAt ·) := by
    intro f
    cases f.returns with
    | none => exact (by decide : isEncodable "None" = true)
    | some i => rfl
  have hall {α : Type} (l : List α) (P : α → Prop) : (∀ x ∈ l.zipIdx, P x.1) ↔ ∀ a ∈ l, P a := by
    rw [← forall_mem_map (f := Prod.fst), zipIdx_map_fst]
  simp only [findSome?_eq_none_iff, encodeFault?_eq_none_iff, objectTexts, forall_mem_append,
    forall_mem_map, isEncodable_classText, isEncodable_functionText, hreturns, isDigestible,
    Bool.and_eq_true, all_eq_true]
  rw [hall _ fun k : ClassRow => isEncodable (c.nameAt k.name) = true,
    hall _ fun f : FunctionRow => isEncodable (c.nameAt f.name) = true ∧
      f.returns.all (isEncodable <| c.nameAt ·) = true]

/-- Objects are digested exactly if their names and the texts of what they return can be encoded. -/
lemma addObjectHashes_eq_ok_iff {length : Int} :
    c.addObjectHashes length = .ok c' ↔ c.isDigestible = true ∧ c' = c.withObjectHashes length := by
  rw [addObjectHashes, ← findSome?_objectTexts_iff]
  split
  · next h => simp [h]
  · next h => simp only [h, Except.ok.injEq, true_and, eq_comm]

end Catalog

end CodeAtlas
