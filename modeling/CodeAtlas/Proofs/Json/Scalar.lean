import CodeAtlas.Data.Json.Reader
import CodeAtlas.Data.Json.Writer
import Mathlib.Data.List.Basic

/-!
# Scalars in JSON texts

What is written for a scalar is read as that scalar, whatever stands behind it that cannot go on a
number. The reader counts its steps; two for each character are enough (`Reads`).
-/

namespace CodeAtlas

open List Nat

variable {c d : Char} {l : Layout} {depth fuel m n : Nat} {cs ds rest : List Char}
  {start : List Char} {s : String}

/-- An integer with no more decimal digits than are converted. -/
def Digits.Within (n : Int) : Prop := (toDigits 10 n.natAbs).length ≤ Digits.limit

instance (n : Int) : Decidable (Digits.Within n) :=
  inferInstanceAs (Decidable ((toDigits 10 n.natAbs).length ≤ Digits.limit))

namespace Json

/-! ### Blanks -/

def isSpace (c : Char) : Bool := c = ' ' || c = '\t' || c = '\n' || c = '\r'

lemma skipBlanks_append {bs : List Char} (h : ∀ c ∈ bs, isSpace c) :
    skipBlanks (bs ++ cs) = skipBlanks cs := dropWhile_append_of_pos h

lemma skipBlanks_cons (h : isSpace c = false) (cs : List Char) :
    skipBlanks (c :: cs) = c :: cs := dropWhile_cons_of_neg (by simpa [isSpace] using h)

lemma isSpace_of_mem_edge (h : c ∈ l.edge depth) : isSpace c := by
  cases l with
  | indented =>
    rcases mem_cons.mp h with rfl | h
    · rfl
    · rw [eq_of_mem_replicate h]
      rfl
  | _ => simp [Layout.edge] at h

/-- What stands between two items behind the comma. -/
def Layout.gap (l : Layout) (depth : Nat) : List Char := (l.between depth).tail

lemma Layout.between_eq (l : Layout) (depth : Nat) : l.between depth = ',' :: l.gap depth := by
  cases l <;> rfl

lemma isSpace_of_mem_gap (h : c ∈ l.gap depth) : isSpace c := by
  cases l with
  | compact => simp [Layout.gap, Layout.between] at h
  | spaced =>
    obtain rfl : c = ' ' := by simpa [Layout.gap, Layout.between] using h
    rfl
  | indented =>
    have h : c ∈ Layout.edge .indented depth := h
    exact isSpace_of_mem_edge h

/-! ### Strings -/

lemma hexValue?_hexDigit {d : Nat} (h : d < 16) : Text.hexValue? (Text.hexDigit d) = some d := by
  revert d
  decide

lemma hexUnit?_hexDigits (h : n < 65536) (c : Char) (rest : List Char) :
    hexUnit? (Text.hexDigits 4 n ++ c :: rest) = some (n, c :: rest) := by
  have hdigit : ∀ m : Nat, Text.hexValue? (Text.hexDigit (m % 16)) = some (m % 16) := fun m =>
    hexValue?_hexDigit (mod_lt _ (by decide))
  simp only [Text.hexDigits, nil_append, cons_append, hexUnit?, hdigit, bind, Option.bind]
  congr 2
  omega

/-- The forms that a character can take in a string: an escape of two characters, an escape by its
number, or itself. -/
inductive EscapeForm (c : Char) : List Char → Prop
  | simple {e : Char} (he : simpleEscape? e = some c) (hunicode : e ≠ 'u') (hreturn : e ≠ '\r') :
      EscapeForm c ['\\', e]
  | unit (hc : c.toNat < 0x20) : EscapeForm c (unitEscape c.toNat)
  | plain (hquote : c ≠ '"') (hback : c ≠ '\\') (hc : ¬ c.toNat < 0x20) : EscapeForm c [c]

lemma escapeForm_escapedChar (c : Char) : EscapeForm c (escapedChar false c) := by
  unfold escapedChar
  split_ifs with hquote hback hfeed hreturn htab hb hf hcontrol hascii
  · subst hquote
    exact .simple rfl (by decide) (by decide)
  · subst hback
    exact .simple rfl (by decide) (by decide)
  · subst hfeed
    exact .simple rfl (by decide) (by decide)
  · subst hreturn
    exact .simple rfl (by decide) (by decide)
  · subst htab
    exact .simple rfl (by decide) (by decide)
  · obtain rfl : c = Char.ofNat 8 := by rw [← hb, Char.ofNat_toNat]
    exact .simple rfl (by decide) (by decide)
  · obtain rfl : c = Char.ofNat 12 := by rw [← hf, Char.ofNat_toNat]
    exact .simple rfl (by decide) (by decide)
  · exact .unit hcontrol
  · simp at hascii
  · exact .plain hquote hback hcontrol

lemma readString_escapedChar {rest' : List Char}
    (h : readString start fuel (d :: rest) = .ok (cs, rest')) :
    readString start (fuel + 1) (escapedChar false c ++ d :: rest) = .ok (c :: cs, rest') := by
  have hform := escapeForm_escapedChar c
  generalize escapedChar false c = t at hform ⊢
  cases hform with
  | simple he hunicode hreturn =>
    rw [cons_append, singleton_append, readString]
    · simp only [he, h, bind, Except.bind]
    · exact hunicode
  | unit hc =>
    have hunit := hexUnit?_hexDigits (n := c.toNat) (by omega) d rest
    have hhigh : isHighSurrogate c.toNat = false := by
      simp only [isHighSurrogate, Bool.and_eq_false_iff, decide_eq_false_iff_not]
      omega
    have hlow : isLowSurrogate c.toNat = false := by
      simp only [isLowSurrogate, Bool.and_eq_false_iff, decide_eq_false_iff_not]
      omega
    have hjoin : joinUnits c.toNat (d :: rest) = .ok (c, d :: rest) := by
      simp [joinUnits, hhigh, hlow]
    simp only [unitEscape, cons_append, readString, hunit, hjoin, h, bind, Except.bind]
  | plain hquote hback hc =>
    rw [singleton_append, readString, if_neg hc, h]
    · rfl
    · exact hquote
    · simp
    · exact fun _ heq _ => hback heq
    · exact fun _ _ heq _ => hback heq

/-- Escaped characters are read back up to the quote. -/
lemma readString_flatMap (start rest cs : List Char) (hfuel : cs.length < fuel) :
    readString start fuel (cs.flatMap (escapedChar false) ++ '"' :: rest) = .ok (cs, rest) := by
  induction cs generalizing fuel with
  | nil =>
    obtain ⟨fuel, rfl⟩ := Nat.exists_eq_add_one_of_ne_zero (Nat.ne_of_gt hfuel)
    rfl
  | cons c cs ih =>
    obtain ⟨fuel, rfl⟩ := Nat.exists_eq_add_one_of_ne_zero (Nat.ne_of_gt (Nat.zero_lt_of_lt hfuel))
    have hrest : readString start fuel (cs.flatMap (escapedChar false) ++ '"' :: rest) =
        .ok (cs, rest) :=
      ih (by simpa using hfuel)
    rw [flatMap_cons, append_assoc]
    -- what follows an escape is never empty: the closing quote is left at least
    rcases htail : cs.flatMap (escapedChar false) ++ '"' :: rest with _ | ⟨d, tail⟩
    · simp at htail
    · rw [htail] at hrest
      exact readString_escapedChar hrest

lemma length_le_flatMap_escapedChar (cs : List Char) :
    cs.length ≤ (cs.flatMap (escapedChar false)).length := by
  induction cs with
  | nil => simp
  | cons c cs ih =>
    have hc : 1 ≤ (escapedChar false c).length := by
      have hform := escapeForm_escapedChar c
      generalize escapedChar false c = t at hform ⊢
      cases hform <;> simp [unitEscape]
    simp only [flatMap_cons, length_append, length_cons]
    omega

/-! ### Numbers -/

/-- What may follow a value: nothing that could go on a number. -/
def Ends (rest : List Char) : Prop := ∀ c ∈ rest.head?, c ∈ [',', ']', '\x7d', '\n']

lemma Ends.eq_nil_or (h : Ends rest) :
    rest = [] ∨ ∃ c cs, rest = c :: cs ∧ (c = ',' ∨ c = ']' ∨ c = '\x7d' ∨ c = '\n') := by
  cases rest with
  | nil => exact Or.inl rfl
  | cons c cs => exact Or.inr ⟨c, cs, rfl, by simpa using h c rfl⟩

lemma value_of_isDigit (h : c.isDigit) : Digits.value c = c.toNat - '0'.toNat := by
  simp [Digits.value, h]

lemma ofChars_eq_ofDigitChars (h : ∀ c ∈ cs, c.isDigit) :
    Digits.ofChars 10 cs = ofDigitChars 10 cs 0 := by
  rw [Digits.ofChars, ofDigitChars_eq_foldl]
  generalize (0 : Nat) = n
  induction cs generalizing n with
  | nil => rfl
  | cons c cs ih =>
    rw [foldl_cons, foldl_cons, value_of_isDigit (h c mem_cons_self), Nat.mul_comm n]
    exact ih (fun d hd => h d (mem_cons_of_mem _ hd)) _

lemma isDigit_of_mem_toDigits : ∀ c ∈ toDigits 10 n, c.isDigit := fun _ =>
  Nat.isDigit_of_mem_toDigits (by decide) (by decide)

lemma ofChars_toDigits (n : Nat) : Digits.ofChars 10 (toDigits 10 n) = n := by
  rw [ofChars_eq_ofDigitChars isDigit_of_mem_toDigits, ofDigitChars_ten_toDigits]

lemma toString_inj (h : toString m = toString n) : m = n := by
  have hdigits : toDigits 10 m = toDigits 10 n := by
    rwa [toString_eq_ofList_toDigits, toString_eq_ofList_toDigits, String.ofList_inj] at h
  rw [← ofChars_toDigits m, hdigits, ofChars_toDigits]

lemma head_toDigits_ne_zero (hn : n ≠ 0) (h : toDigits 10 n = c :: cs) : c ≠ '0' := by
  induction n using Nat.strongRecOn generalizing c cs with
  | ind n ih =>
    by_cases hlt : n < 10
    · rw [toDigits_of_lt_base hlt] at h
      obtain ⟨rfl, -⟩ := List.cons.inj h
      have hdigit : ∀ d < 10, d ≠ 0 → digitChar d ≠ '0' := by decide
      exact hdigit n hlt hn
    · rw [toDigits_of_base_le (by decide) (by omega)] at h
      rcases hdigits : toDigits 10 (n / 10) with _ | ⟨d, ds⟩
      · exact absurd hdigits toDigits_ne_nil
      · rw [hdigits, cons_append] at h
        exact (List.cons.inj h).1 ▸ ih (n / 10) (by omega) (by omega) hdigits

lemma spanDigits_append (hds : ∀ c ∈ ds, c.isDigit) (hrest : Ends rest) :
    spanDigits (ds ++ rest) = (ds, rest) := by
  unfold spanDigits
  rw [takeWhile_append_of_pos hds, dropWhile_append_of_pos hds]
  rcases hrest.eq_nil_or with rfl | ⟨c, cs, rfl, hc⟩
  · simp
  · have hstop : ¬ c.isDigit := by
      rcases hc with rfl | rfl | rfl | rfl <;> decide
    rw [takeWhile_cons_of_neg hstop, dropWhile_cons_of_neg hstop, append_nil]

lemma spanWhole_toDigits (hrest : Ends rest) :
    spanWhole (toDigits 10 n ++ rest) = some (toDigits 10 n, rest) := by
  by_cases hn : n = 0
  · subst hn
    rfl
  · rcases hdigits : toDigits 10 n with _ | ⟨d, ds⟩
    · exact absurd hdigits toDigits_ne_nil
    · have hd := head_toDigits_ne_zero hn hdigits
      have hspan := spanDigits_append (hdigits ▸ isDigit_of_mem_toDigits) hrest
      rw [cons_append] at hspan ⊢
      rw [spanWhole, hspan]
      exact fun _ hc => hd (List.cons.inj hc).1

lemma readNumber_toDigits (neg : Bool) (hn : (toDigits 10 n).length ≤ Digits.limit)
    (hrest : Ends rest) :
    readNumber neg start (Nat.toDigits 10 n ++ rest) =
      .ok (.int (if neg then -n else n), rest) := by
  have hfraction : spanFraction rest = ([], rest) := by
    rcases hrest.eq_nil_or with rfl | ⟨c, cs, rfl, rfl | rfl | rfl | rfl⟩ <;> rfl
  have hexponent : spanExponent rest = none := by
    rcases hrest.eq_nil_or with rfl | ⟨c, cs, rfl, rfl | rfl | rfl | rfl⟩ <;> rfl
  simp only [readNumber, spanWhole_toDigits hrest, hfraction, hexponent, Nat.not_lt.mpr hn,
    if_false, ofChars_toDigits]

/-! ### Texts of values -/

/-- The characters that the text of a value starts with. -/
def openings : List Char := "-0123456789\"[ntf\x7b".toList

lemma of_mem_openings (h : c ∈ openings) :
    isSpace c = false ∧ c ≠ ']' ∧ 0x20 ≤ c.toNat ∧ c.toNat < 0x80 := by
  have hall : openings.all
    (fun c => decide (isSpace c = false ∧ c ≠ ']' ∧ 0x20 ≤ c.toNat ∧ c.toNat < 0x80)) =
      true := by decide
  exact of_decide_eq_true (all_eq_true.mp hall c h)

lemma mem_openings_of_isDigit (h : c.isDigit) : c ∈ openings := by
  have hascii : ∀ n < 128, (Char.ofNat n).isDigit → Char.ofNat n ∈ openings := by decide
  have hc : c.toNat ≤ '9'.toNat := (Char.isDigit_iff_toNat.mp h).2
  rw [← Char.ofNat_toNat c] at h ⊢
  exact hascii _ (Nat.lt_of_le_of_lt hc (by decide)) h

/-- A text stands for a value: whatever follows it, the text is taken and the value given. -/
structure Reads (t : List Char) (v : Value) : Prop where
  opens : ∃ c cs, t = c :: cs ∧ c ∈ openings
  returns : '\r' ∉ t
  read : ∀ rest n, Ends rest → 2 * t.length ≤ n → readValue n (t ++ rest) = .ok (v, rest)

lemma exists_steps (h : 2 * (c :: cs).length ≤ m) : ∃ n, m = n + 1 ∧ 2 * cs.length < n := by
  rw [length_cons] at h
  exact ⟨m - 1, by omega, by omega⟩

lemma keyword?_append (word : String) : keyword? word (word.toList ++ rest) = some rest := by
  have hprefix : word.toList.isPrefixOf (word.toList ++ rest) = true :=
    isPrefixOf_iff_prefix.mpr (prefix_append _ _)
  rw [keyword?, if_pos hprefix, ← String.length_toList, drop_left]

lemma keyword?_cons_of_ne {w : String} (hw : w.toList = d :: ds) (h : d ≠ c) (cs : List Char) :
    keyword? w (c :: cs) = none := by
  simp [keyword?, hw, h]

lemma reads_null : Reads "null".toList .null := by
  refine ⟨⟨_, _, rfl, by decide⟩, by decide, fun rest m _ hm => ?_⟩
  obtain ⟨n, rfl, -⟩ := exists_steps hm
  simp only [readValue, readScalar, keyword?_append]
  rfl

lemma reads_bool (b : Bool) : Reads (if b then "true" else "false").toList (.bool b) := by
  cases b with
  | true =>
    refine ⟨⟨_, _, rfl, by decide⟩, by decide, fun rest m _ hm => ?_⟩
    obtain ⟨n, rfl, -⟩ := exists_steps hm
    have hnull : keyword? "null" ("true".toList ++ rest) = none :=
      keyword?_cons_of_ne rfl (by decide) _
    have hscalar : readScalar ("true".toList ++ rest) = .ok (.bool true, rest) := by
      simp only [readScalar, hnull, keyword?_append]
    exact hscalar
  | false =>
    refine ⟨⟨_, _, rfl, by decide⟩, by decide, fun rest m _ hm => ?_⟩
    obtain ⟨n, rfl, -⟩ := exists_steps hm
    have hnull : keyword? "null" ("false".toList ++ rest) = none :=
      keyword?_cons_of_ne rfl (by decide) _
    have htrue : keyword? "true" ("false".toList ++ rest) = none :=
      keyword?_cons_of_ne rfl (by decide) _
    have hscalar : readScalar ("false".toList ++ rest) = .ok (.bool false, rest) := by
      simp only [readScalar, hnull, htrue, keyword?_append]
    exact hscalar

lemma toList_toString (n : Int) :
    (toString n).toList = if n < 0 then '-' :: toDigits 10 n.natAbs else toDigits 10 n.natAbs := by
  have hnat : ∀ m : Nat, (toString m).toList = toDigits 10 m := fun m => by
    rw [toString_eq_ofList_toDigits, String.toList_ofList]
  cases n with
  | ofNat m =>
    have htext : toString (Int.ofNat m) = toString m := rfl
    have hsign : ¬ Int.ofNat m < 0 := Int.not_lt.mpr (Int.natCast_nonneg m)
    rw [if_neg hsign, htext, hnat]
    rfl
  | negSucc m =>
    have htext : toString (Int.negSucc m) = "-" ++ toString (m + 1) := rfl
    rw [if_pos (Int.negSucc_lt_zero m), htext, String.toList_append, hnat]
    rfl

lemma toString_int_inj {m n : Int} (h : toString m = toString n) : m = n := by
  have hminus : ∀ k cs, '-' :: cs ≠ toDigits 10 k := by
    intro k cs heq
    have hdigit := Nat.isDigit_of_mem_toDigits (by decide) (by decide) (heq ▸ mem_cons_self)
    exact absurd hdigit (by decide)
  have habs : ∀ {k l : Nat}, toDigits 10 k = toDigits 10 l → k = l := by
    intro k l heq
    rw [← ofChars_toDigits k, heq, ofChars_toDigits]
  have htexts := congrArg String.toList h
  rw [toList_toString, toList_toString] at htexts
  split_ifs at htexts with hm hn hn
  · have := habs (List.cons.inj htexts).2
    omega
  · exact absurd htexts (hminus _ _)
  · exact absurd htexts.symm (hminus _ _)
  · have := habs htexts
    omega

lemma readScalar_of_isDigit (hc : c.isDigit) : readScalar (c :: cs) = readNumber false (c :: cs)
    (c :: cs) := by
  have hne : ∀ d, d.isDigit = false → d ≠ c := by
    rintro d hd rfl
    simp [hc] at hd
  have hminus : c ≠ '-' := (hne '-' (by decide)).symm
  rw [readScalar, keyword?_cons_of_ne (w := "null") rfl (hne _ (by decide)),
    keyword?_cons_of_ne (w := "true") rfl (hne _ (by decide)),
    keyword?_cons_of_ne (w := "false") rfl (hne _ (by decide)),
    keyword?_cons_of_ne (w := "NaN") rfl (hne _ (by decide)),
    keyword?_cons_of_ne (w := "Infinity") rfl (hne _ (by decide)),
    keyword?_cons_of_ne (w := "-Infinity") rfl (hne _ (by decide))]
  simp [hminus]

lemma readScalar_minus (hc : c.isDigit) :
    readScalar ('-' :: c :: cs) = readNumber true ('-' :: c :: cs) (c :: cs) := by
  have hinfinity : keyword? "-Infinity" ('-' :: c :: cs) = none := by
    have hne : 'I' ≠ c := by
      rintro rfl
      revert hc
      decide
    simp [keyword?, hne]
  rw [readScalar, keyword?_cons_of_ne (w := "null") rfl (by decide),
    keyword?_cons_of_ne (w := "true") rfl (by decide),
    keyword?_cons_of_ne (w := "false") rfl (by decide),
    keyword?_cons_of_ne (w := "NaN") rfl (by decide),
    keyword?_cons_of_ne (w := "Infinity") rfl (by decide), hinfinity]

lemma readValue_scalar (hquote : c ≠ '"') (hlist : c ≠ '[') (htable : c ≠ '\x7b') (n : Nat)
    (cs : List Char) : readValue (n + 1) (c :: cs) = readScalar (c :: cs) := by
  simp [readValue, hquote, hlist, htable]

/-- Integers are read back, if they have not too many digits. -/
lemma reads_int {n : Int} (hn : Digits.Within n) : Reads (toString n).toList (.int n) := by
  rcases hdigits : Nat.toDigits 10 n.natAbs with _ | ⟨d, ds⟩
  · exact absurd hdigits Nat.toDigits_ne_nil
  have hall : ∀ c ∈ d :: ds, c.isDigit := hdigits ▸ isDigit_of_mem_toDigits
  have hd : d.isDigit := hall d mem_cons_self
  have hreturn : '\r' ∉ d :: ds := fun h => absurd (hall _ h) (by decide)
  have hne : ∀ c, c.isDigit = false → d ≠ c := by
    rintro c hc rfl
    simp [hd] at hc
  rw [toList_toString, hdigits]
  by_cases hsign : n < 0
  · rw [if_pos hsign]
    refine ⟨⟨_, _, rfl, by decide⟩, by simpa using hreturn, fun rest m hrest hm => ?_⟩
    obtain ⟨k, rfl, -⟩ := exists_steps hm
    rw [cons_append, readValue_scalar (by decide) (by decide) (by decide), cons_append,
      readScalar_minus hd, ← cons_append, ← hdigits, readNumber_toDigits true hn hrest]
    have hvalue : -(n.natAbs : Int) = n := by omega
    rw [if_pos rfl, hvalue]
  · rw [if_neg hsign]
    refine ⟨⟨_, _, rfl, mem_openings_of_isDigit hd⟩, hreturn, fun rest m hrest hm => ?_⟩
    obtain ⟨k, rfl, -⟩ := exists_steps hm
    rw [cons_append, readValue_scalar (hne _ (by decide)) (hne _ (by decide)) (hne _ (by decide)),
      readScalar_of_isDigit hd, ← cons_append, ← hdigits, readNumber_toDigits false hn hrest]
    have hvalue : (n.natAbs : Int) = n := by omega
    rw [if_neg Bool.false_ne_true, hvalue]

lemma notMem_escapedChar : '\r' ∉ escapedChar false c := by
  have hform := escapeForm_escapedChar c
  generalize escapedChar false c = t at hform ⊢
  cases hform with
  | simple he hunicode hreturn => simp [hreturn.symm]
  | unit hc =>
    have hhex : ∀ n < 0x20, '\r' ∉ unitEscape n := by decide
    exact hhex _ hc
  | plain hquote hback hc =>
    intro h
    obtain rfl := mem_singleton.mp h
    exact hc (by decide)

lemma notMem_quote : '\r' ∉ quote false s := by
  simp only [quote, mem_cons, mem_append, mem_flatMap, not_mem_nil, or_false, not_or]
  exact ⟨by decide, fun ⟨c, _, hc⟩ => notMem_escapedChar hc, by decide⟩

lemma readString_quote (start : List Char) (s : String) (rest : List Char)
    (hn : (quote false s).length ≤ n) :
    readString start n (s.toList.flatMap (escapedChar false) ++ '"' :: rest) =
      .ok (s.toList, rest) := by
  have hlength := length_le_flatMap_escapedChar s.toList
  refine readString_flatMap start rest s.toList ?_
  simp only [quote, length_cons, length_append, length_nil] at hn
  omega

/-- Quoted texts are read back. -/
lemma reads_quote : Reads (quote false s) (.str s) := by
  refine ⟨⟨_, _, rfl, by decide⟩, notMem_quote, fun rest m _ hm => ?_⟩
  obtain ⟨n, rfl, hn⟩ := exists_steps hm
  have hlength : (quote false s).length ≤ n := by
    simp only [quote, length_cons] at hn ⊢
    omega
  have hstring := readString_quote (quote false s ++ rest) s rest hlength
  have htext : quote false s ++ rest =
      '"' :: (s.toList.flatMap (escapedChar false) ++ '"' :: rest) := by
    simp [quote]
  rw [htext] at hstring ⊢
  simp only [readValue, hstring, bind, Except.bind, String.ofList_toList]

end Json

end CodeAtlas
