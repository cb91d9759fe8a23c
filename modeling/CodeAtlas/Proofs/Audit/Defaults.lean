import CodeAtlas.Audit.Rule
import CodeAtlas.Proofs.Outline.Comments
import CodeAtlas.Proofs.Table

/-!
# Mutable defaults

What a default makes is told by the first character of its text, and tables from sets by a colon
anywhere in it (`mutable_default_told_iff`).
-/

namespace CodeAtlas.Audit

open Syntax Text List String Except

/-- The expressions that make a new list, table or set, and what they make. -/
inductive Makes : Expr → MutableKind → Prop
  | list (items : List Expr) : Makes (.list items) .list
  | listComp (element : Expr) (clauses : List Clause) : Makes (.listComp element clauses) .list
  | listCall : Makes (.call (.name "list") [] []) .list
  | dict (entries : List DictEntry) : Makes (.dict entries) .dict
  | dictComp (key value : Expr) (clauses : List Clause) : Makes (.dictComp key value clauses) .dict
  | dictCall : Makes (.call (.name "dict") [] []) .dict
  | set (items : List Expr) : Makes (.set items) .set
  | setComp (element : Expr) (clauses : List Clause) : Makes (.setComp element clauses) .set
  | setCall : Makes (.call (.name "set") [] []) .set

/-- The texts of such expressions. -/
inductive Shape : List Char → MutableKind → Prop
  | square (body : List Char) : Shape ('[' :: body ++ [']']) .list
  | braces {k : MutableKind} (body : List Char) (h : k = .dict ∨ k = .set) :
  Shape ('\x7b' :: body ++ ['\x7d']) k
  | listCall : Shape "list()".toList .list
  | dictCall : Shape "dict()".toList .dict
  | setCall : Shape "set()".toList .set

variable {e : Expr} {k : MutableKind} {text : String} {cs u v : List Char}

lemma Makes.shape (h : Makes e k) (ht : e.source = .ok text) : Shape text.toList k := by
  have hsquare {a : String} (ha : "[" ++ a ++ "]" = text) : Shape text.toList .list := by
    rw [← ha, toList_append, toList_append]
    exact .square a.toList
  have hbraces {a : String} (ha : "\x7b" ++ a ++ "\x7d" = text) {k : MutableKind}
      (hk : k = .dict ∨ k = .set) :
      Shape text.toList k := by
    rw [← ha, toList_append, toList_append]
    exact .braces a.toList hk
  cases h with
  | list items =>
    obtain ⟨a, -, ha⟩ := exists_of_ok_bind ht
    exact hsquare (ok.inj ha)
  | listComp element clauses =>
    obtain ⟨a, -, ht⟩ := exists_of_ok_bind ht
    obtain ⟨b, -, hb⟩ := exists_of_ok_bind ht
    refine hsquare (a := a ++ b) ?_
    simpa only [String.append_assoc] using Except.ok.inj hb
  | dict entries =>
    obtain ⟨a, -, ha⟩ := exists_of_ok_bind ht
    exact hbraces (ok.inj ha) (.inl rfl)
  | dictComp key value clauses =>
    obtain ⟨a, -, ht⟩ := exists_of_ok_bind ht
    obtain ⟨b, -, ht⟩ := exists_of_ok_bind ht
    obtain ⟨c, -, hc⟩ := exists_of_ok_bind ht
    refine hbraces (a := a ++ (": " ++ (b ++ c))) ?_ (.inl rfl)
    simpa only [String.append_assoc] using Except.ok.inj hc
  | set items =>
    obtain ⟨a, -, ha⟩ := exists_of_ok_bind ht
    exact hbraces (ok.inj ha) (.inr rfl)
  | setComp element clauses =>
    obtain ⟨a, -, ht⟩ := exists_of_ok_bind ht
    obtain ⟨b, -, hb⟩ := exists_of_ok_bind ht
    refine hbraces (a := a ++ b) ?_ (.inr rfl)
    simpa only [String.append_assoc] using Except.ok.inj hb
  | listCall => exact ok.inj ht ▸ .listCall
  | dictCall => exact ok.inj ht ▸ .dictCall
  | setCall => exact ok.inj ht ▸ .setCall

lemma mem_intercalate {c : Char} {t sep : String} {ts : List String} (ht : t ∈ ts)
    (hc : c ∈ t.toList) : c ∈ (sep.intercalate ts).toList := by
  rw [toList_intercalate]
  induction ts with
  | nil => cases ht
  | cons t' ts ih =>
    rcases ts with _ | ⟨t'', ts⟩
    · simpa [mem_singleton.mp ht] using hc
    · rw [List.map_cons, List.map_cons, List.intercalate_cons_cons]
      rcases mem_cons.mp ht with rfl | ht
      · exact mem_append_left _ (mem_append_left _ hc)
      · exact mem_append_right _ (ih ht)

lemma colon_mem_of_key {entries : List DictEntry} {ts : List String} {key value : Expr}
    (h : renderEntries false entries = .ok ts) (hkey : .mk (some key) value ∈ entries) :
    ∃ t ∈ ts, ':' ∈ t.toList := by
  induction entries generalizing ts with
  | nil => cases hkey
  | cons entry entries ih =>
    rcases entry with ⟨_ | k, v⟩
    · obtain ⟨a, -, h⟩ := exists_of_ok_bind h
      obtain ⟨rest, hrest, h⟩ := exists_of_ok_bind h
      obtain ⟨t, ht, hc⟩ := ih hrest (mem_of_ne_of_mem (by simp) hkey)
      obtain rfl := ok.inj h
      exact ⟨t, mem_cons_of_mem _ ht, hc⟩
    · obtain ⟨a, -, h⟩ := exists_of_ok_bind h
      obtain ⟨b, -, h⟩ := exists_of_ok_bind h
      obtain ⟨rest, -, h⟩ := exists_of_ok_bind h
      obtain rfl := ok.inj h
      exact ⟨_, mem_cons_self, by simp⟩

lemma stripChars_enclosed {o c : Char} (body : List Char) (ho : isBlank o = false)
    (hc : isBlank c = false) (hu : u.all isBlank = true) (hv : v.all isBlank = true) :
    stripChars (u ++ (o :: body ++ [c]) ++ v) = o :: body ++ [c] := by
  rw [stripChars_append_of_blank hv, stripChars, stripLeft, dropWhile_append,
    dropWhile_eq_nil_iff.mpr (by simpa using hu)]
  simp [stripRight, ho, hc]

lemma Shape.strip (h : Shape cs k) (hu : u.all isBlank = true) (hv : v.all isBlank = true) :
    Text.strip (ofList (u ++ cs ++ v)) = ofList cs := by
  have hkept : stripChars (u ++ cs ++ v) = cs := by
    cases h with
    | square body => exact stripChars_enclosed body (by decide) (by decide) hu hv
    | braces body => exact stripChars_enclosed body (by decide) (by decide) hu hv
    | listCall => exact stripChars_enclosed "ist(".toList (by decide) (by decide) hu hv
    | dictCall => exact stripChars_enclosed "ict(".toList (by decide) (by decide) hu hv
    | setCall => exact stripChars_enclosed "et(".toList (by decide) (by decide) hu hv
  rw [Text.strip, toList_ofList, hkept]

lemma endsWith_iff (s tail : String) : s.endsWith tail = true ↔ tail.toList <:+ s.toList := by
  rw [endsWith_eq_endsWith_toSlice, String.Slice.endsWith_string_iff, copy_toSlice]

lemma occursIn_singleton (c : Char) : occursIn [c] cs = true ↔ c ∈ cs := by
  induction cs with
  | nil => simp [occursIn]
  | cons d cs ih =>
    rw [occursIn, Bool.or_eq_true, ih, mem_cons]
    simp

lemma Shape.told (hshape : Shape text.toList k) (hu : u.all isBlank = true)
    (hv : v.all isBlank = true) :
    isMutable (ofList (u ++ text.toList ++ v)) = true ∧
      (mutableKind (ofList (u ++ text.toList ++ v)) = k ↔
      (k = .dict → ':' ∈ text.toList ∨ text = "dict()") ∧ (k = .set → ':' ∉ text.toList)) := by
  have hstrip := hshape.strip hu hv
  have hcolon : Text.contains text ":" = true ↔ ':' ∈ text.toList := occursIn_singleton ':'
  have hstarts (lead : String) : text.startsWith lead = true ↔ lead.toList <+: text.toList :=
    startsWith_string_iff
  have hends := endsWith_iff text
  have hne (name : String) (hfirst : name.toList.head? ≠ text.toList.head?) : text ≠ name := by
    rintro rfl
    exact hfirst rfl
  rw [ofList_toList] at hstrip
  simp only [isMutable, mutableKind, hstrip]
  generalize hcs : text.toList = cs at hshape hcolon hstarts hends hne
  cases hshape with
  | square body =>
    have hfirst := (hstarts "[").mpr (prefix_append ['['] (body ++ [']']))
    have hlast := (hends "]").mpr (suffix_append ('[' :: body) [']'])
    simp [hfirst, hlast]
  | braces body hk =>
    have hfirst := (hstarts "\x7b").mpr (prefix_append ['\x7b'] (body ++ ['\x7d']))
    have hlast := (hends "\x7d").mpr (suffix_append ('\x7b' :: body) ['\x7d'])
    have hsquare : text.startsWith "[" = false := by
      rw [Bool.eq_false_iff, Ne, hstarts]
      simp
    rw [← hcolon]
    have hlist := hne "list()" (by simp)
    have hdict := hne "dict()" (by simp)
    rcases hk with rfl | rfl <;> cases Text.contains text ":" <;>
      simp [hfirst, hlast, hsquare, hlist, hdict]
  | listCall =>
    obtain rfl : text = "list()" := toList_inj.mp hcs
    decide +kernel
  | dictCall =>
    obtain rfl : text = "dict()" := toList_inj.mp hcs
    decide +kernel
  | setCall =>
    obtain rfl : text = "set()" := toList_inj.mp hcs
    decide +kernel

/-- **What a mutable default is told to be.** The text of an expression that makes a list, table or
set counts as mutable in all cases. It is told to make what it makes, unless it makes a table by a
display without a colon in its text, or a set by one with a colon; a table with a key is told
rightly. -/
theorem mutable_default_told_iff (h : Makes e k) (ht : e.source = .ok text)
    (hu : u.all isBlank = true) (hv : v.all isBlank = true) :
    let default := ofList (u ++ text.toList ++ v)
    isMutable default = true ∧ (mutableKind default = k ↔
      (k = .dict → ':' ∈ text.toList ∨ text = "dict()") ∧ (k = .set → ':' ∉ text.toList)) ∧
      ∀ entries key value, e = .dict entries → .mk (some key) value ∈ entries →
      mutableKind default = k := by
  intro default
  obtain ⟨hmutable, hkind⟩ := (h.shape ht).told hu hv
  refine ⟨hmutable, hkind, ?_⟩
  rintro entries key value rfl hkey
  cases h
  obtain ⟨ts, hts, htext⟩ := exists_of_ok_bind ht
  obtain ⟨t, ht, hcolon⟩ := colon_mem_of_key hts hkey
  apply hkind.mpr
  rw [← ok.inj htext, toList_append, toList_append]
  exact ⟨fun _ => .inl (mem_append_left _ (mem_append_right _ (mem_intercalate ht hcolon))), nofun⟩

/-- An empty table, behind a blank. -/
theorem mutable_default_told_iff_empty :
    Makes (.dict []) .dict ∧ (Expr.dict []).source = .ok "\x7b\x7d" ∧
      isMutable " \x7b\x7d" = true := by
  have hsource : (Expr.dict []).source = .ok "\x7b\x7d" := by decide +kernel
  exact ⟨.dict [], hsource,
    (mutable_default_told_iff (u := [' ']) (v := []) (.dict []) hsource rfl rfl).1⟩

theorem tables_and_sets_confused :
    (Expr.dict []).source = .ok "\x7b\x7d" ∧ mutableKind "\x7b\x7d" = .set ∧
    (Expr.set [.constant (.str ":" false)]).source = .ok "\x7b':'\x7d" ∧
      mutableKind "\x7b':'\x7d" = .dict := by
  decide +kernel

end CodeAtlas.Audit
