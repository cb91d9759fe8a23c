import CodeAtlas.Settings
import CodeAtlas.Proofs.Session
import CodeAtlas.Proofs.Text

/-!
# What a project file settles

Whatever bytes it holds, settings come out of it (`Settings.load_settles`).
-/

namespace CodeAtlas

open List Option

variable {t : Files.Tree}

namespace Action

/-- Actions are done for values up to the first that fails. -/
lemma yields_forM {α : Type} {f : α → Action PUnit} {ok : α → Bool} {e : Failure}
    (h : ∀ x, Yields (f x) t (if ok x then .ok ⟨⟩ else .error e)) (xs : List α) :
    Yields (xs.forM f) t (if xs.all ok then .ok ⟨⟩ else .error e) := by
  induction xs with
  | nil => exact yields_pure _
  | cons x xs ih =>
    have hx := h x
    rw [all_cons]
    cases hok : ok x with
    | true =>
      rw [hok] at hx
      exact hx.bind ih
    | false =>
      rw [hok] at hx
      exact hx.bind_error _

lemma yields_access_error {α : Type} (f : AccessFault) :
    Yields (access (.error f) : Action α) t (.error (.access f)) :=
  yields_throw _

end Action

namespace Settings

open CodeAtlas.Action

variable {raw : List (String × Value)} {key : String} {default v : Value}

/-! ### Values and rules -/

lemma lookup_map (f : String → Value → Value) (es : List (String × Value)) :
    Value.lookup key (es.map fun e => (e.1, f e.1 e.2)) = (Value.lookup key es).map (f key) := by
  induction es with
  | nil => rfl
  | cons e es ih =>
    simp only [map_cons, Value.lookup]
    split_ifs with h
    · rw [h]
      rfl
    · exact ih

variable (raw : List (String × Value))

lemma keys_ofTable : (ofTable raw).values.map Prod.fst = defaults.map Prod.fst := by
  simp [ofTable, Function.comp_def]

lemma lookup_ofTable (h : Value.lookup key defaults = some default) (raw : List (String × Value)) :
    Value.lookup key (ofTable raw).values = some (settle raw key default) := by
  show Value.lookup key (defaults.map fun e => (e.1, settle raw e.1 e.2)) = _
  rw [lookup_map, h]
  rfl

lemma mem_of_lookup {es : List (String × Value)} (h : Value.lookup key es = some v) :
    (key, v) ∈ es := by
  induction es with
  | nil => cases h
  | cons e es ih =>
    simp only [Value.lookup] at h
    split_ifs at h with hkey
    · obtain rfl := Option.some.inj h
      exact hkey ▸ mem_cons_self
    · exact mem_cons_of_mem _ (ih h)

/-- Every default is allowed. -/
lemma allows_default (h : Value.lookup key defaults = some default) :
    allows key default = true := by
  have hall : ∀ d ∈ defaults, allows d.1 d.2 = true := by decide
  exact hall _ (mem_of_lookup h)

lemma allows_settle (h : Value.lookup key defaults = some default) :
    allows key (settle raw key default) = true := by
  simp only [settle]
  split_ifs with hv
  · exact hv
  · exact allows_default h

lemma exists_default_of_rule? {rule : Rule} (h : rule? key = some rule) :
    ∃ default, Value.lookup key defaults = some default := by
  unfold rule? at h
  split at h
  all_goals first | exact ⟨_, rfl⟩ | cases h

/-! ### Reading -/

/-- The entries of a table. -/
def entriesOf? : Value → Option (List (String × Value))
  | .table entries => some entries
  | _ => none

/-- The table `tool.py-indexer` in the bytes of a file, if they are the text of settings with such a
table. -/
def section? (bytes : List UInt8) : Option (List (String × Value)) := do
  let cs ← (Text.utf8 bytes).toOption
  let entries ← (Toml.read cs).toOption
  let tool ← entriesOf? (← Value.lookup "tool" entries)
  entriesOf? (← Value.lookup "py-indexer" tool)

/-- Whether all values of a table that are not allowed can be shown. -/
def canComplain (raw : List (String × Value)) : Bool := (refused raw).all (·.2.1.isShown)

/-- The settings that a file gives, unless they are the standard ones. -/
def found? (bytes : List UInt8) : Option Settings :=
  (section? bytes).bind fun raw => if canComplain raw then some (ofTable raw) else none

variable {p : Path} {bytes : List UInt8} {time : Int} {r : Except Failure (Option Settings)}

lemma yields_complain (setting : String × Value × Value) :
    Yields (complain setting) t (if setting.2.1.isShown then .ok ⟨⟩
      else .error (.toml .integerTooLong)) := by
  unfold complain
  dsimp only
  split_ifs
  · exact yields_log _ _ _
  · exact yields_throw _

lemma exists_yields_ofValue : ∃ r, Yields (ofValue v) t r ∧
    r.toOption = (entriesOf? v).bind fun raw => if canComplain raw then some (ofTable raw)
      else none := by
  cases v with
  | table raw =>
    have hcomplain := yields_forM (t := t) yields_complain (refused raw)
    rw [← canComplain] at hcomplain
    cases hall : canComplain raw with
    | true =>
      rw [hall] at hcomplain
      exact ⟨_, hcomplain.bind (yields_pure _), by simp [entriesOf?, hall, Except.toOption]⟩
    | false =>
      rw [hall] at hcomplain
      exact ⟨_, hcomplain.bind_error _, by simp [entriesOf?, hall, Except.toOption]⟩
  | _ => exact ⟨_, yields_access_error _, rfl⟩

lemma field_of_ne_table {tool : Value} (h : entriesOf? tool = none) :
    ∃ e, tool.field key = .error e := by
  cases tool with
  | table entries => cases h
  | _ => exact ⟨_, rfl⟩

lemma exists_yields_ofFile? (hread : t.read p = .ok (bytes, time)) :
    ∃ r, Yields (ofFile? p) t r ∧ r.toOption.bind id = found? bytes := by
  unfold ofFile?
  rcases hutf8 : Text.utf8 bytes with e | cs
  · refine ⟨_, (yields_readBytes hread).bind ((yields_decode_error hutf8).bind_error _), ?_⟩
    simp [found?, section?, hutf8, Except.toOption]
  suffices hrest : ∃ r, Yields _ t r ∧ r.toOption.bind id = found? bytes by
    obtain ⟨r, hr, hfound⟩ := hrest
    exact ⟨r, (yields_readBytes hread).bind ((yields_decode hutf8).bind hr), hfound⟩
  rcases htoml : Toml.read cs with e | entries
  · exact ⟨_, yields_throw _, by simp [found?, section?, hutf8, htoml, Except.toOption]⟩
  rcases htool : Value.lookup "tool" entries with _ | tool
  · simp only [htool]
    exact ⟨_, yields_pure none, by simp [found?, section?, hutf8, htoml, htool, Except.toOption]⟩
  have hfound : found? bytes = ((entriesOf? tool).bind (Value.lookup "py-indexer")).bind fun v =>
      (entriesOf? v).bind fun raw => if canComplain raw then some (ofTable raw) else none := by
    simp [found?, section?, hutf8, htoml, htool, Except.toOption, bind_assoc]
  rw [hfound]
  simp only [htool]
  rcases htable : entriesOf? tool with _ | items
  · obtain ⟨e, hfield⟩ := field_of_ne_table htable
    rw [hfield]
    rcases tool.has "py-indexer" with e' | _ | _
    · exact ⟨_, (yields_access_error e').bind_error _, rfl⟩
    · exact ⟨_, (yields_access rfl).bind (yields_pure none), rfl⟩
    · exact ⟨_, (yields_access rfl).bind ((yields_access_error e).bind_error _), rfl⟩
  · obtain rfl : tool = .table items := by
      cases tool <;> cases htable
      rfl
    rcases hsection : Value.lookup "py-indexer" items with _ | v
    · have hhas : (Value.table items).has "py-indexer" = .ok false := by simp [Value.has, hsection]
      exact ⟨_, (yields_access hhas).bind (yields_pure none), by simp [hsection, Except.toOption]⟩
    · have hhas : (Value.table items).has "py-indexer" = .ok true := by simp [Value.has, hsection]
      have hfield : (Value.table items).field "py-indexer" = .ok v :=
        by simp [Value.field, Value.part, hsection]
      obtain ⟨r, hr, hopt⟩ := exists_yields_ofValue (t := t)
      rw [bind_some, hsection, bind_some, ← hopt]
      cases r with
      | error e => exact ⟨_,
          (yields_access hhas).bind ((yields_access hfield).bind (hr.bind_error _)), rfl⟩
      | ok settings =>
        exact ⟨_, (yields_access hhas).bind ((yields_access hfield).bind (hr.bind (yields_pure _))),
          rfl⟩

lemma yields_load {path : String} (hpath : path ≠ "")
    (hread : t.read (.ofString path) = .ok (bytes, time)) :
    Yields (load (some path)) t (.ok ((found? bytes).getD standard)) := by
  obtain ⟨r, hr, hfound⟩ := exists_yields_ofFile? hread
  have hgiven : (some path).filter (!·.isEmpty) = some path := by simp [hpath]
  unfold load
  rw [hgiven, ← hfound]
  refine (yields_pure _).bind ((yields_isThere hread).bind ?_)
  refine (yields_pure _).bind (hr.attempt.bind ?_)
  rcases r with e | _ | settings
  · exact (yields_log _ _ _).bind (yields_pure _)
  · exact (yields_log _ _ _).bind (yields_pure _)
  · exact (yields_log _ _ _).bind (yields_pure _)

lemma exists_found?_eq_ofTable (bytes : List UInt8) :
    ∃ raw, (found? bytes).getD standard = ofTable raw := by
  unfold found?
  rcases section? bytes with _ | raw
  · exact ⟨[], rfl⟩
  · rw [bind_some]
    split_ifs
    · exact ⟨raw, rfl⟩
    · exact ⟨[], rfl⟩

/-- Loading settings from a file always succeeds. It gives a value to every setting and to nothing
else, and none breaks its rule. With a table of settings, what stands there is taken if it is
allowed, and else the default, unless a value that is not allowed cannot be shown: then all settings
are at their defaults, as they are without such a table. -/
theorem load_settles {s : Session} {path : String} (hpath : path ≠ "")
    (hread : s.tree.read (.ofString path) = .ok (bytes, time)) :
    ∃ settings s', load (some path) s = (.ok settings, s') ∧
      settings.values.map Prod.fst = defaults.map Prod.fst ∧
      (∀ key rule, rule? key = some rule →
        ∃ v, Value.lookup key settings.values = some v ∧ rule.allows v = true) ∧
      (section? bytes = none → settings = standard) ∧
      ∀ raw, section? bytes = some raw → (canComplain raw = false → settings = standard) ∧
        (canComplain raw = true → ∀ key default, Value.lookup key defaults = some default →
          (∀ v, Value.lookup key raw = some v → allows key v = true →
            Value.lookup key settings.values = some v) ∧
          ((∀ v, Value.lookup key raw = some v → allows key v = false) →
            Value.lookup key settings.values = some default)) := by
  obtain ⟨s', hrun, -⟩ := yields_load hpath hread s rfl
  obtain ⟨raw', hof⟩ := exists_found?_eq_ofTable bytes
  refine ⟨_, s', hrun, ?_, fun key rule hrule => ?_, fun hnone => ?_,
    fun raw hraw => ⟨fun hno => ?_, fun hyes => ?_⟩⟩
  · rw [hof, keys_ofTable]
  · obtain ⟨default, hdefault⟩ := exists_default_of_rule? hrule
    have hallows := allows_settle raw' hdefault
    rw [allows, hrule] at hallows
    exact ⟨_, hof ▸ lookup_ofTable hdefault raw', hallows⟩
  · simp [found?, hnone]
  · simp [found?, hraw, hno]
  · intro key default hdefault
    have hfound : found? bytes = some (ofTable raw) := by simp [found?, hraw, hyes]
    rw [hfound, getD_some, lookup_ofTable hdefault]
    refine ⟨fun v hv hallowed => ?_, fun hbroken => ?_⟩
    · simp [settle, hv, hallowed]
    · rcases hv : Value.lookup key raw with _ | v
      · simp [settle, hv]
      · simp [settle, hv, hbroken v hv]

/-- A project file with a depth that is allowed and a level that is not, a number of 3600
hexadecimal digits. -/
def longText : List Char :=
  "[tool.py-indexer]\nmax_ast_depth = 5\nlog_level = 0x".toList ++ replicate 3600 'F'

def longBytes : List UInt8 := Text.utf8Bytes (String.ofList longText)

def longTree : Files.Tree := ⟨.dir [("c.toml", .file longBytes 0)], []⟩

theorem load_settles_longTree :
    "c.toml" ≠ "" ∧ longTree.read (.ofString "c.toml") = .ok (longBytes, 0) ∧
    ∃ settings s', load (some "c.toml") { tree := longTree } = (.ok settings, s') ∧
      settings.values.map Prod.fst = defaults.map Prod.fst := by
  obtain ⟨settings, s', hrun, hkeys, -⟩ :=
    load_settles (s := { tree := longTree }) (show "c.toml" ≠ "" by decide) rfl
  exact ⟨by decide, rfl, settings, s', hrun, hkeys⟩

/-- The long number costs the depth its value, which is allowed. -/
theorem long_level_unsettles_depth : ∃ raw v settings s', section? longBytes = some raw ∧
    Value.lookup "max_ast_depth" raw = some v ∧ v.asInt? = some 5 ∧
      allows "max_ast_depth" v = true ∧
      load (some "c.toml") { tree := longTree } = (.ok settings, s') ∧
      Value.lookup "max_ast_depth" settings.values = some (.int 100) := by
  have hutf8 : Text.utf8 longBytes = .ok longText :=
    by rw [longBytes, Text.utf8_utf8Bytes, String.toList_ofList]
  have htext : ((section? longBytes).any fun raw =>
      (Value.lookup "max_ast_depth" raw).any (·.asInt? = some 5) && !canComplain raw) = true := by
    rw [section?, hutf8]
    decide +kernel
  obtain ⟨raw, hraw, htext⟩ := (any_eq_true _ _).mp htext
  rw [Bool.and_eq_true, Bool.not_eq_true'] at htext
  obtain ⟨v, hv, hfive⟩ := (any_eq_true _ _).mp htext.1
  rw [decide_eq_true_eq] at hfive
  obtain ⟨s', hrun, -⟩ := yields_load (show "c.toml" ≠ "" by decide) rfl { tree := longTree } rfl
  refine ⟨raw, v, _, s', hraw, hv, hfive, ?_, hrun, ?_⟩
  · simp [allows, rule?, Rule.allows, hfive]
  · rw [found?, hraw, bind_some, htext.2]
    rfl

end Settings

end CodeAtlas
