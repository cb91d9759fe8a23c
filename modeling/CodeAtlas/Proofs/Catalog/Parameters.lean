import CodeAtlas.Proofs.Catalog.Overlong
import CodeAtlas.Proofs.Catalog.Sound
import CodeAtlas.Proofs.Index.Annotations

/-!
# Parameters and their defaults

`Signature.bindings` says which default belongs to which parameter. The rows of a catalog follow it
(`defaults_attached`), but not all marks of required parameters are right
(`required_iff_needed_iff`).
-/

namespace CodeAtlas

open List Syntax

variable {α β γ : Type} {xs : List α} {ys : List β}

namespace Catalog

/-- A parameter, how arguments reach it, and its default. -/
structure Binding where
  kind : ParameterKind
  param : Param
  value : Option Expr

/-- Whether a call has to give the parameter. -/
def Binding.needed (b : Binding) : Bool :=
  match b.kind with
  | .rest | .keywordRest => false
  | _ => b.value.isNone

/-- Whether the default of a parameter of this kind is recorded. -/
def ParameterKind.takesDefault : ParameterKind → Bool
  | .regular | .keywordOnly => true
  | _ => false

/-- Whether an integer with too many digits would have to be described. -/
def Binding.isHuge (b : Binding) : Bool :=
  b.param.hint.any Expr.showsHuge || (b.kind.takesDefault && b.value.any Expr.isHuge)

end Catalog

namespace Syntax

open Catalog

/-- What the grammar guarantees of a signature: there are no more defaults than parameters, and a
slot for the default of every parameter that must be given by name. -/
structure Signature.WellFormed (s : Signature) : Prop where
  defaults : s.defaults.length ≤ s.posOnly.length + s.regular.length
  kwDefaults : s.kwDefaults.length = s.kwOnly.length

/-- The defaults of the parameters that can be given by position: the last of them have one. -/
def Signature.slots (s : Signature) : List (Option Expr) :=
  replicate (s.posOnly.length + s.regular.length - s.defaults.length) none ++ s.defaults.map some

def Signature.bindings (s : Signature) : List Binding :=
  s.posOnly.zipWith (Binding.mk .positionalOnly) s.slots
    ++ s.regular.zipWith (Binding.mk .regular) (s.slots.drop s.posOnly.length)
    ++ s.varArg.toList.map (Binding.mk .rest · none)
    ++ s.kwOnly.zipWith (Binding.mk .keywordOnly) s.kwDefaults
    ++ s.kwArg.toList.map (Binding.mk .keywordRest · none)

/-- Whether an expression is described where it is a default: literals, names, displays and
operations are. -/
def Expr.isDescribed : Expr → Bool
  | .name id => id ≠ ""
  | .constant _ | .list _ | .dict _ | .tuple _ | .set _ | .unary .. | .binary .. => true
  | _ => false

end Syntax

namespace Catalog

/-! ### Descriptions of defaults -/

lemma magnitude_ne_nil (l : Binary64.Layout) (m : Nat) (e : Int) : l.magnitude m e ≠ [] := by
  have hplace : ∀ ds point, l.place ds point ≠ [] := by
    intro ds point
    simp only [Binary64.Layout.place]
    by_cases hfar : point ≤ l.least ∨ l.greatest < point
    · simp [hfar]
    by_cases hleft : point ≤ 0
    · simp [hfar, hleft]
    by_cases hwhole : ds.length ≤ point.toNat
    · -- there are as many digits as places in front of the point
      simp only [hfar, hleft, hwhole, if_true, if_false, ne_eq, append_eq_nil_iff,
        replicate_eq_nil_iff]
      rintro ⟨⟨rfl, hnone⟩, -⟩
      simp at hnone
      omega
    · simp [hfar, hleft, hwhole]
  unfold Binary64.Layout.magnitude
  split_ifs <;> simp [hplace]

lemma constantText_ne_empty {v : Constant} (h : ∀ s marked, v ≠ .str s marked) {t : String}
    (ht : constantText v = .ok t) : t ≠ "" := by
  have htext : ∀ (l : Binary64.Layout) (x : Binary64), l.text x ≠ "" := by
    intro l x
    unfold Binary64.Layout.text
    split
    · decide
    · split <;> decide
    · simp [magnitude_ne_nil]
  cases v with
  | str s marked => exact absurd rfl (h s marked)
  | int n =>
    simp only [constantText, intText, Digits.text?] at ht
    split_ifs at ht
    cases ht
    change toString n ≠ ""
    simp
  | float x =>
    cases ht
    exact htext _ x
  | imaginary x =>
    cases ht
    simp
  | bytes bs =>
    cases ht
    simp [Text.quotedBytes]
  | _ =>
    cases ht
    decide

lemma isSome_of_defaultOf? {e : Expr} {d : Option String} (h : defaultOf? (some e) = .ok d) :
    d.isSome = e.isDescribed := by
  obtain ⟨t, ht, heq⟩ := exists_of_ok_bind h
  cases heq
  cases e with
  | constant v =>
    cases v with
    | str s marked =>
      cases ht
      simp [filled?, Expr.isDescribed]
    | _ =>
      simp only [defaultText?, ← bind_pure_comp] at ht
      obtain ⟨text, htext, heq⟩ := exists_of_ok_bind ht
      cases heq
      simp [filled?, Expr.isDescribed, constantText_ne_empty (by simp) htext]
  | name id =>
    cases ht
    by_cases h : id = "" <;> simp [filled?, Expr.isDescribed, h]
  | _ =>
    cases ht
    simp [filled?, Expr.isDescribed]

/-! ### Parameters in order -/

def Binding.sketch (b : Binding) : Except SourceFault ParameterSketch :=
  match b.kind with
  | .regular | .keywordOnly => defaultParameter b.kind b.param b.value
  | .positionalOnly => bareParameter b.kind true b.param
  | .rest | .keywordRest => bareParameter b.kind false b.param

lemma Binding.failsIf_sketch (b : Binding) : FailsIf b.isHuge b.sketch := by
  obtain ⟨kind, param, value⟩ := b
  have hbare (required : Bool) : FailsIf (param.hint.any Expr.showsHuge)
      (bareParameter kind required param) := (failsIf_hintText? param.hint).map _
  have hdefault : FailsIf (param.hint.any Expr.showsHuge || value.any Expr.isHuge)
      (defaultParameter kind param value) :=
    (failsIf_hintText? param.hint).bind fun _ => (failsIf_defaultOf? value).map _
  cases kind with
  | regular => exact hdefault
  | keywordOnly => exact hdefault
  | rest => simpa [isHuge, sketch, ParameterKind.takesDefault] using hbare false
  | keywordRest => simpa [isHuge, sketch, ParameterKind.takesDefault] using hbare false
  | positionalOnly => simpa [isHuge, sketch, ParameterKind.takesDefault] using hbare true

lemma map_zipIdx_eq_zipWith (g : α → β → γ) {f : Nat → β}
    (h : ∀ i < xs.length, ys[i]? = some (f i)) :
    xs.zipIdx.map (fun x => g x.1 (f x.2)) = xs.zipWith g ys := by
  refine ext_getElem? fun i => ?_
  rw [getElem?_map, getElem?_zipIdx, getElem?_zipWith]
  rcases hx : xs[i]? with _ | x
  · rfl
  · simp [h i (List.getElem?_eq_some_iff.mp hx).1]

lemma zipWith_left (g : α → γ) (h : xs.length ≤ ys.length) :
    xs.zipWith (fun x _ => g x) ys = xs.map g := by
  refine ext_getElem (by simp [h]) fun i _ _ => ?_
  simp

section

variable {s : Signature} (h : s.WellFormed)

include h

lemma length_slots : s.slots.length = s.posOnly.length + s.regular.length := by
  have := h.defaults
  simp only [Signature.slots, length_append, length_replicate, length_map]
  omega

lemma getElem?_slots {i : Nat} (hi : i < s.regular.length) :
    s.slots[s.posOnly.length + i]? = some (regularDefault? s i) := by
  have := h.defaults
  unfold Signature.slots regularDefault?
  by_cases hnone : (i : Int) < s.regular.length - s.defaults.length
  · rw [getElem?_append_left (by rw [length_replicate]; omega), getElem?_replicate,
      if_pos (by omega), if_neg (by omega)]
  · -- as many parameters come before the first default as there are too few defaults
    rw [getElem?_append_right (by rw [length_replicate]; omega), length_replicate,
      if_pos (by omega),
      getElem?_map, getElem?_eq_getElem (by omega), getElem?_eq_getElem (by omega), Option.map_some]
    congr 3
    omega

lemma parameterSketches_eq : parameterSketches s = s.bindings.mapM Binding.sketch := by
  have hmap {δ : Type} (l : List δ) (f : δ → Except SourceFault ParameterSketch) :
      l.mapM f = (l.map f).mapM id := by
    rw [mapM_map]
    rfl
  have hregular : s.regular.zipIdx.map
      (fun x => defaultParameter .regular x.1 (regularDefault? s x.2)) =
        s.regular.zipWith (defaultParameter .regular) (s.slots.drop s.posOnly.length) :=
    map_zipIdx_eq_zipWith _ fun i hi => by rw [getElem?_drop, getElem?_slots h hi]
  have hkwOnly : s.kwOnly.zipIdx.map
      (fun x => defaultParameter .keywordOnly x.1 (s.kwDefaults[x.2]?.join)) =
        s.kwOnly.zipWith (defaultParameter .keywordOnly) s.kwDefaults := by
    refine map_zipIdx_eq_zipWith (f := fun i => s.kwDefaults[i]?.join) _ fun i hi => ?_
    rw [getElem?_eq_getElem (h.kwDefaults.symm ▸ hi)]
    rfl
  have hposOnly : s.posOnly.zipWith (fun p _ => bareParameter .positionalOnly true p) s.slots =
      s.posOnly.map (bareParameter .positionalOnly true) :=
      zipWith_left _ (by rw [length_slots h]; omega)
  rw [hmap]
  simp only [Signature.bindings, map_append, map_zipWith, map_map]
  simp only [parameterSketches, hmap s.posOnly, hmap s.regular.zipIdx, hmap s.varArg.toList,
    hmap s.kwOnly.zipIdx, hmap s.kwArg.toList, hregular, hkwOnly, ← hposOnly, mapM_append,
    bind_assoc, pure_bind, append_assoc]
  rfl

/-- The parameters of a signature can be described unless there is an integer with too many digits.
-/
lemma failsIf_parameterSketches : FailsIf (s.bindings.any Binding.isHuge) (parameterSketches s) :=
  parameterSketches_eq h ▸ .mapM Binding.failsIf_sketch

lemma map_param_bindings : s.bindings.map (·.param) = s.parameters := by
  have hlength := length_slots h
  simp only [Signature.bindings, Signature.parameters, map_append, map_zipWith, map_map]
  rw [zipWith_left (fun p => p) (by omega), zipWith_left (fun p => p) (by rw [length_drop]; omega),
    zipWith_left (fun p => p) h.kwDefaults.ge]
  simp [Function.comp_def]

end

/-! ### Rows -/

/-- Rows are stored under the number of a function, if there are any. -/
def Stores (c c' : Catalog) (function : Nat) (rows : List ParameterRow) : Prop :=
  c'.parameters = if rows.isEmpty then c.parameters else c.parameters.put function rows

lemma exists_rows_addParameters (c : Catalog) (function : Nat) {s : Signature} (h : s.WellFormed)
    {ps : List ParameterSketch} (hps : parameterSketches s = .ok ps) :
    let r := c.addParameters function ps
    ∃ rows, c.Stores r.1 function rows ∧ rows.map (·.position) = r.2 ∧
      r.2 = List.range s.parameters.length ∧
      Forall₂ (fun row b => ∃ p, Binding.sketch b = .ok p ∧
      row.Records r.1.names p) rows s.bindings := by
  intro r
  have hkept := congrArg (·.parameters) (renames_addParameterRows c ps 0).eq
  have hrows := records_addParameterRows ps c 0
  have hsketches := forall₂_of_mapM (parameterSketches_eq h ▸ hps)
  have hnames : r.1.names = (c.addParameterRows 0 ps).1.names := by
    simp only [r, addParameters]
    split_ifs <;> rfl
  refine ⟨(c.addParameterRows 0 ps).2, ?_, rfl, ?_, ?_⟩
  · simp only [Stores, r, addParameters]
    split_ifs
    · exact hkept
    · exact congrArg (Keyed.put function _) hkept
  · rw [positions_addParameters, hsketches.length_eq, ← map_param_bindings h, length_map]
  · rw [← hnames] at hrows
    refine (forall₂_comp hrows hsketches).imp fun row b h => ?_
    obtain ⟨p, hrow, hp⟩ := h
    exact ⟨p, hp, hrow⟩

/-! ### The main results -/

/-- What the sketch of a parameter says of it. -/
structure Binding.Told (b : Binding) (p : ParameterSketch) : Prop where
  name : p.name = b.param.name
  kind : p.kind = b.kind
  default : (if b.kind.takesDefault then defaultOf? b.value else .ok none) = .ok p.default
  required : p.required = if b.kind.takesDefault then p.default.isNone else b.kind = .positionalOnly

lemma Binding.told {b : Binding} {p : ParameterSketch} (h : b.sketch = .ok p) : b.Told p := by
  obtain ⟨kind, param, value⟩ := b
  cases kind with
  | regular | keywordOnly =>
    obtain ⟨hint, -, h⟩ := exists_of_ok_bind h
    obtain ⟨default, hdefault, h⟩ := exists_of_ok_bind h
    cases h
    exact ⟨rfl, rfl, hdefault, rfl⟩
  | rest | keywordRest | positionalOnly =>
    obtain ⟨hint, -, h⟩ := exists_of_ok_bind h
    cases h
    exact ⟨rfl, rfl, rfl, rfl⟩

/-- A sketch has a default exactly if there is one that is described and recorded. -/
lemma Binding.Told.isSome_default_iff {b : Binding} {p : ParameterSketch} (h : b.Told p) :
    p.default.isSome = true ↔ b.kind.takesDefault = true ∧ ∃ e, b.value = some e ∧
      e.isDescribed = true := by
  have hdefault := h.default
  cases hkind : b.kind.takesDefault with
  | false =>
    rw [hkind] at hdefault
    simp [← Except.ok.inj hdefault]
  | true =>
    rw [hkind, if_pos rfl] at hdefault
    rcases hvalue : b.value with _ | e <;> rw [hvalue] at hdefault
    · simp [← Except.ok.inj hdefault]
    · simp [isSome_of_defaultOf? hdefault]

lemma Binding.Told.exists_value {b : Binding} {p : ParameterSketch} (h : b.Told p) {t : String}
    (ht : p.default = some t) : ∃ e, b.value = some e ∧ defaultText? e = .ok (some t) := by
  have hdefault := h.default
  rw [ht] at hdefault
  split_ifs at hdefault with hkind
  · rcases hvalue : b.value with _ | e <;> rw [hvalue] at hdefault
    · cases hdefault
    · obtain ⟨text, htext, heq⟩ := exists_of_ok_bind hdefault
      have hfilled := (Option.filter_eq_some_iff.mp (Except.ok.inj heq)).1
      exact ⟨e, rfl, hfilled ▸ htext⟩
  · cases hdefault

lemma Binding.Told.required_iff {b : Binding} {p : ParameterSketch} (h : b.Told p) :
    (b.needed = true → p.required = true) ∧
      (p.required = b.needed ↔ (b.kind = .positionalOnly → b.value = none) ∧
        (b.kind.takesDefault = true → ∀ e ∈ b.value, e.isDescribed = true)) := by
  have hdefault := h.isSome_default_iff
  rw [h.required]
  obtain ⟨kind, param, value⟩ := b
  cases kind with
  | regular | keywordOnly =>
    rcases value with _ | e <;> rcases hp : p.default with _ | t <;>
      simp [needed, ParameterKind.takesDefault, hp] at hdefault ⊢ <;> assumption
  | rest | keywordRest => simp [needed, ParameterKind.takesDefault]
  | positionalOnly =>
    rcases value with _ | e <;> simp [needed, ParameterKind.takesDefault]

/-- The parameters of a function are recorded unless an integer with too many digits is to be
described, in a hint or a default. Then one row is stored for each of them, in order and numbered
from zero. A row has a default exactly if its parameter has one that is described, unless it can be
given by position alone. This default is the number of the description of that very default. -/
theorem defaults_attached (c : Catalog) (function : Nat) (s : Signature) (h : s.WellFormed) :
    (s.bindings.any Binding.isHuge = true → parameterSketches s = .error .hugeInteger) ∧
    (s.bindings.any Binding.isHuge = false → ∃ ps, parameterSketches s = .ok ps ∧
      let r := c.addParameters function ps
      ∃ rows, c.Stores r.1 function rows ∧ r.2 = List.range s.parameters.length ∧
        rows.map (·.position) = List.range s.parameters.length ∧
        s.bindings.map (·.param) = s.parameters ∧
        Forall₂ (fun row b => row.kind = b.kind ∧ r.1.names.get? row.name = some b.param.name ∧
            (row.default.isSome ↔ b.kind.takesDefault ∧ ∃ e, b.value = some e ∧ e.isDescribed) ∧
            ∀ i, row.default = some i →
              ∃ e t, b.value = some e ∧ defaultText? e = .ok (some t) ∧ r.1.names.get? i = some t)
          rows s.bindings) := by
  refine ⟨fun hhuge => ?_, fun hhuge => ?_⟩
  · have hfails := failsIf_parameterSketches h
    rwa [hhuge] at hfails
  obtain ⟨ps, hps⟩ := (failsIf_parameterSketches h).ok_iff.mpr hhuge
  refine ⟨ps, hps, ?_⟩
  intro r
  obtain ⟨rows, hstores, hpositions, hrange, hrows⟩ := exists_rows_addParameters c function h hps
  refine ⟨rows, hstores, hrange, hpositions.trans hrange, map_param_bindings h,
    hrows.imp fun row b hrow => ?_⟩
  obtain ⟨p, hp, hrow⟩ := hrow
  have htold := Binding.told hp
  have hdefault := hrow.default
  refine ⟨hrow.kind.trans htold.kind, htold.name ▸ hrow.name, ?_, fun i hi => ?_⟩
  · rw [← htold.isSome_default_iff]
    rcases hd : row.default with _ | i <;> rw [hd] at hdefault
    · simp [← Option.some.inj hdefault]
    · obtain ⟨t, -, ht⟩ := Option.map_eq_some_iff.mp hdefault
      rw [← ht]
      rfl
  · rw [hi] at hdefault
    obtain ⟨t, ht, htext⟩ := Option.map_eq_some_iff.mp hdefault
    obtain ⟨e, hvalue, he⟩ := htold.exists_value htext.symm
    exact ⟨e, t, hvalue, he, ht⟩

/-- Two parameters before the slash, which take one of the two defaults, and all other kinds of
parameters. -/
def mixedSignature : Signature where
  posOnly := [⟨"a", none, rfl⟩, ⟨"b", none, rfl⟩]
  regular := [⟨"c", none, rfl⟩]
  defaults := [.constant (.int 1), .constant (.int 2)]
  varArg := some ⟨"d", none, rfl⟩
  kwOnly := [⟨"e", none, rfl⟩, ⟨"f", none, rfl⟩]
  kwDefaults := [none, some (.call (.name "g") [] [])]
  kwArg := some ⟨"h", none, rfl⟩

lemma wellFormed_mixedSignature : mixedSignature.WellFormed := ⟨by decide, rfl⟩

/-- The result at that signature: the last of its two defaults is that of `c`. -/
theorem defaults_attached_mixedSignature : mixedSignature.WellFormed ∧
    ∃ ps, parameterSketches mixedSignature = .ok ps ∧
      let r := ({} : Catalog).addParameters 0 ps
      ∃ rows, ({} : Catalog).Stores r.1 0 rows ∧ rows.map (·.position) = [0, 1, 2, 3, 4, 5, 6] ∧
        Forall₂ (fun row b => ∀ i, row.default = some i →
          ∃ e t, b.value = some e ∧ defaultText? e = .ok (some t) ∧ r.1.names.get? i = some t)
          rows mixedSignature.bindings := by
  obtain ⟨ps, hps, rows, hstores, -, hpositions, -, hrows⟩ :=
    (defaults_attached {} 0 mixedSignature wellFormed_mixedSignature).2 (by decide)
  exact ⟨wellFormed_mixedSignature, ps, hps, rows, hstores, hpositions,
    hrows.imp fun _ _ h => h.2.2.2⟩

/-- A default with more than 4300 digits, which is well within the grammar: there are no rows at
all. -/
theorem huge_default_not_attached : let digits := "0x".toList ++ List.replicate 4000 'f'
    let source := "def f(a=".toList ++ digits ++ "): pass\n".toList
    (parseModule? source).map (fun m => m.functionDefs.map fun d =>
      (d.2.1.signature.parameters.map (·.name),
      (parameterSketches d.2.1.signature).toOption.isSome)) = some [(["a"], false)] := by
  decide +kernel

/-- The rows of the parameters of a function, unless an integer with too many digits is to be
described, mark those that are required. Whatever a call has to give is marked. The mark of a
parameter is right exactly if it has no default where it can be given by position alone, and one
that is described where it can be given by name. -/
theorem required_iff_needed_iff (c : Catalog) (function : Nat) (s : Signature) (h : s.WellFormed) :
    (s.bindings.any Binding.isHuge = true → parameterSketches s = .error .hugeInteger) ∧
    (s.bindings.any Binding.isHuge = false → ∃ ps, parameterSketches s = .ok ps ∧
      let r := c.addParameters function ps
      ∃ rows, c.Stores r.1 function rows ∧ s.bindings.map (·.param) = s.parameters ∧
        Forall₂ (fun row b => row.kind = b.kind ∧ r.1.names.get? row.name = some b.param.name ∧
            (b.needed = true → row.required = true) ∧
            (row.required = b.needed ↔ (b.kind = .positionalOnly → b.value = none) ∧
              (b.kind.takesDefault = true → ∀ e ∈ b.value, e.isDescribed = true)))
          rows s.bindings) := by
  refine ⟨fun hhuge => ?_, fun hhuge => ?_⟩
  · have hfails := failsIf_parameterSketches h
    rwa [hhuge] at hfails
  obtain ⟨ps, hps⟩ := (failsIf_parameterSketches h).ok_iff.mpr hhuge
  refine ⟨ps, hps, ?_⟩
  intro r
  obtain ⟨rows, hstores, -, -, hrows⟩ := exists_rows_addParameters c function h hps
  refine ⟨rows, hstores, map_param_bindings h, hrows.imp fun row b hrow => ?_⟩
  obtain ⟨p, hp, hrow⟩ := hrow
  have htold := Binding.told hp
  refine ⟨hrow.kind.trans htold.kind, htold.name ▸ hrow.name, ?_⟩
  rw [hrow.required]
  exact htold.required_iff

/-- The result at a signature with a default before the slash and one that is not described. -/
theorem required_iff_needed_iff_mixedSignature : mixedSignature.WellFormed ∧
    ∃ ps, parameterSketches mixedSignature = .ok ps ∧
      let r := ({} : Catalog).addParameters 0 ps
      ∃ rows, ({} : Catalog).Stores r.1 0 rows ∧
        Forall₂ (fun row b => row.required = b.needed ↔
        (b.kind = .positionalOnly → b.value = none) ∧
          (b.kind.takesDefault = true → ∀ e ∈ b.value, e.isDescribed = true)) rows
            mixedSignature.bindings := by
  obtain ⟨ps, hps, rows, hstores, -, hrows⟩ :=
    (required_iff_needed_iff {} 0 mixedSignature wellFormed_mixedSignature).2 (by decide)
  exact ⟨wellFormed_mixedSignature, ps, hps, rows, hstores, hrows.imp fun _ _ h => h.2.2.2⟩

/-- A default before the slash and the call of a function: both parameters are marked as required.
-/
theorem defaults_marked_required : let source := "def f(a=1, /, b=g()): pass\n".toList
    (parseModule? source).map
      (fun m => m.functionDefs.map fun d => d.2.1.signature.bindings.map fun b =>
        (b.param.name, b.kind, b.needed)) =
        some [[("a", .positionalOnly, false), ("b", .regular, false)]] ∧
      (parseModule? source).bind
        (fun m => (recorded true [] [(⟨"", ["a.py"]⟩, "", m)]).toOption.map fun c =>
        c.parameters.map fun e => e.2.map fun row => (row.kind, row.required)) =
        some [[(.positionalOnly, true), (.regular, true)]] := by
  decide +kernel

end Catalog

end CodeAtlas
