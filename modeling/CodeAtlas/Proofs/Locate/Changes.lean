import CodeAtlas.Proofs.Locate.Visits
import Mathlib.Logic.Relation

/-!
# What a run does to locations, change by change

`Change` lists the ways in which a run changes locations, with all that is known when it does.
Whatever a run comes to, it makes changes of this kind, so what every change keeps holds of all
locations.
-/

namespace CodeAtlas.Locate

open List Syntax Catalog Step

variable {v : Value} {k : Nat} {name : String} {r : FunctionRow} {l : Locations} {span : Span}
  {head : FunctionHead} {body : List Stmt} {rows : List (FunctionRow × Nat)} {xs : List Finding}

/-! ### Changes -/

/-- One change to locations by the document of a catalog, where `F i f` says that `f` is read of
file `i`. -/
inductive Change (c : Catalog) (F : Nat → Reading → Prop) :
    Option (Nat × ClassSite) × Locations → Option (Nat × ClassSite) × Locations → Prop
  | file (l : Locations) (path : String) (lines size : Nat) (modified hash : String) :
      Change c F (none, l) (none, (l.addFile path lines size modified hash).1)
  | comment (l : Locations) {i n : Nat} {f : Reading} {line : List Char} {mark : Mark}
  {text : String}
      (read : F i f) (there : f.lines[n]? = some line) (marked : (mark, text) ∈ remarks line) :
      Change c F (none, l) (none, l.addComment i (n + 1) mark text)
  | imports (l : Locations) {i : Nat} {f : Reading} {s : Stmt} (read : F i f)
  (there : s ∈ f.module.body) :
      Change c F (none, l) (none, Locations.addModuleImports i l s)
  | moduleRow (l : Locations) {i k : Nat} {f : Reading} {r : Catalog.ModuleRow} {file : FileRow}
  (read : F i f)
      (row : c.modules[k]? = some r) (own : r.file = i) (recorded : l.files[i]? = some file) :
      Change c F (none, l) (none, { l with modules := l.modules ++
        [⟨k, .nat r.location, i, file.lines, docstringSpan? f.module.body⟩] })
  /-- A class is placed at a free row with its name, and then its methods are. -/
  | openClass {l l1 : Locations} {k : Nat} {r : ClassRow} {s : ClassSite} {f : Reading}
  {d : DefinitionRow}
      {v : Value} (read : F s.module f) (there : .classDef s.span s.head s.body ∈ f.module.body)
      (row : c.classes[k]? = some r) (named : c.names.get? r.name = some s.head.name)
      (free : k ∉ l.classes.map (·.number))
      (placed : Context.place ⟨v, s.module, f.lines⟩ k (.nat r.location) s.span s.head.decorators
        s.body l = (.ok d, l1)) :
      Change c F (none, l) (some (k, s), { l1 with classes := l1.classes ++ [d] })
  /-- A method of the class is placed at a free row of the class with its name. -/
  | method {l l1 : Locations} {owner : Nat × ClassSite} {k : Nat} {r : FunctionRow}
  {s : FunctionSite}
      {f : Reading} {d : DefinitionRow} {v : Value} (read : F s.module f)
        (same : owner.2.module = s.module)
      (there : .function s.span s.head s.body ∈ owner.2.body) (owned : s.owner = some owner.1)
      (row : c.functions[k]? = some r) (parent : r.parent = s.owner)
      (named : c.names.get? r.name = some s.head.name) (free : k ∉ l.functions.map (·.number))
      (placed : Context.place ⟨v, s.module, f.lines⟩ k (.nat r.location) s.span s.head.decorators
        s.body l = (.ok d, l1)) :
      Change c F (some owner, l) (some owner, { l1 with functions := l1.functions ++ [d] })
  | closeClass (owner : Nat × ClassSite) (l : Locations) : Change c F (some owner, l) (none, l)
  /-- A function outside classes is placed at a free row of no class with its name. -/
  | function {l l1 : Locations} {k : Nat} {r : FunctionRow} {s : FunctionSite} {f : Reading}
      {d : DefinitionRow} {v : Value} (read : F s.module f)
      (there : .function s.span s.head s.body ∈ f.module.body) (owned : s.owner = none)
      (row : c.functions[k]? = some r) (parent : r.parent = s.owner)
      (named : c.names.get? r.name = some s.head.name) (free : k ∉ l.functions.map (·.number))
      (placed : Context.place ⟨v, s.module, f.lines⟩ k (.nat r.location) s.span s.head.decorators
        s.body l = (.ok d, l1)) :
      Change c F (none, l) (none, { l1 with functions := l1.functions ++ [d] })
  | total (l : Locations) : Change c F (none, l) (none, { l with counted := l.count })

abbrev Changes (c : Catalog) (F : Nat → Reading → Prop) := Relation.ReflTransGen (Change c F)

/-- Whatever comes of a step, it makes changes, and the class whose methods are being placed stays
the same. -/
def Leads (c : Catalog) (F : Nat → Reading → Prop) (owner : Option (Nat × ClassSite)) {α : Type}
    (p : Placing α) : Prop :=
  ∀ l, Changes c F (owner, l) (owner, (p l).2)

section Leads

variable {c : Catalog} {F : Nat → Reading → Prop} {owner : Option (Nat × ClassSite)} {α β : Type}

lemma leads_pure (x : α) : Leads c F owner (pure x) := fun _ => .refl

lemma Leads.bind {p : Placing α} {g : α → Placing β} (hp : Leads c F owner p)
    (hg : ∀ x, Leads c F owner (g x)) : Leads c F owner (p >>= g) := by
  intro l
  have hfirst := hp l
  rcases hrun : p l with ⟨e | x, l1⟩ <;> rw [hrun] at hfirst
  · rw [bind_error hrun]
    exact hfirst
  · rw [bind_ok hrun]
    exact hfirst.trans (hg x l1)

lemma leads_read_bind {r : Except AccessFault α} {g : α → Placing β}
    (hg : ∀ x, r = .ok x → Leads c F owner (g x)) : Leads c F owner (read r >>= g) := by
  intro l
  rcases r with e | x
  · exact .refl
  · exact hg x rfl l

end Leads

variable {i : Nat} {owner : Option (Nat × ClassSite)}

/-! ### Readings of a catalog -/

lemma get?_of_part {names : Table} (h : (Value.strings names.items).part (.nat i) = .ok v) :
    ∃ name, v = .str name ∧ names.get? i = some name := by
  have hitem : Value.atIndex? (names.items.map Value.str) (i : Int) = (names.get? i).map .str := by
    simp [Value.atIndex?, Table.get?]
  rcases hget : names.get? i with _ | name
  · simp [Value.strings, Value.part, Value.nat, Value.asInt?, hitem, hget] at h
  · simp only [Value.strings, Value.part, Value.nat, Value.asInt?, hitem, hget, Option.map_some,
      Except.ok.injEq] at h
    exact ⟨name, h.symm, rfl⟩

section Placing

variable {c : Catalog} {F : Nat → Reading → Prop} {x : Context} (hx : x.Reads c) {i : Nat}
  {f : Reading} (hfile : x.file = i) (hlines : x.lines = f.lines) (hread : F i f)

/-! ### Definitions -/

include hx in
lemma Context.Reads.get?_of_same {row : Value} (position : Nat)
    (hrow : row.item position = .ok (.nat k))
    (hv : (do let i ← row.item position; (← x.catalog.field "names").part i) = .ok v)
    (hsame : v.same (.str name) = true) : c.names.get? k = some name := by
  rw [hrow, hx.names] at hv
  obtain ⟨text, rfl, htext⟩ := get?_of_part hv
  rw [Value.same_str, decide_eq_true_eq] at hsame
  rw [htext, hsame]

include hx in
lemma Context.Reads.leads_isFunction_bind {β : Type} {g : Bool → Placing β}
    {parent : Value} (hyes : (number? r.parent).same parent = true →
      c.names.get? r.name = some name →
      Leads c F owner (g true)) (hno : Leads c F owner (g false)) :
    Leads c F owner (x.isFunction r.toValue parent name >>= g) := by
  unfold Context.isFunction
  rw [bind_assoc]
  refine leads_read_bind fun p hp => ?_
  obtain rfl : p = number? r.parent := (Except.ok.inj hp).symm
  rw [bind_assoc]
  refine leads_read_bind fun v hv => ?_
  rw [pure_bind]
  rcases hboth : (number? r.parent).same parent && v.same (.str name) with _ | _
  · exact hno
  · rw [Bool.and_eq_true] at hboth
    exact hyes hboth.1 (hx.get?_of_same 2 rfl hv hboth.2)

include hx in
lemma Context.Reads.leads_isClass_bind {β : Type} {g : Bool → Placing β} {r : ClassRow}
    (hyes : c.names.get? r.name = some name → Leads c F owner (g true))
    (hno : Leads c F owner (g false)) : Leads c F owner (x.isClass r.toValue name >>= g) := by
  unfold Context.isClass
  rw [bind_assoc]
  refine leads_read_bind fun v hv => ?_
  rw [pure_bind]
  rcases hsame : v.same (.str name) with _ | _
  · exact hno
  · exact hyes (hx.get?_of_same 1 rfl hv hsame)

lemma leads_isPlaced_bind {β : Type} {g : Bool → Placing β}
    {placed : Locations → List DefinitionRow}
    (hplaced : Leads c F owner (g true)) (hfree : ∀ l : Locations, k ∉ (placed l).map (·.number) →
      Changes c F (owner, l) (owner, (g false l).2)) :
        Leads c F owner (isPlaced placed k >>= g) := by
  intro l
  rw [bind_ok (p := isPlaced placed k) (x := (placed l).any (·.number = k)) rfl]
  rcases hany : (placed l).any (·.number = k) with _ | _
  · exact hfree l fun hmem => Bool.false_ne_true (hany.symm.trans (any_number_iff.mpr hmem))
  · exact hplaced l

include hx hfile hlines

lemma exists_placeFunction_of_change (owner : Option (Nat × ClassSite))
    (hr : c.functions[k]? = some r) (s : FunctionSite)
    (hchange : ∀ {l1 d},
      Context.place ⟨x.catalog, i, f.lines⟩ k (.nat r.location) s.span s.head.decorators
      s.body l = (.ok d, l1) → Change c F (owner, l)
        (owner, { l1 with functions := l1.functions ++ [d] })) :
    ∃ l', x.placeFunction k s.span s.head s.body l = (.ok (), l') ∧ Change c F (owner, l)
      (owner, l') := by
  obtain ⟨d, l1, hplace⟩ : ∃ d l1, x.place k (.nat r.location) s.span s.head.decorators s.body l =
    (.ok d, l1) := ⟨_, _, rfl⟩
  refine ⟨_, hx.placeFunction_eq l hr hplace, hchange ?_⟩
  rw [← hfile, ← hlines]
  exact hplace

include hread

lemma leads_placeMethod {owner : Nat × ClassSite} (hmodule : owner.2.module = i)
    (hthere : .function span head body ∈ owner.2.body)
    (hrows : ∀ y ∈ rows, c.functions[y.2]? = some y.1) :
    Leads c F (some owner)
      (x.placeMethod owner.1 span head body (rows.map fun y => (y.1.toValue, y.2))) := by
  induction rows with
  | nil => exact leads_pure ()
  | cons y rows ih =>
    have hy := hrows y mem_cons_self
    have hrest := ih fun z hz => hrows z (mem_cons_of_mem _ hz)
    rw [map_cons, Context.placeMethod]
    refine hx.leads_isFunction_bind (fun hparent hname => ?_) hrest
    rw [same_number?, decide_eq_true_eq] at hparent
    refine leads_isPlaced_bind hrest fun l hfree => ?_
    obtain ⟨l', hrun, hchange⟩ := exists_placeFunction_of_change hx hfile hlines (some owner) hy
      ⟨i, some owner.1, span, head, body⟩ fun hplaced =>
      .method hread hmodule hthere rfl hy hparent hname hfree hplaced
    simp only [Bool.not_false, if_true]
    rw [bind_ok hrun]
    exact .head hchange (hrest l')

lemma leads_placeMethods (owner : Nat × ClassSite) (hmodule : owner.2.module = i)
    (hbody : body ⊆ owner.2.body) : Leads c F (some owner) (x.placeMethods owner.1 body) := by
  induction body with
  | nil => exact leads_pure ()
  | cons s body ih =>
    have hrest := ih fun s' hs' => hbody (mem_cons_of_mem _ hs')
    cases s with
    | function span head inner =>
      intro l
      rw [Context.placeMethods, bind_ok (hx.rows_functions l)]
      exact (leads_placeMethod hx hfile hlines hread hmodule (hbody mem_cons_self)
        fun y hy => getElem?_of_mem_zipIdx hy).bind (fun _ => hrest) l
    | _ => exact hrest

lemma changes_placeClass {r : ClassRow} {head : ClassHead}
    (hthere : .classDef span head body ∈ f.module.body)
    (hr : c.classes[k]? = some r) (hname : c.names.get? r.name = some head.name)
    (hfree : k ∉ l.classes.map (·.number)) : Changes c F (none, l)
      (none, ((do x.placeClass k span head body; x.placeMethods k body : Placing Unit) l).2) := by
  let site : ClassSite := ⟨i, span, head, body⟩
  obtain ⟨d, l1, hplace⟩ : ∃ d l1, x.place k (.nat r.location) span head.decorators body l =
    (.ok d, l1) := ⟨_, _, rfl⟩
  have hopen : Change c F (none, l) (some (k, site), { l1 with classes := l1.classes ++ [d] }) := by
    refine .openClass (v := x.catalog) hread hthere hr hname hfree ?_
    rw [← hlines, ← hplace, ← hfile]
  rw [bind_ok (hx.placeClass_eq l hr hplace)]
  exact (Relation.ReflTransGen.single hopen).trans
    ((leads_placeMethods hx hfile hlines hread (k, site) rfl (Subset.refl _) _).trans
      (.single (.closeClass _ _)))

lemma leads_placeFirstClass {head : ClassHead} (hthere : .classDef span head body ∈ f.module.body)
    {rows : List (ClassRow × Nat)} (hrows : ∀ y ∈ rows, c.classes[y.2]? = some y.1) :
    Leads c F none (x.placeFirstClass span head body (rows.map fun y => (y.1.toValue, y.2))) := by
  induction rows with
  | nil => exact leads_pure ()
  | cons y rows ih =>
    refine hx.leads_isClass_bind (fun hname => ?_) (ih fun z hz => hrows z (mem_cons_of_mem _ hz))
    exact leads_isPlaced_bind (leads_pure ()) fun l hfree =>
      changes_placeClass hx hfile hlines hread hthere (hrows y mem_cons_self) hname hfree

lemma leads_placeFirstFunction (hthere : .function span head body ∈ f.module.body)
    (hrows : ∀ y ∈ rows, c.functions[y.2]? = some y.1) :
    Leads c F none (x.placeFirstFunction span head body
      (rows.map fun y => (y.1.toValue, y.2))) := by
  induction rows with
  | nil => exact leads_pure ()
  | cons y rows ih =>
    have hy := hrows y mem_cons_self
    refine hx.leads_isFunction_bind (fun hparent hname => ?_)
      (ih fun z hz => hrows z (mem_cons_of_mem _ hz))
    rw [same_number?_missing, decide_eq_true_eq] at hparent
    refine leads_isPlaced_bind (leads_pure ()) fun l hfree => ?_
    obtain ⟨l', hrun, hchange⟩ := exists_placeFunction_of_change hx hfile hlines none hy
      ⟨i, none, span, head, body⟩ fun hplaced =>
      .function hread hthere rfl hy hparent hname hfree hplaced
    show Changes c F (none, l) (none, (x.placeFunction y.2 span head body l).2)
    rw [hrun]
    exact .single hchange

lemma leads_placeDefinitions (hbody : body ⊆ f.module.body) :
    Leads c F none (x.placeDefinitions body) := by
  induction body with
  | nil => exact leads_pure ()
  | cons s body ih =>
    have hrest := ih fun s' hs' => hbody (mem_cons_of_mem _ hs')
    cases s with
    | classDef span head inner =>
      intro l
      rw [Context.placeDefinitions, bind_ok (hx.rows_classes l)]
      exact (leads_placeFirstClass hx hfile hlines hread (hbody mem_cons_self)
        fun y hy => getElem?_of_mem_zipIdx hy).bind (fun _ => hrest) l
    | function span head inner =>
      intro l
      rw [Context.placeDefinitions, bind_ok (hx.rows_functions l)]
      exact (leads_placeFirstFunction hx hfile hlines hread (hbody mem_cons_self)
        fun y hy => getElem?_of_mem_zipIdx hy).bind (fun _ => hrest) l
    | _ => exact hrest

/-! ### Modules, imports and comments -/

omit hlines in
lemma leads_placeModules {rows : List (Catalog.ModuleRow × Nat)}
    (hrows : ∀ y ∈ rows, c.modules[y.2]? = some y.1) :
    Leads c F none (x.placeModules f.module (rows.map fun y => (y.1.toValue, y.2))) := by
  induction rows with
  | nil => exact leads_pure ()
  | cons y rows ih =>
    have hrest := ih fun z hz => hrows z (mem_cons_of_mem _ hz)
    have hy := hrows y mem_cons_self
    rw [map_cons, Context.placeModules]
    refine leads_read_bind fun v hv => ?_
    obtain rfl : v = .nat y.1.file := (Except.ok.inj hv).symm
    split
    · rename_i hsame
      have hown : y.1.file = i := by
        rw [hfile, Value.nat, Value.same_int, decide_eq_true_eq] at hsame
        exact Int.natCast_inj.mp hsame
      refine Leads.bind ?_ fun _ => hrest
      intro l
      unfold Context.placeModule
      rw [bind_ok (hx.location_module l hy), bind_ok (p := get) (x := l) rfl, hfile]
      have hat : Value.atIndex? l.files (i : Int) = l.files[i]? := by simp [Value.atIndex?]
      rw [hat]
      rcases hrecorded : l.files[i]? with _ | file
      · exact .refl
      · exact .single (.moduleRow l hread hy hown hrecorded)
    · exact hrest

omit hx hlines hfile in
lemma changes_addComments {n : Nat} {lines : List (List Char)} (hdrop : f.lines.drop n = lines)
    (l : Locations) : Changes c F (none, l) (none, l.addComments i (n + 1) lines) := by
  induction lines generalizing n l with
  | nil => exact .refl
  | cons line lines ih =>
    have hline : f.lines[n]? = some line := by
      rw [← Nat.add_zero n, ← getElem?_drop, hdrop]
      rfl
    have hrest : f.lines.drop (n + 1) = lines := by
      rw [← drop_drop, hdrop]
      rfl
    -- the marked comments of a line, as far as they are not yet recorded
    have hmarked : ∀ found ⊆ remarks line, ∀ l : Locations, Changes c F (none, l)
        (none, found.foldl (fun l remark => l.addComment i (n + 1) remark.1 remark.2) l) := by
      intro found hfound
      induction found with
      | nil => exact fun _ => .refl
      | cons remark found ih' =>
        intro l
        exact .head (.comment l hread hline (hfound mem_cons_self))
          (ih' (fun r hr => hfound (mem_cons_of_mem _ hr)) _)
    exact (hmarked _ (Subset.refl _) l).trans (ih hrest _)

omit hx hlines hfile in
lemma changes_addModuleImports (hbody : body ⊆ f.module.body) (l : Locations) :
    Changes c F (none, l) (none, body.foldl (Locations.addModuleImports i) l) := by
  induction body generalizing l with
  | nil => exact .refl
  | cons s body ih =>
    exact .head (.imports l hread (hbody mem_cons_self))
      (ih (fun s' hs' => hbody (mem_cons_of_mem _ hs')) _)

lemma leads_placeAll : Leads c F none (x.placeAll f.module) := by
  unfold Context.placeAll
  refine Leads.bind ?_ fun _ => Leads.bind ?_ fun _ => ?_
  · intro l
    rw [hfile, hlines]
    exact changes_addComments hread (n := 0) rfl l
  · intro l
    rw [hfile]
    exact changes_addModuleImports hread (Subset.refl _) l
  · intro l
    rw [bind_ok (hx.rows_modules l)]
    exact (leads_placeModules hx hfile hread fun y hy => getElem?_of_mem_zipIdx hy).bind
      (fun _ => leads_placeDefinitions hx hfile hlines hread (Subset.refl _)) l

end Placing

/-! ### Runs -/

section Runs

variable {c : Catalog} {F : Nat → Reading → Prop} {catalog : Value}
  (hreads : ∀ file lines, Context.Reads ⟨catalog, file, lines⟩ c)

include hreads

lemma changes_meet {x : Finding} (hx : ∀ f, x = .source f → F i f) (l : Locations) :
    Changes c F (none, l) (none, (meet catalog i l x).2) := by
  cases x with
  | nothing => exact .refl
  | refused e => exact .refl
  | text path bytes time =>
    rcases hutf8 : Text.utf8 bytes with e | cs <;> simp only [meet, hutf8]
    · exact .refl
    · exact .single (.file l _ _ _ _ _)
  | source f =>
    rcases hutf8 : Text.utf8 f.bytes with e | cs
    · rw [meet, visit_of_error hutf8]
    · rw [meet, visit_of_utf8 hutf8]
      exact .head (.file l _ _ _ _ _) (leads_placeAll (hreads _ _) rfl rfl (hx f rfl) _)

/-- Files are met one after the other by changes. -/
lemma changes_meetAll (hxs : ∀ (j : Nat) f, xs[j]? = some (.source f) → F (i + j) f)
    (l : Locations) : Changes c F (none, l) (none, (meetAll catalog i xs l).2) := by
  induction xs generalizing i l with
  | nil => exact .refl
  | cons x xs ih =>
    have hmeet := changes_meet hreads (F := F) (x := x) (fun f hf => hxs 0 f (congrArg some hf)) l
    rcases hrun : meet catalog i l x with ⟨e | _, l1⟩ <;> rw [Nat.add_zero, hrun] at hmeet
    · rw [meetAll_cons_error hrun]
      exact hmeet
    · rw [meetAll_cons_ok hrun]
      refine hmeet.trans (ih (fun j f hf => ?_) l1)
      have hnext := hxs (j + 1) f hf
      rwa [← Nat.add_assoc, Nat.add_right_comm] at hnext

/-- All that a run does to locations is changes, whatever it comes to. -/
lemma changes_outcomeOf (hxs : ∀ (j : Nat) f, xs[j]? = some (.source f) → F j f) :
    Changes c F (none, {}) (none, (outcomeOf catalog xs).2) := by
  have hmeet := changes_meetAll hreads (i := 0) (fun j f hf => (Nat.zero_add j).symm ▸ hxs j f hf)
    {}
  unfold outcomeOf
  rcases hrun : meetAll catalog 0 xs {} with ⟨e | _, l⟩ <;> rw [hrun] at hmeet
  · exact hmeet
  · exact hmeet.tail (.total l)

end Runs

end CodeAtlas.Locate
