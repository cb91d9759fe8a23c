import CodeAtlas.Proofs.Audit
import Mathlib.Data.List.ReduceOption

/-!
# What audits record

An audit is a replay of the events that its outlines hold, in order (`runs_record`).
-/

namespace CodeAtlas.Audit

open List Outline Option Table

variable {β : Type} {g : Function} {f : File} {fs : List File} {a : Audit}

/-! ### Events -/

/-- What an audit meets in an outline. -/
inductive Event where
  | name (text : String)
  | default (text : String)
  | mutableDefault (found : MutableDefault)
  | missingHint (found : MissingHint)
  | missingDocstring (found : MissingDocstring)
  | dependency (found : Dependency)

variable {es : List Event} {file : Nat}

namespace Event

def name? : Event → Option String
  | name text => some text
  | _ => none

def default? : Event → Option String
  | default text => some text
  | _ => none

def mutableDefault? : Event → Option MutableDefault
  | mutableDefault found => some found
  | _ => none

def missingHint? : Event → Option MissingHint
  | missingHint found => some found
  | _ => none

def missingDocstring? : Event → Option MissingDocstring
  | missingDocstring found => some found
  | _ => none

def dependency? : Event → Option Dependency
  | dependency found => some found
  | _ => none

end Event

/-- A parameter lacks a type hint: it is neither a receiver nor open. -/
def Unhinted (p : Parameter) : Prop :=
  p.name ∉ receiverNames ∧ (∀ kind ∈ p.kind, kind ∉ openKinds) ∧ present p.hint = false

instance (p : Parameter) : Decidable (Unhinted p) := inferInstanceAs (Decidable (_ ∧ _ ∧ _))

/-- A public function lacks the type hint of a parameter or of its result. -/
def LacksHints (g : Function) : Prop :=
  isPublic g.name ∧ ((∃ p ∈ g.parameters, Unhinted p) ∨ present g.returns = false)

instance (g : Function) : Decidable (LacksHints g) := inferInstanceAs (Decidable (_ ∧ (_ ∨ _)))

def hintEvents (file : Nat) (g : Function) : List Event :=
  if LacksHints g then [.missingHint ⟨g.name, file, g.firstLine⟩] else []

/-- A public class or function lacks documentation. -/
def docstringEvents (kind : Documentable) (file : Nat) (name : String) (line : Int)
    (docstring : Option String) : List Event :=
  if isPublic name ∧ present docstring = false then [.missingDocstring ⟨name, kind, file, line⟩]
    else []

/-- A parameter: its name, its type hint and its default, the last two if they are there and not
empty. -/
def parameterEvents (file : Nat) (g : Function) (p : Parameter) : List Event :=
  .name p.name :: (present? p.hint).toList.map .name ++ (present? p.default).toList.flatMap fun d =>
    .default d :: if isMutable
      d then [.mutableDefault ⟨g.name, file, g.firstLine, p.name, d, mutableKind d⟩] else []

def signatureEvents (file : Nat) (g : Function) : List Event :=
  .name g.name :: g.decorators.map .name ++ g.parameters.flatMap (parameterEvents file g) ++
    (present? g.returns).toList.map .name

def functionEvents (file : Nat) (g : Function) : List Event :=
  signatureEvents file g ++
    (hintEvents file g ++ docstringEvents .function file g.name g.firstLine g.docstring)

def attributeEvents (x : Attribute) : List Event :=
  .name x.name :: (present? x.hint).toList.map .name ++ (present? x.default).toList.map .default

/-- A class with a constructor: it is given its parts if the constructor has a parameter besides its
receiver. -/
def dependencyEvents (file : Nat) (c : Outline.Class) : List Event :=
  (c.methods.find? (·.name = "__init__")).toList.map fun init =>
    .dependency ⟨c.name, file, c.firstLine, decide (∃ p ∈ init.parameters, p.name ∉ receiverNames)⟩

def headEvents (c : Outline.Class) : List Event :=
  .name c.name :: c.bases.map .name ++ c.decorators.map .name ++
    c.attributes.flatMap attributeEvents

def classEvents (file : Nat) (c : Outline.Class) : List Event :=
  headEvents c ++ (c.methods.flatMap (functionEvents file) ++
    (docstringEvents .class file c.name c.firstLine c.docstring ++ dependencyEvents file c))

def importEvents (i : Import) : List Event := .name i.module :: i.names.map .name

/-- What an audit meets in a file with a number: its imports, its classes and then its functions. -/
def fileEvents (file : Nat) (f : File) : List Event :=
  f.imports.flatMap importEvents ++
    (f.classes.flatMap (classEvents file) ++ f.functions.flatMap (functionEvents file))

def pathTable (fs : List File) : Table := ⟨(fs.map (·.path)).eraseDups⟩

/-- What an audit meets in files, each of which has the number of its path. -/
def events (fs : List File) : List Event :=
  fs.flatMap fun f => fileEvents ((pathTable fs).items.idxOf f.path) f

/-! ### Replaying events -/

def record (a : Audit) : Event → Audit
  | .name text => a.addName text
  | .default text => a.addDefault text
  | .mutableDefault found => { a with mutableDefaults := a.mutableDefaults ++ [found] }
  | .missingHint found => { a with missingHints := a.missingHints ++ [found] }
  | .missingDocstring found => { a with missingDocstrings := a.missingDocstrings ++ [found] }
  | .dependency found => { a with dependencies := a.dependencies ++ [found] }

def replay (a : Audit) (es : List Event) : Audit := es.foldl record a

lemma replay_append (es es' : List Event) : a.replay (es ++ es') = (a.replay es).replay es' :=
  foldl_append

lemma replay_cons (e : Event) : a.replay (e :: es) = (a.record e).replay es := rfl

lemma foldl_eq_replay {step : Audit → β → Audit} {eventsOf : β → List Event}
    (h : ∀ a b, step a b = a.replay (eventsOf b)) (bs : List β) :
    bs.foldl step a = a.replay (bs.flatMap eventsOf) := by
  induction bs generalizing a with
  | nil => rfl
  | cons b bs ih => rw [foldl_cons, flatMap_cons, replay_append, ih, h]

lemma view_replay {γ : Type} (view : Audit → γ) (pick : Event → Option β) (step : γ → β → γ)
    (h : ∀ a e, view (record a e) = (pick e).elim (view a) (step (view a))) :
    view (a.replay es) = (es.filterMap pick).foldl step (view a) := by
  induction es generalizing a with
  | nil => rfl
  | cons e es ih =>
    rw [replay_cons, ih, h]
    cases hpick : pick e <;> simp [hpick]

lemma table_replay (view : Audit → Table) (pick : Event → Option String)
    (h : ∀ a e, view (record a e) = (pick e).elim (view a) fun text => ((view a).add text).1)
    (hstart : view {} = {})
    (es : List Event) : (view (replay {} es)).items = (es.filterMap pick).eraseDups := by
  rw [view_replay view pick (fun t text => (t.add text).1) h, hstart, items_foldl_add]

lemma list_replay (view : Audit → List β) (pick : Event → Option β)
    (h : ∀ a e, view (record a e) = (pick e).elim (view a) fun found => view a ++ [found])
    (hstart : view {} = []) (es : List Event) : view (replay {} es) = es.filterMap pick := by
  have hfold : ∀ xs ys : List β, ys.foldl (fun l y => l ++ [y]) xs = xs ++ ys := by
    intro xs ys
    induction ys generalizing xs with
    | nil => simp
    | cons y ys ih => simp [ih]
  rw [view_replay view pick (fun l found => l ++ [found]) h, hstart, hfold, nil_append]

lemma outlined_replay : (a.replay es).outlined = a.outlined.replay es := by
  induction es generalizing a with
  | nil => rfl
  | cons e es ih =>
    rw [replay_cons, replay_cons, ih]
    cases e <;> rfl

lemma replay_withFiles (t : Table) (es : List Event) :
    ({ a with files := t } : Audit).replay es = { a.replay es with files := t } := by
  induction es generalizing a with
  | nil => rfl
  | cons e es ih =>
    rw [replay_cons, replay_cons, ← ih]
    cases e <;> rfl

lemma addNames_eq_replay (a : Audit) (names : List String) :
    a.addNames names = a.replay (names.map .name) := by
  induction names generalizing a with
  | nil => rfl
  | cons n names ih => exact ih (a.addName n)

lemma addName?_eq_replay (name : Option String) :
    a.addName? name = a.replay ((present? name).toList.map .name) := by
  unfold addName?
  cases present? name <;> rfl

lemma addImport_eq_replay (a : Audit) (i : Import) : a.addImport i = a.replay (importEvents i) :=
  addNames_eq_replay _ _

lemma addAttribute_eq_replay (a : Audit) (x : Attribute) :
    a.addAttribute x = a.replay (attributeEvents x) := by
  unfold addAttribute attributeEvents
  rw [cons_append, replay_cons, replay_append, ← addName?_eq_replay]
  cases present? x.default <;> rfl

lemma addParameter_eq_replay (g : Function) (a : Audit) (p : Parameter) :
    addParameter file g a p = a.replay (parameterEvents file g p) := by
  unfold addParameter parameterEvents
  rw [cons_append, replay_cons, replay_append, ← addName?_eq_replay]
  cases present? p.default with
  | none => rfl
  | some d =>
    simp only [toList_some, flatMap_singleton]
    split <;> rfl

lemma addSignature_eq_replay : a.addSignature file g = a.replay (signatureEvents file g) := by
  unfold addSignature signatureEvents
  rw [cons_append, cons_append, replay_cons, replay_append, replay_append, ← addName?_eq_replay,
    ← addNames_eq_replay, ← foldl_eq_replay (addParameter_eq_replay g)]
  rfl

lemma noteDocstring_eq_replay (kind : Documentable) (file : Nat) (name : String) (line : Int)
    (docstring : Option String) :
    a.noteDocstring kind file name line docstring =
      a.replay (docstringEvents kind file name line docstring) := by
  unfold noteDocstring docstringEvents
  cases hdocstring : present docstring <;> cases hname : isPublic name <;> rfl

lemma noteDependency_eq_replay (c : Outline.Class) :
    a.noteDependency file c = a.replay (dependencyEvents file c) := by
  unfold noteDependency dependencyEvents isInjected?
  cases c.methods.find? (·.name = "__init__") with
  | none => rfl
  | some init =>
    have hany : (init.parameters.any fun p => !receiverNames.contains p.name) =
        decide (∃ p ∈ init.parameters, p.name ∉ receiverNames) := by
      rw [Bool.eq_iff_iff]
      simp
    simp only [map_some, hany]
    rfl

/-! ### Checking type hints -/

/-- The kinds of all parameters are known. -/
def KindsKnown (f : File) : Prop := ∀ g ∈ f.definitions, ∀ p ∈ g.parameters, p.kind.isSome

instance (f : File) : Decidable (KindsKnown f) :=
  inferInstanceAs (Decidable (∀ g ∈ f.definitions, ∀ p ∈ g.parameters, p.kind.isSome))

lemma parametersHinted_of_kinds {ps : List Parameter} (hkinds : ∀ p ∈ ps, p.kind.isSome) :
    parametersHinted ps = .ok (decide ¬ ∃ p ∈ ps, Unhinted p) := by
  induction ps with
  | nil => rfl
  | cons p ps ih =>
    obtain ⟨kind, hkind⟩ := isSome_iff_exists.mp (hkinds p mem_cons_self)
    have hrest := ih fun q hq => hkinds q (mem_cons_of_mem _ hq)
    have hcons : (∃ q ∈ p :: ps, Unhinted q) ↔ Unhinted p ∨ ∃ q ∈ ps, Unhinted q := by simp
    have hp : Unhinted p ↔ p.name ∉ receiverNames ∧ kind ∉ openKinds ∧ present p.hint = false := by
      simp [Unhinted, hkind]
    simp only [parametersHinted, hkind, hrest, contains_eq_mem, hcons, hp]
    by_cases hname : p.name ∈ receiverNames
    · simp [hname]
    · by_cases hopen : kind ∈ openKinds
      · simp [hname, hopen]
      · cases hhint : present p.hint <;> simp [hname, hopen]

lemma hasHints_of_kinds (hpublic : isPublic g.name) (hkinds : ∀ p ∈ g.parameters, p.kind.isSome) :
    hasHints g = .ok (decide ¬ LacksHints g) := by
  have hinit : g.name ≠ "__init__" := by
    intro hname
    rw [hname] at hpublic
    exact absurd hpublic (by decide +kernel)
  unfold hasHints LacksHints
  rw [not_special_of_isPublic hpublic, parametersHinted_of_kinds hkinds]
  by_cases h : ∃ p ∈ g.parameters, Unhinted p
  · simp [h, hpublic, bind, Except.bind, pure, Except.pure]
  · simp [h, hpublic, hinit, bind, Except.bind, pure, Except.pure]

/-! ### Auditing outlines -/

/-- A step succeeds, and what it records is a replay of events. -/
def Records (p : Auditing Unit) (es : List Event) : Prop := ∀ a : Audit, p a = (.ok (), a.replay es)

lemma records_modify {f : Audit → Audit} (h : ∀ a, f a = a.replay es) : Records (modify f) es := by
  intro a
  rw [← h]
  rfl

lemma Records.bind {p : Auditing Unit} {q : Unit → Auditing Unit} {es' : List Event}
    (hp : Records p es) (hq : Records (q ()) es') : Records (p >>= q) (es ++ es') := by
  intro a
  rw [bind_ok (hp a), hq, replay_append]

lemma records_auditFunction (hkinds : ∀ p ∈ g.parameters, p.kind.isSome) :
    Records (auditFunction file g) (functionEvents file g) := by
  have hdocstring := records_modify fun a =>
    noteDocstring_eq_replay .function file g.name g.firstLine g.docstring
  unfold auditFunction
  apply (records_modify fun a => addSignature_eq_replay).bind
  by_cases hpublic : isPublic g.name
  · simp only [hpublic, if_true, hasHints_of_kinds hpublic hkinds]
    refine (records_modify fun a => ?_).bind hdocstring
    unfold noteHints hintEvents
    by_cases h : LacksHints g <;> simp [h] <;> rfl
  · have hnone : hintEvents file g = [] := if_neg fun h => hpublic h.1
    simp only [hpublic, hnone]
    exact hdocstring

lemma records_auditFunctions (file : Nat) {gs : List Function}
    (hkinds : ∀ g ∈ gs, ∀ p ∈ g.parameters, p.kind.isSome) :
    Records (auditFunctions file gs) (gs.flatMap (functionEvents file)) := by
  induction gs with
  | nil => exact fun _ => rfl
  | cons g gs ih =>
    have hrest := ih fun h hh => hkinds h (mem_cons_of_mem _ hh)
    exact (records_auditFunction (hkinds g mem_cons_self)).bind hrest

lemma records_auditClass (file : Nat) {c : Outline.Class}
    (hkinds : ∀ g ∈ c.methods, ∀ p ∈ g.parameters, p.kind.isSome) :
    Records (auditClass file c) (classEvents file c) := by
  unfold auditClass
  refine (records_modify fun a => ?_).bind
    ((records_auditFunctions file hkinds).bind (records_modify fun a => ?_))
  · unfold headEvents
    rw [cons_append, cons_append, replay_cons, replay_append, replay_append,
      foldl_eq_replay addAttribute_eq_replay, ← addNames_eq_replay, ← addNames_eq_replay]
    rfl
  · rw [replay_append, noteDependency_eq_replay, noteDocstring_eq_replay]

lemma records_auditClasses (file : Nat) {cs : List Outline.Class}
    (hkinds : ∀ g ∈ cs.flatMap (·.methods), ∀ p ∈ g.parameters, p.kind.isSome) :
    Records (auditClasses file cs) (cs.flatMap (classEvents file)) := by
  induction cs with
  | nil => exact fun _ => rfl
  | cons c cs ih =>
    rw [flatMap_cons] at hkinds
    have hclass := records_auditClass file fun g hg => hkinds g (mem_append_left _ hg)
    exact hclass.bind (ih fun g hg => hkinds g (mem_append_right _ hg))

lemma auditOutline_of_kinds (hkinds : KindsKnown f) (a : Audit) : auditOutline f a =
    (.ok (a.files.add f.path).2,
      (a.addFile f.path).1.replay (fileEvents (a.files.add f.path).2 f)) := by
  generalize hi : (a.files.add f.path).2 = i
  have hclasses := records_auditClasses i fun g hg => hkinds g (mem_append_left _ hg)
  have hfunctions := records_auditFunctions i fun g hg => hkinds g (mem_append_right _ hg)
  have hrun := (hclasses.bind (q := fun _ => auditFunctions i f.functions) hfunctions)
    (f.imports.foldl addImport (a.addFile f.path).1)
  rw [auditOutline_apply, hi, bind_ok hrun, foldl_eq_replay addImport_eq_replay, ← replay_append]
  rfl

/-! ### Auditing files -/

lemma mem_pathTable {path : String} : path ∈ (pathTable fs).items ↔ path ∈ fs.map (·.path) :=
  mem_eraseDups

lemma add_pathTable : ((pathTable fs).add f.path).1 = pathTable (fs ++ [f]) := by
  have hconcat : pathTable (fs ++ [f]) = ⟨if f.path ∈ fs.map (·.path) then (pathTable fs).items
      else (pathTable fs).items ++ [f.path]⟩ := by
    simp only [pathTable, map_append, map_cons, map_nil, eraseDups_concat]
  rw [hconcat]
  by_cases h : f.path ∈ fs.map (·.path)
  · rw [add_of_mem (mem_pathTable.mpr h), if_pos h]
  · rw [add_of_notMem (mt mem_pathTable.mp h), if_neg h]

lemma events_concat : events (fs ++ [f]) = events fs ++
    fileEvents ((pathTable (fs ++ [f])).items.idxOf f.path) f := by
  have hextends := extends_add (pathTable fs) f.path
  rw [add_pathTable] at hextends
  have hkept : ∀ g ∈ fs, fileEvents ((pathTable (fs ++ [f])).items.idxOf g.path) g =
      fileEvents ((pathTable fs).items.idxOf g.path) g := by
    intro g hg
    rw [hextends.idxOf (mem_pathTable.mpr (mem_map_of_mem hg))]
  rw [events, events, flatMap_append, flatMap_singleton, flatMap_congr hkept]

/-- What comes of outlines in an audit is a replay of what was met in files. -/
def Recorded (fs : List File) (a : Audit) : Prop :=
  a.outlined = { ({} : Audit).replay (events fs) with files := pathTable fs }

lemma Recorded.files (h : Recorded fs a) : a.files = pathTable fs := by
  rw [← files_outlined, h]

lemma Recorded.concat (h : Recorded fs a) {a' : Audit}
    (ha' : a'.outlined =
      ((a.addFile f.path).1.replay (fileEvents (a.files.add f.path).2 f)).outlined) :
    Recorded (fs ++ [f]) a' := by
  have hadd : (a.files.add f.path).1 = pathTable (fs ++ [f]) := by rw [h.files, add_pathTable]
  have hnumber : (a.files.add f.path).2 = (pathTable (fs ++ [f])).items.idxOf f.path := by
    rw [add_snd, hadd]
  have haddFile : (a.addFile f.path).1.outlined =
      { ({} : Audit).replay (events fs) with files := pathTable (fs ++ [f]) } := by
    rw [← hadd]
    exact congrArg (fun b : Audit => { b with files := (a.files.add f.path).1 }) h
  unfold Recorded
  rw [ha', outlined_replay, haddFile, hnumber, events_concat, replay_append]
  exact replay_withFiles _ _

lemma exists_auditFiles_of_kinds (detectors : Detectors) {files : List (Option File)}
    (hkinds : ∀ f, some f ∈ files → KindsKnown f) (a : Audit) (s : Session) :
    ∃ a' s', auditFiles detectors files a s = ((.ok (), a'), s') ∧
      ∀ fs, Recorded fs a → Recorded (fs ++ files.reduceOption) a' := by
  induction files generalizing a s with
  | nil => exact ⟨a, s, rfl, fun fs h => by simpa [List.reduceOption] using h⟩
  | cons file files ih =>
    have hrest : ∀ f, some f ∈ files → KindsKnown f := fun f hf => hkinds f (mem_cons_of_mem _ hf)
    cases file with
    | none => exact ih hrest a s
    | some f =>
      have hrun := auditOutline_of_kinds (hkinds f mem_cons_self) a
      have hlift : (monadLift (auditOutline f) : Inspecting Nat) a s = ((.ok (a.files.add f.path).2,
          (a.addFile f.path).1.replay (fileEvents (a.files.add f.path).2 f)), s) := by
        simp only [monadLift, MonadLift.monadLift, hrun]
        rfl
      obtain ⟨s1, hinspect, -⟩ := yields_inspect detectors f (a.files.add f.path).2 s.tree
        ((a.addFile f.path).1.replay (fileEvents (a.files.add f.path).2 f)) s rfl
      obtain ⟨a2, s2, hrun2, hrecorded⟩ := ih hrest _ s1
      refine ⟨a2, s2, ?_, fun fs h => ?_⟩
      · rw [← hrun2]
        exact (Work.bind_ok hlift _).trans (Work.bind_ok hinspect _)
      · have hfiles := hrecorded _ (h.concat rfl)
        rwa [append_assoc] at hfiles

/-! ### The main result -/

/-- A request to audit files, with what is at hand then. -/
structure Call where
  detectors : Detectors := {}
  files : List (Option File)
  session : Session

def Call.apply (c : Call) (a : Audit) : Except Failure Unit × Audit :=
  (run c.detectors c.files a c.session).1

lemma exists_apply (c : Call) (hkinds : ∀ f, some f ∈ c.files → KindsKnown f) (a : Audit) :
    ∃ a', c.apply a = (.ok (), a') ∧ ∀ fs, Recorded fs a →
      Recorded (fs ++ c.files.reduceOption) a' := by
  obtain ⟨s1, hs1⟩ := exists_run c.detectors c.files a c.session
  obtain ⟨a', s2, hrun, hrecorded⟩ := exists_auditFiles_of_kinds c.detectors hkinds a s1
  obtain ⟨s3, hcall⟩ := hs1 _ _ _ hrun
  exact ⟨a', congrArg Prod.fst hcall, hrecorded⟩

def afterCalls (calls : List Call) : Audit := calls.foldl (fun a c => (c.apply a).2) {}

lemma recorded_afterCalls {calls : List Call}
    (hkinds : ∀ c ∈ calls, ∀ f, some f ∈ c.files → KindsKnown f) :
    Recorded (calls.flatMap (·.files)).reduceOption (afterCalls calls) := by
  have hfrom : ∀ fs a, Recorded fs a → Recorded (fs ++ (calls.flatMap (·.files)).reduceOption)
      (calls.foldl (fun a c => (c.apply a).2) a) := by
    induction calls with
    | nil => exact fun fs a h => by simpa [List.reduceOption] using h
    | cons c calls ih =>
      intro fs a h
      obtain ⟨a', happly, hrecorded⟩ := exists_apply c (hkinds c mem_cons_self) a
      have hnext := ih (fun d hd => hkinds d (mem_cons_of_mem _ hd)) _ a' (hrecorded fs h)
      rw [foldl_cons, happly]
      simpa [flatMap_cons, reduceOption_append] using hnext
  exact hfrom [] {} rfl

lemma find?_iff_of_eraseDups {t : Table} {texts : List String} (h : t.items = texts.eraseDups)
    (text : String) :
    (∀ i, t.find? text = some i ↔ t.get? i = some text) ∧ (t.find? text = none ↔ text ∉ texts) := by
  have hnumbers := numbers_of_nodup (t := t) (h ▸ nodup_eraseDups texts)
  refine ⟨fun i => (hnumbers.get?_iff i text).symm, ?_⟩
  rw [Table.find?, idxOf?_eq_none_iff, h, mem_eraseDups]

/-- **What audits record.** Files are audited in any number of calls; some may be missing and some
may be given again, and all parameters have kinds. Every call comes to its end. The tables then hold
the names, paths and defaults that were met, in the order of their first arrival, and find exactly
these, under their numbers. The findings are those of the files, one after the other. -/
theorem runs_record (calls : List Call)
    (hkinds : ∀ c ∈ calls, ∀ f, some f ∈ c.files → KindsKnown f) :
    (∀ c ∈ calls, ∀ a, (c.apply a).1 = .ok ()) ∧ let a := afterCalls calls
    let fs := (calls.flatMap (·.files)).reduceOption
    let names := (events fs).filterMap Event.name?
    let defaults := (events fs).filterMap Event.default?
    (a.names.items = names.eraseDups ∧ a.files.items = (fs.map (·.path)).eraseDups ∧
      a.defaults.items = defaults.eraseDups) ∧
    (∀ text,
      ((∀ i, a.names.find? text = some i ↔ a.names.get? i = some text) ∧
        (a.names.find? text = none ↔ text ∉ names)) ∧
      ((∀ i, a.files.find? text = some i ↔ a.files.get? i = some text) ∧
        (a.files.find? text = none ↔ text ∉ fs.map (·.path))) ∧
      ((∀ i, a.defaults.find? text = some i ↔ a.defaults.get? i = some text) ∧
        (a.defaults.find? text = none ↔ text ∉ defaults))) ∧
    a.mutableDefaults = (events fs).filterMap Event.mutableDefault? ∧
    a.missingHints = (events fs).filterMap Event.missingHint? ∧
    a.missingDocstrings = (events fs).filterMap Event.missingDocstring? ∧
    a.dependencies = (events fs).filterMap Event.dependency? := by
  refine ⟨fun c hc a => ?_, ?_⟩
  · obtain ⟨a', happly, -⟩ := exists_apply c (hkinds c hc) a
    rw [happly]
  intro a fs names defaults
  have hrecorded : Recorded fs a := recorded_afterCalls hkinds
  -- what a view shows of the audit, it shows of the replay, unless it looks at the files
  have hview : ∀ {γ : Type} (view : Audit → γ), view a.outlined =
      view { ({} : Audit).replay (events fs) with files := pathTable fs } :=
      fun view => congrArg view hrecorded
  have hnames : a.names.items = names.eraseDups := (congrArg Table.items (hview Audit.names)).trans
    (table_replay Audit.names Event.name? (fun _ e => by cases e <;> rfl) rfl (events fs))
  have hdefaults : a.defaults.items = defaults.eraseDups :=
    (congrArg Table.items (hview Audit.defaults)).trans
    (table_replay Audit.defaults Event.default? (fun _ e => by cases e <;> rfl) rfl (events fs))
  have hfiles : a.files.items = (fs.map (·.path)).eraseDups := congrArg Table.items hrecorded.files
  refine ⟨⟨hnames, hfiles, hdefaults⟩, fun text => ⟨find?_iff_of_eraseDups hnames text,
    find?_iff_of_eraseDups hfiles text, find?_iff_of_eraseDups hdefaults text⟩, ?_, ?_, ?_, ?_⟩
  · exact (hview Audit.mutableDefaults).trans
      (list_replay Audit.mutableDefaults Event.mutableDefault? (fun _ e => by cases e <;> rfl) rfl
      (events fs))
  · exact (hview Audit.missingHints).trans
      (list_replay Audit.missingHints Event.missingHint? (fun _ e => by cases e <;> rfl) rfl
      (events fs))
  · exact (hview Audit.missingDocstrings).trans
      (list_replay Audit.missingDocstrings Event.missingDocstring? (fun _ e => by cases e <;>
      rfl) rfl (events fs))
  · exact (hview Audit.dependencies).trans
      (list_replay Audit.dependencies Event.dependency? (fun _ e => by cases e <;> rfl) rfl
      (events fs))

/-- A file with a class that is given a part and a function, neither of which says what its
parameter is. -/
def shelfFile : File :=
  { path := "a.py"
    classes := [{
      name := "Shelf"
      methods := [{
        name := "__init__", firstLine := 2
        parameters := [{ name := "self", kind := "positional" },
          { name := "books", default := "[]", kind := "positional" }] }] }]
    functions := [{
      name := "count", firstLine := 4
      parameters := [{ name := "shelf", kind := "positional" }] }] }

/-- The file is audited, and then once more behind one that is missing. -/
def shelfCalls : List Call :=
  [{ files := [some shelfFile], session := { tree := ⟨.dir [], []⟩ } },
    { files := [none, some shelfFile], session := { tree := ⟨.dir [], []⟩ } }]

/-- The main result for the calls: what is found is found twice, and nothing is listed twice. -/
theorem runs_record_shelfCalls : (∀ c ∈ shelfCalls, ∀ f, some f ∈ c.files → KindsKnown f) ∧
      (afterCalls shelfCalls).names.items =
        ["Shelf", "__init__", "self", "books", "count", "shelf"] ∧
      (afterCalls shelfCalls).missingHints = [⟨"count", 0, 4⟩, ⟨"count", 0, 4⟩] ∧
      (afterCalls shelfCalls).dependencies = [⟨"Shelf", 0, 1, true⟩, ⟨"Shelf", 0, 1, true⟩] := by
  have hkinds : ∀ c ∈ shelfCalls, ∀ f, some f ∈ c.files → KindsKnown f := by
    have hfile : KindsKnown shelfFile := by decide
    simp [shelfCalls, hfile]
  obtain ⟨-, ⟨hnames, -⟩, -, -, hhints, -, hdependencies⟩ := runs_record shelfCalls hkinds
  exact ⟨hkinds, hnames.trans (by decide +kernel), hhints.trans (by decide +kernel),
    hdependencies.trans (by decide +kernel)⟩

end CodeAtlas.Audit
