import CodeAtlas.Audit.Inspect
import CodeAtlas.Proofs.Outline.Reading

/-!
# When an audit comes to its end

Failures of inspections are caught; a check of type hints that asks for a kind no outline knows is
not (`run_completes_iff`).
-/

namespace CodeAtlas

variable {cs : List Comment} {body : List Syntax.Stmt} {g : Function} {f : File}
  {gs : List Function} {fs : List File} {name : String} {a : Audit}

/-! ### Reading a file depends on the tree alone -/

namespace Action

variable {α β : Type} {t : Files.Tree}

/-- What comes of an action depends on the tree alone, which it leaves as it is. -/
def Determined (a : Action α) (t : Files.Tree) : Prop := ∃ r, Yields a t r

lemma Determined.bind {a : Action α} {f : α → Action β} (ha : Determined a t)
    (hf : ∀ x, Determined (f x) t) : Determined (a >>= f) t := by
  obtain ⟨e | x, hr⟩ := ha
  · exact ⟨_, hr.bind_error f⟩
  · obtain ⟨r, hx⟩ := hf x
    exact ⟨r, hr.bind hx⟩

lemma determined_ask (question : Files.Tree → Path → Except Files.Fault Bool) (p : Path) :
    Determined (ask question p) t := by
  rcases h : question t p with f | answer
  · exact ⟨_, yields_ask_error h⟩
  · exact ⟨_, yields_ask h⟩

lemma determined_readBytes (p : Path) : Determined (readBytes p) t := by
  rcases h : t.read p with ⟨f, q⟩ | ⟨bytes, time⟩
  · exact ⟨_, yields_readBytes_error h⟩
  · exact ⟨_, yields_readBytes h⟩

lemma determined_log (level : Level) (text : String) (cause : Option Failure) :
    Determined (log level text cause) t :=
  ⟨_, yields_log level text cause⟩

lemma determined_throw (e : Failure) : Determined (throw e : Action α) t := ⟨_, yields_throw e⟩

end Action

namespace Workspace

open CodeAtlas.Action

variable {t : Files.Tree} {path : Path}

lemma determined_noteEncodings (found : Text.Encoding) (es : List Text.Encoding) :
    Determined (noteEncodings path found es) t := by
  induction es with
  | nil => exact ⟨_, yields_pure ()⟩
  | cons e es ih =>
    unfold noteEncodings
    split
    · exact ⟨_, yields_log _ _ _⟩
    · exact Determined.bind ⟨_, yields_log _ _ _⟩ fun _ => ih

lemma determined_requireFile : Determined (requireFile path) t := by
  have hfile : Determined (do if !(← isFile path) then
      error s!"Not a file: {path.text}"
      throw (.unfit .notFile path.text)) t := by
    refine (determined_ask _ _).bind fun isFile => ?_
    cases isFile
    · exact (determined_log _ _ _).bind fun _ => determined_throw _
    · exact ⟨_, yields_pure _⟩
  refine (determined_ask _ _).bind fun there => ?_
  cases there
  · exact (determined_log _ _ _).bind fun _ => (determined_throw _).bind fun _ => hfile
  · exact hfile

lemma determined_readSource (path : Path) : Determined (readSource path) t := by
  unfold readSource
  refine determined_requireFile.bind fun _ => (determined_readBytes path).bind fun bytes => ?_
  have hrest : Determined (do
      debug s!"File size OK: {path.text} ({bytes.length} bytes)"
      noteEncodings path (Text.decodeAny bytes).1 Text.Encoding.all
      return (Text.decodeAny bytes).2) t :=
    (determined_log _ _ _).bind fun _ => (determined_noteEncodings _ _).bind fun _ =>
      ⟨_, yields_pure _⟩
  simp only
  split
  · exact (determined_log _ _ _).bind fun _ => (determined_throw _).bind fun _ => hrest
  · exact hrest

end Workspace

/-! ### Outlines that were read know no kinds -/

namespace Outline

/-- The methods of the classes of a file and then its functions, in the order in which they are
audited. -/
def File.definitions (f : File) : List Function := f.classes.flatMap (·.methods) ++ f.functions

lemma kind_functionOutline {span : Syntax.Span} {head : Syntax.FunctionHead}
     : ∀ p ∈ (functionOutline cs span head body).parameters, p.kind = none := by
  intro p hp
  obtain ⟨q, -, rfl⟩ := List.mem_map.mp hp
  rfl

lemma kind_functionsIn (hg : g ∈ functionsIn cs body) : ∀ p ∈ g.parameters, p.kind = none := by
  obtain ⟨stmt, -, hstmt⟩ := List.mem_filterMap.mp hg
  split at hstmt
  · obtain rfl := Option.some.inj hstmt
    exact kind_functionOutline
  · cases hstmt

/-- No parameter of an outline that was read has a kind. -/
lemma kind_of_outlineAt? {t : Files.Tree} {path : Path} (h : outlineAt? t path = some f)
     (hg : g ∈ f.definitions) : ∀ p ∈ g.parameters, p.kind = none := by
  obtain ⟨source, -, hf⟩ := Option.bind_eq_some_iff.mp h
  obtain ⟨m, -, rfl⟩ := Option.map_eq_some_iff.mp hf
  rcases List.mem_append.mp hg with hmethod | hfunction
  · obtain ⟨c, hc, hmethod⟩ := List.mem_flatMap.mp hmethod
    obtain ⟨stmt, -, hstmt⟩ := List.mem_filterMap.mp hc
    split at hstmt
    · obtain rfl := Option.some.inj hstmt
      exact kind_functionsIn hmethod
    · cases hstmt
  · obtain ⟨stmt, -, hstmt⟩ := List.mem_filterMap.mp hfunction
    split at hstmt
    · obtain rfl := Option.some.inj hstmt
      exact kind_functionOutline
    · cases hstmt

end Outline

namespace Audit

open List Outline CodeAtlas.Action

/-! ### Checking type hints -/

/-- The fault of a check that asks for a kind that is not known. -/
def missingKind : AccessFault := .noAttribute "ParameterInfo" "kind"

/-- A public function has a parameter besides its receiver. -/
def NeedsKind (g : Function) : Prop := isPublic g.name ∧ ∃ p ∈ g.parameters, p.name ∉ receiverNames

instance (g : Function) : Decidable (NeedsKind g) := inferInstanceAs (Decidable (_ ∧ _))

lemma parametersHinted_eq {ps : List Parameter} (hkind : ∀ p ∈ ps, p.kind = none) :
    parametersHinted ps = if ∃ p ∈ ps, p.name ∉ receiverNames then .error missingKind
      else .ok true := by
  induction ps with
  | nil => rfl
  | cons p ps ih =>
    by_cases hreceiver : p.name ∈ receiverNames
    · have hrest := ih fun q hq => hkind q (mem_cons_of_mem _ hq)
      simp [parametersHinted, hreceiver, hrest]
    · simp [parametersHinted, hreceiver, hkind p mem_cons_self, missingKind]

lemma not_special_of_isPublic {name : String} (h : isPublic name) :
    name.startsWith "__" = false := by
  rw [isPublic, Bool.not_eq_true', String.startsWith_string_eq_false_iff] at h
  rw [String.startsWith_string_eq_false_iff]
  intro hspecial
  exact h ((show "_".toList <+: "__".toList by decide).trans hspecial)

lemma hasHints_eq (hpublic : isPublic g.name) (hkind : ∀ p ∈ g.parameters, p.kind = none) :
    hasHints g = if NeedsKind g then .error missingKind
      else .ok (g.name = "__init__" || present g.returns) := by
  have hneeds : NeedsKind g ↔ ∃ p ∈ g.parameters, p.name ∉ receiverNames := and_iff_right hpublic
  unfold hasHints
  rw [not_special_of_isPublic hpublic, parametersHinted_eq hkind]
  by_cases h : NeedsKind g
  · rw [if_pos h, if_pos (hneeds.mp h)]
    rfl
  · rw [if_neg h, if_neg (mt hneeds.mpr h)]
    rfl

/-! ### What is noted leaves the files -/

section Files

variable (a : Audit) (file : Nat)

@[simp] lemma files_addName : (a.addName name).files = a.files := rfl

@[simp] lemma files_addNames (names : List String) : (a.addNames names).files = a.files := rfl

@[simp] lemma files_addDefault (default : String) : (a.addDefault default).files = a.files := rfl

@[simp] lemma files_addName? (name : Option String) : (a.addName? name).files = a.files := by
  unfold addName?
  split <;> rfl

@[simp] lemma files_addAttribute (x : Attribute) : (a.addAttribute x).files = a.files := by
  unfold addAttribute
  simp only
  split <;> simp

@[simp] lemma files_addImport (i : Import) : (a.addImport i).files = a.files := rfl

@[simp] lemma files_addParameter (g : Function) (p : Parameter) :
    (addParameter file g a p).files = a.files := by
  unfold addParameter
  simp only
  split
  · simp
  · split <;> simp

@[simp] lemma files_noteDocstring (kind : Documentable) (line : Int) (docstring : Option String) :
    (a.noteDocstring kind file name line docstring).files = a.files := by
  unfold noteDocstring
  split <;> rfl

@[simp] lemma files_noteHints (g : Function) (complete : Bool) :
    (a.noteHints file g complete).files = a.files := by
  unfold noteHints
  split <;> rfl

@[simp] lemma files_noteDependency (c : Outline.Class) :
    (a.noteDependency file c).files = a.files := by
  unfold noteDependency
  split <;> rfl

lemma files_foldl {β : Type} {f : Audit → β → Audit} (hf : ∀ a b, (f a b).files = a.files)
    (bs : List β) : (bs.foldl f a).files = a.files := by
  induction bs generalizing a with
  | nil => rfl
  | cons b bs ih => rw [foldl_cons, ih, hf]

@[simp] lemma files_addSignature (g : Function) : (a.addSignature file g).files = a.files := by
  unfold addSignature
  rw [files_addName?, files_foldl _ fun a p => files_addParameter a file g p]
  rfl

end Files

/-! ### Auditing outlines -/

/-- What comes of the check of functions whose parameters have no kinds. -/
def verdict (gs : List Function) : Except AccessFault Unit :=
  if ∃ g ∈ gs, NeedsKind g then .error missingKind else .ok ()

/-- A step checks functions, and leaves the files. -/
def Checks (gs : List Function) (p : Auditing Unit) : Prop :=
  ∀ a : Audit, ∃ a', p a = (verdict gs, a') ∧ a'.files = a.files

lemma checks_modify {f : Audit → Audit} (hf : ∀ a, (f a).files = a.files) :
    Checks [] (modify f) := by
  intro a
  exact ⟨f a, rfl, hf a⟩

lemma Checks.bind {hs : List Function} {p : Auditing Unit} {q : Unit → Auditing Unit}
    (hp : Checks gs p) (hq : Checks hs (q ())) : Checks (gs ++ hs) (p >>= q) := by
  intro a
  obtain ⟨a1, hrun, hfiles⟩ := hp a
  by_cases hneeds : ∃ g ∈ gs, NeedsKind g
  · rw [verdict, if_pos hneeds] at hrun
    refine ⟨a1, ?_, hfiles⟩
    obtain ⟨g, hg, hkind⟩ := hneeds
    rw [bind_error hrun, verdict, if_pos ⟨g, mem_append_left hs hg, hkind⟩]
  · rw [verdict, if_neg hneeds] at hrun
    obtain ⟨a₂, hrun₂, hfiles2⟩ := hq a1
    refine ⟨a₂, ?_, hfiles2.trans hfiles⟩
    have hboth : (∃ g ∈ gs ++ hs, NeedsKind g) ↔ ∃ g ∈ hs, NeedsKind g := by
      simp only [mem_append, or_and_right, exists_or, hneeds, false_or]
    rw [bind_ok hrun, hrun₂, verdict, verdict]
    simp only [hboth]

lemma Checks.of_not_needsKind {p : Auditing Unit} (hp : Checks [] p) (hg : ¬ NeedsKind g) :
    Checks [g] p := by
  intro a
  obtain ⟨a', hrun, hfiles⟩ := hp a
  refine ⟨a', ?_, hfiles⟩
  rw [hrun, verdict, verdict, if_neg (by simp), if_neg (by simpa using hg)]

lemma checks_auditFunction (file : Nat) (hkind : ∀ p ∈ g.parameters, p.kind = none) :
    Checks [g] (auditFunction file g) := by
  have hdocstring : Checks []
      (modify fun a => a.noteDocstring .function file g.name g.firstLine g.docstring) :=
    checks_modify fun a => files_noteDocstring a _ _ _ _
  unfold auditFunction
  apply (checks_modify fun a => files_addSignature a file g).bind
  by_cases hpublic : isPublic g.name
  · simp only [hpublic, if_true, hasHints_eq hpublic hkind]
    by_cases hneeds : NeedsKind g
    · have hverdict : verdict [g] = .error missingKind := if_pos ⟨g, mem_singleton_self g, hneeds⟩
      intro a
      refine ⟨a, ?_, rfl⟩
      simp only [if_pos hneeds, hverdict]
      rfl
    · simp only [if_neg hneeds]
      refine Checks.of_not_needsKind ?_ hneeds
      exact (checks_modify fun a => files_noteHints a file g _).bind hdocstring
  · refine Checks.of_not_needsKind ?_ fun hneeds => hpublic hneeds.1
    simp only [hpublic]
    exact hdocstring

lemma checks_auditFunctions (file : Nat)
    (hkind : ∀ g ∈ gs, ∀ p ∈ g.parameters, p.kind = none) : Checks gs (auditFunctions file gs) := by
  induction gs with
  | nil => exact fun a => ⟨a, rfl, rfl⟩
  | cons g gs ih =>
    have hrest := ih fun h hh => hkind h (mem_cons_of_mem _ hh)
    exact (checks_auditFunction file (hkind g mem_cons_self)).bind hrest

lemma checks_auditClass (file : Nat) {c : Outline.Class}
    (hkind : ∀ g ∈ c.methods, ∀ p ∈ g.parameters, p.kind = none) :
    Checks c.methods (auditClass file c) := by
  have hbefore : ∀ a : Audit, (c.attributes.foldl addAttribute
      (((a.addName c.name).addNames c.bases).addNames c.decorators)).files = a.files := by
    intro a
    rw [files_foldl _ files_addAttribute]
    rfl
  have hafter : ∀ a : Audit,
    ((a.noteDocstring .class file c.name c.firstLine c.docstring).noteDependency
      file c).files = a.files := by simp
  have hmethods := (checks_auditFunctions file hkind).bind (q := fun _ => modify fun a =>
    (a.noteDocstring .class file c.name c.firstLine c.docstring).noteDependency file c)
      (checks_modify hafter)
  rw [append_nil] at hmethods
  exact (checks_modify hbefore).bind hmethods

lemma checks_auditClasses (file : Nat) {cs : List Outline.Class}
    (hkind : ∀ g ∈ cs.flatMap (·.methods), ∀ p ∈ g.parameters, p.kind = none) :
    Checks (cs.flatMap (·.methods)) (auditClasses file cs) := by
  induction cs with
  | nil => exact fun a => ⟨a, rfl, rfl⟩
  | cons c cs ih =>
    rw [flatMap_cons] at hkind ⊢
    have hclass := checks_auditClass file fun g hg => hkind g (mem_append_left _ hg)
    exact hclass.bind (ih fun g hg => hkind g (mem_append_right _ hg))

lemma auditOutline_apply (f : File) : auditOutline f a =
    ((auditClasses (a.files.add f.path).2 f.classes >>= fun _ =>
      auditFunctions (a.files.add f.path).2 f.functions) >>=
      fun _ => pure (a.files.add f.path).2) (f.imports.foldl addImport (a.addFile f.path).1) := by
  rw [bind_assoc]
  rfl

lemma exists_auditOutline (hkind : ∀ g ∈ f.definitions, ∀ p ∈ g.parameters, p.kind = none)
    (a : Audit) : ∃ a', auditOutline f a =
      ((verdict f.definitions).map fun _ => (a.files.add f.path).2, a') ∧
      a'.files = (a.files.add f.path).1 := by
  generalize hi : (a.files.add f.path).2 = i
  have hclasses := checks_auditClasses i fun g hg => hkind g (mem_append_left _ hg)
  have hfunctions := checks_auditFunctions i fun g hg => hkind g (mem_append_right _ hg)
  obtain ⟨a', hrun, hfiles⟩ :=
    (hclasses.bind (q := fun _ => auditFunctions i f.functions) hfunctions)
    (f.imports.foldl addImport (a.addFile f.path).1)
  refine ⟨a', ?_, ?_⟩
  · rw [auditOutline_apply, hi]
    change _ = (verdict f.definitions, a') at hrun
    rcases hverdict : verdict f.definitions with e | u
    · rw [hverdict] at hrun
      exact bind_error hrun _
    · rw [hverdict] at hrun
      exact bind_ok hrun _
  · rw [hfiles, files_foldl _ files_addImport]
    rfl

/-! ### Inspecting files -/

/-- The part of an audit that comes of outlines alone. -/
def outlined (a : Audit) : Audit :=
  { a with queries := [], secrets := [], globals := [], loggingUses := [] }

lemma files_outlined : a.outlined.files = a.files := rfl

/-- What inspections find. -/
structure Findings where
  queries : List Query := []
  secrets : List Secret := []
  globals : List Global := []
  loggingUses : List LoggingUse := []

def Findings.all (xs : List Findings) : Findings where
  queries := xs.flatMap (·.queries)
  secrets := xs.flatMap (·.secrets)
  globals := xs.flatMap (·.globals)
  loggingUses := xs.flatMap (·.loggingUses)

/-- All findings are in the file with a number. -/
def Findings.At (x : Findings) (file : Nat) : Prop :=
  (∀ q ∈ x.queries, q.file = file) ∧ (∀ s ∈ x.secrets, s.file = file) ∧
    (∀ g ∈ x.globals, g.file = file) ∧ ∀ u ∈ x.loggingUses, u.file = file

def found (a : Audit) : Findings := ⟨a.queries, a.secrets, a.globals, a.loggingUses⟩

def addFound (a : Audit) (x : Findings) : Audit where
  __ := a
  queries := a.queries ++ x.queries
  secrets := a.secrets ++ x.secrets
  globals := a.globals ++ x.globals
  loggingUses := a.loggingUses ++ x.loggingUses

lemma addFound_nil : a.addFound (.all []) = a := by simp [addFound, Findings.all]

lemma addFound_cons (x : Findings) (xs : List Findings) :
    (a.addFound x).addFound (.all xs) = a.addFound (.all (x :: xs)) := by
  simp [addFound, Findings.all]

lemma addFound_append (xs ys : List Findings) :
    (a.addFound (.all xs)).addFound (.all ys) = a.addFound (.all (xs ++ ys)) := by
  simp [addFound, Findings.all]

lemma Findings.At.all {xs : List Findings} {file : Nat} (h : ∀ x ∈ xs, x.At file) :
    (Findings.all xs).At file := by
  simp only [Findings.At, Findings.all, mem_flatMap]
  refine ⟨?_, ?_, ?_, ?_⟩
  · rintro q ⟨x, hx, hq⟩
    exact (h x hx).1 q hq
  · rintro s ⟨x, hx, hs⟩
    exact (h x hx).2.1 s hs
  · rintro g ⟨x, hx, hg⟩
    exact (h x hx).2.2.1 g hg
  · rintro u ⟨x, hx, hu⟩
    exact (h x hx).2.2.2 u hu

section Adds

variable {α β : Type} {file : Nat}

/-- Whatever was found before, a work adds the same findings, all in one file, and changes nothing
else. -/
def Adds (file : Nat) (w : Inspecting α) : Prop :=
  ∃ (r : Except Failure α) (xs : List Findings), (∀ x ∈ xs, x.At file) ∧
    ∀ a s, w a s = ((r, a.addFound (.all xs)), s)

lemma adds_pure (y : α) : Adds file (pure y) := by
  refine ⟨.ok y, [], by simp, fun a s => ?_⟩
  rw [addFound_nil]
  rfl

lemma adds_throw (e : Failure) : Adds file (throw e : Inspecting α) := by
  refine ⟨.error e, [], by simp, fun a s => ?_⟩
  rw [addFound_nil]
  rfl

lemma adds_modify {x : Findings} {g : Audit → Audit} (hx : x.At file)
    (hg : ∀ a, g a = a.addFound x) : Adds file (modifyThe Audit g : Inspecting PUnit) := by
  refine ⟨.ok ⟨⟩, [x], by simpa using hx, fun a s => ?_⟩
  rw [← addFound_cons, addFound_nil, ← hg]
  rfl

lemma Adds.bind {w : Inspecting α} {f : α → Inspecting β} (hw : Adds file w)
    (hf : ∀ y, Adds file (f y)) : Adds file (w >>= f) := by
  obtain ⟨e | y, xs, hxs, hrun⟩ := hw
  · exact ⟨.error e, xs, hxs, fun a s => Work.bind_error (hrun a s) f⟩
  · obtain ⟨r, ys, hys, hrest⟩ := hf y
    refine ⟨r, xs ++ ys, fun x hx => (mem_append.mp hx).elim (hxs x) (hys x), fun a s => ?_⟩
    rw [Work.bind_ok (hrun a s), hrest, addFound_append]

lemma adds_threeParts (report : List Value) : Adds file (threeParts report) := by
  unfold threeParts
  split
  · exact adds_pure _
  · split <;> exact adds_throw _

lemma adds_reportsOf (name : String) (detector : Option Detector) (source : List Char) :
    Adds file (reportsOf name detector source) := by
  cases detector with
  | none => exact adds_throw _
  | some reports =>
    simp only [reportsOf]
    cases reports source with
    | ok rs => exact adds_pure rs
    | error e => exact adds_throw e

lemma adds_shortened (v : Value) : Adds file (shortened v) := by
  unfold shortened
  split
  · exact adds_pure _
  · cases v.first queryLength with
    | ok vs => exact adds_pure _
    | error e => exact adds_throw _

lemma adds_addQueries (rs : List (List Value)) : Adds file (addQueries file rs) := by
  induction rs with
  | nil => exact adds_pure ()
  | cons r rs ih =>
    refine (adds_threeParts r).bind fun parts => (adds_shortened _).bind fun text =>
      Adds.bind ?_ fun _ => ih
    apply adds_modify (x := { queries := [⟨file, parts.2.1, text, parts.2.2⟩] })
    · simp [Findings.At]
    · intro a
      simp [addFound]

lemma adds_addSecrets (rs : List (List Value)) : Adds file (addSecrets file rs) := by
  induction rs with
  | nil => exact adds_pure ()
  | cons r rs ih =>
    refine (adds_threeParts r).bind fun parts => ?_
    obtain ⟨name, secret, line⟩ := parts
    cases name with
    | str s =>
      refine Adds.bind ?_ fun _ => ih
      apply adds_modify (x := { secrets := [⟨s, file, line, secretKind s⟩] })
      · simp [Findings.At]
      · intro a
        simp [addFound]
    | _ => exact (adds_throw _).bind fun _ => ih

lemma adds_addGlobals (rs : List (List Value)) : Adds file (addGlobals file rs) := by
  induction rs with
  | nil => exact adds_pure ()
  | cons r rs ih =>
    refine (adds_threeParts r).bind fun parts => Adds.bind ?_ fun _ => ih
    apply adds_modify (x := { globals := [⟨parts.1, file, parts.2.1⟩] })
    · simp [Findings.At]
    · intro a
      simp [addFound]

/-- Wherever the inspection of a text stops, all it has done is to add findings in the file. -/
lemma adds_inspectSource (detectors : Detectors) (f : File) (source : List Char) :
    Adds file (inspectSource detectors f file source) := by
  have hlogging : Adds file (modifyThe Audit fun a => a.noteLogging file f source) := by
    apply adds_modify (x := { loggingUses := (noteLogging {} file f source).loggingUses })
    · simp only [Findings.At, noteLogging, nil_append, mem_map]
      exact ⟨nofun, nofun, nofun, fun u ⟨x, _, hu⟩ => hu ▸ rfl⟩
    · intro a
      simp [addFound, noteLogging]
  have hrest := (adds_reportsOf "detect_sql_in_strings" detectors.queries source).bind
    fun queries =>
    (adds_addQueries queries).bind fun _ =>
      (adds_reportsOf "detect_hardcoded_secrets" detectors.secrets source).bind fun secrets =>
        (adds_addSecrets secrets).bind fun _ =>
          (adds_reportsOf "extract_global_variables" detectors.globals source).bind fun globals =>
            (adds_addGlobals globals).bind fun _ =>
              hlogging
  unfold inspectSource
  split
  · exact (adds_throw _).bind fun _ => hrest
  · exact hrest

end Adds

/-- The text of a file, in a tree of files. -/
def sourceIn (t : Files.Tree) (f : File) : Except Failure (List Char) :=
  ((Workspace.readSource (Path.ofString f.path) : Action (List Char)) { tree := t }).1

lemma yields_sourceIn (t : Files.Tree) (f : File) :
    Action.Yields (Workspace.readSource (Path.ofString f.path)) t (sourceIn t f) := by
  obtain ⟨r, hread⟩ := Workspace.determined_readSource (t := t) (Path.ofString f.path)
  obtain ⟨s, hs, -⟩ := hread { tree := t } rfl
  have hsource : sourceIn t f = r := by simp only [sourceIn, hs]
  rwa [hsource]

/-- What an inspection by itself finds, if the text of the file could be read. -/
def findingsIn (detectors : Detectors) (f : File) (file : Nat) :
    Except Failure (List Char) → Findings
  | .ok source => (inspectSource detectors f file source {} { tree := default }).1.2.found
  | .error _ => {}

lemma findingsIn_ok (detectors : Detectors) (f : File) (file : Nat) (source : List Char) :
    (findingsIn detectors f file (.ok source)).At file ∧ ∃ r, ∀ a s,
      inspectSource detectors f file source a s =
      ((r, a.addFound (findingsIn detectors f file (.ok source))), s) := by
  obtain ⟨r, xs, hxs, hrun⟩ := @adds_inspectSource file detectors f source
  have hfound : findingsIn detectors f file (.ok source) = .all xs := by
    simp only [findingsIn, hrun]
    rfl
  rw [hfound]
  exact ⟨.all hxs, r, hrun⟩

/-- An inspection never fails, and all it does is to add what it finds in its file. -/
lemma yields_inspect (detectors : Detectors) (f : File) (file : Nat) (t : Files.Tree) (a : Audit) :
    Work.Yields (inspect detectors f file) t a (.ok ())
      (a.addFound (findingsIn detectors f file (sourceIn t f))) := by
  have hfile : ∃ r, Work.Yields (inspectFile detectors f file) t a r
      (a.addFound (findingsIn detectors f file (sourceIn t f))) := by
    have hread := Work.yields_lift (d := a) (yields_sourceIn t f)
    rcases hsource : sourceIn t f with e | source <;> rw [hsource] at hread
    · have hnone : a.addFound (findingsIn detectors f file (.error e)) = a :=
        by simp [findingsIn, addFound]
      exact ⟨.error e, hnone.symm ▸ hread.bind_error _⟩
    · obtain ⟨-, r, hrun⟩ := findingsIn_ok detectors f file source
      exact ⟨r, hread.bind fun s hs => ⟨s, hrun a s, hs⟩⟩
  intro s hs
  obtain ⟨r, hfile⟩ := hfile
  obtain ⟨s₁, hrun, ht⟩ := hfile s hs
  generalize a.addFound (findingsIn detectors f file (sourceIn t f)) = b at hrun
  have hattempt : Work.attempt (inspectFile detectors f file) a s = ((.ok r, b), s₁) := by
    simp only [Work.attempt, hrun]
  unfold inspect
  rw [Work.bind_ok hattempt]
  cases r with
  | ok u => exact ⟨s₁, rfl, ht⟩
  | error e => exact ⟨_, rfl, ht⟩

/-! ### Auditing files -/

/-- Some function or method of a file needs a kind. -/
def Troubled (f : File) : Prop := ∃ g ∈ f.definitions, NeedsKind g

instance (f : File) : Decidable (Troubled f) :=
  inferInstanceAs (Decidable (∃ g ∈ f.definitions, NeedsKind g))

section Run

variable (detectors : Detectors)

lemma exists_auditFiles_cons (hkind : ∀ g ∈ f.definitions, ∀ p ∈ g.parameters, p.kind = none)
    (fs : List (Option File)) (a : Audit) (s : Session) :
    ∃ a' s', a'.files = (a.files.add f.path).1 ∧ auditFiles detectors (some f :: fs) a s =
      if Troubled f then ((.error (.access missingKind), a'), s')
        else auditFiles detectors fs a' s' := by
  obtain ⟨a1, hrun, hfiles⟩ := exists_auditOutline hkind a
  by_cases htrouble : Troubled f
  · have hverdict : verdict f.definitions = .error missingKind := if_pos htrouble
    rw [hverdict] at hrun
    have hlift : (monadLift (auditOutline f) : Inspecting Nat) a s =
        ((.error (.access missingKind), a1), s) := by
      simp only [monadLift, MonadLift.monadLift, hrun]
      rfl
    refine ⟨a1, s, hfiles, ?_⟩
    rw [if_pos htrouble]
    exact Work.bind_error hlift _
  · have hverdict : verdict f.definitions = .ok () := if_neg htrouble
    rw [hverdict] at hrun
    have hlift : (monadLift (auditOutline f) : Inspecting Nat) a s =
        ((.ok (a.files.add f.path).2, a1), s) := by
      simp only [monadLift, MonadLift.monadLift, hrun]
      rfl
    obtain ⟨s₂, hinspect, -⟩ := yields_inspect detectors f (a.files.add f.path).2 s.tree a1 s rfl
    generalize findingsIn _ _ _ _ = x at hinspect
    refine ⟨a1.addFound x, s₂, hfiles, ?_⟩
    rw [if_neg htrouble]
    exact (Work.bind_ok hlift _).trans (Work.bind_ok hinspect _)

lemma exists_auditFiles_ok (hkind : ∀ f ∈ fs, ∀ g ∈ f.definitions, ∀ p ∈ g.parameters,
    p.kind = none)
    (hfs : ∀ f ∈ fs, ¬ Troubled f) (rest : List (Option File)) (a : Audit) (s : Session) :
    ∃ a' s', a'.files = (a.files.addAll (fs.map (·.path))).1 ∧
      auditFiles detectors (fs.map some ++ rest) a s = auditFiles detectors rest a' s' := by
  induction fs generalizing a s with
  | nil => exact ⟨a, s, rfl, rfl⟩
  | cons f fs ih =>
    obtain ⟨a1, s₁, hfiles1, hrun1⟩ := exists_auditFiles_cons detectors (hkind f mem_cons_self)
      (fs.map some ++ rest) a s
    obtain ⟨a₂, s₂, hfiles2, hrun₂⟩ := ih (fun h hh => hkind h (mem_cons_of_mem _ hh))
      (fun h hh => hfs h (mem_cons_of_mem _ hh)) a1 s₁
    refine ⟨a₂, s₂, ?_, ?_⟩
    · rw [hfiles2, hfiles1]
      rfl
    · rw [map_cons, cons_append, hrun1, if_neg (hfs f mem_cons_self), hrun₂]

lemma exists_auditFiles_error (hkind : ∀ h ∈ fs ++ [f], ∀ g ∈ h.definitions, ∀ p ∈ g.parameters,
    p.kind = none)
    (hfs : ∀ h ∈ fs, ¬ Troubled h) (hf : Troubled f) (rest : List (Option File)) (a : Audit)
    (s : Session) : ∃ a' s', a'.files = (a.files.addAll ((fs ++ [f]).map (·.path))).1 ∧
      auditFiles detectors (fs.map some ++ some f :: rest) a s =
        ((.error (.access missingKind), a'), s') := by
  obtain ⟨a1, s₁, hfiles1, hrun1⟩ := exists_auditFiles_ok detectors
    (fun h hh => hkind h (mem_append_left _ hh)) hfs (some f :: rest) a s
  obtain ⟨a₂, s₂, hfiles2, hrun₂⟩ := exists_auditFiles_cons detectors
    (hkind f (mem_append_right _ (mem_singleton_self f))) rest a1 s₁
  refine ⟨a₂, s₂, ?_, ?_⟩
  · rw [hfiles2, hfiles1, map_append, Table.addAll_append_fst]
    rfl
  · rw [hrun1, hrun₂, if_pos hf]

end Run

lemma exists_run (detectors : Detectors) (files : List (Option File)) (a : Audit) (s : Session) :
    ∃ s₁, ∀ r a' s₂, auditFiles detectors files a s₁ = ((r, a'), s₂) →
      ∃ s₃, run detectors files a s = ((r, a'), s₃) := by
  refine ⟨{ s with log := s.log ++ [⟨.info, s!"Indexing {files.length} parsed files", none⟩] }, ?_⟩
  intro r a' s₂ hrun
  cases r with
  | error e => exact ⟨s₂, Work.bind_error hrun _⟩
  | ok u => exact ⟨_, Work.bind_ok hrun _⟩

/-- An audit of files that were read. It comes to its end exactly if no public function or method of
theirs has a parameter besides its receiver, and it then lists all the files. Otherwise it fails,
for want of the kind of a parameter, at the first file where there is one, and lists the files up to
that one. -/
theorem run_completes_iff (detectors : Detectors)
    (hfs : ∀ f ∈ fs, ∃ path s, (Outline.read path s).1 = .ok (some f)) (a : Audit) (s : Session) :
    ((run detectors (fs.map some) a s).1.1 = .ok () ↔ ∀ f ∈ fs, ∀ g ∈ f.definitions,
      ¬ NeedsKind g) ∧
    (∀ a' s', run detectors (fs.map some) a s = ((.ok (), a'), s') →
      a'.files = (a.files.addAll (fs.map (·.path))).1 ∧ ∀ f ∈ fs, f.path ∈ a'.files.items) ∧
    (∀ e a' s', run detectors (fs.map some) a s = ((.error e, a'), s') →
      e = .access (.noAttribute "ParameterInfo" "kind") ∧
        ∃ before f after, fs = before ++ f :: after ∧ (∃ g ∈ f.definitions, NeedsKind g) ∧
          (∀ h ∈ before, ∀ g ∈ h.definitions, ¬ NeedsKind g) ∧
          a'.files = (a.files.addAll ((before ++ [f]).map (·.path))).1) := by
  have hkind : ∀ f ∈ fs, ∀ g ∈ f.definitions, ∀ p ∈ g.parameters, p.kind = none := by
    intro f hf g hg
    obtain ⟨path, s, hread⟩ := hfs f hf
    rw [read_fst, found_eq_some_iff] at hread
    exact kind_of_outlineAt? hread hg
  obtain ⟨s₁, hs₁⟩ := exists_run detectors (fs.map some) a s
  rcases forall_or_exists_first (¬ Troubled ·) fs with hall | ⟨before, f, after, rfl, hbefore, hf⟩
  · -- no file has trouble
    obtain ⟨a₂, s₂, hfiles, hrun₂⟩ := exists_auditFiles_ok detectors hkind hall [] a s₁
    rw [append_nil] at hrun₂
    obtain ⟨s₃, hrun⟩ := hs₁ _ _ _ hrun₂
    rw [hrun]
    refine ⟨?_, ?_, ?_⟩
    · exact iff_of_true rfl fun f hf g hg hneeds => hall f hf ⟨g, hg, hneeds⟩
    · intro a' s' h
      cases h
      refine ⟨hfiles, fun f hf => ?_⟩
      rw [hfiles]
      exact Table.mem_items_addAll (mem_map_of_mem hf)
    · intro e a' s' h
      cases h
  · -- the first file that has trouble ends the audit
    rw [not_not] at hf
    have hfirst : (before ++ f :: after).map some = before.map some ++ some f :: after.map some :=
      by simp
    obtain ⟨a₂, s₂, hfiles, hrun₂⟩ := exists_auditFiles_error detectors
      (fun h hh => hkind h (by simp at hh ⊢; tauto)) hbefore hf (after.map some) a s₁
    rw [← hfirst] at hrun₂
    obtain ⟨s₃, hrun⟩ := hs₁ _ _ _ hrun₂
    rw [hrun]
    refine ⟨?_, ?_, ?_⟩
    · refine iff_of_false (by simp) fun hnone => ?_
      obtain ⟨g, hg, hneeds⟩ := hf
      exact hnone f (by simp) g hg hneeds
    · intro a' s' h
      cases h
    · intro e a' s' h
      cases h
      exact ⟨rfl, before, f, after, rfl, hf, fun h hh g hg hneeds => hbefore h hh ⟨g, hg, hneeds⟩,
        hfiles⟩

/-- A tree with a file that has a public function of one parameter. -/
def callTree : Files.Tree := ⟨.dir [("a.py", .file (Text.utf8Bytes "def f(x): pass\n") 0)], []⟩

def callOutline : File :=
  { path := "/a.py", moduleName := "a", lineCount := 2,
    functions := [{ name := "f", parameters := [{ name := "x" }] }] }

lemma read_callTree : (Outline.read ⟨"/", ["a.py"]⟩ { tree := callTree }).1 =
    .ok (some callOutline) := by
  rw [read_fst, found_eq_some_iff]
  decide +kernel

/-- The main result for the file. -/
theorem run_completes_iff_callTree :
    (∀ f ∈ [callOutline], ∃ path s, (Outline.read path s).1 = .ok (some f)) ∧
      ((run {} [some callOutline] {} { tree := callTree }).1.1 = .ok () ↔
        ∀ f ∈ [callOutline], ∀ g ∈ f.definitions, ¬ NeedsKind g) := by
  have hread : ∀ f ∈ [callOutline], ∃ path s, (Outline.read path s).1 = .ok (some f) := by
    intro f hf
    obtain rfl := mem_singleton.mp hf
    exact ⟨_, _, read_callTree⟩
  exact ⟨hread, (run_completes_iff {} hread {} { tree := callTree }).1⟩

/-- An audit of a file that was read fails. -/
theorem call_not_audited :
    (Outline.read ⟨"/", ["a.py"]⟩ { tree := callTree }).1 = .ok (some callOutline) ∧
      (run {} [some callOutline] {} { tree := callTree }).1.1 =
        .error (.access (.noAttribute "ParameterInfo" "kind")) := by
  have htrouble : Troubled callOutline := by decide +kernel
  have hkind : ∀ h ∈ [] ++ [callOutline], ∀ g ∈ h.definitions, ∀ p ∈ g.parameters, p.kind = none :=
    by decide
  obtain ⟨s₁, hs₁⟩ := exists_run {} [some callOutline] {} { tree := callTree }
  obtain ⟨a, s₂, -, hrun⟩ := exists_auditFiles_error {} hkind (by simp) htrouble [] {} s₁
  obtain ⟨s₃, hrun⟩ := hs₁ _ _ _ hrun
  refine ⟨read_callTree, ?_⟩
  rw [hrun]
  rfl

end Audit

end CodeAtlas
