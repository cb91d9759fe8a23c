import CodeAtlas.Proofs.Audit

/-!
# Failures of inspections

They stay where they are (`failures_contained`): the audit of outlines does not look at findings.
-/

namespace CodeAtlas.Audit

open Outline Work Step

def framed (a : Audit) (files : Table) (x : Findings) : Audit where
  __ := a
  files := files
  queries := x.queries
  secrets := x.secrets
  globals := x.globals
  loggingUses := x.loggingUses

def holding (a : Audit) (x : Findings) : Audit := a.framed a.files x

lemma Findings.all_singleton (x : Findings) : Findings.all [x] = x := by simp [Findings.all]

lemma Findings.all_all_cons (x y : Findings) (xs : List Findings) :
    all (all [x, y] :: xs) = all (x :: y :: xs) := by
  simp [Findings.all]

lemma addFound_holding (a : Audit) (x y : Findings) :
    (a.holding x).addFound y = a.holding (.all [x, y]) := by
  simp [addFound, holding, framed, Findings.all]

/-! ### What the audit of outlines leaves -/

section Carries

variable {α β : Type} {file : Nat}

/-- A step of an audit neither reads nor changes files and findings. -/
def Carries (p : Auditing α) : Prop :=
  ∀ a files x, p (a.framed files x) = ((p a).1, (p a).2.framed files x)

lemma carries_modify {g : Audit → Audit}
    (hg : ∀ a files x, g (a.framed files x) = (g a).framed files x) : Carries (modify g) := by
  intro a files x
  exact congrArg (Except.ok (), ·) (hg a files x)

lemma Carries.bind {p : Auditing α} {q : α → Auditing β} (hp : Carries p)
    (hq : ∀ y, Carries (q y)) : Carries (p >>= q) := by
  intro a files x
  have hcarried := hp a files x
  rcases h : p a with ⟨e | y, b⟩ <;> rw [h] at hcarried
  · rw [bind_error h, bind_error hcarried]
  · rw [bind_ok h, bind_ok hcarried, hq]

variable (a : Audit) (files : Table) (x : Findings)

lemma addName?_framed (name : Option String) :
    (a.framed files x).addName? name = (a.addName? name).framed files x := by
  unfold addName?
  split <;> rfl

lemma addParameter_framed (g : Function) (p : Parameter) :
    addParameter file g (a.framed files x) p = (addParameter file g a p).framed files x := by
  have hname : (a.framed files x).addName p.name = (a.addName p.name).framed files x := rfl
  unfold addParameter
  simp only [hname, addName?_framed]
  split
  · rfl
  · split <;> rfl

lemma addAttribute_framed (y : Attribute) :
    (a.framed files x).addAttribute y = (a.addAttribute y).framed files x := by
  have hname : (a.framed files x).addName y.name = (a.addName y.name).framed files x := rfl
  unfold addAttribute
  simp only [hname, addName?_framed]
  split <;> rfl

lemma noteDocstring_framed (kind : Documentable) (name : String) (line : Int)
    (docstring : Option String) : (a.framed files x).noteDocstring kind file name line docstring =
      (a.noteDocstring kind file name line docstring).framed files x := by
  unfold noteDocstring
  split <;> rfl

lemma foldl_framed {γ : Type} {g : Audit → γ → Audit}
    (hg : ∀ a y, g (a.framed files x) y = (g a y).framed files x)
    (ys : List γ) : ys.foldl g (a.framed files x) = (ys.foldl g a).framed files x := by
  induction ys generalizing a with
  | nil => rfl
  | cons y ys ih => rw [List.foldl_cons, List.foldl_cons, hg, ih]

lemma carries_auditFunction (g : Function) : Carries (auditFunction file g) := by
  have hdocstring : Carries
      (modify fun a => a.noteDocstring .function file g.name g.firstLine g.docstring) :=
    carries_modify fun a files x => noteDocstring_framed a files x _ _ _ _
  unfold auditFunction
  refine Carries.bind (carries_modify fun a files x => ?_) fun _ => ?_
  · have hnames : ((a.framed files x).addName g.name).addNames g.decorators =
        ((a.addName g.name).addNames g.decorators).framed files x := rfl
    simp only [addSignature, hnames,
      foldl_framed _ files x fun a p => addParameter_framed a files x g p, addName?_framed]
  · split
    · cases hasHints g with
      | ok complete =>
        refine Carries.bind (carries_modify fun a files x => ?_) fun _ => hdocstring
        unfold noteHints
        split <;> rfl
      | error e => exact fun a files x => rfl
    · exact hdocstring

lemma carries_auditFunctions (gs : List Function) : Carries (auditFunctions file gs) := by
  induction gs with
  | nil => exact fun a files x => rfl
  | cons g gs ih => exact (carries_auditFunction g).bind fun _ => ih

lemma carries_auditClass (c : Outline.Class) : Carries (auditClass file c) := by
  refine Carries.bind (carries_modify fun a files x => ?_) fun _ =>
    (carries_auditFunctions c.methods).bind fun _ => carries_modify fun a files x => ?_
  · exact foldl_framed (((a.addName c.name).addNames c.bases).addNames c.decorators) files x
      (fun a y => addAttribute_framed a files x y) c.attributes
  · rw [noteDocstring_framed]
    unfold noteDependency
    split <;> rfl

lemma carries_auditClasses (cs : List Outline.Class) : Carries (auditClasses file cs) := by
  induction cs with
  | nil => exact fun a files x => rfl
  | cons c cs ih => exact (carries_auditClass c).bind fun _ => ih

end Carries

lemma exists_auditOutline_holding (f : File) (a : Audit) :
    ∃ (r : Except AccessFault Unit) (b : Audit), b.files = (a.files.add f.path).1 ∧
      ∀ x, auditOutline f (a.holding x) = (r.map fun _ => (a.files.add f.path).2, b.holding x) := by
  generalize hi : (a.files.add f.path).2 = i
  have hbody : Carries (auditClasses i f.classes >>= fun _ => auditFunctions i f.functions) :=
    (carries_auditClasses f.classes).bind fun _ => carries_auditFunctions f.functions
  rcases hrun : (auditClasses i f.classes >>= fun _ => auditFunctions i f.functions)
    (f.imports.foldl addImport a) with ⟨r, b⟩
  refine ⟨r, b.framed (a.files.add f.path).1 {}, rfl, fun x => ?_⟩
  have hstart : f.imports.foldl addImport ((a.holding x).addFile f.path).1 =
      (f.imports.foldl addImport a).framed (a.files.add f.path).1 x :=
      foldl_framed a _ x (fun _ _ => rfl) f.imports
  have hframed := hbody (f.imports.foldl addImport a) (a.files.add f.path).1 x
  rw [hrun] at hframed
  rw [auditOutline_apply, hstart, show ((a.holding x).files.add f.path).2 = i from hi]
  cases r with
  | ok u => exact bind_ok hframed _
  | error e => exact bind_error hframed _

/-- The audit of files. What does not depend on the tree and the detectors is said first: the files
inspected with their numbers, the outcome, and the audit up to findings. -/
lemma exists_auditFiles (files : List (Option File)) (a : Audit) :
    ∃ (visits : List (File × Nat)) (r : Except Failure Unit) (b : Audit),
      visits.map (·.1) <+: files.reduceOption ∧
      (r = .ok () → visits.map (·.1) = files.reduceOption) ∧
      visits.map (·.2) = (a.files.addAll (visits.map (·.1.path))).2 ∧
      ∀ d t x, Work.Yields (auditFiles d files) t (a.holding x) r
        (b.holding (.all (x :: visits.map fun v => findingsIn d v.1 v.2 (sourceIn t v.1)))) := by
  induction files generalizing a with
  | nil =>
    refine ⟨[], .ok (), a, List.nil_prefix, fun _ => rfl, rfl, fun d t x => ?_⟩
    rw [List.map_nil, Findings.all_singleton]
    exact yields_pure ()
  | cons file files ih =>
    cases file with
    | none => exact ih a
    | some f =>
      obtain ⟨r, b, hfiles, houtline⟩ := exists_auditOutline_holding f a
      have hlift : ∀ t x, Work.Yields (auditOutline f : Inspecting Nat) t (a.holding x) _ _ :=
        fun t x => yields_monadLift (auditOutline f)
      simp only [houtline] at hlift
      cases r with
      | error e =>
        refine ⟨[], .error (.access e), b, List.nil_prefix, nofun, rfl, fun d t x => ?_⟩
        rw [List.map_nil, Findings.all_singleton]
        exact (hlift t x).bind_error _
      | ok u =>
        obtain ⟨visits, r, b', hsome, hall, hnumbers, hrest⟩ := ih b
        refine ⟨(f, (a.files.add f.path).2) :: visits, r, b', ?_, ?_, ?_, fun d t x => ?_⟩
        · exact (List.prefix_cons_inj f).mpr hsome
        · exact fun hr => congrArg (f :: ·) (hall hr)
        · rw [hfiles] at hnumbers
          exact congrArg (_ :: ·) hnumbers
        · have hinspect := yields_inspect d f (a.files.add f.path).2 t (b.holding x)
          rw [addFound_holding] at hinspect
          rw [List.map_cons, ← Findings.all_all_cons]
          exact (hlift t x).bind (hinspect.bind (hrest d t _))

lemma yields_run {d : Detectors} {files : List (Option File)} {t : Files.Tree} {a b : Audit}
    {r : Except Failure Unit} (h : Work.Yields (auditFiles d files) t a r b) :
    Work.Yields (run d files) t a r b := by
  refine Work.Yields.bind (yields_lift (Action.yields_log _ _ _)) ?_
  cases r with
  | error e => exact h.bind_error _
  | ok u => exact h.bind fun s hs => ⟨_, rfl, hs⟩

/-- What the detectors make of a text. -/
def Detectors.reports (d : Detectors) (source : List Char) :
    List (Option (Except Failure (List (List Value)))) :=
  [d.queries.map (· source), d.secrets.map (· source), d.globals.map (· source)]

lemma reportsOf_congr {p q : Option Detector} {source : List Char}
    (h : p.map (· source) = q.map (· source))
    (name : String) : reportsOf name p source = reportsOf name q source := by
  cases p <;> cases q <;> simp_all [reportsOf]

lemma findingsIn_congr {d d' : Detectors} {source : List Char}
    (h : d.reports source = d'.reports source) (f : File)
    (file : Nat) : findingsIn d f file (.ok source) = findingsIn d' f file (.ok source) := by
  simp only [Detectors.reports, List.cons.injEq, and_true] at h
  simp only [findingsIn, inspectSource, reportsOf_congr h.1, reportsOf_congr h.2.1,
    reportsOf_congr h.2.2]

/-- Failures of inspections are contained. Whatever the files hold and the detectors do, the same
files are inspected, as far as outlines can be audited, with the same numbers, the outcome is the
same, and so is all that comes of outlines. What is found are the findings of the files in their
order. Those of a file are in that file and depend on its text and on what the detectors make of
that text only. -/
theorem failures_contained (files : List (Option File)) (a : Audit) :
    ∃ (visits : List (File × Nat)) (r : Except Failure Unit) (b : Audit),
      visits.map (·.1) <+: files.reduceOption ∧
      (r = .ok () → visits.map (·.1) = files.reduceOption) ∧
      visits.map (·.2) = (a.files.addAll (visits.map (·.1.path))).2 ∧
      (∀ d s, ∃ b' s', run d files a s = ((r, b'), s') ∧ b'.outlined = b ∧
        b'.found =
          .all (a.found :: visits.map fun v => findingsIn d v.1 v.2 (sourceIn s.tree v.1))) ∧
      ∀ v ∈ visits, (∀ d source, (findingsIn d v.1 v.2 source).At v.2) ∧
        ∀ d d' source, d.reports source = d'.reports source →
          findingsIn d v.1 v.2 (.ok source) = findingsIn d' v.1 v.2 (.ok source) := by
  obtain ⟨visits, r, b, hsome, hall, hnumbers, hrun⟩ := exists_auditFiles files a
  refine ⟨visits, r, b.outlined, hsome, hall, hnumbers, fun d s => ?_,
    fun v _ => ⟨fun d source => ?_, ?_⟩⟩
  · obtain ⟨s', hs', -⟩ := yields_run (hrun d s.tree a.found) s rfl
    exact ⟨_, s', hs', rfl, rfl⟩
  · cases source with
    | ok source => exact (findingsIn_ok d v.1 v.2 source).1
    | error e => exact ⟨nofun, nofun, nofun, nofun⟩
  · exact fun d d' source h => findingsIn_congr h v.1 v.2

end CodeAtlas.Audit
