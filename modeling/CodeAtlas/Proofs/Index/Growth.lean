import CodeAtlas.Proofs.Index.Grouping
import CodeAtlas.Proofs.Index.Join
import CodeAtlas.Proofs.Json.Scalar

/-!
# The documents of a project grow at their ends

Files that are appended to a project change nothing of what its documents say so far
(`Project.documents_continue`).
-/

namespace CodeAtlas

open List Table Keyed
open Outline (File)

variable {p p' : Places} {doc doc' : Value} {key : String}

namespace Index

/-! ### The roll of appended files -/

def classCount (files : List (String × File)) : Nat :=
  (files.flatMap fun pf => pf.2.classes).length

lemma classCount_cons (path : String) (f : File) (files : List (String × File)) :
    classCount ((path, f) :: files) = f.classes.length + classCount files := by
  rw [classCount, flatMap_cons, length_append, classCount]

lemma rollFrom_append (k : Nat) (xs ys : List (String × File)) :
    rollFrom k (xs ++ ys) = rollFrom k xs ++ rollFrom (k + classCount xs) ys := by
  induction xs generalizing k with
  | nil => rfl
  | cons pf xs ih =>
    obtain ⟨path, f⟩ := pf
    rw [cons_append, rollFrom, ih, classCount_cons, Nat.add_assoc, rollFrom, append_assoc]

variable (xs ys : List (String × File))

lemma roll_append : roll (xs ++ ys) = roll xs ++ rollFrom (classCount xs) ys := by
  unfold roll
  rw [rollFrom_append, Nat.zero_add]

lemma eventsFrom_append (n k : Nat) (xs ys : List (String × File)) :
    eventsFrom n k (xs ++ ys) =
      eventsFrom n k xs ++ eventsFrom (n + (rollFrom k xs).length) (k + classCount xs) ys := by
  induction xs generalizing n k with
  | nil => rfl
  | cons pf xs ih =>
    obtain ⟨path, f⟩ := pf
    have hlength : n + (fileRoll path f k).length + (rollFrom (k + f.classes.length) xs).length =
        n + (rollFrom k ((path, f) :: xs)).length := by
      rw [rollFrom, length_append]
      omega
    rw [cons_append, eventsFrom, ih, hlength, classCount_cons, Nat.add_assoc, eventsFrom,
      append_assoc, cons_append]

lemma commentsFrom_append (n : Nat) (es more : List Event) : commentsFrom n (es ++ more) =
      commentsFrom n es ++ commentsFrom (n + (es.filterMap Event.arrival?).length) more := by
  induction es generalizing n with
  | nil => rfl
  | cons e es ih =>
    cases e with
    | arrival x =>
      have hlength : n + 1 + (es.filterMap Event.arrival?).length =
          n + ((Event.arrival x :: es).filterMap Event.arrival?).length := by
        simp only [filterMap_cons, Event.arrival?, length_cons]
        omega
      rw [cons_append, commentsFrom, ih, hlength, commentsFrom, append_assoc]
    | remarks location path comments =>
      rw [cons_append, commentsFrom, ih, commentsFrom, append_assoc]
      rfl

lemma projectDocstrings_append : projectDocstrings (xs ++ ys) = projectDocstrings xs ++
      ((rollFrom (classCount xs) ys).zipIdx (roll xs).length).flatMap fun xl =>
        xl.1.docstrings xl.2 := by
  unfold projectDocstrings
  rw [roll_append, zipIdx_append, flatMap_append, Nat.zero_add]

lemma projectComments_append : projectComments (xs ++ ys) = projectComments xs ++
      commentsFrom (roll xs).length (eventsFrom (roll xs).length (classCount xs) ys) := by
  unfold projectComments
  rw [eventsFrom_append, commentsFrom_append, arrivals_eventsFrom, Nat.zero_add, Nat.zero_add]
  rfl

/-! ### The skeleton -/

/-- Entries that were there, and behind them entries for locations from `n` on. -/
def EntriesContinue {α : Type} (n : Nat) (entries entries' : Keyed Int α) : Prop :=
  ∃ more, entries' = entries ++ more ∧ ∀ e ∈ more, (n : Int) ≤ e.1

namespace EntriesContinue

variable {α : Type} {n n' : Nat} {entries entries' entries'' : Keyed Int α}

lemma refl (n : Nat) (entries : Keyed Int α) : EntriesContinue n entries entries := ⟨[], by simp⟩

lemma trans (hn : n ≤ n') (h : EntriesContinue n entries entries')
    (h' : EntriesContinue n' entries' entries'') : EntriesContinue n entries entries'' := by
  obtain ⟨more, rfl, hmore⟩ := h
  obtain ⟨more', rfl, hmore'⟩ := h'
  refine ⟨more ++ more', append_assoc _ _ _, ?_⟩
  intro e he
  rcases mem_append.mp he with he | he
  · exact hmore e he
  · have hle := hmore' e he
    omega

lemma put (hfresh : entries.get? (n : Int) = none) (entry : Option α) :
    EntriesContinue n entries (entry.elim entries (entries.put n ·)) := by
  cases entry with
  | none => exact refl n entries
  | some a =>
    refine ⟨[((n : Int), a)], ?_, by simp⟩
    rw [Option.elim_some, put_of_notMem ((get?_eq_none_iff _ _).mp hfresh)]

lemma filter_eq {q : Int × α → Bool} (h : EntriesContinue n entries entries')
    (hold : ∀ l ∈ entries.keys, l < (n : Int)) (hq : ∀ e ∈ entries', q e = true ↔ e.1 < (n : Int)) :
    entries'.filter q = entries := by
  obtain ⟨more, rfl, hmore⟩ := h
  have hkept : entries.filter q = entries := by
    rw [filter_eq_self]
    intro e he
    exact (hq e (mem_append_left _ he)).mpr (hold e.1 (mem_map_of_mem he))
  have hout : more.filter q = [] := by
    rw [filter_eq_nil_iff]
    intro e he hqe
    have hlt := (hq e (mem_append_right _ he)).mp hqe
    have hle := hmore e he
    omega
  rw [filter_append, hkept, hout, append_nil]

end EntriesContinue

namespace Skeleton

/-- A skeleton continues another one: all its lists go on where those of the other end, and hints
and decorators are added for new locations only. -/
structure Continues (s s' : Skeleton) : Prop where
  names : s.names.Extends s'.names
  files : s.files.Extends s'.files
  count : s.nextLocation ≤ s'.nextLocation
  modules : s.modules <+: s'.modules
  classes : s.classes <+: s'.classes
  functions : s.functions <+: s'.functions
  imports : s.imports <+: s'.imports
  attributes : s.attributes <+: s'.attributes
  hints : EntriesContinue s.nextLocation s.hints s'.hints
  decorators : EntriesContinue s.nextLocation s.decorators s'.decorators

variable {r : List Listed} {s s' s'' : Skeleton}

lemma Continues.refl (s : Skeleton) : s.Continues s where
  names := .refl _
  files := .refl _
  count := Nat.le_refl _
  modules := prefix_rfl
  classes := prefix_rfl
  functions := prefix_rfl
  imports := prefix_rfl
  attributes := prefix_rfl
  hints := .refl _ _
  decorators := .refl _ _

lemma Continues.trans (h : s.Continues s') (h' : s'.Continues s'') : s.Continues s'' where
  names := h.names.trans h'.names
  files := h.files.trans h'.files
  count := Nat.le_trans h.count h'.count
  modules := h.modules.trans h'.modules
  classes := h.classes.trans h'.classes
  functions := h.functions.trans h'.functions
  imports := h.imports.trans h'.imports
  attributes := h.attributes.trans h'.attributes
  hints := .trans h.count h.hints h'.hints
  decorators := .trans h.count h.decorators h'.decorators

lemma continues_record (h : Faithful r s) (x : Listed) : s.Continues (s.record x) := by
  rw [record_eq]
  constructor
  · exact extends_addAll _ _
  · exact extends_add _ _
  · exact Nat.le_succ _
  · exact prefix_append _ _
  · exact prefix_append _ _
  · exact prefix_append _ _
  · exact prefix_append _ _
  · exact prefix_rfl
  · exact .put h.hints_fresh _
  · exact .put h.decorators_fresh _

lemma continues_foldl_record (r more : List Listed) :
    (r.foldl record {}).Continues ((r ++ more).foldl record {}) := by
  induction more using reverseRecOn with
  | nil =>
    rw [append_nil]
    exact .refl _
  | append_singleton more x ih =>
    rw [← append_assoc, foldl_concat]
    exact ih.trans (continues_record (faithful_foldl_record (r ++ more)) x)

def locations (s : Skeleton) : List Nat :=
  s.ids .module ++ s.ids .class ++ s.ids .function ++ s.imports.map (·.location)

end Skeleton

/-! ### The places -/

namespace Places

/-- Places continue other ones: all lists go on where those of the others end. -/
structure Continues (p p' : Places) : Prop where
  files : p.files.Extends p'.files
  modules : p.modules <+: p'.modules
  classes : p.classes <+: p'.classes
  functions : p.functions <+: p'.functions
  imports : p.imports <+: p'.imports

lemma Continues.refl (p : Places) : p.Continues p :=
  ⟨.refl _, prefix_rfl, prefix_rfl, prefix_rfl, prefix_rfl⟩

lemma Continues.trans {p'' : Places} (h : p.Continues p') (h' : p'.Continues p'') :
    p.Continues p'' where
  files := h.files.trans h'.files
  modules := h.modules.trans h'.modules
  classes := h.classes.trans h'.classes
  functions := h.functions.trans h'.functions
  imports := h.imports.trans h'.imports

lemma continues_record (p : Places) (x : Listed) (l : Nat) : p.Continues (p.record (x, l)) := by
  rw [record_eq]
  exact ⟨extends_add _ _, prefix_append _ _, prefix_append _ _, prefix_append _ _,
    prefix_append _ _⟩

lemma continues_foldl_record (xls : List (Listed × Nat)) (p : Places) :
    p.Continues (xls.foldl record p) := by
  induction xls generalizing p with
  | nil => exact .refl p
  | cons xl xls ih => exact (continues_record p xl.1 xl.2).trans (ih _)

end Places

/-! ### Notes -/

lemma Keyed.addTo_append {κ α : Type} [DecidableEq κ] {key : κ} (a : α) (rest : Keyed κ (List α)) :
    {groups : Keyed κ (List α)} → key ∉ groups.keys →
      Keyed.addTo key a (groups ++ rest) = groups ++ Keyed.addTo key a rest
  | [], _ => rfl
  | (k, as) :: groups, h => by
    rw [Keyed.keys, map_cons, mem_cons, not_or] at h
    obtain ⟨hk, hgroups⟩ := h
    rw [cons_append, Keyed.addTo, if_neg (Ne.symm hk), addTo_append a rest hgroups, cons_append]

namespace Notes

variable {ρ : Type}

/-- Notes continue other ones: their texts and files go on, and so do the groups of every kind, none
of which gets more notes. -/
structure Continues (n n' : Notes ρ) : Prop where
  texts : n.texts.Extends n'.texts
  files : n.files.Extends n'.files
  groups : ∀ kind, n.groups kind <+: n'.groups kind

lemma Continues.refl (n : Notes ρ) : n.Continues n := ⟨.refl _, .refl _, fun _ => prefix_rfl⟩

/-- Notes still continue when one more is recorded under a location that had none. -/
lemma Continues.record {n n' : Notes ρ} (h : n.Continues n') {c : NoteCall ρ}
    (hnew : c.location ∉ (n.groups c.kind).keys) : n.Continues (n'.record c) where
  texts := by
    rw [texts_record]
    exact h.texts.trans (extends_add _ _)
  files := by
    rw [files_record]
    exact h.files.trans (extends_add _ _)
  groups kind := by
    rw [groups_record]
    by_cases hkind : c.kind = kind
    · subst hkind
      obtain ⟨rest, hrest⟩ := h.groups c.kind
      rw [if_pos rfl, ← hrest, Keyed.addTo_append _ rest hnew]
      exact prefix_append _ _
    · rw [if_neg hkind]
      exact h.groups kind

lemma continues_foldl_record {n : Notes ρ} (more : List (NoteCall ρ))
    (hnew : ∀ c ∈ more, c.location ∉ (n.groups c.kind).keys) :
    n.Continues (more.foldl record n) := by
  induction more using reverseRecOn with
  | nil => exact .refl n
  | append_singleton more c ih =>
    rw [foldl_concat]
    refine (ih fun d hd => hnew d (mem_append_left _ hd)).record (hnew c ?_)
    exact mem_append_right _ (mem_singleton_self c)

lemma continues_of_attached {r more : List Listed} {calls calls' : List (NoteCall ρ)}
    (hold : ∀ c ∈ calls, ∃ xl ∈ r.zipIdx, c.BelongsTo xl)
    (hnew : ∀ c ∈ calls', ∃ xl ∈ more.zipIdx r.length, c.BelongsTo xl) :
    (calls.foldl record {}).Continues ((calls ++ calls').foldl record {}) := by
  rw [foldl_append]
  refine continues_foldl_record calls' fun c hc hmem => ?_
  obtain ⟨⟨x, l⟩, hx, hl, -⟩ := hnew c hc
  have hle : r.length ≤ l := le_snd_of_mem_zipIdx hx
  rw [groups_foldl_record, keys_group, mem_eraseDups, map_map] at hmem
  obtain ⟨d, hd, hloc⟩ := mem_map.mp hmem
  obtain ⟨⟨y, m⟩, hy, hm, -⟩ := hold d (mem_of_mem_filter hd)
  have hlt : m < r.length := by simpa using snd_lt_of_mem_zipIdx hy
  have heq : (m : Int) = l := by rw [← hm, ← hl]; exact hloc
  omega

end Notes

/-! ### The atlas -/

namespace Atlas

structure Continues (a a' : Atlas) : Prop where
  skeleton : a.skeleton.Continues a'.skeleton
  places : a.places.Continues a'.places
  docstrings : a.docstrings.Continues a'.docstrings
  comments : a.comments.Continues a'.comments

/-- More files at the end continue all documents. -/
lemma continues_ofFiles (xs ys : List (String × File)) :
    (ofFiles xs).Continues (ofFiles (xs ++ ys)) where
  skeleton := by
    rw [skeleton_ofFiles, skeleton_ofFiles, roll_append]
    exact Skeleton.continues_foldl_record _ _
  places := by
    rw [places_ofFiles, places_ofFiles, roll_append, zipIdx_append, foldl_append]
    exact Places.continues_foldl_record _ _
  docstrings := by
    rw [docstrings_ofFiles, docstrings_ofFiles, projectDocstrings_append]
    have hnew : ∀ c ∈ ((rollFrom (classCount xs) ys).zipIdx (roll xs).length).flatMap
        (fun xl => xl.1.docstrings xl.2),
        ∃ xl ∈ (rollFrom (classCount xs) ys).zipIdx (roll xs).length,
          c.BelongsTo xl := by
      intro c hc
      obtain ⟨xl, hxl, hc⟩ := mem_flatMap.mp hc
      exact ⟨xl, hxl, belongsTo_of_mem_docstrings hc⟩
    exact Notes.continues_of_attached (fun c hc => attached_projectDocstrings hc) hnew
  comments := by
    rw [comments_ofFiles, comments_ofFiles, projectComments_append]
    exact Notes.continues_of_attached (fun c hc => attached_projectComments hc)
      fun c hc => attached_commentsFrom hc

end Atlas

/-! ### The documents -/

/-- The lists that stand under keys of a document are beginnings of those in another document. -/
def ListsContinue (keys : List String) (doc doc' : Value) : Prop :=
  ∀ key ∈ keys, ∃ rows more, doc.field key = .ok (.list rows) ∧
    doc'.field key = .ok (.list (rows ++ more))

/-- The table under a key of a document is that of another document, with the entries of other
locations left out. -/
def TableRestricts (key : String) (locations : List Nat) (doc doc' : Value) : Prop :=
  ∃ entries entries', doc.field key = .ok (.table entries) ∧
    doc'.field key = .ok (.table entries') ∧
    entries = entries'.filter (·.1 ∈ locations.map toString)

lemma exists_rows_of_prefix {α : Type} {xs xs' : List α} (h : xs <+: xs') {write : α → Value}
    (hdoc : doc.field key = .ok (.list (xs.map write)))
    (hdoc' : doc'.field key = .ok (.list (xs'.map write))) :
    ∃ rows more, doc.field key = .ok (.list rows) ∧
      doc'.field key = .ok (.list (rows ++ more)) := by
  obtain ⟨more, rfl⟩ := h
  rw [map_append] at hdoc'
  exact ⟨_, _, hdoc, hdoc'⟩

lemma Skeleton.Continues.lists {s s' : Skeleton} (h : s.Continues s') (header header' : Header) :
    ListsContinue ["names", "files", "modules", "classes", "functions", "imports", "attributes"]
      (s.document header) (s'.document header') := by
  simp only [ListsContinue, forall_mem_cons, not_mem_nil, false_imp_iff, implies_true, and_true]
  refine ⟨?_, ?_, ?_, ?_, ?_, ?_, ?_⟩
  · exact exists_rows_of_prefix h.names rfl rfl
  · exact exists_rows_of_prefix h.files rfl rfl
  · exact exists_rows_of_prefix h.modules rfl rfl
  · exact exists_rows_of_prefix h.classes rfl rfl
  · exact exists_rows_of_prefix h.functions rfl rfl
  · exact exists_rows_of_prefix h.imports rfl rfl
  · exact exists_rows_of_prefix h.attributes rfl rfl

lemma Places.Continues.lists (h : p.Continues p') (header header' : Header) :
    ListsContinue ["files", "modules", "classes", "functions", "imports"]
      (p.document header) (p'.document header') := by
  simp only [ListsContinue, forall_mem_cons, not_mem_nil, false_imp_iff, implies_true, and_true]
  refine ⟨?_, ?_, ?_, ?_, ?_⟩
  · exact exists_rows_of_prefix h.files rfl rfl
  · exact exists_rows_of_prefix h.modules rfl rfl
  · exact exists_rows_of_prefix h.classes rfl rfl
  · exact exists_rows_of_prefix h.functions rfl rfl
  · exact exists_rows_of_prefix h.imports rfl rfl

lemma Notes.Continues.lists {ρ : Type} {n n' : Notes ρ} (h : n.Continues n') {texts : String}
    (hkey : texts ∉ ["meta", "modules", "classes", "functions"]) (lines : ρ → List Int)
    (header header' : Header) :
    ListsContinue [texts, "modules", "classes", "functions"] (n.documentWith texts lines header)
      (n'.documentWith texts lines header') := by
  rw [mem_cons, not_or] at hkey
  obtain ⟨hmeta, hkinds⟩ := hkey
  have hgroups : ∀ kind : Ranged, ∃ rows more,
      (n.documentWith texts lines header).field kind.key = .ok (.list rows) ∧
        (n'.documentWith texts lines header').field kind.key = .ok (.list (rows ++ more)) := by
    intro kind
    exact exists_rows_of_prefix (h.groups kind) (field_documentWith hkinds lines header)
      (field_documentWith hkinds lines header')
  simp only [ListsContinue, forall_mem_cons, not_mem_nil, false_imp_iff, implies_true, and_true]
  refine ⟨?_, hgroups .module, hgroups .class, hgroups .function⟩
  exact exists_rows_of_prefix h.texts (field_texts_documentWith hmeta lines header)
    (field_texts_documentWith hmeta lines header')

/-! ### Type hints and decorators -/

lemma mem_locations_iff {s : Skeleton} (hlocations : s.locations.Perm (range s.nextLocation))
    (l : Nat) : toString (l : Int) ∈ s.locations.map toString ↔ (l : Int) < s.nextLocation := by
  constructor
  · intro h
    obtain ⟨m, hm, htext⟩ := mem_map.mp h
    obtain rfl : m = l := Json.toString_inj htext
    have hlt := mem_range.mp (hlocations.mem_iff.mp hm)
    omega
  · intro h
    have hmem : l ∈ s.locations := hlocations.mem_iff.mpr (mem_range.mpr (by omega))
    exact mem_map_of_mem (f := toString) hmem

lemma tableRestricts_of_entries {α β : Type} (write : α → Value) {s : Skeleton}
    {entries entries' : Keyed Int α} {what? : Listed → Option β} {r r' : List Listed}
    (h : EntriesContinue s.nextLocation entries entries')
    (hlocations : s.locations.Perm (range s.nextLocation)) (hcount : s.nextLocation = r.length)
    (hkeys : entries.keys = (located what? r).map fun lb => (lb.1 : Int))
    (hkeys' : entries'.keys = (located what? r').map fun lb => (lb.1 : Int))
    (hdoc : doc.field key = .ok (.table (entries.map fun e => (toString e.1, write e.2))))
    (hdoc' : doc'.field key = .ok (.table (entries'.map fun e => (toString e.1, write e.2)))) :
    TableRestricts key s.locations doc doc' := by
  refine ⟨_, _, hdoc, hdoc', ?_⟩
  rw [filter_map]
  refine congrArg (map _) (h.filter_eq ?_ ?_).symm
  · intro l hl
    rw [hkeys] at hl
    obtain ⟨lb, hlb, rfl⟩ := mem_map.mp hl
    have hlt := lt_of_mem_located hlb
    omega
  · intro e he
    have hmem : e.1 ∈ entries'.keys := mem_map_of_mem he
    rw [hkeys'] at hmem
    obtain ⟨lb, -, hl⟩ := mem_map.mp hmem
    rw [Function.comp_apply, decide_eq_true_eq, ← hl]
    exact mem_locations_iff hlocations lb.1

end Index

namespace Project

open Index

/-- Files that are appended only extend the documents: every list of the four documents is the
beginning of the list after, and so are the files that docstrings and comments number for
themselves; the type hints and decorators before are those after, restricted to the locations
before. -/
theorem documents_continue (p : Project) (xs ys : List File) (header header' : Header) :
    let a := p.atlas xs
    let a' := p.atlas (xs ++ ys)
    let d := documents header a
    let d' := documents header' a'
    ListsContinue ["names", "files", "modules", "classes", "functions", "imports", "attributes"]
        d.skeleton d'.skeleton ∧
      ListsContinue ["files", "modules", "classes", "functions", "imports"] d.places d'.places ∧
      ListsContinue ["docstrings_text", "modules", "classes",
      "functions"] d.docstrings d'.docstrings ∧
      ListsContinue ["comments_text", "modules", "classes", "functions"] d.comments d'.comments ∧
      a.docstrings.files.items <+: a'.docstrings.files.items ∧
      a.comments.files.items <+: a'.comments.files.items ∧
      TableRestricts "typehints" a.skeleton.locations d.skeleton d'.skeleton ∧
      TableRestricts "decorators" a.skeleton.locations d.skeleton d'.skeleton := by
  intro a a' d d'
  let path (f : File) : String × File := (p.inside (Path.ofString f.path), f)
  have happend : a' = Atlas.ofFiles (xs.map path ++ ys.map path) := by
    show Atlas.ofFiles ((xs ++ ys).map path) = _
    rw [map_append]
  have hcontinues : a.Continues a' := by
    rw [happend]
    exact Atlas.continues_ofFiles _ _
  have hlocations := (Atlas.joinable_ofFiles (xs.map path)).locations
  have hold := Atlas.faithful_ofFiles (xs.map path)
  have hnew : Skeleton.Faithful (roll (xs.map path ++ ys.map path)) a'.skeleton := by
    rw [happend]
    exact Atlas.faithful_ofFiles _
  refine ⟨?_, ?_, ?_, ?_, ?_, ?_, ?_, ?_⟩
  · exact hcontinues.skeleton.lists header header'
  · exact hcontinues.places.lists header header'
  · exact hcontinues.docstrings.lists (by decide) _ header header'
  · exact hcontinues.comments.lists (by decide) _ header header'
  · exact hcontinues.docstrings.files
  · exact hcontinues.comments.files
  · exact tableRestricts_of_entries Skeleton.Hints.toValue hcontinues.skeleton.hints hlocations
      hold.count hold.hints hnew.hints rfl rfl
  · exact tableRestricts_of_entries
      (fun ds => row (ds.map Int.ofNat)) hcontinues.skeleton.decorators
      hlocations hold.count hold.decorators hnew.decorators rfl rfl

end Project

end CodeAtlas
