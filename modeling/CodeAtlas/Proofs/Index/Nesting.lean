import CodeAtlas.Proofs.Index.DocstringLines
import CodeAtlas.Proofs.Index.Growth
import CodeAtlas.Proofs.Outline.Comments

/-!
# Lines and comments nest

The comments of a definition are those between its first and its last line, so they nest as the
definitions do (`Project.comments_nest`).
-/

namespace CodeAtlas

open List Syntax Index

variable {f : Outline.File} {x : Listed} {l : Nat} {body : List Stmt} {cs : List Comment}
  {g : Function} {c : Outline.Class} {path : String} {k m n : Nat} {o : Outlined} {y : Listed}
  {after before : List (String × Outline.File)}

/-- Lines, from the first to the last, that lie inside others. -/
def Nests (inner outer : Int × Int) : Prop :=
  outer.1 ≤ inner.1 ∧ inner.1 ≤ inner.2 ∧ inner.2 ≤ outer.2

instance (inner outer : Int × Int) : Decidable (Nests inner outer) := by
  unfold Nests
  infer_instance

/-! ### The lines of a file -/

namespace ParsedFile

/-- Every statement lies between the first and the last line of the text, and inside the statement
that it stands directly in. -/
def WellPlaced (f : ParsedFile) : Prop :=
  ∀ v ∈ f.module.walk, ∀ s ∈ v.node.stmt?,
    Nests (s.span.first, s.span.last) (1, f.text.count '\n' + 1) ∧
    ∀ t ∈ v.node.children.filterMap Node.stmt?,
    Nests (t.span.first, t.span.last) (s.span.first, s.span.last)

instance (f : ParsedFile) : Decidable f.WellPlaced := by
  unfold WellPlaced
  infer_instance

end ParsedFile

namespace Outline

lemma exists_visit_of_mem_body {m : Module} {s : Stmt} (h : s ∈ m.body) :
    ∃ v ∈ m.walk, v.node = .stmt s := by
  rw [← topLevel_eq] at h
  obtain ⟨v, hv, hs⟩ := mem_filterMap.mp h
  refine ⟨v, hv, ?_⟩
  split at hs
  · next hnode => rw [hnode, Option.some.inj (Option.ite_none_right_eq_some.mp hs).2]
  · cases hs

lemma mem_of_mem_classDefs {d : Span × ClassHead × List Stmt} (h : d ∈ classDefs body) :
    .classDef d.1 d.2.1 d.2.2 ∈ body := by
  obtain ⟨s, hs, hd⟩ := mem_filterMap.mp h
  split at hd
  · rwa [← Option.some.inj hd]
  · cases hd

lemma mem_of_mem_functionDefs {d : Span × FunctionHead × List Stmt} (h : d ∈ functionDefs body) :
    .function d.1 d.2.1 d.2.2 ∈ body := by
  obtain ⟨s, hs, hd⟩ := mem_filterMap.mp h
  split at hd
  · rwa [← Option.some.inj hd]
  · cases hd

/-- The definitions of a file lie inside the file, and methods inside their classes. -/
structure File.RangesNest (o : File) : Prop where
  classes : ∀ c ∈ o.classes, Nests (c.firstLine, c.lastLine) (1, o.lineCount)
  methods : ∀ c ∈ o.classes, ∀ g ∈ c.methods,
    Nests (g.firstLine, g.lastLine) (c.firstLine, c.lastLine)
  functions : ∀ g ∈ o.functions, Nests (g.firstLine, g.lastLine) (1, o.lineCount)

/-- Every definition of a file has the comments of the file on its lines. -/
structure File.Selects (o : File) : Prop where
  increasing : o.comments.Pairwise (·.line < ·.line)
  module : commentsWithin o.comments 1 o.lineCount = o.comments
  classes : ∀ c ∈ o.classes, c.comments = commentsWithin o.comments c.firstLine c.lastLine
  methods : ∀ c ∈ o.classes, ∀ g ∈ c.methods,
    g.comments = commentsWithin o.comments g.firstLine g.lastLine
  functions : ∀ g ∈ o.functions, g.comments = commentsWithin o.comments g.firstLine g.lastLine

lemma mem_commentsWithin {first last : Int} {c : Comment} :
    c ∈ commentsWithin cs first last ↔ c ∈ cs ∧ first ≤ c.line ∧ c.line ≤ last := by
  simp [commentsWithin]

lemma File.Selects.comments_subset {o : File} (hselects : o.Selects) (hranges : o.RangesNest)
    {c : Class} (hc : c ∈ o.classes) (hg : g ∈ c.methods) : g.comments ⊆ c.comments := by
  intro t ht
  obtain ⟨hfirst, -, hlast⟩ := hranges.methods c hc g hg
  rw [hselects.methods c hc g hg, mem_commentsWithin] at ht
  rw [hselects.classes c hc, mem_commentsWithin]
  exact ⟨ht.1, Int.le_trans hfirst ht.2.1, Int.le_trans ht.2.2 hlast⟩

end Outline

namespace ParsedFile

open Outline

variable (f : ParsedFile)

lemma exists_of_mem_classes (h : c ∈ f.outline.classes) :
    ∃ d ∈ classDefs f.module.body, classOutline (comments f.text) d.1 d.2.1 d.2.2 = c := by
  rw [show f.outline.classes = _ from classes_eq ..] at h
  exact mem_map.mp h

lemma exists_of_mem_functionsIn (h : g ∈ functionsIn cs body) :
    ∃ d ∈ functionDefs body, functionOutline cs d.1 d.2.1 d.2.2 = g := by
  rw [functionsIn_eq] at h
  exact mem_map.mp h

lemma exists_of_mem_functions (h : g ∈ f.outline.functions) :
    ∃ d ∈ functionDefs f.module.body, functionOutline (comments f.text) d.1 d.2.1 d.2.2 = g :=
  exists_of_mem_functionsIn (topLevel_eq .. ▸ h)

/-- The outline of a well-placed file has nested ranges. -/
lemma rangesNest (h : f.WellPlaced) : f.outline.RangesNest := by
  have htop : ∀ {s : Stmt}, s ∈ f.module.body →
      Nests (s.span.first, s.span.last) (1, f.outline.lineCount) := by
    intro s hs
    obtain ⟨v, hv, hnode⟩ := exists_visit_of_mem_body hs
    exact (h v hv s (by rw [hnode]; rfl)).1
  refine ⟨fun c hc => ?_, fun c hc g hg => ?_, fun g hg => ?_⟩
  · obtain ⟨d, hd, rfl⟩ := f.exists_of_mem_classes hc
    exact htop (mem_of_mem_classDefs hd)
  · obtain ⟨d, hd, rfl⟩ := f.exists_of_mem_classes hc
    obtain ⟨e, he, rfl⟩ := exists_of_mem_functionsIn hg
    obtain ⟨v, hv, hnode⟩ := exists_visit_of_mem_body (mem_of_mem_classDefs hd)
    refine (h v hv (.classDef d.1 d.2.1 d.2.2) (by rw [hnode]; rfl)).2
      (.function e.1 e.2.1 e.2.2) ?_
    rw [hnode]
    exact mem_filterMap.mpr ⟨_, mem_map_of_mem (mem_of_mem_functionDefs he), rfl⟩
  · obtain ⟨d, hd, rfl⟩ := f.exists_of_mem_functions hg
    exact htop (mem_of_mem_functionDefs hd)

/-- The outline of a file selects comments by their lines. -/
lemma selects : f.outline.Selects := by
  refine ⟨?_, ?_, fun c hc => ?_, fun c hc g hg => ?_, fun g hg => ?_⟩
  · exact pairwise_comments f.text
  · rw [commentsWithin, filter_eq_self]
    intro c hc
    rw [Bool.and_eq_true, decide_eq_true_eq, decide_eq_true_eq]
    exact line_of_mem_comments hc
  · obtain ⟨d, -, rfl⟩ := f.exists_of_mem_classes hc
    rfl
  · obtain ⟨d, -, rfl⟩ := f.exists_of_mem_classes hc
    obtain ⟨e, -, rfl⟩ := exists_of_mem_functionsIn hg
    rfl
  · obtain ⟨d, -, rfl⟩ := f.exists_of_mem_functions hg
    rfl

end ParsedFile

namespace Index

/-! ### The comments of an entity -/

def Listed.remarks : Listed → List Outline.Comment
  | ⟨_, .module f⟩ => f.comments
  | ⟨_, .class c⟩ => c.comments
  | ⟨_, .function _ g⟩ => g.comments
  | ⟨_, .import _⟩ => []

lemma Listed.kind?_eq_map_outlined? : x.kind? = x.outlined?.map Outlined.kind := by
  obtain ⟨path, entity⟩ := x
  cases entity <;> rfl

lemma Listed.remarks_eq (hf : f.Selects) (hx : x ∈ fileRoll path f k)
    (ho : x.outlined? = some o) : x.remarks = Outline.commentsWithin f.comments o.first o.last := by
  simp only [fileRoll, classRoll, mem_cons, mem_append, mem_flatMap, mem_map] at hx
  rcases hx with rfl | (⟨ck, hck, rfl | ⟨g, hg, rfl⟩⟩ | ⟨g, hg, rfl⟩) | ⟨i, -, rfl⟩ <;> cases ho
  · exact hf.module.symm
  · exact hf.classes ck.1 (fst_mem_of_mem_zipIdx hck)
  · exact hf.methods ck.1 (fst_mem_of_mem_zipIdx hck) g hg
  · exact hf.functions g hg

/-- What is recorded of the comments of an entity, if it is of a kind. -/
def Listed.remarkCalls (kind : Ranged) (x : Listed) (l : Nat) : List (NoteCall Int) :=
  if x.kind? = some kind then commentCalls kind l x.path x.remarks else []

lemma filter_kind_commentCalls (kind other : Ranged) (cs : List Outline.Comment) :
    (commentCalls kind l path cs).filter (·.kind = other) =
      if kind = other then commentCalls kind l path cs else [] := by
  split
  · next h =>
    refine filter_eq_self.mpr fun c hc => ?_
    obtain ⟨t, -, rfl⟩ := mem_map.mp hc
    exact decide_eq_true h
  · next h =>
    refine filter_eq_nil_iff.mpr fun c hc => ?_
    obtain ⟨t, -, rfl⟩ := mem_map.mp hc
    simpa using h

lemma kind?_ne_module_of_mem (hy : (y, m) ∈ (fileRoll path f k).zipIdx n) (hm : n < m) :
    y.kind? ≠ some .module := by
  rw [fileRoll, zipIdx_cons, mem_cons] at hy
  rcases hy with heq | hy
  · cases heq
    exact absurd hm (Nat.lt_irrefl _)
  · have hmem := fst_mem_of_mem_zipIdx hy
    simp only [classRoll, mem_cons, mem_append, mem_flatMap, mem_map] at hmem
    rcases hmem with (⟨ck, -, rfl | ⟨g, -, rfl⟩⟩ | ⟨g, -, rfl⟩) | ⟨i, -, rfl⟩ <;>
      simp [Listed.kind?]

lemma filter_kind_commentsFrom (files : List (String × Outline.File)) (kind : Ranged) :
    (commentsFrom n (eventsFrom n k files)).filter (·.kind = kind) =
      ((rollFrom k files).zipIdx n).flatMap fun xl => xl.1.remarkCalls kind xl.2 := by
  induction files generalizing n k with
  | nil => rfl
  | cons pf files ih =>
    obtain ⟨path, f⟩ := pf
    rw [eventsFrom, commentsFrom_arrivals, commentsFrom, filter_append, filter_append, ih, rollFrom,
      zipIdx_append, flatMap_append, ← append_assoc, filter_kind_commentCalls, filter_flatMap]
    congr 1
    have hkind : ∀ xl ∈ (fileRoll path f k).tail.zipIdx (n + 1), xl.1.kind? ≠ some .module := by
      intro xl hxl
      have hle := le_snd_of_mem_zipIdx hxl
      exact kind?_ne_module_of_mem (mem_cons_of_mem _ hxl) hle
    have hrest : (((fileRoll path f k).tail.zipIdx (n + 1)).flatMap fun xl =>
          (xl.1.comments xl.2).filter (·.kind = kind)) =
        ((fileRoll path f k).tail.zipIdx (n + 1)).flatMap fun xl => xl.1.remarkCalls kind xl.2 := by
      refine flatMap_congr fun xl hxl => ?_
      have hne := hkind xl hxl
      obtain ⟨⟨path, entity⟩, l⟩ := xl
      cases entity <;>
        simp_all [Listed.comments, Listed.remarkCalls, Listed.kind?, Listed.remarks,
        filter_kind_commentCalls]
    have hsplit : (fileRoll path f k).zipIdx n =
      (⟨path, .module f⟩, n) :: (fileRoll path f k).tail.zipIdx (n + 1) := rfl
    rw [hsplit, flatMap_cons, flatMap_cons, hrest]
    by_cases hmodule : kind = .module
    · subst hmodule
      have hnil : (((fileRoll path f k).tail.zipIdx (n + 1)).flatMap fun xl =>
          xl.1.remarkCalls .module xl.2) = [] :=
        flatMap_eq_nil_iff.mpr fun xl hxl => if_neg (hkind xl hxl)
      rw [hnil]
      simp [Listed.comments, Listed.remarkCalls, Listed.kind?, Listed.remarks]
    · simp [Listed.comments, Listed.remarkCalls, Listed.kind?, Ne.symm hmodule]

lemma filter_location_flatMap {ρ : Type} {g : Listed → Nat → List (NoteCall ρ)}
    (hg : ∀ x l, ∀ c ∈ g x l, c.location = l) {r : List Listed} (hx : (x, l) ∈ r.zipIdx n) :
    ((r.zipIdx n).flatMap fun xl => g xl.1 xl.2).filter (·.location = (l : Int)) = g x l := by
  have hnone : ∀ {y : Listed} {m : Nat}, m ≠ l → (g y m).filter (·.location = (l : Int)) = [] := by
    intro y m hne
    refine filter_eq_nil_iff.mpr fun c hc => ?_
    rw [hg y m c hc, decide_eq_true_eq]
    exact fun heq => hne (Int.ofNat.inj heq)
  induction r generalizing n with
  | nil => simp at hx
  | cons y r ih =>
    rw [zipIdx_cons, flatMap_cons, filter_append]
    rw [zipIdx_cons, mem_cons] at hx
    rcases hx with heq | hx
    · obtain ⟨rfl, rfl⟩ := Prod.mk.inj heq
      have hlater : ((r.zipIdx (l + 1)).flatMap fun xl => g xl.1 xl.2).filter
          (·.location = (l : Int)) = [] := by
        rw [filter_flatMap]
        refine flatMap_eq_nil_iff.mpr fun xl hxl => hnone ?_
        have := le_snd_of_mem_zipIdx hxl
        omega
      rw [hlater, append_nil, filter_eq_self]
      exact fun c hc => by simpa using hg x l c hc
    · have hle := le_snd_of_mem_zipIdx hx
      rw [hnone (by omega), nil_append, ih hx]

lemma filter_projectComments {files : List (String × Outline.File)} {kind : Ranged}
    (hx : (x, l) ∈ (roll files).zipIdx) (hkind : x.kind? = some kind) :
    (projectComments files).filter (fun c => c.kind = kind ∧ c.location = (l : Int)) =
      commentCalls kind l x.path x.remarks := by
  have hlocation : ∀ (y : Listed) (m : Nat), ∀ c ∈ y.remarkCalls kind m, c.location = m := by
    intro y m c hc
    unfold Listed.remarkCalls at hc
    split at hc
    · obtain ⟨t, -, rfl⟩ := mem_map.mp hc
      rfl
    · cases hc
  have hfilter : (projectComments files).filter (fun c => c.kind = kind ∧ c.location = (l : Int)) =
      ((projectComments files).filter (·.kind = kind)).filter (·.location = (l : Int)) := by
    simp [filter_filter, Bool.and_comm]
  rw [hfilter, projectComments, filter_kind_commentsFrom]
  exact (filter_location_flatMap hlocation hx).trans (if_pos hkind)

/-! ### The comments under a location -/

lemma get?_map_pair {κ α : Type} [DecidableEq κ] (g : κ → α) (k : κ) (ks : List κ) :
    Keyed.get? k (ks.map fun k => (k, g k)) = if k ∈ ks then some (g k) else none := by
  induction ks with
  | nil => rfl
  | cons j ks ih =>
    rw [map_cons, Keyed.get?, ih]
    by_cases h : j = k
    · simp [h]
    · simp [h, Ne.symm h]

namespace Atlas

def commentsUnder (a : Atlas) (kind : Ranged) (l : Int) : List (Note Int) :=
  ((a.comments.groups kind).get? l).getD []

/-- The note that a comment becomes; where it stands does not matter. -/
def noteAt (a : Atlas) (path : String) (c : Outline.Comment) : Note Int :=
  a.comments.noteOf ⟨.module, 0, Text.strip c.text, path, c.line⟩

variable {files : List (String × Outline.File)} {kind : Ranged} {x : Listed} {l : Nat}

/-- Under a location stand the comments of its entity. -/
lemma commentsUnder_eq (hx : (x, l) ∈ (roll files).zipIdx) (hkind : x.kind? = some kind) :
    (ofFiles files).commentsUnder kind l = x.remarks.map ((ofFiles files).noteAt x.path) := by
  have hcalls : ((projectComments files).filter fun c => c.kind = kind ∧ c.location = (l : Int)).map
      (ofFiles files).comments.noteOf = x.remarks.map ((ofFiles files).noteAt x.path) := by
    rw [filter_projectComments hx hkind, commentCalls, map_map]
    rfl
  rw [← hcalls, commentsUnder, comments_ofFiles, Notes.groups_eq, get?_map_pair]
  split
  · rfl
  · next hkey =>
    have hnil :
        ((projectComments files).filter fun c => c.kind = kind ∧ c.location = (l : Int)) = [] := by
      refine filter_eq_nil_iff.mpr fun c hc hcl => hkey ?_
      obtain ⟨hckind, hcl⟩ := of_decide_eq_true hcl
      rw [mem_eraseDups, mem_map]
      exact ⟨c, mem_filter.mpr ⟨hc, decide_eq_true hckind⟩, hcl⟩
    rw [hnil]
    rfl

lemma exists_of_mem_groups {group : Int × List (Note Int)}
    (h : group ∈ (ofFiles files).comments.groups kind) :
    ∃ x l, (x, l) ∈ (roll files).zipIdx ∧ x.kind? = some kind ∧
      group.2 = x.remarks.map ((ofFiles files).noteAt x.path) := by
  rw [comments_ofFiles, Notes.groups_eq] at h
  obtain ⟨m, hm, rfl⟩ := mem_map.mp h
  obtain ⟨c, hc, rfl⟩ := mem_map.mp (mem_eraseDups.mp hm)
  obtain ⟨hmem, hckind⟩ := mem_filter.mp hc
  obtain rfl : c.kind = kind := of_decide_eq_true hckind
  obtain ⟨⟨x, l⟩, hx, hl, hkind, -⟩ := attached_projectComments hmem
  refine ⟨x, l, hx, hkind, ?_⟩
  simp only at hl ⊢
  rw [hl, filter_projectComments hx hkind, commentCalls, map_map, ← comments_ofFiles]
  rfl

/-! ### The file of an entity -/

lemma exists_file_rollFrom (h : (x, l) ∈ (rollFrom k files).zipIdx n) :
    ∃ before path f after, files = before ++ (path, f) :: after ∧
      (x, l) ∈ (fileRoll path f (k + classCount before)).zipIdx
        (n + (rollFrom k before).length) := by
  induction files generalizing n k with
  | nil => simp [rollFrom] at h
  | cons pf files ih =>
    obtain ⟨path, f⟩ := pf
    rw [rollFrom, zipIdx_append] at h
    rcases mem_append.mp h with h | h
    · exact ⟨[], path, f, files, rfl, h⟩
    · obtain ⟨before, path', f', after, rfl, hx⟩ := ih h
      refine ⟨(path, f) :: before, path', f', after, rfl, ?_⟩
      rw [rollFrom, length_append, ← Nat.add_assoc, classCount, flatMap_cons, length_append,
        ← Nat.add_assoc]
      exact hx

lemma exists_file (h : (x, l) ∈ (roll files).zipIdx) :
    ∃ before path f after, files = before ++ (path, f) :: after ∧
      (x, l) ∈ (fileRoll path f (classCount before)).zipIdx (roll before).length := by
  obtain ⟨before, path, f, after, hfiles, hx⟩ := exists_file_rollFrom h
  rw [Nat.zero_add, Nat.zero_add] at hx
  exact ⟨before, path, f, after, hfiles, hx⟩

lemma mem_fileRoll_of_le (hx :
    (x, l) ∈ (fileRoll path f (classCount before)).zipIdx (roll before).length)
    (hy : (y, m) ∈ (roll (before ++ (path, f) :: after)).zipIdx) (hm : (roll before).length ≤ m)
    (hml : m ≤ l) : (y, m) ∈ (fileRoll path f (classCount before)).zipIdx (roll before).length := by
  have hlt := snd_lt_of_mem_zipIdx hx
  rw [mk_mem_zipIdx_iff_getElem?, roll_append, getElem?_append_right hm, rollFrom,
    getElem?_append_left (by simp only at hlt; omega)] at hy
  exact mk_mem_zipIdx_iff_le_and_getElem?_sub.mpr ⟨hm, hy⟩

lemma module_mem_roll : (⟨path, .module f⟩, (roll before).length) ∈
    (roll (before ++ (path, f) :: after)).zipIdx := by
  rw [mk_mem_zipIdx_iff_getElem?, roll_append, getElem?_append_right (Nat.le_refl _), Nat.sub_self]
  rfl

/-! ### The class of a method -/

/-- The class that an entity is, and the path of its file. -/
def classAt? : Listed → Option (String × Outline.Class)
  | ⟨path, .class c⟩ => some (path, c)
  | _ => none

lemma filterMap_classAt?_roll :
    (roll files).filterMap classAt? = files.flatMap fun pf => pf.2.classes.map (pf.1, ·) := by
  refine filterMap_rollFrom
    (g := fun path f => f.classes.map (path, ·)) (fun path f k => ?_) files 0
  simp only [filterMap_fileRoll, classAt?, Option.toList_none, Option.toList_some, filterMap_none,
    append_nil, nil_append]
  rw [flatMap_zipIdx_fst f.classes fun c => [(path, c)], ← map_eq_flatMap]

lemma exists_class_row (path : String) (after : List (String × Outline.File))
    (hc : (c, k) ∈ f.classes.zipIdx (classCount before)) : let files := before ++ (path, f) :: after
    ∃ e, (ofFiles files).skeleton.classes[k]? = some e ∧
      (⟨path, .class c⟩, e.location) ∈ (roll files).zipIdx := by
  intro files
  have hrow : ((located classAt? (roll files)).map Prod.snd)[k]? = some (path, c) := by
    obtain ⟨hle, hget⟩ := mk_mem_zipIdx_iff_le_and_getElem?_sub.mp hc
    have hlength : (before.flatMap fun pf => pf.2.classes.map (pf.1, ·)).length =
        classCount before := by
      simp [classCount, length_flatMap]
    have hlt : k - classCount before < (f.classes.map (path, ·)).length := by
      rw [length_map]
      exact (List.getElem?_eq_some_iff.mp hget).1
    rw [located_snd, filterMap_classAt?_roll, flatMap_append, getElem?_append_right (by omega),
      hlength, flatMap_cons, getElem?_append_left hlt, getElem?_map, hget]
    rfl
  rw [getElem?_map] at hrow
  obtain ⟨⟨l, what⟩, hl, rfl⟩ := Option.map_eq_some_iff.mp hrow
  have hlocations : (ofFiles files).skeleton.classes.map (·.location) =
      (located classAt? (roll files)).map Prod.fst := by
    rw [Skeleton.map_location_of_shows (faithful_ofFiles files).classes]
    exact located_fst_congr (fun x => by obtain ⟨_, _ | _ | _ | _⟩ := x <;> rfl) _
  have hlocation := congrArg (·[k]?) hlocations
  simp only [getElem?_map, hl, Option.map_some] at hlocation
  obtain ⟨e, he, rfl⟩ := Option.map_eq_some_iff.mp hlocation
  obtain ⟨⟨path', entity⟩, hy, hwhat⟩ := mem_located_iff.mp (mem_of_getElem? hl)
  cases entity <;> cases hwhat
  exact ⟨e, he, hy⟩

lemma exists_method {e : FunctionEntry} (he : e ∈ (ofFiles files).skeleton.functions)
    (hk : e.parent = k) :
    ∃ before path f after c g, files = before ++ (path, f) :: after ∧
      (c, k) ∈ f.classes.zipIdx (classCount before) ∧
      g ∈ c.methods ∧ (⟨path, .function k g⟩, e.location) ∈ (roll files).zipIdx := by
  have hrows : (ofFiles files).skeleton.functions.map (fun e => (e.location, e.parent)) =
      (located Listed.function? (roll files)).map fun lb => (lb.1, lb.2.1) := by
    refine map_eq_map_of_forall₂ (fun hshows => ?_) (faithful_ofFiles files).functions
    obtain ⟨reading, -, hread⟩ := Option.map_eq_some_iff.mp hshows.2.2
    rw [hshows.1, ← hread]
  have hmem := mem_map_of_mem (f := fun e : FunctionEntry => (e.location, e.parent)) he
  rw [hrows] at hmem
  obtain ⟨⟨l, parent, reading⟩, hl, heq⟩ := mem_map.mp hmem
  obtain ⟨rfl, hparent⟩ := Prod.mk.inj heq
  obtain rfl : parent = k := hparent.trans hk
  obtain ⟨⟨path', entity⟩, hy, hwhat⟩ := mem_located_iff.mp hl
  cases entity <;> cases hwhat
  obtain ⟨before, path, f, after, hfiles, hfile⟩ := exists_file hy
  obtain rfl : path' = path := path_of_mem_fileRoll (fst_mem_of_mem_zipIdx hfile)
  have hroll := fst_mem_of_mem_zipIdx hfile
  simp only [fileRoll, classRoll, mem_cons, mem_append, mem_flatMap, mem_map] at hroll
  rcases hroll with heq | (⟨⟨c, j⟩, hc, heq | ⟨g, hg, heq⟩⟩ | ⟨g, -, heq⟩) | ⟨i, -, heq⟩
  · cases heq
  · cases heq
  · obtain ⟨hj, rfl⟩ := Entity.function.inj (Listed.mk.inj heq).2
    obtain rfl : j = k := Int.ofNat.inj hj
    exact ⟨before, path', f, after, c, g, hfiles, hc, hg, hy⟩
  · cases (Entity.function.inj (Listed.mk.inj heq).2).1
  · cases heq

/-! ### Nesting -/

lemma exists_of_mem_ids (h : l ∈ (ofFiles files).skeleton.ids kind) :
    ∃ x o, (x, l) ∈ (roll files).zipIdx ∧ x.outlined? = some o ∧ o.kind = kind := by
  rw [← map_fst_located_outlined?] at h
  obtain ⟨⟨l, o⟩, ho, rfl⟩ := mem_map.mp h
  obtain ⟨x, hx, hfilter⟩ := mem_located_iff.mp ho
  obtain ⟨ho, hkind⟩ := Option.filter_eq_some_iff.mp hfilter
  exact ⟨x, o, hx, ho, of_decide_eq_true hkind⟩

lemma eq_of_get?_eq {i j : Nat} {name : String}
    (hi : (ofFiles files).skeleton.files.get? i = some name)
    (hj : (ofFiles files).skeleton.files.get? j = some name) : i = j := by
  have hnodup : (ofFiles files).skeleton.files.items.Nodup := by
    rw [files_ofFiles]
    exact nodup_eraseDups _
  exact (getElem?_inj (List.getElem?_eq_some_iff.mp hi).1 hnodup).mp (hi.trans hj.symm)

lemma exists_remarks_eq (hselects : ∀ pf ∈ files, pf.2.Selects) (hx : (x, l) ∈ (roll files).zipIdx)
    (ho : x.outlined? = some o) :
    ∃ f : Outline.File, f.Selects ∧
      x.remarks = Outline.commentsWithin f.comments o.first o.last := by
  obtain ⟨before, path, f, after, rfl, hroll⟩ := exists_file hx
  have hf := hselects _ (mem_append_right before (mem_cons_self (a := (path, f)) (l := after)))
  exact ⟨f, hf, Listed.remarks_eq hf (fst_mem_of_mem_zipIdx hroll) ho⟩

/-- How the comments of an atlas nest, given by the rows of its documents. -/
structure CommentsNest (a : Atlas) : Prop where
  /-- What stands under a method stands under its class. -/
  inClass : ∀ e ∈ a.skeleton.functions, ∀ k : Nat, e.parent = k →
    ∃ c, a.skeleton.classes[k]? = some c ∧
    a.commentsUnder .function e.location ⊆ a.commentsUnder .class c.location
  /-- What stands under an entity stands under its module, which is the last one at or before it,
  and has its file. -/
  inModule : ∀ kind l i, (l, i) ∈ a.skeleton.sites kind →
    ∃ m, (m, i) ∈ a.skeleton.sites .module ∧ m ≤ l ∧ (∀ n ∈ a.skeleton.ids .module, n ≤ l → n ≤ m) ∧
      a.commentsUnder kind l ⊆ a.commentsUnder .module m
  /-- What stands under an entity is on its lines. -/
  inRange : ∀ kind, ∀ l ∈ a.skeleton.ids kind, ∃ lines,
    (∀ other, a.Placed kind l other ↔ other = lines) ∧
    ∀ note ∈ a.commentsUnder kind l, lines.1 ≤ note.place ∧ note.place ≤ lines.2
  increasing : ∀ kind, ∀ group ∈ a.comments.groups kind, (group.2.map (·.place)).Pairwise (· < ·)

lemma commentsNest_ofFiles (hselects : ∀ pf ∈ files, pf.2.Selects)
    (hranges : ∀ pf ∈ files, pf.2.RangesNest) : (ofFiles files).CommentsNest where
  inClass e he k hk := by
    obtain ⟨before, path, f, after, c, g, rfl, hc, hg, hmethod⟩ := exists_method he hk
    obtain ⟨row, hrow, hclass⟩ := exists_class_row path after hc
    have hf := mem_append_right before (mem_cons_self (a := (path, f)) (l := after))
    refine ⟨row, hrow, ?_⟩
    rw [commentsUnder_eq hmethod rfl, commentsUnder_eq hclass rfl]
    exact map_subset _ ((hselects _ hf).comments_subset (hranges _ hf)
      (fst_mem_of_mem_zipIdx hc) hg)
  inModule kind l i hsite := by
    obtain ⟨x, hx, hkind, hfile⟩ := exists_of_mem_sites hsite
    obtain ⟨before, path, f, after, rfl, hroll⟩ := exists_file hx
    have hmodule : (⟨path, .module f⟩, (roll before).length) ∈
        (roll (before ++ (path, f) :: after)).zipIdx :=
      module_mem_roll
    have hpath := path_of_mem_fileRoll (fst_mem_of_mem_zipIdx hroll)
    have hle : (roll before).length ≤ l := le_snd_of_mem_zipIdx hroll
    obtain ⟨j, hj, hjfile⟩ := exists_site hmodule rfl
    have hij : i = j := by
      rw [hpath] at hfile
      exact eq_of_get?_eq hfile hjfile
    refine ⟨(roll before).length, hij ▸ hj, hle, fun n hn hnl => ?_, ?_⟩
    · obtain ⟨y, o, hy, ho, hmod⟩ := exists_of_mem_ids hn
      by_contra hlt
      refine kind?_ne_module_of_mem (mem_fileRoll_of_le hroll hy (by omega) hnl) (by omega) ?_
      rw [Listed.kind?_eq_map_outlined?, ho, Option.map_some, hmod]
    · rw [commentsUnder_eq hx hkind, commentsUnder_eq hmodule rfl, hpath]
      rw [Listed.kind?_eq_map_outlined?] at hkind
      obtain ⟨o, ho, -⟩ := Option.map_eq_some_iff.mp hkind
      have hf := hselects _ (mem_append_right before (mem_cons_self (a := (path, f)) (l := after)))
      rw [Listed.remarks_eq hf (fst_mem_of_mem_zipIdx hroll) ho]
      exact map_subset _ fun t ht => (Outline.mem_commentsWithin.mp ht).1
  inRange kind l hl := by
    obtain ⟨x, o, hx, ho, rfl⟩ := exists_of_mem_ids hl
    refine ⟨(o.first, o.last), fun _ => placed_iff hx ho, fun note hnote => ?_⟩
    rw [commentsUnder_eq hx (by rw [Listed.kind?_eq_map_outlined?, ho]; rfl)] at hnote
    obtain ⟨t, ht, rfl⟩ := mem_map.mp hnote
    obtain ⟨f, -, hremarks⟩ := exists_remarks_eq hselects hx ho
    rw [hremarks] at ht
    exact (Outline.mem_commentsWithin.mp ht).2
  increasing kind group hgroup := by
    obtain ⟨x, l, hx, hkind, hnotes⟩ := exists_of_mem_groups hgroup
    rw [Listed.kind?_eq_map_outlined?] at hkind
    obtain ⟨o, ho, -⟩ := Option.map_eq_some_iff.mp hkind
    obtain ⟨f, hf, hremarks⟩ := exists_remarks_eq hselects hx ho
    rw [hnotes, hremarks, map_map, pairwise_map]
    exact hf.increasing.filter _

end Atlas

end Index

namespace Project

/-- In files whose statements nest, so do the lines of classes, methods and functions, and in the
documents of a project of such files the comments under them. -/
theorem comments_nest (p : Project) (files : List ParsedFile) (h : ∀ f ∈ files, f.WellPlaced) :
    (∀ f ∈ files, f.outline.RangesNest) ∧
      (p.atlas (files.map ParsedFile.outline)).CommentsNest := by
  have hranges : ∀ f ∈ files, f.outline.RangesNest := fun f hf => f.rangesNest (h f hf)
  refine ⟨hranges, Atlas.commentsNest_ofFiles (fun pf hpf => ?_) fun pf hpf => ?_⟩
  all_goals
    obtain ⟨o, ho, rfl⟩ := mem_map.mp hpf
    obtain ⟨f, hf, rfl⟩ := mem_map.mp ho
  · exact f.selects
  · exact hranges f hf

/-- A comment in a method, and one before it in the class. -/
def commentedFile : ParsedFile where
  path := ⟨"/", ["p", "a.py"]⟩
  text := "class A:\n    # one\n    def f(self):\n        # two\n        return 1\n".toList
  module := (parseModule?
    "class A:\n    # one\n    def f(self):\n        # two\n        return 1\n".toList).get
    (by decide +kernel)
  parsed := (Option.some_get _).symm

theorem comments_nest_commentedFile :
    let p : Project := { path := ⟨"/", ["p"]⟩, output := ⟨"/", ["o"]⟩ }
    let a := p.atlas [commentedFile.outline]
    a.commentsUnder .function 2 = [⟨1, 0, 4⟩] ∧ a.commentsUnder .class 1 = [⟨0, 0, 2⟩, ⟨1, 0, 4⟩] ∧
      commentedFile.outline.RangesNest ∧ a.CommentsNest := by
  intro p a
  have hplaced : ∀ f ∈ [commentedFile], f.WellPlaced := forall_mem_singleton.mpr (by decide +kernel)
  obtain ⟨hranges, hcomments⟩ := comments_nest p [commentedFile] hplaced
  exact ⟨by decide +kernel, by decide +kernel, hranges commentedFile mem_cons_self, hcomments⟩

end Project

end CodeAtlas
