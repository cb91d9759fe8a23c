import CodeAtlas.Proofs.Index.History

/-!
# What documents of notes hold

A document of notes is told at once from the notes that were recorded (`Notes.groups_foldl_record`),
and the notes of a project belong to the entities of its roll.
-/

namespace CodeAtlas.Index

open List Table

variable {x : Listed} {l : Nat} {c : NoteCall Int} {files : List (String × Outline.File)}

namespace Notes

variable {ρ : Type}

/-! ### Recording -/

def groups (n : Notes ρ) : Ranged → Keyed Int (List (Note ρ))
  | .module => n.modules
  | .class => n.classes
  | .function => n.functions

/-- A note with the positions of its text and of its file. -/
def noteOf (n : Notes ρ) (c : NoteCall ρ) : Note ρ :=
  ⟨n.texts.items.idxOf c.text, n.files.items.idxOf c.path, c.place⟩

variable (n : Notes ρ)

lemma texts_record (c : NoteCall ρ) : (n.record c).texts = (n.texts.add c.text).1 := by
  unfold record add
  rcases c.kind <;> rfl

lemma files_record (c : NoteCall ρ) : (n.record c).files = (n.files.add c.path).1 := by
  unfold record add
  rcases c.kind <;> rfl

lemma groups_record (c : NoteCall ρ) (kind : Ranged) : (n.record c).groups kind =
      if c.kind = kind then (n.groups kind).addTo c.location ((n.record c).noteOf c)
        else n.groups kind := by
  rw [noteOf, texts_record, files_record, ← add_snd, ← add_snd]
  obtain ⟨k, location, text, path, place⟩ := c
  cases k <;> cases kind <;> rfl

/-! ### Recording notes one after the other -/

variable (calls : List (NoteCall ρ))

lemma texts_foldl_record :
    (calls.foldl record {}).texts.items = (calls.map (·.text)).eraseDups := by
  rw [← items_foldl_add, foldl_map]
  exact congrArg Table.items (foldl_hom texts fun n c => (texts_record n c).symm).symm

lemma files_foldl_record :
    (calls.foldl record {}).files.items = (calls.map (·.path)).eraseDups := by
  rw [← items_foldl_add, foldl_map]
  exact congrArg Table.items (foldl_hom files fun n c => (files_record n c).symm).symm

lemma noteOf_record {n : Notes ρ} {c : NoteCall ρ} (htext : c.text ∈ n.texts.items)
    (hpath : c.path ∈ n.files.items) (d : NoteCall ρ) : (n.record d).noteOf c = n.noteOf c := by
  unfold noteOf
  rw [texts_record, files_record, (extends_add _ _).idxOf htext,
    (extends_add _ _).idxOf hpath]

/-- The groups of a kind hold the notes of that kind, in order. -/
lemma groups_foldl_record (kind : Ranged) : (calls.foldl record {}).groups kind =
      Keyed.group ((calls.filter (·.kind = kind)).map fun c =>
        (c.location, (calls.foldl record {}).noteOf c)) := by
  induction calls using reverseRecOn with
  | nil => cases kind <;> rfl
  | append_singleton calls d ih =>
    rw [foldl_concat, groups_record, ih, filter_append, map_append]
    have hold : ∀ c ∈ calls.filter (·.kind = kind),
        (c.location, (calls.foldl record {}).noteOf c) =
          (c.location, ((calls.foldl record {}).record d).noteOf c) := by
      intro c hc
      have hmem : c ∈ calls := mem_of_mem_filter hc
      rw [noteOf_record]
      · rw [texts_foldl_record, mem_eraseDups]
        exact mem_map_of_mem hmem
      · rw [files_foldl_record, mem_eraseDups]
        exact mem_map_of_mem hmem
    rw [map_congr_left hold]
    by_cases hd : d.kind = kind
    · simp [hd, Keyed.group_concat]
    · simp [hd]

end Notes

/-! ### Notes belong to entities -/

/-- The kind of an entity that can have notes. -/
def Listed.kind? : Listed → Option Ranged
  | ⟨_, .module _⟩ => some .module
  | ⟨_, .class _⟩ => some .class
  | ⟨_, .function ..⟩ => some .function
  | ⟨_, .import _⟩ => none

/-- A note belongs to an entity at a location: it has its location, its kind and its path. -/
def NoteCall.BelongsTo {ρ : Type} (c : NoteCall ρ) (xl : Listed × Nat) : Prop :=
  c.location = xl.2 ∧ xl.1.kind? = some c.kind ∧ c.path = xl.1.path

lemma belongsTo_of_mem_docstrings {c : NoteCall (Int × Int)} (h : c ∈ x.docstrings l) :
    c.BelongsTo (x, l) := by
  obtain ⟨path, entity⟩ := x
  cases entity with
  | «import» i => simp [Listed.docstrings] at h
  | _ =>
    obtain ⟨t, -, rfl⟩ := mem_map.mp h
    exact ⟨rfl, rfl, rfl⟩

lemma belongsTo_of_mem_comments (h : c ∈ x.comments l) : c.BelongsTo (x, l) := by
  obtain ⟨path, entity⟩ := x
  cases entity with
  | module f => simp [Listed.comments] at h
  | «import» i => simp [Listed.comments] at h
  | _ =>
    obtain ⟨t, -, rfl⟩ := mem_map.mp h
    exact ⟨rfl, rfl, rfl⟩

/-- Every docstring belongs to an entity of the roll. -/
lemma attached_projectDocstrings {c : NoteCall (Int × Int)} (h : c ∈ projectDocstrings files) :
    ∃ xl ∈ (roll files).zipIdx, c.BelongsTo xl := by
  obtain ⟨⟨x, l⟩, hx, hc⟩ := mem_flatMap.mp h
  exact ⟨(x, l), hx, belongsTo_of_mem_docstrings hc⟩

lemma commentsFrom_arrivals (xs : List Listed) (es : List Event) (n : Nat) :
    commentsFrom n (xs.map .arrival ++ es) =
      (xs.zipIdx n).flatMap (fun xl => xl.1.comments xl.2) ++ commentsFrom (n + xs.length) es := by
  induction xs generalizing n with
  | nil => rfl
  | cons x xs ih =>
    have hlen : n + 1 + xs.length = n + (xs.length + 1) := by omega
    rw [map_cons, cons_append, commentsFrom, ih, zipIdx_cons, flatMap_cons,
      append_assoc, length_cons, hlen]

lemma attached_commentsFrom {n k : Nat} (h : c ∈ commentsFrom n (eventsFrom n k files)) :
    ∃ xl ∈ (rollFrom k files).zipIdx n, c.BelongsTo xl := by
  induction files generalizing n k with
  | nil => simp [eventsFrom, commentsFrom] at h
  | cons pf files ih =>
    obtain ⟨path, f⟩ := pf
    rw [eventsFrom, commentsFrom_arrivals, commentsFrom, mem_append, mem_append] at h
    rw [rollFrom, zipIdx_append]
    rcases h with h | h | h
    · obtain ⟨⟨x, l⟩, hx, hc⟩ := mem_flatMap.mp h
      exact ⟨(x, l), mem_append_left _ hx, belongsTo_of_mem_comments hc⟩
    · -- the comments of a file come last, under the location of the module that came first
      obtain ⟨t, -, rfl⟩ := mem_map.mp h
      refine ⟨(⟨path, .module f⟩, n), mem_append_left _ ?_, rfl, rfl, rfl⟩
      rw [fileRoll, zipIdx_cons]
      exact mem_cons_self
    · obtain ⟨xl, hxl, hc⟩ := ih h
      exact ⟨xl, mem_append_right _ hxl, hc⟩

/-- Every comment belongs to an entity of the roll. -/
lemma attached_projectComments (h : c ∈ projectComments files) :
    ∃ xl ∈ (roll files).zipIdx, c.BelongsTo xl :=
  attached_commentsFrom h

end CodeAtlas.Index
