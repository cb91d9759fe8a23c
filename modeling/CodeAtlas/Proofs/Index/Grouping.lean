import CodeAtlas.Data.Access
import CodeAtlas.Proofs.Index.Notes

/-!
# Notes read back from their documents

Reading gives back the notes that were added, under the locations of a kind in order of first use
(`Notes.gathers_documentWith`).
-/

namespace CodeAtlas.Index

open List
open Value (strings)

/-! ### Readers -/

/-- What is read of a note: its text, the path of its file, and its lines. -/
structure NoteReading where
  text : String
  path : String
  lines : List Int
deriving DecidableEq, Repr

/-- The key under which the groups of a kind stand. -/
def Ranged.key : Ranged → String
  | .module => "modules"
  | .class => "classes"
  | .function => "functions"

/-- The text at a position of a list of texts. -/
def textAt? (texts : Value) (n : Int) : Option String :=
  match texts.part (.int n) with
  | .ok (.str s) => some s
  | _ => none

def readNote (texts : Value) (files : Table) : Value → Option NoteReading
  | .list (.int t :: .int f :: lines) => do
    let text ← textAt? texts t
    let path ← textAt? (strings files.items) f
    let lines ← lines.mapM Value.asInt?
    return ⟨text, path, lines⟩
  | _ => none

def readGroup (texts : Value) (files : Table) : Value → Option (Int × List NoteReading)
  | .list [.int l, .list notes] => (notes.mapM (readNote texts files)).map (l, ·)
  | _ => none

/-- The groups of a kind in a document whose texts stand under a key. -/
def readGroups (doc : Value) (key : String) (files : Table) (kind : Ranged) :
    Option (List (Int × List NoteReading)) :=
  match doc.field key, doc.field kind.key with
  | .ok texts, .ok (.list groups) => groups.mapM (readGroup texts files)
  | _, _ => none

/-! ### What was added -/

variable {ρ : Type} {calls : List (NoteCall ρ)} {kind : Ranged}

/-- What there is to read of a note, whose place is written as `lines` says. -/
def NoteCall.reading (lines : ρ → List Int) (c : NoteCall ρ) : NoteReading :=
  ⟨c.text, c.path, lines c.place⟩

/-- The notes of a kind: the locations in order of first use, each with its notes in order. -/
def gathered (lines : ρ → List Int) (calls : List (NoteCall ρ)) (kind : Ranged) :
    List (Int × List NoteReading) :=
  ((calls.filter (·.kind = kind)).map (·.location)).eraseDups.map fun l =>
    (l, (calls.filter fun c => c.kind = kind ∧ c.location = l).map (·.reading lines))

/-- A document has the notes that were added, and has them once: its texts are those of the notes,
without repetition, and its groups read back as what was gathered, each location once. -/
structure Gathers (lines : ρ → List Int) (calls : List (NoteCall ρ)) (key : String) (files : Table)
    (doc : Value) : Prop where
  texts : ∃ xs : List String, doc.field key = .ok (strings xs) ∧ xs.Nodup ∧
    ∀ x, x ∈ xs ↔ ∃ c ∈ calls, c.text = x
  groups : ∀ kind, readGroups doc key files kind = some (gathered lines calls kind)
  locations : ∀ kind, ((gathered lines calls kind).map Prod.fst).Nodup

lemma nodup_map_fst_gathered (lines : ρ → List Int) (kind : Ranged) :
    ((gathered lines calls kind).map Prod.fst).Nodup := by
  have hfst : (gathered lines calls kind).map Prod.fst =
      ((calls.filter (·.kind = kind)).map (·.location)).eraseDups := by
    rw [gathered, map_map]
    exact map_id' _
  rw [hfst]
  exact nodup_eraseDups _

/-! ### Reading a note -/

lemma textAt?_idxOf {xs : List String} {x : String} (h : x ∈ xs) :
    textAt? (strings xs) (xs.idxOf x) = some x := by
  have hget : (xs.map Value.str)[xs.idxOf x]? = some (.str x) := by
    rw [getElem?_map, getElem?_idxOf h, Option.map_some]
  have hat : Value.atIndex? (xs.map Value.str) (xs.idxOf x) = some (.str x) := by
    simpa [Value.atIndex?] using hget
  simp [textAt?, strings, Value.part, Value.asInt?, hat]

namespace Notes

def noteRow (lines : ρ → List Int) (n : Note ρ) : Value :=
  row ([(n.text : Int), (n.file : Int)] ++ lines n.place)

variable (lines : ρ → List Int)

lemma readNote_noteRow {n : Notes ρ} {c : NoteCall ρ}
    (htext : c.text ∈ n.texts.items) (hpath : c.path ∈ n.files.items) :
    readNote (strings n.texts.items) n.files (noteRow lines (n.noteOf c)) =
      some (c.reading lines) := by
  have hlines : ((lines c.place).map Value.int).mapM Value.asInt? = some (lines c.place) := by
    induction lines c.place with
    | nil => rfl
    | cons i is ih => simp [mapM_cons, Value.asInt?, ih]
  simp [noteRow, noteOf, row, readNote, textAt?_idxOf htext, textAt?_idxOf hpath, hlines,
    NoteCall.reading]

/-! ### Reading a document -/

lemma groups_eq : (calls.foldl record {}).groups kind =
      ((calls.filter (·.kind = kind)).map (·.location)).eraseDups.map fun l =>
        (l, (calls.filter fun c => c.kind = kind ∧ c.location = l).map
          (calls.foldl record {}).noteOf) := by
  rw [groups_foldl_record, Keyed.group_eq, map_map]
  refine map_congr_left fun l _ => ?_
  rw [filter_map, map_map, filter_filter]
  simp only [Function.comp_def, Bool.decide_and, Bool.and_comm]

lemma mapM_readGroup (calls : List (NoteCall ρ)) (kind : Ranged) : let n := calls.foldl record {}
    ((n.groups kind).map fun g => Value.list [.int g.1, .list (g.2.map (noteRow lines))]).mapM
      (readGroup (strings n.texts.items) n.files) = some (gathered lines calls kind) := by
  intro n
  -- every note that was recorded has its text and its path in the tables
  have hnote : ∀ c ∈ calls,
      readNote (strings n.texts.items) n.files (noteRow lines (n.noteOf c)) =
        some (c.reading lines) := by
    intro c hc
    apply readNote_noteRow
    · rw [texts_foldl_record, mem_eraseDups]
      exact mem_map_of_mem hc
    · rw [files_foldl_record, mem_eraseDups]
      exact mem_map_of_mem hc
  have hgroup : ∀ l, readGroup (strings n.texts.items) n.files
      (.list [.int l, .list
      (((calls.filter fun c => c.kind = kind ∧ c.location = l).map n.noteOf).map
        (noteRow lines))]) =
      some (l, (calls.filter fun c => c.kind = kind ∧ c.location = l).map (·.reading lines)) := by
    intro l
    have hnotes : (calls.filter fun c => c.kind = kind ∧ c.location = l).mapM
        (readNote (strings n.texts.items) n.files ∘ noteRow lines ∘ n.noteOf) =
        some ((calls.filter fun c => c.kind = kind ∧ c.location = l).map (·.reading lines)) :=
      mapM_eq_some_map fun c hc => hnote c (mem_of_mem_filter hc)
    rw [readGroup, map_map, mapM_map, hnotes, Option.map_some]
  rw [groups_eq, map_map, mapM_map, gathered]
  exact mapM_eq_some_map fun l _ => hgroup l

lemma field_documentWith {n : Notes ρ} {key : String}
    (hkey : key ∉ ["modules", "classes", "functions"])
    (lines : ρ → List Int) (header : Header) : (n.documentWith key lines header).field kind.key =
      .ok (.list ((n.groups kind).map fun g =>
        Value.list [.int g.1, .list (g.2.map (noteRow lines))])) := by
  simp only [mem_cons, not_mem_nil, or_false, not_or] at hkey
  obtain ⟨hmodules, hclasses, hfunctions⟩ := hkey
  cases kind with
  | module => simp [documentWith, Value.field, Value.part, Value.lookup, Ranged.key, hmodules]; rfl
  | «class» => simp [documentWith, Value.field, Value.part, Value.lookup, Ranged.key, hclasses]; rfl
  | function => simp [documentWith, Value.field, Value.part, Value.lookup, Ranged.key,
      hfunctions]; rfl

lemma field_texts_documentWith {n : Notes ρ} {key : String} (hkey : key ≠ "meta")
    (lines : ρ → List Int) (header : Header) :
    (n.documentWith key lines header).field key = .ok (strings n.texts.items) := by
  simp [documentWith, Value.field, Value.part, Value.lookup, Ne.symm hkey]

lemma field_documentWith_congr (n : Notes ρ) (texts : String) (lines : ρ → List Int)
    (header again : Header) {key : String} (hkey : key ≠ "meta") :
    (n.documentWith texts lines again).field key =
      (n.documentWith texts lines header).field key := by
  simp [documentWith, Value.field, Value.part, Value.lookup, hkey.symm]

/-- A document has the notes that were added. -/
lemma gathers_documentWith (calls : List (NoteCall ρ)) {key : String}
    (hkey : key ∉ ["meta", "modules", "classes", "functions"]) (header : Header) :
    Gathers lines calls key (calls.foldl record {}).files
      ((calls.foldl record {}).documentWith key lines header) := by
  rw [mem_cons, not_or] at hkey
  obtain ⟨hmeta, hkinds⟩ := hkey
  have htexts := field_texts_documentWith (n := calls.foldl record {}) hmeta lines header
  refine ⟨⟨_, htexts, ?_, ?_⟩, ?_, nodup_map_fst_gathered lines⟩
  · rw [texts_foldl_record]
    exact nodup_eraseDups _
  · intro x
    rw [texts_foldl_record, mem_eraseDups, mem_map]
  · intro kind
    unfold readGroups
    rw [htexts, field_documentWith hkinds]
    exact mapM_readGroup lines calls kind

end Notes

/-! ### The two builders -/

def Comments.record (n : Comments) (c : NoteCall Int) : Comments :=
  Comments.add n c.kind c.location c.text c.path c.place

def NoteCall.trimmed (c : NoteCall ρ) : NoteCall ρ := { c with text := Text.strip c.text }

lemma foldl_comments_record (calls : List (NoteCall Int)) (n : Comments) :
    calls.foldl Comments.record n = (calls.map NoteCall.trimmed).foldl Notes.record n := by
  rw [foldl_map]
  rfl

/-- Whatever notes are added, in any order: the documents have all of them, docstrings as they are
and comments trimmed, each under its kind and location and once, and making a document again changes
none of its sections. -/
theorem notes_gathered_without_loss (docstrings : List (NoteCall (Int × Int)))
    (comments : List (NoteCall Int)) (header : Header) :
    let d : Docstrings := docstrings.foldl Notes.record {}
    let c : Comments := comments.foldl Comments.record {}
    Gathers (fun p => [p.1, p.2]) docstrings "docstrings_text" d.files (d.document header) ∧
      Gathers (fun line => [line]) (comments.map NoteCall.trimmed) "comments_text" c.files
        (c.document header) ∧
      ∀ (again : Header) (key : String), key ≠ "meta" →
        (d.document again).field key = (d.document header).field key ∧
        (c.document again).field key = (c.document header).field key := by
  intro d c
  refine ⟨?_, ?_, ?_⟩
  · exact Notes.gathers_documentWith _ docstrings (by decide) header
  · have hc : c = (comments.map NoteCall.trimmed).foldl Notes.record {} :=
      foldl_comments_record comments {}
    rw [hc]
    exact Notes.gathers_documentWith _ _ (by decide) header
  · intro again key hkey
    exact ⟨d.field_documentWith_congr _ _ header again hkey,
      c.field_documentWith_congr _ _ header again hkey⟩

end CodeAtlas.Index
