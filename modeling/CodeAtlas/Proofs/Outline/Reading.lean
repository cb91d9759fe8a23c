import CodeAtlas.Outline.Read
import CodeAtlas.Proofs.Session

/-!
# One reader for many files

A reader holds comments while it is at a file, and may still hold them after a failure; but it puts
down the comments of a file before anything takes them up.
-/

namespace CodeAtlas.Outline

open CodeAtlas.Action Work

variable {t : Files.Tree} {path : Path}

/-! ### What there is to find -/

/-- The source text of the file at a path, if it can be read. -/
def sourceAt? (t : Files.Tree) (path : Path) : Option (List Char) :=
  match t.read path with
  | .ok (bytes, _) => (Text.utf8 bytes).toOption.map Text.unifyNewlines
  | .error _ => none

def outlineAt? (t : Files.Tree) (path : Path) : Option File :=
  (sourceAt? t path).bind (ofSource? path)

/-- What a reader finds at a path: an outline or none, or it fails to see whether anything is there.
-/
def found (t : Files.Tree) (path : Path) : Except Failure (Option File) :=
  match t.hasEntry path with
  | .ok _ => .ok (outlineAt? t path)
  | .error f => .error (.file f path.text)

lemma outlineAt?_of_hasEntry (h : t.hasEntry path ≠ .ok true) : outlineAt? t path = none := by
  rcases hread : t.read path with refusal | file
  · simp [outlineAt?, sourceAt?, hread]
  · exact absurd (Files.Tree.hasEntry_of_read hread) h

lemma found_eq_some_iff {f : File} : found t path = .ok (some f) ↔ outlineAt? t path = some f := by
  unfold found
  constructor
  · intro h
    rcases hentry : t.hasEntry path with fault | there
    · simp [hentry] at h
    · simpa [hentry] using h
  · intro h
    rcases hread : t.read path with refusal | file
    · simp [outlineAt?, sourceAt?, hread] at h
    · rw [Files.Tree.hasEntry_of_read hread, h]

/-! ### Reading -/

lemma exists_yields_readText : ∃ r, Yields (readText path) t r ∧ r.toOption = sourceAt? t path := by
  unfold readText sourceAt?
  rcases hread : t.read path with ⟨fault, q⟩ | ⟨bytes, time⟩
  · exact ⟨_, (yields_readBytes_error hread).bind_error _, rfl⟩
  · rcases hdecode : Text.utf8 bytes with fault | cs
    · refine ⟨_, (yields_readBytes hread).bind ((yields_decode_error hdecode).bind_error _), ?_⟩
      simp [hdecode, Except.toOption]
    · refine ⟨_, (yields_readBytes hread).bind ((yields_decode hdecode).bind (yields_pure _)), ?_⟩
      simp [hdecode, Except.toOption]

namespace Reader

variable (t : Files.Tree)

lemma exists_yields_readOutline (path : Path) (r : Reader) :
    ∃ o r', Work.Yields (readOutline path) t r o r' ∧ o.toOption = outlineAt? t path := by
  obtain ⟨text, htext, hsource⟩ := exists_yields_readText
  unfold readOutline outlineAt?
  rw [← hsource]
  rcases text with fault | source
  · exact ⟨_, r, (yields_lift htext).bind_error _, rfl⟩
  · rcases hparse : Syntax.parseModule? source with _ | m
    · refine ⟨.error .ungrammatical, r, (yields_lift htext).bind ?_, ?_⟩
      · simp only [hparse]
        exact yields_throw _
      · simp [Except.toOption, ofSource?, hparse]
    · refine ⟨.ok (ofModule path source m), {}, (yields_lift htext).bind ?_, ?_⟩
      · simp only [hparse]
        -- from here on the reader holds the comments of this file
        refine (yields_set _).bind ?_
        refine Work.Yields.bind (yields_forIn fun note _ => ?_) ?_
        · exact (yields_lift (yields_log _ _ _)).bind (yields_pure _)
        refine yields_get.bind ?_
        refine (yields_lift (yields_log _ _ _)).bind ?_
        exact (yields_set _).bind (yields_pure _)
      · simp [Except.toOption, ofSource?, hparse]

/-- What a reader finds at a path depends on the tree alone. -/
lemma exists_yields_read (path : Path) (r : Reader) :
    ∃ r', Work.Yields (Reader.read path) t r (found t path) r' := by
  unfold Reader.read found
  rcases hentry : t.hasEntry path with fault | there
  · exact ⟨r, (yields_lift (yields_isThere_error hentry)).bind_error _⟩
  · have hthere := yields_lift (d := r) (yields_isThere_of_hasEntry hentry)
    cases there with
    | false =>
      refine ⟨r, hthere.bind ?_⟩
      rw [outlineAt?_of_hasEntry (by simp [hentry])]
      exact (yields_lift (yields_log _ _ _)).bind (yields_pure _)
    | true =>
      obtain ⟨o, r', hread, hoption⟩ := exists_yields_readOutline t path r
      refine ⟨r', hthere.bind (hread.attempt.bind ?_)⟩
      rw [← hoption]
      rcases o with fault | f
      · cases fault
        all_goals exact (yields_lift (yields_log _ _ _)).bind (yields_pure _)
      · exact yields_pure _

/-- One reader finds at many paths what there is to find at each. -/
lemma exists_yields_mapM_read (paths : List Path) (r : Reader) :
    ∃ r', Work.Yields (paths.mapM fun q => Work.attempt (Reader.read q)) t r
      (.ok (paths.map (found t))) r' := by
  induction paths generalizing r with
  | nil => exact ⟨r, yields_pure _⟩
  | cons q paths ih =>
    obtain ⟨r1, hread⟩ := exists_yields_read t q r
    obtain ⟨r2, hrest⟩ := ih r1
    refine ⟨r2, ?_⟩
    rw [List.mapM_cons]
    exact hread.attempt.bind (hrest.bind (yields_pure _))

end Reader

lemma yields_read (t : Files.Tree) (path : Path) : Yields (Outline.read path) t (found t path) := by
  obtain ⟨r, hread⟩ := Reader.exists_yields_read t path {}
  unfold Outline.read
  rcases hfound : found t path with fault | o <;> rw [hfound] at hread
  · exact hread.perform_error.bind_error _
  · exact hread.perform.bind (yields_pure _)

lemma read_fst (s : Session) : (Outline.read path s).1 = found s.tree path := by
  obtain ⟨s', hs', -⟩ := yields_read s.tree path s rfl
  rw [hs']

end CodeAtlas.Outline
