import CodeAtlas.Workspace
import CodeAtlas.Proofs.Path

/-!
# Safe paths lead below their directory

The check looks for two dots anywhere and for a slash at the beginning of a text; this rules out all
that leads upwards or replaces the directory (`Workspace.safe_path_confined`).
-/

namespace CodeAtlas

open List Files

variable {place : Place} {ws : List String} {p : String} {s : Session}

namespace Files

/-- The place that a written path leads to from the root, by its spelling alone. -/
def spelledPlace (path : String) : Place :=
  collapse [] ((Text.splitOnChar '/' path.toList).map String.ofList)

lemma collapse_append (place : Place) (ws vs : List String) :
    collapse place (ws ++ vs) = collapse (collapse place ws) vs := by
  induction ws generalizing place with
  | nil => rfl
  | cons w ws ih =>
    simp only [cons_append, collapse]
    split_ifs <;> exact ih _

lemma collapse_filter (place : Place) (ws : List String) :
    collapse place (ws.filter fun w => w ≠ "" ∧ w ≠ ".") = collapse place ws := by
  induction ws generalizing place with
  | nil => rfl
  | cons w ws ih =>
    rw [filter_cons, collapse]
    by_cases hkeep : w ≠ "" ∧ w ≠ "."
    · rw [if_pos (decide_eq_true hkeep), collapse]
      split_ifs <;> exact ih _
    · have hskip : (w = "." || w = "") = true := by grind
      rw [if_neg (mt of_decide_eq_true hkeep), if_pos hskip, ih]

/-- Names that do not lead upwards lead on. -/
lemma collapse_eq_append (h : ∀ w ∈ ws, Path.IsName w ∧ w ≠ "..") :
    collapse place ws = place ++ ws := by
  induction ws generalizing place with
  | nil => simp [collapse]
  | cons w ws ih =>
    obtain ⟨⟨hempty, hdot, -⟩, hdots⟩ := h w mem_cons_self
    rw [collapse, if_neg (by simp [hempty, hdot]), if_neg hdots,
      ih fun v hv => h v (mem_cons_of_mem _ hv), append_assoc, singleton_append]

lemma spelledPlace_eq (path : String) :
    spelledPlace path = collapse [] (Path.ofString path).parts :=
  (collapse_filter _ _).symm

lemma spelledPlace_append (dir path : String) :
    spelledPlace (dir ++ "/" ++ path) = collapse (spelledPlace dir) (Path.ofString path).parts := by
  have hsplit : (dir ++ "/" ++ path).toList = dir.toList ++ '/' :: path.toList := by simp
  rw [Path.ofString, collapse_filter, spelledPlace, hsplit, Text.splitOnChar_append, map_append,
    collapse_append]
  rfl

lemma spelledPlace_text {q : Path} (hroot : q.root ∈ ["", "/", "//"])
    (hparts : ∀ w ∈ q.parts, Path.IsName w) : spelledPlace q.text = collapse [] q.parts := by
  rw [spelledPlace_eq, Path.ofString_text_of_root hroot hparts]

end Files

namespace Workspace

lemma isSafe_eq_true_iff : (isSafe p s).1 = .ok true ↔ hazard? p = none := by
  have hunsafe : (Except.ok false : Except Failure Bool) ≠ .ok true := by simp
  unfold isSafe
  cases hazard? p with
  | none => exact iff_of_true rfl rfl
  | some hazard => cases hazard <;> exact iff_of_false hunsafe (by simp)

lemma dots_notMem_of_hazard? (h : hazard? p = none) : ".." ∉ (Path.ofString p).parts := by
  intro hmem
  simp only [Path.ofString, mem_filter, mem_map] at hmem
  obtain ⟨⟨w, hw, hdots⟩, -⟩ := hmem
  have hinfix : "..".toList <:+: p.toList := by
    rw [← hdots, String.toList_ofList]
    exact Text.infix_of_mem_splitOnChar hw
  rw [hazard?, Text.contains, Text.occursIn_iff.mpr hinfix] at h
  cases h

/-- A path that counts as safe leads from any directory to the names it has, below that directory,
whether it is written behind the directory or joined to it. A directory that is spelled without
detours is kept as it stands. -/
theorem safe_path_confined (h : (isSafe p s).1 = .ok true) (dir : String) :
    spelledPlace ("/" ++ dir ++ "/" ++ p) = spelledPlace ("/" ++ dir) ++ (Path.ofString p).parts ∧
      spelledPlace ((Path.ofString ("/" ++ dir)).join (Path.ofString p)).text =
        spelledPlace ("/" ++ dir) ++ (Path.ofString p).parts ∧
      ∀ place : Place, (∀ w ∈ place, Path.IsName w ∧ w ≠ "..") → place.path.text = "/" ++ dir →
        place <+: spelledPlace ("/" ++ dir ++ "/" ++ p) := by
  rw [isSafe_eq_true_iff] at h
  have hnames : ∀ w ∈ (Path.ofString p).parts, Path.IsName w ∧ w ≠ ".." := fun w hw =>
    ⟨Path.isName_of_mem_ofString hw, fun heq => dots_notMem_of_hazard? h (heq ▸ hw)⟩
  have hbehind : spelledPlace ("/" ++ dir ++ "/" ++ p) = spelledPlace ("/" ++ dir) ++
      (Path.ofString p).parts := by
    rw [spelledPlace_append, collapse_eq_append hnames]
  refine ⟨hbehind, ?_, fun place hplace htext => ?_⟩
  · have hrelative : (Path.ofString p).isAbsolute = false := by
      unfold hazard? at h
      split_ifs at h with _ habs
      simpa using habs
    rw [Path.join, hrelative, if_neg Bool.false_ne_true, spelledPlace_text, collapse_append,
      ← spelledPlace_eq, collapse_eq_append hnames]
    · exact Path.root_ofString _
    · intro w hw
      rcases mem_append.mp hw with hw | hw <;> exact Path.isName_of_mem_ofString hw
  · have hspelled : spelledPlace ("/" ++ dir) = place := by
      rw [← htext, spelledPlace_text (by simp [Place.path]) fun w hw => (hplace w hw).1]
      exact collapse_eq_append hplace
    rw [hbehind, hspelled]
    exact prefix_append _ _

theorem safe_path_confined_detours :
    (isSafe "./src//pkg/a.b./m.py" { tree := default }).1 = .ok true ∧
      spelledPlace ("/" ++ "srv/x/../data/." ++ "/" ++ "./src//pkg/a.b./m.py") =
        ["srv", "data"] ++ ["src", "pkg", "a.b.", "m.py"] := by
  have hsafe : (isSafe "./src//pkg/a.b./m.py" { tree := default }).1 = .ok true :=
    isSafe_eq_true_iff.mpr (by decide)
  refine ⟨hsafe, (safe_path_confined hsafe "srv/x/../data/.").1.trans ?_⟩
  decide

end Workspace

end CodeAtlas
