import CodeAtlas.Proofs.Files.Route

/-!
# Looking up paths after files are removed

A look-up finds what it found before, or nothing (`Tree.Thins.read`).
-/

namespace CodeAtlas.Files

open List Option Entry Keyed

variable {e : Entry} {here q : Place} {last : Bool}
  {onLink : Place → List String → Except Fault Target} {es : List (String × Entry)}
  {file : List UInt8 × Int}

namespace Entry

/-! ### Places -/

lemma at?_erase_below {place : Place} (hne : place ≠ []) (hq : place <+: q) :
    (e.erase place).at? q = none := by
  induction place generalizing e q with
  | nil => exact absurd rfl hne
  | cons name rest ih =>
    obtain ⟨more, rfl⟩ := hq
    cases e with
    | file content modified => rfl
    | link target => rfl
    | dir es =>
      cases rest with
      | nil => simp only [erase, cons_append, at?, entries, get?_filter_ne, if_true, bind_none]
      | cons next rest =>
        rcases hchild : Keyed.get? name es with _ | child
        · simp [erase, hchild, at?, entries]
        · have hbelow := ih (e := child) (q := next :: rest ++ more) (by simp) (prefix_append _ _)
          simp only [erase, hchild, cons_append, at?, entries, get?_put, if_true, bind_some]
          exact hbelow

lemma alike_at?_erase {place : Place} (hq : ¬ place <+: q) :
    Alike (e.at? q) ((e.erase place).at? q) := by
  induction place generalizing e q with
  | nil => exact absurd nil_prefix hq
  | cons name rest ih =>
    cases e with
    | file content modified => exact .same _
    | link target => exact .same _
    | dir es =>
      cases q with
      | nil =>
        cases rest with
        | nil => exact .dir _ _
        | cons next rest =>
          rcases hchild : Keyed.get? name es with _ | child <;> simp only [erase, hchild]
          · exact .same _
          · exact .dir _ _
      | cons name' q =>
        rw [cons_prefix_cons, not_and] at hq
        cases rest with
        | nil =>
          have hname : name' ≠ name := fun h => hq h.symm nil_prefix
          simp only [erase, at?, entries, get?_filter_ne, if_neg hname]
          exact .same _
        | cons next rest =>
          rcases hchild : Keyed.get? name es with _ | child <;> simp only [erase, hchild]
          · exact .same _
          · by_cases hname : name' = name
            · subst hname
              simp only [at?, entries, get?_put, if_true, hchild, bind_some]
              exact ih (hq rfl)
            · simp only [at?, entries, get?_put, if_neg hname]
              exact .same _

lemma none_or_alike_at?_erase {place : Place} (hne : place ≠ []) :
    (e.erase place).at? q = none ∨ Alike (e.at? q) ((e.erase place).at? q) := by
  by_cases hprefix : place <+: q
  · exact .inl (at?_erase_below hne hprefix)
  · exact .inr (alike_at?_erase hprefix)

end Entry

/-! ### Look-ups -/

/-- A look-up comes out as another one does, or where nothing is; what directories hold does not
count. -/
inductive Fades : Except Fault Target → Except Fault Target → Prop
  | dir (place : Place) (es es' : List (String × Entry)) :
      Fades (.ok (.entry place (.dir es))) (.ok (.entry place (.dir es')))
  | same (r : Except Fault Target) : Fades r r
  | vacant (r : Except Fault Target) (place : Place) : Fades r (.ok (.vacant place))
  | missing (r : Except Fault Target) : Fades r (.error .missing)

lemma eq_none_of_free {e e' : Option Entry} (hfree : e = none) (h : e' = none ∨ Entry.Alike e e') :
    e' = none := by
  subst hfree
  rcases h with hnone | halike
  · exact hnone
  · exact halike.eq_of_none

/-- A tree from which places were erased where no directory stood. -/
structure Thinned (gone : List Place) (root root' : Entry) :
    Prop extends Besides gone root root' where
  none : ∀ g ∈ gone, ∀ q, g <+: q → root'.at? q = none

namespace Thinned

lemma refl (root : Entry) : Thinned [] root root where
  noDir _ hg := absurd hg not_mem_nil
  none _ hg := absurd hg not_mem_nil
  alike _ _ := .same _

variable {gone : List Place} {root' : Entry}

section

variable (h : Thinned gone root root')

include h

lemma erase (hne : place ≠ []) (hnodir : ∀ es, root.at? place ≠ some (.dir es)) :
    Thinned (place :: gone) root (root'.erase place) where
  noDir g hg := by
    rcases mem_cons.mp hg with rfl | hg
    · exact hnodir
    · exact h.noDir g hg
  none g hg q hq := by
    rcases mem_cons.mp hg with rfl | hg
    · exact at?_erase_below hne hq
    · exact eq_none_of_free (h.none g hg q hq) (none_or_alike_at?_erase hne)
  alike q hq := by
    have hbefore := h.alike q fun g hg => hq g (mem_cons_of_mem _ hg)
    have hafter := alike_at?_erase (e := root') (hq place mem_cons_self)
    exact hbefore.trans hafter

lemma exists_dir_before (hes' : root'.at? here = some (.dir es')) :
    ∃ es, root.at? here = some (.dir es) := by
  have hkept : ∀ g ∈ gone, ¬ g <+: here := by
    intro g hg hprefix
    rw [h.none g hg here hprefix] at hes'
    cases hes'
  have halike := h.alike here hkept
  rw [hes'] at halike
  exact halike.symm.exists_dir

lemma isSome_at?_iff (q : Place) :
    (root'.at? q).isSome = true ↔ (root.at? q).isSome = true ∧ q ∉ gone := by
  constructor
  · intro hsome
    have hkept : ∀ g ∈ gone, ¬ g <+: q := by
      intro g hg hprefix
      rw [h.none g hg q hprefix] at hsome
      cases hsome
    rw [← (h.alike q hkept).isSome_eq]
    exact ⟨hsome, fun hq => hkept q hq prefix_rfl⟩
  · rintro ⟨hsome, hq⟩
    obtain ⟨e, he⟩ := isSome_iff_exists.mp hsome
    rw [(h.alike_at? he hq).isSome_eq]
    rfl

lemma none_or_alike (q : Place) : root'.at? q = .none ∨ Entry.Alike (root.at? q) (root'.at? q) := by
  by_cases hgone : ∃ g ∈ gone, g <+: q
  · obtain ⟨g, hg, hprefix⟩ := hgone
    exact .inl (h.none g hg q hprefix)
  · exact .inr (h.alike q fun g hg hprefix => hgone ⟨g, hg, hprefix⟩)

end

end Thinned

variable {gone : List Place} {root root' : Entry} {s : Stage} {r r' : Except Fault Target}
  {name : String}

lemma Stage.Ends.fades (h : s.Ends root' true r') (hr : Fades r r') :
    Fades r (followLinks root' true s.links s.here s.names) := by
  rwa [Reaches.followLinks_of_ends .refl h]

lemma fades_of_gone (hes : root.at? here = some (.dir es)) (hplain : PlainName name)
    (hgone : root.at? (here ++ [name]) = none) (n : Nat) (rest : List String)
    (r : Except Fault Target) : Fades r (followLinks root true n here (name :: rest)) := by
  rw [at?_concat hes] at hgone
  by_cases hrest : rest = []
  · subst hrest
    exact (Stage.Ends.vacant hes hplain hgone).fades (.vacant _ _)
  · exact (Stage.Ends.missing hes hplain hgone hrest).fades (.missing _)

lemma Thinned.fades_of_ends (h : Thinned gone root root') (hend : s.Ends root true r) :
    Fades r (followLinks root' true s.links s.here s.names) := by
  cases hend with
  | @found n here e there =>
    have hafter := there ▸ h.none_or_alike here
    generalize hat : root'.at? here = after at hafter
    rcases hafter with rfl | halike
    · exact (Stage.Ends.lost hat).fades (.missing _)
    · cases halike with
      | dir es es' => exact (Stage.Ends.found hat).fades (.dir _ _ _)
      | same _ => exact (Stage.Ends.found hat).fades (.same _)
  | lost none => exact (Stage.Ends.lost (eq_none_of_free none (h.none_or_alike _))).fades (.same _)
  | noDir noDir =>
    refine (Stage.Ends.noDir fun es' hes' => ?_).fades (.same _)
    obtain ⟨es, hes⟩ := h.exists_dir_before hes'
    exact noDir es hes
  | long dir dot dots long =>
    obtain ⟨es', hes'⟩ := h.exists_dir dir
    exact (Stage.Ends.long hes' dot dots long).fades (.same _)
  | vacant dir plain free =>
    obtain ⟨es', hes'⟩ := h.exists_dir dir
    rw [← at?_concat dir] at free
    exact fades_of_gone hes' plain (eq_none_of_free free (h.none_or_alike _)) _ _ _
  | missing dir plain free more =>
    obtain ⟨es', hes'⟩ := h.exists_dir dir
    rw [← at?_concat dir] at free
    exact fades_of_gone hes' plain (eq_none_of_free free (h.none_or_alike _)) _ _ _
  | stays _ _ _ noLast => cases noLast
  | @links here name _ _ _ dir plain get =>
    obtain ⟨es', hes'⟩ := h.exists_dir dir
    rcases h.none_or_alike (here ++ [name]) with hgone | halike
    · exact fades_of_gone hes' plain hgone _ _ _
    · rw [at?_concat dir, at?_concat hes', get] at halike
      exact (Stage.Ends.links hes' plain halike.eq_of_link).fades (.same _)

/-- Two look-ups, before and after files and links are erased. -/
lemma Thinned.fades (h : Thinned gone root root') (n : Nat) (here : Place) (names : List String) :
    Fades (followLinks root true n here names) (followLinks root' true n here names) := by
  obtain ⟨s', hrun, hend⟩ : ∃ s', Reaches root ⟨n, here, names⟩ s' ∧ s'.Ends root true _ :=
    exists_ends n here names
  -- the runs part where a name is gone
  obtain ⟨u, hrun', hfades⟩ : ∃ u, Reaches root' ⟨n, here, names⟩ u ∧
      Fades (followLinks root true n here names)
        (followLinks root' true u.links u.here u.names) := by
    rcases h.reaches hrun with hrun' | ⟨⟨m, there, _⟩, _, hfirst', hthen, name, rest, rfl, hplain,
      hmem⟩
    · exact ⟨s', hrun', h.fades_of_ends hend⟩
    · rcases hthen.cases_head with rfl | ⟨_, hgoes, _⟩
      · exact ⟨_, hfirst', h.fades_of_ends hend⟩
      · obtain ⟨es, hes⟩ := hgoes.exists_dir
        obtain ⟨es', hes'⟩ := h.exists_dir hes
        exact ⟨_, hfirst', fades_of_gone hes' hplain (h.none _ hmem _ prefix_rfl) _ _ _⟩
  have heq := hrun'.followLinks_eq true [] (.inl rfl)
  simp only [append_nil] at heq
  rwa [heq]

namespace Tree

variable {t t' : Tree} {p : Path}

lemma fades_find_remove {q : Path} (h : t.remove q = .ok t') : Fades (t.find p) (t'.find p) := by
  unfold remove at h
  split at h
  · cases h
  · rename_i place e hnodir hfind
    cases h
    have hat : t.root.at? place = some e := by
      unfold find at hfind
      split_ifs at hfind
      exact at?_of_followLinks hfind
    by_cases hplace : place = []
    · subst hplace
      have hroot : t.root.erase [] = t.root := by
        cases t.root <;> rfl
      rw [hroot]
      exact .same _
    · have hthin := (Thinned.refl t.root).erase hplace fun es hes =>
        hnodir es (Option.some.inj (hat.symm.trans hes))
      unfold find
      split_ifs
      · exact .same _
      · exact .same _
      · exact hthin.fades _ _ _
  · cases h
  · cases h

lemma read_of_fades (h : Fades (t.find p) (t'.find p)) (hread : t.read p = .ok file) :
    t'.read p = .ok file ∨ t'.hasEntry p = .ok false := by
  unfold read get at hread
  unfold read hasEntry test get
  generalize t.find p = before at h hread
  generalize t'.find p = after at h
  cases h with
  | dir place es es' => cases hread
  | same _ => exact .inl hread
  | vacant _ place => exact .inr rfl
  | missing _ => exact .inr rfl

lemma read_of_fades_after (h : Fades (t.find p) (t'.find p)) (hread : t'.read p = .ok file) :
    t.read p = .ok file := by
  unfold read get at hread ⊢
  generalize t.find p = before at h
  generalize t'.find p = after at h hread
  cases h with
  | dir place es es' => cases hread
  | same _ => exact hread
  | vacant _ place => cases hread
  | missing _ => cases hread

lemma hasEntry_of_fades (h : Fades (t.find p) (t'.find p)) (hnone : t.hasEntry p = .ok false) :
    t'.hasEntry p = .ok false := by
  unfold hasEntry test get at hnone ⊢
  generalize t.find p = before at h hnone
  generalize t'.find p = after at h
  cases h with
  | dir place es es' => cases hnone
  | same _ => exact hnone
  | vacant _ place => rfl
  | missing _ => rfl

/-- A tree after files and links were removed, one after the other. -/
def Thins : Tree → Tree → Prop := Relation.ReflTransGen fun t t' => ∃ p, t.remove p = .ok t'

/-- A file that could be read before others were removed can be read as before, unless nothing is
there. -/
lemma Thins.read (h : t.Thins t') (hread : t.read p = .ok file) :
    t'.read p = .ok file ∨ t'.hasEntry p = .ok false := by
  induction h with
  | refl => exact .inl hread
  | tail _ hremove ih =>
    obtain ⟨q, hq⟩ := hremove
    rcases ih with hstill | hgone
    · exact read_of_fades (fades_find_remove hq) hstill
    · exact .inr (hasEntry_of_fades (fades_find_remove hq) hgone)

lemma Thins.read_before (h : t.Thins t') (hread : t'.read p = .ok file) : t.read p = .ok file := by
  induction h using Relation.ReflTransGen.head_induction_on with
  | refl => exact hread
  | head hremove _ ih =>
    obtain ⟨q, hq⟩ := hremove
    exact read_of_fades_after (fades_find_remove hq) ih

lemma thins_of_foldlM {qs : List Path} (h : qs.foldlM remove t = .ok t') : t.Thins t' := by
  induction qs generalizing t with
  | nil =>
    cases h
    exact .refl
  | cons q qs ih =>
    rw [foldlM_cons] at h
    rcases hremove : t.remove q with r | t1
    · rw [hremove] at h
      cases h
    · rw [hremove] at h
      exact (ih h).head ⟨q, hremove⟩

end Tree

end CodeAtlas.Files
