import CodeAtlas.Proofs.Files.Sources

/-!
# Clearing a directory of files

Files that a search has found can all be removed, and a file that is left is read as before unless
what it reads was also read under a path that is gone (`Searched.read_thinned`).
-/

namespace CodeAtlas.Files

open List Nat

variable {gone : List Place} {here : Place} {k m : Nat} {d place there : Place} {last : Bool}
  {x : Target} {e : Entry} {file : List UInt8 × Int} {t0 : Tree} {es : List (String × Entry)}

lemma Reaches.of_meets {root : Entry} {u : Stage} (hmeets : u.Meets gone)
    (h : Reaches root u ⟨k, there, []⟩) :
    ∃ name m d, u.here ++ [name] ∈ gone ∧ Reaches root ⟨u.links, u.here, [name]⟩ ⟨m, d, []⟩ ∧
      (d = there ∨ ∃ es, root.at? d = some (.dir es)) := by
  obtain ⟨n, here, names⟩ := u
  obtain ⟨name, rest, rfl, -, hgone⟩ := hmeets
  obtain ⟨m, d, hfirst, hothers⟩ := Reaches.split (s := ⟨n, here, [name]⟩) h
  refine ⟨name, m, d, hgone, hfirst, ?_⟩
  rcases hothers.cases_head with heq | ⟨_, hgoes, _⟩
  · cases heq
    exact .inl rfl
  · exact .inr hgoes.exists_dir

namespace Tree

variable {t : Tree} {p q : Path}

/-- Whether there is a file at a path, or a link that leads to no directory. -/
def holdsFile (t : Tree) (q : Path) : Bool :=
  match t.find q false with
  | .ok (.entry place e) => !t.leadsToDir place e
  | _ => false

/-! ### Look-ups as runs -/

lemma find_of_find (h : t.find q last = .ok x) (t' : Tree) (last' : Bool) :
    t'.find q last' = followLinks t'.root last' maxLinks (t'.start q) q.parts := by
  unfold find at h ⊢
  split_ifs at h ⊢
  rfl

lemma exists_reaches_of_find (h : t.find q = .ok (.entry place e)) :
    ∃ k, Reaches t.root ⟨maxLinks, t.start q, q.parts⟩ ⟨k, place, []⟩ := by
  rw [find_of_find h] at h
  exact reaches_of_followLinks h

lemma exists_find_of_read (h : t.read q = .ok file) :
    ∃ place, t.find q = .ok (.entry place (.file file.1 file.2)) := by
  unfold read get at h
  rcases hfind : t.find q with f | ⟨place, e⟩ | place
  · simp [hfind] at h
  · cases e with
    | file content modified =>
      simp only [hfind, Except.ok.injEq] at h
      exact ⟨place, by rw [← h]⟩
    | dir es => simp [hfind] at h
    | link target => simp [hfind] at h
  · simp [hfind] at h

section

variable (hrun : Reaches t.root ⟨maxLinks, t.start p, p.parts⟩ ⟨m, here, []⟩)

include hrun

lemma followLinks_below (last : Bool) (hne : place ≠ []) :
    followLinks t.root last maxLinks (t.start (below p place)) (below p place).parts =
      followLinks t.root last m here place := by
  have heq := hrun.followLinks_eq last place (.inr hne)
  rw [nil_append] at heq
  exact heq

lemma find_below (hne : place ≠ []) (hplain : ∀ w ∈ place, PlainName w)
    (hat : t.root.at? (here ++ place) = some e) (hfind : t0.find (below p place) last = .ok x) :
    t.find (below p place) false = .ok (.entry (here ++ place) e) := by
  rw [find_of_find hfind, followLinks_below hrun false hne]
  exact followLinks_of_at? hat hne hplain m

lemma read_below_iff
    (hne : place ≠ []) (hfind : t0.find (below p place) last = .ok x) :
    t.read (below p place) = .ok file ↔
      ∃ k there, Reaches t.root ⟨m, here, place⟩
        ⟨k, there, []⟩ ∧ t.root.at? there = some (.file file.1 file.2) := by
  have hfollow : t.find (below p place) = followLinks t.root true m here place := by
    rw [find_of_find hfind, followLinks_below hrun true hne]
  constructor
  · intro hread
    obtain ⟨there, hthere⟩ := exists_find_of_read hread
    obtain ⟨k, hrun'⟩ := reaches_of_followLinks (hfollow.symm.trans hthere)
    exact ⟨k, there, hrun', at?_of_find hthere⟩
  · rintro ⟨k, there, hrun', hat⟩
    simp only [read, get, hfollow, followLinks_of_reaches hrun' hat]

end

lemma leadsToDir_of_reaches (hat : t.root.at? place = some e) (hplain : ∀ w ∈ place, PlainName w)
    (hrun : Reaches t.root ⟨maxLinks, [], place⟩ ⟨k, d, []⟩)
    (hdir : t.root.at? d = some (.dir es)) : t.leadsToDir place e = true := by
  have hfollow := followLinks_of_reaches hrun hdir
  cases e with
  | dir es => rfl
  | link target => simp only [leadsToDir, hfollow]
  | file content modified =>
    -- a file is found as a file
    have hfile : Reaches t.root ⟨maxLinks, [], place ++ []⟩ ⟨maxLinks, [] ++ place, []⟩ :=
      reaches_of_at? hat hplain (by simp) maxLinks []
    rw [append_nil, nil_append] at hfile
    rw [followLinks_of_reaches hfile hat] at hfollow
    cases hfollow

/-! ### Files that a search has found -/

/-- A search for source files in a tree whose names can be looked up, and the place it started from.
-/
structure Searched (t : Tree) (p : Path) (here : Place) (sources : List Path) : Prop where
  wellFormed : t.WellFormed
  plain : t.root.Plain
  dir : ∃ es, t.find p = .ok (.entry here (.dir es))
  found : t.sources p true = .ok sources

/-- A file, or a link that leads to no directory, at a place below the directory of a path. -/
structure FileBelow (t : Tree) (p : Path) (here place : Place) (e : Entry) : Prop where
  ne_nil : place ≠ []
  at? : t.root.at? (here ++ place) = some e
  plain : ∀ w ∈ here ++ place, PlainName w
  find : t.find (below p place) false = .ok (.entry (here ++ place) e)
  noDir : t.leadsToDir (here ++ place) e = false

lemma FileBelow.plain_right (h : t.FileBelow p here place e) :
    ∀ w ∈ place, PlainName w := fun w hw => h.plain w (mem_append_right _ hw)

/-- A place where a search has found a file that is waste. -/
def Clearable (t : Tree) (p : Path) (here : Place) (sources : List Path) (waste : Path → Prop)
    (g : Place) : Prop :=
  ∃ r ∈ sources, t.holdsFile r = true ∧ waste r ∧ placeBelow p here r = g

namespace Searched

variable {here : Place} {sources : List Path} (h : t.Searched p here sources)

include h

lemma exists_reaches : ∃ m, Reaches t.root ⟨maxLinks, t.start p, p.parts⟩ ⟨m, here, []⟩ := by
  obtain ⟨es, hes⟩ := h.dir
  exact exists_reaches_of_find hes

lemma exists_dir : ∃ es, t.root.at? here = some (.dir es) := by
  obtain ⟨es, hes⟩ := h.dir
  exact ⟨es, at?_of_find hes⟩

lemma exists_place (hq : q ∈ sources) :
    ∃ place e, q = below p place ∧ place ≠ [] ∧ t.root.at? (here ++ place) = some e ∧
      ∀ w ∈ here ++ place, PlainName w := by
  obtain ⟨es, hes⟩ := h.dir
  obtain ⟨place, e, rfl, hne, hat⟩ := exists_place_of_mem_sources h.wellFormed hes h.found hq
  exact ⟨place, e, rfl, hne, hat, (h.plain.of_at? hat).1⟩

lemma exists_fileBelow (hq : q ∈ sources) (hfile : t.holdsFile q = true) :
    ∃ place e, q = below p place ∧ t.FileBelow p here place e := by
  obtain ⟨m, hrun⟩ := h.exists_reaches
  obtain ⟨place, e, rfl, hne, hat, hplain⟩ := h.exists_place hq
  unfold holdsFile at hfile
  split at hfile
  · rename_i place' e' hfind
    have hfind' := find_below hrun hne (fun w hw => hplain w (mem_append_right _ hw)) hat hfind
    obtain ⟨rfl, rfl⟩ : here ++ place = place' ∧ e = e' := by simpa using hfind'.symm.trans hfind
    exact ⟨place, e, rfl, hne, hat, hplain, hfind, by simpa using hfile⟩
  · cases hfile

lemma exists_of_clearable {waste : Path → Prop} {g : Place}
    (hg : t.Clearable p here sources waste g) :
    ∃ place e, g = here ++ place ∧ waste (below p place) ∧ t.FileBelow p here place e := by
  obtain ⟨r, hr, hfile, hwaste, rfl⟩ := hg
  obtain ⟨place, e, rfl, hbelow⟩ := h.exists_fileBelow hr hfile
  exact ⟨place, e, placeBelow_below p here place, hwaste, hbelow⟩

section Thinned

variable {waste : Path → Prop} {gone : List Place}
  (hgone : ∀ g ∈ gone, t.Clearable p here sources waste g) {root' : Entry}
  (hthin : Thinned gone t.root root')

include hgone

lemma not_dir_of_reaches {n : Nat} {above : Place} {name : String} (hmem : above ++ [name] ∈ gone)
    (hrun : Reaches t.root ⟨n, above, [name]⟩ ⟨m, d, []⟩) (hn : n ≤ maxLinks)
    (es : List (String × Entry)) : t.root.at? d ≠ some (.dir es) := by
  intro hdir
  obtain ⟨place, e, hplace, -, hbelow⟩ := h.exists_of_clearable (hgone _ hmem)
  have hroot : [] ++ (here ++ place) = above ++ [name] := hplace.symm
  obtain ⟨k, hrun'⟩ := hrun.approach hroot (by simp [hbelow.ne_nil]) hbelow.plain hn
  have hleads := leadsToDir_of_reaches hbelow.at? hbelow.plain hrun' hdir
  rw [hbelow.noDir] at hleads
  cases hleads

lemma not_reaches_of_kept (hrun : Reaches t.root ⟨maxLinks, t.start p, p.parts⟩ ⟨m, here, []⟩)
    (hat : t.root.at? there = some (.file file.1 file.2))
    (hkept : ∀ r, waste r → t.read r ≠ .ok file)
    (hmem : here ++ place ∈ gone) (k : Nat) : ¬ Reaches t.root ⟨m, here, place⟩ ⟨k, there, []⟩ := by
  intro hroute
  obtain ⟨place', e, hplace, hwaste, hbelow⟩ := h.exists_of_clearable (hgone _ hmem)
  obtain rfl := append_cancel_left hplace
  exact hkept _ hwaste ((read_below_iff hrun hbelow.ne_nil hbelow.find).mpr ⟨k, there, hroute, hat⟩)

include hthin

/-- A run to a directory is one in the thinned tree too. -/
lemma reaches_thinned {s : Stage} (hlinks : s.links ≤ maxLinks) (hrun : Reaches t.root s ⟨k, d, []⟩)
    (hdir : t.root.at? d = some (.dir es)) : Reaches root' s ⟨k, d, []⟩ := by
  rcases hthin.reaches hrun with hrun' | ⟨u, hfirst, -, hthen, hmeets⟩
  · exact hrun'
  · obtain ⟨name, m, d', hmem, hlast, hend⟩ := hthen.of_meets hmeets
    have hnodir := h.not_dir_of_reaches hgone hmem hlast (le_trans hfirst.links_le hlinks)
    rcases hend with rfl | ⟨es', hdir'⟩
    · exact absurd hdir (hnodir es)
    · exact absurd hdir' (hnodir es')

lemma exists_find_thinned :
    ∃ es', ({ t with root := root' } : Tree).find p = .ok (.entry here (.dir es')) := by
  obtain ⟨es, hes⟩ := h.dir
  obtain ⟨k, hrun⟩ := h.exists_reaches
  obtain ⟨es', hes'⟩ := hthin.exists_dir (at?_of_find hes)
  refine ⟨es', ?_⟩
  rw [find_of_find hes]
  exact followLinks_of_reaches (h.reaches_thinned hgone hthin (le_refl _) hrun (at?_of_find hes))
    hes'

/-- A file that is read is read as before, if it is not read under a path that is gone. -/
lemma read_thinned (hq : q ∈ sources) (hread : t.read q = .ok file)
    (hkept : ∀ r, waste r → t.read r ≠ .ok file) :
    ({ t with root := root' } : Tree).read q = .ok file := by
  obtain ⟨es, hdir⟩ := h.exists_dir
  obtain ⟨m, hrun⟩ := h.exists_reaches
  obtain ⟨place, e, rfl, hne, -, -⟩ := h.exists_place hq
  obtain ⟨_, hfind⟩ := exists_find_of_read hread
  obtain ⟨k, there, hroute, hat⟩ := (read_below_iff hrun hne hfind).mp hread
  have hnot : ∀ {place'}, here ++ place' ∈ gone → ∀ k',
      ¬ Reaches t.root ⟨m, here, place'⟩ ⟨k', there, []⟩ :=
    h.not_reaches_of_kept hgone hrun hat hkept
  have hthere : there ∉ gone := by
    intro hmem
    obtain ⟨place', e', rfl, -, hbelow⟩ := h.exists_of_clearable (hgone _ hmem)
    have hwalk := reaches_of_at? hat hbelow.plain_right (by simp) m []
    rw [append_nil] at hwalk
    exact hnot hmem m hwalk
  have hroute' : Reaches root' ⟨m, here, place⟩ ⟨k, there, []⟩ := by
    rcases hthin.reaches hroute with hroute' | ⟨u, hfirst, -, hthen, hmeets⟩
    · exact hroute'
    · obtain ⟨name, m', d, hmem, hlast, hend⟩ := hthen.of_meets hmeets
      have hlinks : u.links ≤ m := hfirst.links_le
      have hnodir := h.not_dir_of_reaches hgone hmem hlast (le_trans hlinks hrun.links_le)
      rcases hend with rfl | ⟨es', hdir'⟩
      · obtain ⟨place', e', hplace, -, hbelow⟩ := h.exists_of_clearable (hgone _ hmem)
        obtain ⟨k', happroach⟩ := hlast.approach hplace.symm hbelow.ne_nil hbelow.plain_right hlinks
        exact absurd happroach (hnot (hplace ▸ hmem) k')
      · exact absurd hdir' (hnodir es')
  have hat' : root'.at? there = some (.file file.1 file.2) :=
    (hthin.alike_at? hat hthere).eq_of_file
  exact (read_below_iff (t := { t with root := root' })
    (h.reaches_thinned hgone hthin (le_refl _) hrun hdir) hne hfind).mpr ⟨k, there, hroute', hat'⟩

lemma remove_thinned (hq : q ∈ sources) (hfile : t.holdsFile q = true)
    (hkept : placeBelow p here q ∉ gone) :
    ({ t with root := root' } : Tree).remove q =
      .ok { t with root := root'.erase (placeBelow p here q) } := by
  obtain ⟨es, hdir⟩ := h.exists_dir
  obtain ⟨m, hrun⟩ := h.exists_reaches
  obtain ⟨place, e, rfl, hbelow⟩ := h.exists_fileBelow hq hfile
  rw [placeBelow_below] at hkept ⊢
  have hrun' := h.reaches_thinned hgone hthin (le_refl _) hrun hdir
  have halike := hthin.alike_at? hbelow.at? hkept
  have hfind' := fun hat' =>
    find_below (t := { t with root := root' }) hrun' hbelow.ne_nil hbelow.plain_right
      (e := e) hat' hbelow.find
  cases e with
  | dir es => exact absurd hbelow.noDir (by simp [leadsToDir])
  | file content modified => simp only [remove, hfind' halike.eq_of_file]
  | link target => simp only [remove, hfind' halike.eq_of_link]

end Thinned

/-! ### Removing the files -/

lemma nodup : sources.Nodup := by
  obtain ⟨es, hes⟩ := h.dir
  have hwell := h.wellFormed.find hes
  simp only [Entry.WellFormed] at hwell
  rw [((sources_eq_ok_iff hes).mp h.found).2]
  refine (mergeSort_perm _ _).nodup_iff.mpr ?_
  exact (nodup_sourcesBelow es hwell.1 hwell.2).map (below_injective p)

lemma placeBelow_inj {r : Path} (hq : q ∈ sources) (hr : r ∈ sources)
    (heq : placeBelow p here q = placeBelow p here r) : q = r := by
  obtain ⟨place, -, rfl, -⟩ := h.exists_place hq
  obtain ⟨place', -, rfl, -⟩ := h.exists_place hr
  rw [placeBelow_below, placeBelow_below] at heq
  rw [append_cancel_left heq]

lemma exists_foldlM_remove_thinned (todo : List Path) {root1 : Entry}
    (hgone : ∀ g ∈ gone, t.Clearable p here sources (fun _ => True) g)
    (hthin : Thinned gone t.root root1) (hroot : root1.WellFormed)
    (htodo : ∀ r ∈ todo, r ∈ sources ∧ t.holdsFile r = true ∧ placeBelow p here r ∉ gone)
    (hnodup : todo.Nodup) :
    ∃ root', todo.foldlM remove { t with root := root1 } = .ok { t with root := root' } ∧
      root'.WellFormed ∧ Thinned ((todo.map (placeBelow p here)).reverse ++ gone) t.root root' := by
  induction todo generalizing gone root1 with
  | nil => exact ⟨root1, rfl, hroot, hthin⟩
  | cons r todo ih =>
    obtain ⟨hr, hfile, hkept⟩ := htodo r mem_cons_self
    obtain ⟨hnew, hnodup⟩ := nodup_cons.mp hnodup
    have herase : Thinned (placeBelow p here r :: gone) t.root
        (root1.erase (placeBelow p here r)) := by
      obtain ⟨place, e, rfl, hbelow⟩ := h.exists_fileBelow hr hfile
      rw [placeBelow_below]
      refine hthin.erase (by simp [hbelow.ne_nil]) fun es hes => ?_
      obtain rfl := Option.some.inj (hbelow.at?.symm.trans hes)
      exact absurd hbelow.noDir (by simp [leadsToDir])
    obtain ⟨root', hfold, hwell, hthin'⟩ := ih
      (by
        intro g hg
        rcases mem_cons.mp hg with rfl | hg
        · exact ⟨r, hr, hfile, trivial, rfl⟩
        · exact hgone g hg)
      herase (hroot.erase _)
      (by
        intro q hq
        obtain ⟨hsource, hfile', hkept'⟩ := htodo q (mem_cons_of_mem _ hq)
        refine ⟨hsource, hfile', fun hmem => ?_⟩
        rcases mem_cons.mp hmem with heq | hmem
        · exact hnew (h.placeBelow_inj hsource hr heq ▸ hq)
        · exact hkept' hmem)
      hnodup
    refine ⟨root', ?_, hwell, ?_⟩
    · rw [foldlM_cons, h.remove_thinned hgone hthin hr hfile hkept]
      exact hfold
    · rw [map_cons, reverse_cons, append_assoc]
      exact hthin'

/-- **Files that are waste can all be removed.** The search then finds what it found before, without
them, and a file that is read otherwise than they are is read as before. -/
theorem exists_cleared (waste : Path → Bool) :
    ∃ t', (sources.filter fun q => t.holdsFile q && waste q).foldlM remove t = .ok t' ∧
      (∃ es, t'.find p = .ok (.entry here (.dir es))) ∧
      t'.sources p true = .ok (sources.filter fun q => !(t.holdsFile q && waste q)) ∧
      ∀ q ∈ sources, ∀ file, t.read q = .ok file → (∀ r, waste r = true → t.read r ≠ .ok file) →
        t'.read q = .ok file := by
  generalize hlost : (sources.filter fun q => t.holdsFile q && waste q) = lost
  have hmem : ∀ r, r ∈ lost ↔ r ∈ sources ∧ t.holdsFile r = true ∧ waste r = true :=
    by simp [← hlost]
  obtain ⟨root', hfold, hwell, hthin⟩ :=
    h.exists_foldlM_remove_thinned lost (by simp) (.refl _) h.wellFormed
      (fun r hr => ⟨((hmem r).mp hr).1, ((hmem r).mp hr).2.1, not_mem_nil⟩)
      (hlost ▸ h.nodup.filter _)
  rw [append_nil] at hthin
  have hgone : ∀ g ∈ (lost.map (placeBelow p here)).reverse,
      t.Clearable p here sources (fun r => waste r = true) g := by
    intro g hg
    obtain ⟨r, hr, rfl⟩ := mem_map.mp (mem_reverse.mp hg)
    obtain ⟨hsource, hfile, hwaste⟩ := (hmem r).mp hr
    exact ⟨r, hsource, hfile, hwaste, rfl⟩
  obtain ⟨es, hes⟩ := h.dir
  obtain ⟨es', hes'⟩ := h.exists_find_thinned hgone hthin
  refine ⟨_, hfold, ⟨es', hes'⟩, ?_,
    fun q hq file hread hkept => h.read_thinned hgone hthin hq hread hkept⟩
  rw [sources_thinned h.wellFormed hwell hthin hes hes' h.found]
  refine congrArg Except.ok (filter_congr fun q hq => ?_)
  -- the places that are gone are those of the paths that are gone
  have hiff : placeBelow p here q ∈ (lost.map (placeBelow p here)).reverse ↔ q ∈ lost := by
    rw [mem_reverse, mem_map]
    constructor
    · rintro ⟨r, hr, heq⟩
      exact h.placeBelow_inj ((hmem r).mp hr).1 hq heq ▸ hr
    · intro hq'
      exact ⟨q, hq', rfl⟩
  simp [hiff, hmem, hq]

end Searched

end Tree

end CodeAtlas.Files
