import CodeAtlas.Catalog.Generate
import CodeAtlas.Proofs.Files.Sources

/-!
# The pruned search for source files

What it finds can be told from whole paths (`Catalog.sources_filtered`), out of all entries that are
met when every directory is entered and every link to one is followed.
-/

namespace CodeAtlas

open List

namespace Files.Tree

variable {t : Tree} {skip : List String} {p : Path} {here last place : Place} {e : Entry}
  {chain : List (String × Bool)}

/-- The names of directories lead on from the directory at a place. Every name stands with whether
it is the name of a link, which goes on where the link leads. -/
inductive Enters (t : Tree) : Place → List (String × Bool) → Place → Prop
  | here (place : Place) : Enters t place [] place
  | dir {here last : Place} {name : String} {es : List (String × Entry)}
  {chain : List (String × Bool)}
      (there : t.root.at? (here ++ [name]) = some (.dir es))
        (next : Enters t (here ++ [name]) chain last) :
      Enters t here ((name, false) :: chain) last
  | link {here there last : Place} {name target : String} {es : List (String × Entry)}
  {chain : List (String × Bool)}
      (isLink : t.root.at? (here ++ [name]) = some (.link target))
      (leads : followLinks t.root true maxLinks [] (here ++ [name]) = .ok (.entry there (.dir es)))
      (next : Enters t there chain last) : Enters t here ((name, true) :: chain) last

lemma Enters.eq_append (h : t.Enters here chain last) (hplain : ∀ step ∈ chain, step.2 = false) :
    last = here ++ chain.map Prod.fst := by
  induction h with
  | here place => simp
  | dir there next ih =>
      rw [ih fun step hstep => hplain step (mem_cons_of_mem _ hstep), map_cons, append_assoc]; rfl
  | link isLink leads next ih => cases hplain _ mem_cons_self

lemma enters_of_at? {dirs : List String} {name : String}
    (h : t.root.at? (here ++ dirs ++ [name]) = some e) :
    t.Enters here (dirs.map (·, false)) (here ++ dirs) := by
  induction dirs generalizing here with
  | nil =>
    rw [append_nil]
    exact .here here
  | cons d dirs ih =>
    have hsplit : here ++ d :: dirs = here ++ [d] ++ dirs := by simp
    rw [hsplit] at h ⊢
    obtain ⟨es, hes⟩ := Entry.hasParent_of_at? h _ _ rfl
    rw [Entry.at?_append, Option.bind_eq_some_iff] at hes
    obtain ⟨e', hdir, hrest⟩ := hes
    obtain ⟨es', rfl⟩ : ∃ es', e' = .dir es' := by
      cases dirs with
      | nil => exact ⟨es, Option.some.inj hrest⟩
      | cons next rest =>
        obtain ⟨child, hchild, -⟩ := Option.bind_eq_some_iff.mp hrest
        exact Entry.exists_eq_dir hchild
    exact .dir hdir (ih h)

/-- The search finds what is at a place below an entry, which is at `here` itself. -/
def Wants (t : Tree) (skip : List String) (here : Place) (e : Entry) (place : Place) : Prop :=
  isSourcePlace place = true ∧ (∀ d ∈ place.dropLast, d ∉ skip) ∧
    ∃ e', e.at? place = some e' ∧ t.leadsToDir (here ++ place) e' = false

mutual

lemma mem_prunedBelow : (es : List (String × Entry)) → (es.map Prod.fst).Nodup →
    wellFormedBelow es →
    ∀ here place, place ∈ t.prunedBelow skip here es ↔ t.Wants skip here (.dir es) place
  | [], _, _, here, place => by cases place <;>
  simp [prunedBelow, Wants, Entry.at?, Entry.entries, Keyed.get?]
  | (name, e) :: es, hnames, hes, here, place => by
    simp only [wellFormedBelow] at hes
    obtain ⟨hname, hrest⟩ := nodup_cons.mp hnames
    rw [prunedBelow, mem_append, mem_append, mem_prunedBelow es hrest hes.2.2]
    -- either the place begins with this name, and then with no other, or with another name
    rcases place with _ | ⟨first, rest⟩
    · split_ifs <;> simp [Wants]
    simp only [Wants, Entry.at?_dir_cons]
    by_cases hfirst : name = first
    · subst hfirst
      rw [if_pos rfl, Entry.at?_dir_of_notMem hname]
      have hin := mem_prunedIn e hes.2.1 (here ++ [name]) rest
      rw [Wants, append_assoc, singleton_append] at hin
      cases rest with
      | nil =>
        have hnil : [] ∉ t.prunedIn skip (here ++ [name]) e := by simp [hin]
        split_ifs <;> simp_all [Entry.at?]
      | cons next rest =>
        split_ifs <;> simp_all
    · split_ifs <;> simp [hfirst, Ne.symm hfirst]

lemma mem_prunedIn : (e : Entry) → e.WellFormed → ∀ here place,
    (place ∈ t.prunedIn skip here e ↔ t.Wants skip here e place)
  | .dir es, he, here, place => by
    simp only [Entry.WellFormed] at he
    exact mem_prunedBelow es he.1 he.2 here place
  | .file _ _, _, here, place => by cases place <;>
      simp [prunedIn, Wants, Entry.at?, Entry.entries, Keyed.get?]
  | .link _, _, here, place => by cases place <;>
      simp [prunedIn, Wants, Entry.at?, Entry.entries, Keyed.get?]

end

/-- An entry that is no directory has a name in the directory that other names lead to. -/
def MeetsFile (t : Tree) (here : Place) (chain : List (String × Bool)) (name : String) : Prop :=
  ∃ last e, t.Enters here chain last ∧ t.root.at? (last ++ [name]) = some e ∧
    t.leadsToDir (last ++ [name]) e = false

lemma wants_iff {es : List (String × Entry)} (hdir : t.root.at? here = some (.dir es)) :
    t.Wants skip here (.dir es) place ↔ ∃ chain name, t.MeetsFile here chain name ∧
      isSourceName name = true ∧
      (∀ step ∈ chain, step.1 ∉ skip ∧ step.2 = false) ∧ place = chain.map Prod.fst ++ [name] := by
  have hat : ∀ rest, t.root.at? (here ++ rest) = (Entry.dir es).at? rest := by
    intro rest
    rw [Entry.at?_append, hdir]
    rfl
  simp only [Wants, ← hat]
  constructor
  · rintro ⟨hsource, hdirs, e, he, hfile⟩
    rcases eq_nil_or_concat' place with rfl | ⟨dirs, name, rfl⟩
    · cases hsource
    rw [dropLast_concat] at hdirs
    rw [← append_assoc] at he hfile
    refine ⟨dirs.map (·, false), name, ⟨_, e, enters_of_at? he, he, hfile⟩,
      by simpa [isSourcePlace] using hsource, ?_, by simp [Function.comp_def]⟩
    rintro step hstep
    obtain ⟨d, hd, rfl⟩ := mem_map.mp hstep
    exact ⟨hdirs d hd, rfl⟩
  · rintro ⟨chain, name, ⟨last, e, henters, he, hfile⟩, hsource, hchain, rfl⟩
    obtain rfl := henters.eq_append fun step hstep => (hchain step hstep).2
    rw [append_assoc] at he hfile
    refine ⟨by simpa [isSourcePlace] using hsource, ?_, e, he, hfile⟩
    rw [dropLast_concat]
    intro d hd
    obtain ⟨step, hstep, rfl⟩ := mem_map.mp hd
    exact (hchain step hstep).1

end Files.Tree

namespace Catalog

open Files

/-- The search for the source files of a project comes out with the entries of the wanted ending
that are no directories and on whose way from the project's root stands no skipped name and no link,
each once and in order. -/
theorem sources_filtered (s : Session) (ht : s.tree.WellFormed) (root : Path) :
    ∃ files, sources root s = (.ok files, s) ∧ files.Pairwise (fun q r => q.le r = true ∧ q ≠ r) ∧
      ∀ file, file ∈ files ↔ ∃ here es chain name, s.tree.find root = .ok (.entry here (.dir es)) ∧
        s.tree.MeetsFile here chain name ∧ isSourceName name = true ∧
        (∀ step ∈ chain, step.1 ∉ skippedDirs ∧ step.2 = false) ∧
        file = below root (chain.map Prod.fst ++ [name]) := by
  refine ⟨_, rfl, ?_, fun file => ?_⟩
  · have hsorted : (s.tree.prunedSources skippedDirs root).Pairwise fun q r => q.le r = true := by
      unfold Tree.prunedSources
      split
      · exact pairwise_sortPaths _
      · exact .nil
    exact hsorted.and (Tree.nodup_prunedSources ht root)
  · by_cases hdir : ∃ here es, s.tree.find root = .ok (.entry here (.dir es))
    · obtain ⟨here, es, hfind⟩ := hdir
      have hes := ht.find hfind
      simp only [Entry.WellFormed] at hes
      simp only [Tree.prunedSources, hfind, sortPaths, (mergeSort_perm _ _).mem_iff, mem_map,
        Tree.mem_prunedBelow es hes.1 hes.2, Tree.wants_iff (Tree.at?_of_find hfind)]
      constructor
      · rintro ⟨_, ⟨chain, name, hmeets, hsource, hchain, rfl⟩, rfl⟩
        exact ⟨here, es, chain, name, rfl, hmeets, hsource, hchain, rfl⟩
      · rintro ⟨here', es', chain, name, hfind', hmeets, hsource, hchain, rfl⟩
        obtain ⟨rfl, -⟩ : here = here' ∧ es = es' := by simpa using hfind'
        exact ⟨_, ⟨chain, name, hmeets, hsource, hchain, rfl⟩, rfl⟩
    · have hnone : s.tree.prunedSources skippedDirs root = [] := by
        unfold Tree.prunedSources
        split
        · next here es hfind => exact absurd ⟨here, es, hfind⟩ hdir
        · rfl
      rw [hnone]
      exact iff_of_false not_mem_nil fun ⟨here, es, _, _, hfind, _⟩ => hdir ⟨here, es, hfind⟩

/-- A project with a skipped directory and a link to a directory. -/
def linkedTree : Tree where
  root := .dir [("p", .dir [("build", .dir [("b.py", .file [] 0)]),
    ("m", .dir [("z.py", .file [] 0)]), ("l", .link "m")])]
  here := []

theorem sources_filtered_linkedTree : linkedTree.WellFormed ∧ ∃ files,
    sources ⟨"/", ["p"]⟩ { tree := linkedTree } = (.ok files, { tree := linkedTree }) ∧
      ⟨"/", ["p", "m", "z.py"]⟩ ∈ files ∧ ⟨"/", ["p", "build", "b.py"]⟩ ∉ files := by
  have hwell : linkedTree.WellFormed := by
    simp [Tree.WellFormed, linkedTree, Entry.WellFormed, wellFormedBelow, Path.IsName]
  obtain ⟨files, hrun, -, hmem⟩ := sources_filtered { tree := linkedTree } hwell ⟨"/", ["p"]⟩
  refine ⟨hwell, files, hrun, (hmem _).mpr ?_, fun hbuild => ?_⟩
  · exact ⟨["p"], _, [("m", false)], "z.py", by rfl, ⟨_, _, .dir rfl (.here _), rfl, rfl⟩,
      by decide +kernel, by decide, rfl⟩
  · obtain ⟨here, es, chain, name, -, -, -, hchain, hpath⟩ := (hmem _).mp hbuild
    have hparts : ["build", "b.py"] = chain.map Prod.fst ++ [name] := by simpa [below] using hpath
    obtain ⟨hnames, -⟩ := append_inj' (show ["build"] ++ ["b.py"] = _ from hparts) rfl
    obtain ⟨step, hstep, hname⟩ := mem_map.mp (hnames ▸ mem_singleton_self "build")
    exact (hchain step hstep).1 (hname ▸ by decide)

end Catalog

end CodeAtlas
