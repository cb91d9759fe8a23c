import CodeAtlas.Proofs.Files
import CodeAtlas.Proofs.Files.Removal
import Mathlib.Data.List.Sort

/-!
# The plain search for source files

It finds the entries below a directory whose last name has the wanted ending, each once and in
order.
-/

namespace CodeAtlas

open List Prod Keyed

variable {as bs : List String} {sources : List Path} {es : List (String × Entry)} {e : Entry}
  {rest : Place}

/-! ### The order of paths -/

namespace Path

lemma namesLe_trans {cs : List String} (hab : namesLe as bs = true) (hbc : namesLe bs cs = true) :
    namesLe as cs = true := by
  induction as generalizing bs cs with
  | nil => rfl
  | cons a as ih =>
    rcases bs with _ | ⟨b, bs⟩
    · cases hab
    rcases cs with _ | ⟨c, cs⟩
    · cases hbc
    simp only [namesLe] at hab hbc ⊢
    by_cases h : a = b <;> by_cases h' : b = c
    · subst h h'
      rw [if_pos rfl] at hab hbc ⊢
      exact ih hab hbc
    · subst h
      rwa [if_neg h'] at hbc ⊢
    · subst h'
      rwa [if_neg h] at hab ⊢
    · rw [if_neg h, decide_eq_true_eq] at hab
      rw [if_neg h', decide_eq_true_eq] at hbc
      have hne : a ≠ c := by
        rintro rfl
        exact String.lt_asymm hab hbc
      rw [if_neg hne, decide_eq_true_eq]
      exact String.lt_trans hab hbc

lemma namesLe_total (as bs : List String) : namesLe as bs = true ∨ namesLe bs as = true := by
  induction as generalizing bs with
  | nil => exact .inl rfl
  | cons a as ih =>
    rcases bs with _ | ⟨b, bs⟩
    · exact .inr rfl
    simp only [namesLe]
    by_cases h : a = b
    · subst h
      rw [if_pos rfl, if_pos rfl]
      exact ih bs
    · rw [if_neg h, if_neg (Ne.symm h), decide_eq_true_eq, decide_eq_true_eq]
      by_contra hnot
      rw [not_or] at hnot
      exact h (String.le_antisymm (String.not_lt.mp hnot.2) (String.not_lt.mp hnot.1))

lemma namesLe_antisymm (hab : namesLe as bs = true) (hba : namesLe bs as = true) : as = bs := by
  induction as generalizing bs with
  | nil =>
    cases bs with
    | nil => rfl
    | cons b bs => cases hba
  | cons a as ih =>
    rcases bs with _ | ⟨b, bs⟩
    · cases hab
    simp only [namesLe] at hab hba
    by_cases h : a = b
    · subst h
      rw [if_pos rfl] at hab hba
      rw [ih hab hba]
    · rw [if_neg h, decide_eq_true_eq] at hab
      rw [if_neg (Ne.symm h), decide_eq_true_eq] at hba
      exact absurd hba (String.lt_asymm hab)

lemma le_trans (p q r : Path) (hpq : p.le q = true) (hqr : q.le r = true) : p.le r = true :=
  namesLe_trans hpq hqr

lemma le_total (p q : Path) : (p.le q || q.le p) = true := by
  rw [Bool.or_eq_true]
  exact namesLe_total _ _

lemma le_antisymm {p q : Path} (hpq : p.le q = true) (hqp : q.le p = true) : p = q := by
  obtain ⟨hroot, hparts⟩ := cons.inj (namesLe_antisymm hpq hqp)
  cases p
  cases q
  simp_all

end Path

namespace Files

lemma pairwise_sortPaths (ps : List Path) : (sortPaths ps).Pairwise fun p q => p.le q = true :=
  pairwise_mergeSort Path.le_trans Path.le_total ps

lemma sortPaths_eq_filter {ps ps' : List Path} (hps : ps.Nodup) (hps' : ps'.Nodup)
    {keep : Path → Bool}
    (h : ∀ q, q ∈ ps' ↔ q ∈ ps ∧ keep q = true) : sortPaths ps' = (sortPaths ps).filter keep := by
  have hperm : ps.Perm (sortPaths ps) := (mergeSort_perm ps _).symm
  have hperm' : (sortPaths ps').Perm ps' := mergeSort_perm ps' _
  refine Perm.eq_of_pairwise (fun _ _ _ _ => Path.le_antisymm) (pairwise_sortPaths ps')
    ((pairwise_sortPaths ps).filter _) (hperm'.trans ?_)
  refine Perm.trans ?_ (hperm.filter keep)
  rw [perm_ext_iff_of_nodup hps' (hps.filter _)]
  intro q
  rw [h q, mem_filter]

/-! ### Well-formed trees -/

lemma Entry.WellFormed.erase (h : e.WellFormed) (place : Place) : (e.erase place).WellFormed := by
  induction place generalizing e with
  | nil => cases e <;> exact h
  | cons name rest ih =>
    cases e with
    | file content modified => exact h
    | link target => exact h
    | dir es =>
      simp only [WellFormed, wellFormedBelow_iff] at h
      obtain ⟨hnames, hbelow⟩ := h
      cases rest with
      | nil =>
        simp only [Entry.erase, WellFormed, wellFormedBelow_iff]
        exact ⟨hnames.sublist (filter_sublist.map _), fun x hx => hbelow x (mem_filter.mp hx).1⟩
      | cons next rest =>
        rcases hchild : Keyed.get? name es with _ | child
        · simp only [Entry.erase, hchild, WellFormed, wellFormedBelow_iff]
          exact ⟨hnames, hbelow⟩
        · simp only [Entry.erase, hchild, WellFormed, wellFormedBelow_iff]
          refine ⟨nodup_keys_put hnames, fun x hx => ?_⟩
          rcases mem_of_mem_put hx with rfl | hx
          · have hmem := hbelow _ (mem_of_get? hchild)
            exact ⟨hmem.1, ih hmem.2⟩
          · exact hbelow x hx

/-! ### What is found -/

/-- Whether the last name of a place has the wanted ending. -/
def isSourcePlace (place : Place) : Bool := place.getLast?.any isSourceName

@[simp] lemma not_isSourcePlace_nil : isSourcePlace [] = false := rfl

@[simp] lemma isSourcePlace_singleton (name : String) : isSourcePlace [name] = isSourceName name :=
  rfl

@[simp] lemma isSourcePlace_cons_cons (name next : String) :
    isSourcePlace (name :: next :: rest) = isSourcePlace (next :: rest) := by
  simp [isSourcePlace]

lemma Entry.at?_dir_cons (name first : String) : (Entry.dir ((name, e) :: es)).at? (first :: rest) =
      if name = first then e.at? rest else (Entry.dir es).at? (first :: rest) := by
  by_cases h : name = first <;> simp [at?, entries, Keyed.get?, h]

lemma Entry.at?_dir_of_notMem {name : String} (h : name ∉ es.map fst) :
    (Entry.dir es).at? (name :: rest) = none := by
  simp [at?, entries, (get?_eq_none_iff name es).mpr h]

mutual

lemma mem_sourcesBelow {place : Place} :
    (es : List (String × Entry)) → (es.map fst).Nodup → wellFormedBelow es →
      (place ∈ sourcesBelow es ↔ isSourcePlace place = true ∧
      ((Entry.dir es).at? place).isSome = true)
  | [], _, _ => by cases place <;> simp [sourcesBelow, Entry.at?, Entry.entries, Keyed.get?]
  | (name, e) :: es, hnames, hes => by
    simp only [wellFormedBelow] at hes
    obtain ⟨hname, hrest⟩ := nodup_cons.mp hnames
    rw [sourcesBelow, mem_append, mem_append, mem_sourcesBelow es hrest hes.2.2]
    -- either the place begins with this name, and then with no other, or with another name
    rcases place with _ | ⟨first, rest⟩
    · simp
    rw [Entry.at?_dir_cons]
    by_cases hfirst : name = first
    · subst hfirst
      rw [if_pos rfl, Entry.at?_dir_of_notMem hname]
      cases rest with
      | nil => by_cases hsource :
          isSourceName name = true <;> simp [hsource, nil_notMem_sourcesIn, Entry.at?]
      | cons next rest =>
        have hin : next :: rest ∈ sourcesIn e ↔ _ := mem_sourcesIn e hes.2.1
        split_ifs <;> simp [hin]
    · rw [if_neg hfirst]
      split_ifs <;> simp [hfirst, Ne.symm hfirst]

/-- The places found are those of entries with the ending. -/
lemma mem_sourcesIn {place : Place} : (e : Entry) → e.WellFormed →
    (place ∈ sourcesIn e ↔ isSourcePlace place = true ∧ (e.at? place).isSome = true)
  | .dir es, he => by
    simp only [Entry.WellFormed] at he
    exact mem_sourcesBelow es he.1 he.2
  | .file _ _, _ => by cases place <;> simp [sourcesIn, Entry.at?, Entry.entries, Keyed.get?]
  | .link _, _ => by cases place <;> simp [sourcesIn, Entry.at?, Entry.entries, Keyed.get?]

end

mutual

lemma mem_dirsBelow {place : Place} :
    (es : List (String × Entry)) → (es.map fst).Nodup → wellFormedBelow es →
      (place ∈ dirsBelow es ↔ place ≠ [] ∧ ∃ es', (Entry.dir es).at? place = some (.dir es'))
  | [], _, _ => by cases place <;> simp [dirsBelow, Entry.at?, Entry.entries, Keyed.get?]
  | (name, e) :: es, hnames, hes => by
    simp only [wellFormedBelow] at hes
    obtain ⟨hname, hrest⟩ := nodup_cons.mp hnames
    rw [dirsBelow, mem_append, mem_dirsOf name e hes.2.1, mem_dirsBelow es hrest hes.2.2]
    rcases place with _ | ⟨first, rest⟩
    · simp
    rw [Entry.at?_dir_cons]
    by_cases hfirst : name = first
    · subst hfirst
      rw [if_pos rfl, Entry.at?_dir_of_notMem hname]
      simp
    · rw [if_neg hfirst]
      simp [Ne.symm hfirst]

lemma mem_dirsOf {place : Place} (name : String) : (e : Entry) → e.WellFormed →
    (place ∈ dirsOf name e ↔ ∃ rest, place = name :: rest ∧ ∃ es', e.at? rest = some (.dir es'))
  | .dir es, he => by
    simp only [Entry.WellFormed] at he
    rw [dirsOf, mem_cons, mem_map]
    simp only [mem_dirsBelow es he.1 he.2]
    constructor
    · rintro (rfl | ⟨rest, ⟨-, hdir⟩, rfl⟩)
      · exact ⟨[], rfl, es, rfl⟩
      · exact ⟨rest, rfl, hdir⟩
    · rintro ⟨rest, rfl, hdir⟩
      by_cases hrest : rest = []
      · exact .inl (by rw [hrest])
      · exact .inr ⟨rest, ⟨hrest, hdir⟩, rfl⟩
  | .file _ _, _ => by
    simp only [dirsOf, not_mem_nil, false_iff]
    rintro ⟨_ | ⟨next, rest⟩, -, es', hdir⟩ <;> simp [Entry.at?, Entry.entries, Keyed.get?] at hdir
  | .link _, _ => by
    simp only [dirsOf, not_mem_nil, false_iff]
    rintro ⟨_ | ⟨next, rest⟩, -, es', hdir⟩ <;> simp [Entry.at?, Entry.entries, Keyed.get?] at hdir

end

/-! ### Searches in a thinned tree -/

/-- The place of a path below a directory, which is at a place itself. -/
def placeBelow (p : Path) (here : Place) (q : Path) : Place := here ++ q.parts.drop p.parts.length

@[simp] lemma placeBelow_below (p : Path) (here place : Place) :
    placeBelow p here (below p place) = here ++ place := by
  simp [placeBelow, below]

lemma below_injective (p : Path) : Function.Injective (below p) := fun _ _ h =>
  append_cancel_left (congrArg Path.parts h)

namespace Tree

variable {t : Tree} {p : Path} {here : Place} {es : List (String × Entry)}

lemma at?_of_find {place : Place} (h : t.find p = .ok (.entry place e)) :
    t.root.at? place = some e := by
  unfold find at h
  split_ifs at h
  exact at?_of_followLinks h

/-- When a search at any depth succeeds, and with what. -/
lemma sources_eq_ok_iff (hfind : t.find p = .ok (.entry here (.dir es))) :
    t.sources p true = .ok sources ↔
      (∀ d ∈ dirsBelow es, ¬ maxPath < (below p d).text.utf8ByteSize) ∧
        sources = sortPaths ((sourcesBelow es).map (below p)) := by
  have hentries : t.entriesAt p = .ok es := by simp [entriesAt, get, hfind]
  simp only [Tree.sources, hentries, if_true]
  rcases hdeep : ((dirsBelow es).map (below p)).find? fun q =>
    maxPath < q.text.utf8ByteSize with _ | q
  · have hshort : ∀ d ∈ dirsBelow es, ¬ maxPath < (below p d).text.utf8ByteSize :=
      by simpa using hdeep
    simp only [hdeep, Except.ok.injEq]
    exact ⟨fun h => ⟨hshort, h.symm⟩, fun h => h.2.symm⟩
  · simp only [hdeep, reduceCtorEq, false_iff, not_and]
    intro hshort
    obtain ⟨d, hd, rfl⟩ := mem_map.mp (mem_of_find?_eq_some hdeep)
    have hlong := find?_some hdeep
    exact absurd (by simpa using hlong) (hshort d hd)

lemma exists_place_of_mem_sources (ht : t.WellFormed)
    (hfind : t.find p = .ok (.entry here (.dir es)))
     (hsources : t.sources p true = .ok sources) {q : Path} (hq : q ∈ sources) :
    ∃ place e, q = below p place ∧ place ≠ [] ∧ t.root.at? (here ++ place) = some e := by
  have hes := ht.find hfind
  simp only [Entry.WellFormed] at hes
  rw [((sources_eq_ok_iff hfind).mp hsources).2] at hq
  obtain ⟨place, hplace, rfl⟩ := mem_map.mp ((mergeSort_perm _ _).mem_iff.mp hq)
  obtain ⟨hsource, hat⟩ := (mem_sourcesBelow es hes.1 hes.2).mp hplace
  obtain ⟨e, he⟩ := Option.isSome_iff_exists.mp hat
  refine ⟨place, e, rfl, ?_, ?_⟩
  · rintro rfl
    cases hsource
  · rw [Entry.at?_append, at?_of_find hfind]
    exact he

/-- A search in a thinned tree finds what it found before, without what is gone. -/
lemma sources_thinned {root' : Entry} {gone : List Place} (ht : t.WellFormed)
    (hroot' : root'.WellFormed) (h : Thinned gone t.root root') {es' : List (String × Entry)}
    (hfind : t.find p = .ok (.entry here (.dir es)))
    (hfind' : ({ t with root := root' } : Tree).find p = .ok (.entry here (.dir es')))
    (hsources : t.sources p true = .ok sources) :
    ({ t with root := root' } : Tree).sources p true =
      .ok (sources.filter fun q => placeBelow p here q ∉ gone) := by
  have hes := ht.find hfind
  have hes' := (show Tree.WellFormed { t with root := root' } from hroot').find hfind'
  simp only [Entry.WellFormed] at hes hes'
  have hat : ∀ place, t.root.at? (here ++ place) = (Entry.dir es).at? place := by
    intro place
    rw [Entry.at?_append, at?_of_find hfind]
    rfl
  have hat' : ∀ place, root'.at? (here ++ place) = (Entry.dir es').at? place := by
    intro place
    rw [Entry.at?_append, at?_of_find hfind']
    rfl
  obtain ⟨hshort, rfl⟩ := (sources_eq_ok_iff hfind).mp hsources
  rw [sources_eq_ok_iff hfind']
  constructor
  · intro d hd
    obtain ⟨hne, ds', hds'⟩ := (mem_dirsBelow es' hes'.1 hes'.2).mp hd
    obtain ⟨ds, hds⟩ := h.exists_dir_before ((hat' d).trans hds')
    exact hshort d ((mem_dirsBelow es hes.1 hes.2).mpr ⟨hne, ds, (hat d).symm.trans hds⟩)
  · symm
    apply sortPaths_eq_filter
    · exact (nodup_sourcesBelow es hes.1 hes.2).map (below_injective p)
    · exact (nodup_sourcesBelow es' hes'.1 hes'.2).map (below_injective p)
    · intro q
      simp only [mem_map, decide_eq_true_eq]
      constructor
      · rintro ⟨place, hplace, rfl⟩
        obtain ⟨hsource, hthere'⟩ := (mem_sourcesBelow es' hes'.1 hes'.2).mp hplace
        obtain ⟨hthere, hkept⟩ := (h.isSome_at?_iff (here ++ place)).mp (by rwa [hat'])
        refine ⟨⟨place, (mem_sourcesBelow es hes.1 hes.2).mpr ⟨hsource, by rwa [← hat]⟩, rfl⟩, ?_⟩
        rwa [placeBelow_below]
      · rintro ⟨⟨place, hplace, rfl⟩, hkept⟩
        rw [placeBelow_below] at hkept
        obtain ⟨hsource, hthere⟩ := (mem_sourcesBelow es hes.1 hes.2).mp hplace
        have hthere' := (h.isSome_at?_iff (here ++ place)).mpr ⟨by rwa [hat], hkept⟩
        exact ⟨place, (mem_sourcesBelow es' hes'.1 hes'.2).mpr ⟨hsource, by rwa [← hat']⟩, rfl⟩

end Tree

end Files

end CodeAtlas
