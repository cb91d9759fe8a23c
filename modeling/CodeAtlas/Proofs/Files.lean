import CodeAtlas.Files.Search
import CodeAtlas.Proofs.Path
import CodeAtlas.Proofs.Table
import Mathlib.Data.List.Nodup

/-!
# Trees and the files found in them

In a well-formed tree the names can stand in paths, and none stands twice in a directory. A search
then finds each source file once.
-/

namespace CodeAtlas.Files

open List Option Prod
open Keyed (get?)

variable {name : String} {e : Entry} {p : Path}

mutual

/-- The names below an entry can stand in paths, and none stands twice in a directory. -/
def Entry.WellFormed : Entry → Prop
  | .file _ _ => True
  | .dir es => (es.map fst).Nodup ∧ wellFormedBelow es
  | .link _ => True

/-- The names of entries can stand in paths, and those below them are in order. -/
def wellFormedBelow : List (String × Entry) → Prop
  | [] => True
  | (name, e) :: es => Path.IsName name ∧ e.WellFormed ∧ wellFormedBelow es

end

/-- A tree is well formed if all its directories are. -/
def Tree.WellFormed (t : Tree) : Prop := t.root.WellFormed

/-! ### Looking up paths -/

lemma wellFormedBelow_iff {es : List (String × Entry)} :
    wellFormedBelow es ↔ ∀ x ∈ es, Path.IsName x.1 ∧ x.2.WellFormed := by
  induction es with
  | nil => simp [wellFormedBelow]
  | cons x es ih =>
    obtain ⟨name, e⟩ := x
    simp [wellFormedBelow, ih, and_assoc]

lemma Entry.WellFormed.at? {place : Place} {e' : Entry} (h : e.WellFormed)
    (hat : e.at? place = some e') : e'.WellFormed := by
  induction place generalizing e with
  | nil =>
    simp only [Entry.at?, some.injEq] at hat
    exact hat ▸ h
  | cons name rest ih =>
    simp only [Entry.at?, bind_eq_some_iff] at hat
    obtain ⟨e1, hget, hrest⟩ := hat
    cases e with
    | dir es =>
      simp only [Entry.WellFormed] at h
      exact ih (wellFormedBelow_iff.mp h.2 _ (Keyed.mem_of_get? hget)).2 hrest
    | file _ _ => simp [Entry.entries, get?] at hget
    | link _ => simp [Entry.entries, get?] at hget

lemma wellFormed_of_follow {root : Entry} (hroot : root.WellFormed) {last : Bool}
    {onLink : Place → List String → Except Fault Target}
    (honLink : ∀ {here names place e}, onLink here names = .ok (.entry place e) → e.WellFormed) :
    {names : List String} → {here place : Place} → {e : Entry} →
      follow root last onLink names here = .ok (.entry place e) → e.WellFormed
  | [], here, place, e, h => by
    simp only [follow] at h
    split at h
    · rename_i e' hat
      obtain ⟨rfl, rfl⟩ : here = place ∧ e' = e := by simpa using h
      exact hroot.at? hat
    · simp at h
  | name :: rest, here, place, e, h => by
    simp only [follow] at h
    split at h
    · rename_i es hat
      by_cases hdot : name = "."
      · rw [if_pos hdot] at h
        exact wellFormed_of_follow hroot honLink h
      by_cases hdots : name = ".."
      · rw [if_neg hdot, if_pos hdots] at h
        exact wellFormed_of_follow hroot honLink h
      by_cases hlong : maxName < name.utf8ByteSize
      · simp [hdot, hdots, hlong] at h
      rw [if_neg hdot, if_neg hdots, if_neg hlong] at h
      rcases hget : get? name es with _ | e'
      · simp only [hget] at h
        split_ifs at h
        simp at h
      · cases e' with
        | link target =>
          simp only [hget] at h
          split_ifs at h
          · obtain ⟨-, rfl⟩ : here ++ [name] = place ∧ Entry.link target = e := by simpa using h
            simp [Entry.WellFormed]
          · exact honLink h
          · exact honLink h
        | _ =>
          simp only [hget] at h
          exact wellFormed_of_follow hroot honLink h
    · simp at h

lemma wellFormed_of_followLinks {root : Entry} (hroot : root.WellFormed) {last : Bool} :
    {links : Nat} → {here place : Place} → {names : List String} → {e : Entry} →
      followLinks root last links here names = .ok (.entry place e) → e.WellFormed
  | 0, _, _, _, _, h => wellFormed_of_follow hroot (by simp) h
  | _ + 1, _, _, _, _,
  h => wellFormed_of_follow hroot (fun h' => wellFormed_of_followLinks hroot h') h

lemma Tree.WellFormed.find {t : Tree} (h : t.WellFormed) {place : Place}
    (hfind : t.find p = .ok (.entry place e)) : e.WellFormed := by
  unfold Tree.find at hfind
  split_ifs at hfind
  exact wellFormed_of_followLinks h hfind

/-! ### Searching -/

lemma nodup_level {first inside others : List Place} (hfirst : first.Sublist [[name]])
    (hinside : inside.Nodup) (hnil : [] ∉ inside) (hothers : others.Nodup)
    (hname : ∀ rest, name :: rest ∉ others) :
    (first ++ inside.map (name :: ·) ++ others).Nodup := by
  have hfirst' : ∀ place ∈ first, place = [name] :=
    fun place hplace => by simpa using hfirst.subset hplace
  rw [append_assoc, nodup_append, nodup_append]
  refine ⟨hfirst.nodup (nodup_singleton _), ⟨hinside.map cons_injective, hothers, ?_⟩, ?_⟩
  · rintro _ hplace other hmem rfl
    obtain ⟨rest, -, hrest⟩ := mem_map.mp hplace
    exact hname rest (hrest ▸ hmem)
  · rintro place hplace _ hmem rfl
    rw [hfirst' place hplace] at hmem
    rcases mem_append.mp hmem with hmem | hmem
    · obtain ⟨rest, hrest, hcons⟩ := mem_map.mp hmem
      exact hnil ((cons.inj hcons).2 ▸ hrest)
    · exact hname [] hmem

lemma head_of_mem_sourcesBelow {place : Place} :
    {es : List (String × Entry)} → place ∈ sourcesBelow es →
    ∃ name ∈ es.map fst, ∃ rest, place = name :: rest
  | [], h => by simp [sourcesBelow] at h
  | (name, e) :: es, h => by
    simp only [sourcesBelow, mem_append] at h
    rcases h with (h | h) | h
    · split_ifs at h
      · exact ⟨name, mem_cons_self, [], by simpa using h⟩
      · simp at h
    · obtain ⟨rest, -, rfl⟩ := mem_map.mp h
      exact ⟨name, mem_cons_self, rest, rfl⟩
    · obtain ⟨n, hn, rest, rfl⟩ := head_of_mem_sourcesBelow h
      exact ⟨n, mem_cons_of_mem _ hn, rest, rfl⟩

lemma nil_notMem_sourcesIn : [] ∉ sourcesIn e := by
  intro h
  cases e with
  | dir es =>
    obtain ⟨name, -, rest, hnil⟩ := head_of_mem_sourcesBelow h
    cases hnil
  | _ => simp [sourcesIn] at h

mutual

lemma nodup_sourcesBelow : (es : List (String × Entry)) → (es.map fst).Nodup → wellFormedBelow es →
    (sourcesBelow es).Nodup
  | [], _, _ => by simp [sourcesBelow]
  | (name, e) :: es, hnames, hes => by
    simp only [wellFormedBelow] at hes
    obtain ⟨hname, hrest⟩ := nodup_cons.mp hnames
    refine nodup_level (by split_ifs <;> simp) (nodup_sourcesIn e hes.2.1) nil_notMem_sourcesIn
      (nodup_sourcesBelow es hrest hes.2.2) fun rest hmem => ?_
    obtain ⟨n, hn, rest', hcons⟩ := head_of_mem_sourcesBelow hmem
    exact hname ((cons.inj hcons).1 ▸ hn)

lemma nodup_sourcesIn : (e : Entry) → e.WellFormed → (sourcesIn e).Nodup
  | .dir es, he => by
    simp only [Entry.WellFormed] at he
    exact nodup_sourcesBelow es he.1 he.2
  | .file _ _, _ => by simp [sourcesIn]
  | .link _, _ => by simp [sourcesIn]

end

mutual

lemma isName_of_mem_sourcesBelow {place : Place} :
    (es : List (String × Entry)) → wellFormedBelow es →
    place ∈ sourcesBelow es → ∀ w ∈ place, Path.IsName w
  | [], _, h => by simp [sourcesBelow] at h
  | (name, e) :: es, hes, h => by
    simp only [wellFormedBelow] at hes
    simp only [sourcesBelow, mem_append] at h
    rcases h with (h | h) | h
    · split_ifs at h
      · simpa [mem_singleton.mp h] using hes.1
      · simp at h
    · obtain ⟨rest, hrest, rfl⟩ := mem_map.mp h
      exact forall_mem_cons.mpr ⟨hes.1, isName_of_mem_sourcesIn e hes.2.1 hrest⟩
    · exact isName_of_mem_sourcesBelow es hes.2.2 h

lemma isName_of_mem_sourcesIn {place : Place} : (e : Entry) → e.WellFormed → place ∈ sourcesIn e →
    ∀ w ∈ place, Path.IsName w
  | .dir es, he, h => by
    simp only [Entry.WellFormed] at he
    exact isName_of_mem_sourcesBelow es he.2 h
  | .file _ _, _, h => by simp [sourcesIn] at h
  | .link _, _, h => by simp [sourcesIn] at h

end

namespace Tree

variable (t : Tree) (skip : List String)

mutual

/-- What is found without what is skipped is found by the whole search. -/
lemma sublist_prunedBelow : (here : Place) → (es : List (String × Entry)) →
    (t.prunedBelow skip here es).Sublist (sourcesBelow es)
  | _, [] => .slnil
  | here, (name, e) :: es => by
    have hin := (sublist_prunedIn (here ++ [name]) e).map (name :: ·)
    refine (Sublist.append ?_ ?_).append (sublist_prunedBelow here es)
    · by_cases hsource : isSourceName name <;> by_cases hdir :
        t.leadsToDir (here ++ [name]) e <;> simp [hsource, hdir]
    · split_ifs
      · exact nil_sublist _
      · exact hin

lemma sublist_prunedIn : (here : Place) → (e : Entry) →
    (t.prunedIn skip here e).Sublist (sourcesIn e)
  | here, .dir es => sublist_prunedBelow here es
  | _, .file _ _ => .slnil
  | _, .link _ => .slnil

end

variable {t skip}

/-- A file that is found lies below the directory, under names of paths. -/
lemma exists_place_of_mem_prunedSources (ht : t.WellFormed) {file : Path}
    (h : file ∈ t.prunedSources skip p) :
    ∃ place, file = below p place ∧ ∀ w ∈ place, Path.IsName w := by
  unfold prunedSources at h
  split at h
  · rename_i here es hfind
    have hes := ht.find hfind
    simp only [Entry.WellFormed] at hes
    obtain ⟨place, hplace, rfl⟩ := mem_map.mp ((mergeSort_perm _ _).mem_iff.mp h)
    exact ⟨place, rfl, isName_of_mem_sourcesBelow es hes.2
      ((sublist_prunedBelow t skip here es).subset hplace)⟩
  · simp at h

lemma nodup_prunedSources (ht : t.WellFormed) (p : Path) : (t.prunedSources skip p).Nodup := by
  unfold prunedSources
  split
  · rename_i here es hfind
    have hes := ht.find hfind
    simp only [Entry.WellFormed] at hes
    refine (mergeSort_perm _ _).nodup_iff.mpr ?_
    refine ((nodup_sourcesBelow es hes.1 hes.2).sublist (sublist_prunedBelow t skip here es)).map
      fun a b hab => ?_
    exact append_cancel_left (congrArg Path.parts hab)
  · exact nodup_nil

end Tree

/-! ### Paths of what is found -/

lemma relativeTo?_below (place : Place) : (below p place).relativeTo? p = some ⟨"", place⟩ := by
  simp [Path.relativeTo?, below]

lemma child_text_below {place : Place} (h : ∀ w ∈ place, Path.IsName w) :
    p.child (⟨"", place⟩ : Path).text = below p place := by
  rw [Path.child, Path.ofString_text rfl h]
  simp [Path.join, Path.isAbsolute, below]

end CodeAtlas.Files
