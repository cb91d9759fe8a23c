import CodeAtlas.Table
import Mathlib.Data.List.Induction
import Mathlib.Data.List.Nodup
import Mathlib.Data.List.Forall2

/-!
# Laws of tables

A table numbers texts by first arrival, and a number denotes its text ever after. A list with a
dictionary does the same (`Ledger.addAll_eq_table`). Groups under keys are described at once for a
whole run of additions (`Keyed.group_eq`).
-/

namespace CodeAtlas

open List

variable {t u v : Table} {i j : Nat} {s : String} {ss : List String}

/-! ### Lists that agree member by member -/

lemma map_eq_map_of_forall₂ {α β γ : Type} {R : α → β → Prop} {f : α → γ} {g : β → γ}
    (h : ∀ {a b}, R a b → f a = g b) {as : List α} {bs : List β} (has : Forall₂ R as bs) :
    as.map f = bs.map g := by
  rw [← forall₂_eq_eq_eq, forall₂_map_left_iff, forall₂_map_right_iff]
  exact has.imp fun _ _ => h

/-- What holds of one list member by member holds of the other. -/
lemma forall_mem_iff_of_forall₂ {α β : Type} {R : α → β → Prop} {p : α → Prop} {q : β → Prop}
    {as : List α} {bs : List β} (h : Forall₂ R as bs) (hR : ∀ a b, R a b → (p a ↔ q b)) :
    (∀ a ∈ as, p a) ↔ ∀ b ∈ bs, q b := by
  induction h with
  | nil => simp
  | cons hab _ ih => rw [forall_mem_cons, forall_mem_cons, hR _ _ hab, ih]

lemma exists_of_forall₂ {α β : Type} {R : α → β → Prop} {as : List α} {bs : List β}
    (has : Forall₂ R as bs) {a : α} (ha : a ∈ as) : ∃ b, R a b := by
  induction has with
  | nil => simp at ha
  | cons hab _ ih =>
    rcases mem_cons.mp ha with rfl | ha
    · exact ⟨_, hab⟩
    · exact ih ha

lemma forall₂_imp_of_mem {α β : Type} {R S : α → β → Prop} {as : List α} {bs : List β}
    (has : Forall₂ R as bs) (h : ∀ b ∈ bs, ∀ a, R a b → S a b) : Forall₂ S as bs := by
  induction has with
  | nil => exact .nil
  | cons hab _ ih =>
    exact .cons (h _ mem_cons_self _ hab) (ih fun b hb => h b (mem_cons_of_mem _ hb))

/-- Relations that hold along lists compose. -/
lemma forall₂_comp {α β γ : Type} {R : α → β → Prop} {S : β → γ → Prop} {as : List α} {bs : List β}
    {cs : List γ} (h : Forall₂ R as bs) (h' : Forall₂ S bs cs) :
    Forall₂ (fun a c => ∃ b, R a b ∧ S b c) as cs := by
  induction h generalizing cs with
  | nil =>
    cases h'
    exact .nil
  | cons hab _ ih =>
    cases h' with
    | cons hbc h' => exact .cons ⟨_, hab, hbc⟩ (ih h')

/-- All members of a list have a property, or there is a first one without it. -/
lemma forall_or_exists_first {α : Type} (P : α → Prop) (xs : List α) :
    (∀ x ∈ xs, P x) ∨
      ∃ before x after, xs = before ++ x :: after ∧ (∀ y ∈ before, P y) ∧ ¬ P x := by
  induction xs with
  | nil => exact .inl (by simp)
  | cons x xs ih =>
    by_cases hx : P x
    · rcases ih with hall | ⟨before, y, after, rfl, hbefore, hy⟩
      · exact .inl (forall_mem_cons.mpr ⟨hx, hall⟩)
      · exact .inr ⟨x :: before, y, after, rfl, forall_mem_cons.mpr ⟨hx, hbefore⟩, hy⟩
    · exact .inr ⟨[], x, xs, rfl, by simp, hx⟩

/-! ### Reading a list member by member -/

lemma mapM_eq_some_iff {α β : Type} {f : α → Option β} {xs : List α} {ys : List β} :
    xs.mapM f = some ys ↔ Forall₂ (fun x y => f x = some y) xs ys := by
  induction xs generalizing ys with
  | nil => simp [eq_comm]
  | cons x xs ih =>
    simp only [mapM_cons, Option.bind_eq_bind, Option.bind_eq_some_iff, Option.pure_def,
      Option.some.injEq, ih, forall₂_cons_left_iff, eq_comm (b := ys), exists_and_left]

lemma mapM_eq_some_map {α β : Type} {f : α → Option β} {g : α → β} {xs : List α}
    (h : ∀ x ∈ xs, f x = some (g x)) : xs.mapM f = some (xs.map g) :=
  mapM_eq_some_iff.mpr (forall₂_map_right_iff.mpr (forall₂_same.mpr h))

/-- What succeeds in two steps succeeds in both. -/
lemma exists_of_ok_bind {ε α β : Type} {x : Except ε α} {f : α → Except ε β} {y : β}
    (h : (x >>= f) = .ok y) : ∃ a, x = .ok a ∧ f a = .ok y := by
  cases x with
  | error e => cases h
  | ok a => exact ⟨a, rfl, h⟩

lemma ok_of_toOption {ε α : Type} {x : Except ε α} {a : α} (h : x.toOption = some a) :
    x = .ok a := by
  cases x with
  | error e => cases h
  | ok b => exact congrArg Except.ok (Option.some.inj h)

lemma forall₂_of_mapM {ε α β : Type} {f : α → Except ε β} {xs : List α} {ys : List β}
    (h : xs.mapM f = .ok ys) : Forall₂ (fun y x => f x = .ok y) ys xs := by
  induction xs generalizing ys with
  | nil =>
    cases h
    exact .nil
  | cons x xs ih =>
    rw [mapM_cons] at h
    obtain ⟨y, hx, h⟩ := exists_of_ok_bind h
    obtain ⟨ys', hxs, h⟩ := exists_of_ok_bind h
    cases h
    exact .cons hx (ih hxs)

lemma exists_mapM {ε α β : Type} {f : α → Except ε β} {xs : List α}
    (h : ∀ x ∈ xs, ∃ y, f x = .ok y) : ∃ ys, xs.mapM f = .ok ys := by
  induction xs with
  | nil => exact ⟨[], rfl⟩
  | cons x xs ih =>
    obtain ⟨y, hy⟩ := h x mem_cons_self
    obtain ⟨ys, hys⟩ := ih fun z hz => h z (mem_cons_of_mem _ hz)
    exact ⟨y :: ys, by rw [mapM_cons, hy, hys]; rfl⟩

lemma forall₂_of_map_eq {α β : Type} {f : α → Option β} {as : List α} {bs : List β}
    (h : as.map f = bs.map some) : Forall₂ (fun a b => f a = some b) as bs := by
  have heq : Forall₂ (· = ·) (as.map f) (bs.map some) := by rw [forall₂_eq_eq_eq, h]
  exact forall₂_map_left_iff.mp (forall₂_map_right_iff.mp heq)

/-! ### Lists without repetitions -/

section

variable {α : Type} [DecidableEq α]

lemma eraseDups_concat (xs : List α) (x : α) :
    (xs ++ [x]).eraseDups = if x ∈ xs then xs.eraseDups else xs.eraseDups ++ [x] := by
  rw [eraseDups_append]
  by_cases h : x ∈ xs
  · simp [List.removeAll, h]
  · simp [List.removeAll, h, eraseDups_cons]

lemma nodup_eraseDups (xs : List α) : xs.eraseDups.Nodup := by
  induction xs using List.reverseRecOn with
  | nil => simp
  | append_singleton xs x ih =>
    rw [eraseDups_concat]
    by_cases h : x ∈ xs
    · rw [if_pos h]
      exact ih
    · rw [if_neg h, nodup_append_comm]
      exact nodup_cons.mpr ⟨by simpa using h, ih⟩

lemma eraseDups_of_nodup {xs : List α} (h : xs.Nodup) : xs.eraseDups = xs := by
  induction xs using List.reverseRecOn with
  | nil => rfl
  | append_singleton xs x ih =>
    obtain ⟨hxs, -, hne⟩ := nodup_append.mp h
    rw [eraseDups_concat, if_neg fun hx => hne x hx x mem_cons_self rfl, ih hxs]

lemma eraseDups_append_congr {xs ys : List α} (h : xs.eraseDups = ys.eraseDups) (zs : List α) :
    (xs ++ zs).eraseDups = (ys ++ zs).eraseDups := by
  have hmem : ∀ a, a ∈ xs ↔ a ∈ ys := fun a => by
    rw [← mem_eraseDups, h, mem_eraseDups]
  simp only [eraseDups_append, h, List.removeAll, elem_eq_mem, hmem]

end

lemma eraseDups_append_of_forall_eq {α : Type} [DecidableEq α] {a : α} (zs : List α) :
    {ps : List α} → (∀ b ∈ ps, b = a) →
      (zs ++ ps).eraseDups = (zs ++ if ps = [] then [] else [a]).eraseDups
  | [], _ => by simp
  | b :: ps, h => by
    obtain rfl : b = a := h b mem_cons_self
    have hrest := eraseDups_append_of_forall_eq (zs ++ [b]) fun c hc => h c (mem_cons_of_mem _ hc)
    rw [append_cons, hrest]
    by_cases hps : ps = []
    · simp [hps]
    · simp only [hps, reduceCtorEq, ↓reduceIte]
      rw [eraseDups_concat, if_pos (by simp)]

lemma eraseDups_append_part {α : Type} [DecidableEq α] {ps rest rest' : List α} {a : α} {q : Bool}
    (hps : ∀ b ∈ ps, b = a) (hq : ps = [] ↔ q = false)
    (hrest : ∀ zs : List α, (zs ++ rest).eraseDups = (zs ++ rest').eraseDups) (zs : List α) :
    (zs ++ (ps ++ rest)).eraseDups = (zs ++ ((if q then [a] else []) ++ rest')).eraseDups := by
  have hpart : (zs ++ ps).eraseDups = (zs ++ if q then [a] else []).eraseDups := by
    rw [eraseDups_append_of_forall_eq zs hps]
    cases q <;> simp_all
  rw [← append_assoc, hrest, ← append_assoc]
  exact eraseDups_append_congr hpart rest'

namespace Table

/-! ### Growth -/

/-- `u` extends `t`: the texts of `t` have the same numbers in `u`. -/
def Extends (t u : Table) : Prop := t.items <+: u.items

lemma Extends.refl (t : Table) : t.Extends t := prefix_rfl

lemma Extends.trans (h1 : t.Extends u) (h2 : u.Extends v) : t.Extends v :=
  List.IsPrefix.trans h1 h2

lemma Extends.get? (h : t.Extends u) (hi : t.get? i = some s) : u.get? i = some s := by
  obtain ⟨more, hmore⟩ := h
  unfold Table.get? at hi ⊢
  rw [← hmore, List.getElem?_append_left (List.getElem?_eq_some_iff.mp hi).1]
  exact hi

/-! ### Adding a text -/

lemma add_of_mem (h : s ∈ t.items) : (t.add s).1 = t := by
  unfold add find?
  rcases hf : t.items.idxOf? s with _ | i
  · exact absurd h (idxOf?_eq_none_iff.mp hf)
  · rfl

lemma add_of_notMem (h : s ∉ t.items) : t.add s = (⟨t.items ++ [s]⟩, t.size) := by
  unfold add find?
  rw [idxOf?_eq_none_iff.mpr h]

/-- The number given out denotes the text. -/
lemma get?_add (t : Table) (s : String) : (t.add s).1.get? (t.add s).2 = some s := by
  unfold add find?
  rcases hf : t.items.idxOf? s with _ | i
  · simp [get?, size]
  · obtain ⟨hi, hs, -⟩ := idxOf?_eq_some_iff.mp hf
    simp [get?, hi, hs]

lemma extends_add (t : Table) (s : String) : t.Extends (t.add s).1 := by
  by_cases h : s ∈ t.items
  · rw [add_of_mem h]
    exact Extends.refl t
  · rw [add_of_notMem h]
    exact prefix_append _ _

lemma add_snd : (t.add s).2 = (t.add s).1.items.idxOf s := by
  unfold add find?
  rcases hf : t.items.idxOf? s with _ | i
  · have hs : s ∉ t.items := idxOf?_eq_none_iff.mp hf
    simp [idxOf_append_of_notMem hs, size]
  · simp [idxOf_eq_getD_idxOf?, hf]

lemma Extends.idxOf (h : t.Extends u) (hs : s ∈ t.items) : u.items.idxOf s = t.items.idxOf s := by
  obtain ⟨more, hmore⟩ := h
  rw [← hmore, idxOf_append_of_mem hs]

lemma lt_size_add (h : i < (t.add s).1.size) : i < t.size ∨ i = (t.add s).2 := by
  by_cases hs : s ∈ t.items
  · rw [add_of_mem hs] at h
    exact Or.inl h
  · rw [add_of_notMem hs] at h ⊢
    simp only [size, length_append, length_singleton] at h ⊢
    omega

/-! ### Adding texts -/

/-- The texts with numbers, if all of them are there. -/
def getAll? (t : Table) (is : List Nat) : Option (List String) := is.mapM t.get?

@[simp] lemma getAll?_nil : t.getAll? [] = some [] := rfl

lemma getAll?_cons_eq_some {is : List Nat} (hi : t.get? i = some s) (his : t.getAll? is = some ss) :
    t.getAll? (i :: is) = some (s :: ss) := by
  unfold getAll? at his ⊢
  simp [mapM_cons, hi, his]

lemma Extends.getAll? (h : t.Extends u) {is : List Nat} (his : t.getAll? is = some ss) :
    u.getAll? is = some ss :=
  mapM_eq_some_iff.mpr ((mapM_eq_some_iff.mp his).imp fun _ _ => h.get?)

lemma extends_addAll : (ss : List String) → ∀ t : Table, t.Extends (t.addAll ss).1
  | [], t => Extends.refl t
  | s :: ss, t => (extends_add t s).trans (extends_addAll ss (t.add s).1)

lemma getAll?_addAll : (ss : List String) → ∀ t :
    Table, (t.addAll ss).1.getAll? (t.addAll ss).2 = some ss
  | [], _ => rfl
  | s :: ss, t =>
    getAll?_cons_eq_some ((extends_addAll ss (t.add s).1).get? (get?_add t s))
      (getAll?_addAll ss (t.add s).1)

lemma mem_items_add : s ∈ (t.add s).1.items := mem_of_getElem? (get?_add t s)

lemma mem_items_addAll (h : s ∈ ss) : s ∈ (t.addAll ss).1.items := by
  induction ss generalizing t with
  | nil => cases h
  | cons r ss ih =>
    rcases mem_cons.mp h with rfl | h
    · exact (extends_addAll ss (t.add s).1).subset mem_items_add
    · exact ih h

lemma lt_size_addAll : (ss : List String) → ∀ {t : Table} {i : Nat},
    i < (t.addAll ss).1.size → i < t.size ∨ i ∈ (t.addAll ss).2
  | [], _, _, h => Or.inl h
  | s :: ss, t, i, h => by
    rcases lt_size_addAll ss (t := (t.add s).1) h with h | h
    · rcases lt_size_add h with h | h
      · exact Or.inl h
      · exact Or.inr (by subst h; exact mem_cons_self)
    · exact Or.inr (mem_cons_of_mem _ h)

lemma addAll_fst : (ss : List String) → ∀ t :
    Table, (t.addAll ss).1 = ss.foldl (fun t s => (t.add s).1) t
  | [], _ => rfl
  | s :: ss, t => addAll_fst ss (t.add s).1

lemma addAll_append_fst (xs ys : List String) :
    (t.addAll (xs ++ ys)).1 = ((t.addAll xs).1.addAll ys).1 := by
  simp only [addAll_fst, foldl_append]

lemma addAll_append_snd (xs ys : List String) (t : Table) :
    (t.addAll (xs ++ ys)).2 = (t.addAll xs).2 ++ ((t.addAll xs).1.addAll ys).2 := by
  induction xs generalizing t with
  | nil => rfl
  | cons x xs ih => exact congrArg ((t.add x).2 :: ·) (ih (t.add x).1)

/-- The items of a table that took texts one after the other, from an empty start: every text once,
in order of first arrival. -/
lemma items_foldl_add : (ss.foldl (fun t s => (t.add s).1) ({} : Table)).items = ss.eraseDups := by
  induction ss using List.reverseRecOn with
  | nil => rfl
  | append_singleton ss s ih =>
    rw [foldl_concat, eraseDups_concat]
    have hmem : s ∈ (ss.foldl (fun t s => (t.add s).1) ({} : Table)).items ↔ s ∈ ss := by
      rw [ih]; exact mem_eraseDups
    by_cases h : s ∈ ss
    · rw [add_of_mem (hmem.mpr h), ih, if_pos h]
    · rw [add_of_notMem (fun hs => h (hmem.mp hs)), if_neg h]
      simp [ih]

/-! ### Adding pairs, and texts that may be missing -/

/-- Adds the texts of pairs one after the other and gives their numbers. -/
def addPairs (t : Table) : List (String × String) → Table × List (Nat × Nat)
  | [] => (t, [])
  | (p, q) :: rest =>
    let (t, i) := t.add p
    let (t, j) := t.add q
    let (t, is) := t.addPairs rest
    (t, (i, j) :: is)

/-- Adds a text that may be missing. -/
def add? (t : Table) : Option String → Table × Option Nat
  | none => (t, none)
  | some s => ((t.add s).1, some (t.add s).2)

def pairTexts (ps : List (String × String)) : List String := ps.flatMap fun p => [p.1, p.2]

lemma addPairs_fst : (ps : List (String × String)) → ∀ t :
    Table, (t.addPairs ps).1 = (t.addAll (pairTexts ps)).1
  | [], _ => rfl
  | (p, q) :: rest, t => addPairs_fst rest ((t.add p).1.add q).1

lemma add?_fst (s : Option String) : (t.add? s).1 = (t.addAll s.toList).1 := by
  rcases s with _ | s <;> rfl

lemma addPairs_snd : (ps : List (String × String)) → ∀ t : Table,
    (t.addPairs ps).2.flatMap (fun ij => [ij.1, ij.2]) = (t.addAll (pairTexts ps)).2
  | [], _ => rfl
  | (p, q) :: rest, t =>
    congrArg ((t.add p).2 :: ((t.add p).1.add q).2 :: ·) (addPairs_snd rest ((t.add p).1.add q).1)

lemma add?_snd (s : Option String) : (t.add? s).2.toList = (t.addAll s.toList).2 := by
  rcases s with _ | s <;> rfl

/-- The pairs of texts with numbers, if all of them are there. -/
def getPairs? (t : Table) (is : List (Nat × Nat)) : Option (List (String × String)) :=
  is.mapM fun i => (t.get? i.1).bind fun p => (t.get? i.2).map (p, ·)

/-- The text with a number that may be missing; the outer option says whether it is there. -/
def getOption? (t : Table) : Option Nat → Option (Option String)
  | none => some none
  | some i => (t.get? i).map some

lemma getPairs?_cons_eq_some {is : List (Nat × Nat)} {p q : String} {ps : List (String × String)}
    (hi : t.get? i = some p) (hj : t.get? j = some q) (his : t.getPairs? is = some ps) :
    t.getPairs? ((i, j) :: is) = some ((p, q) :: ps) := by
  unfold getPairs? at his ⊢
  simp [mapM_cons, hi, hj, his]

lemma Extends.getPairs? (h : t.Extends u) {is : List (Nat × Nat)} {ps : List (String × String)}
    (his : t.getPairs? is = some ps) : u.getPairs? is = some ps := by
  refine mapM_eq_some_iff.mpr ((mapM_eq_some_iff.mp his).imp fun i pq hi => ?_)
  obtain ⟨p, hp, hi⟩ := Option.bind_eq_some_iff.mp hi
  obtain ⟨q, hq, rfl⟩ := Option.map_eq_some_iff.mp hi
  rw [h.get? hp, h.get? hq, Option.bind_some, Option.map_some]

lemma Extends.getOption? (h : t.Extends u) {i : Option Nat} {s : Option String}
    (hi : t.getOption? i = some s) : u.getOption? i = some s := by
  rcases i with _ | i
  · exact hi
  · obtain ⟨s, hs, rfl⟩ := Option.map_eq_some_iff.mp hi
    simp [Table.getOption?, h.get? hs]

lemma extends_addPairs (ps : List (String × String)) : t.Extends (t.addPairs ps).1 := by
  rw [addPairs_fst]
  exact extends_addAll _ t

lemma extends_add? (t : Table) (s : Option String) : t.Extends (t.add? s).1 := by
  rw [add?_fst]
  exact extends_addAll _ t

lemma getPairs?_addPairs : (ps : List (String × String)) → ∀ t : Table,
    (t.addPairs ps).1.getPairs? (t.addPairs ps).2 = some ps
  | [], _ => rfl
  | (p, q) :: rest, t => by
    have hp : ((t.add p).1.add q).1.get? (t.add p).2 = some p :=
      (extends_add (t.add p).1 q).get? (get?_add t p)
    have hq : ((t.add p).1.add q).1.get? ((t.add p).1.add q).2 = some q := get?_add (t.add p).1 q
    exact getPairs?_cons_eq_some ((extends_addPairs rest).get? hp)
      ((extends_addPairs rest).get? hq) (getPairs?_addPairs rest _)

lemma getOption?_add? (t : Table) (s : Option String) :
    (t.add? s).1.getOption? (t.add? s).2 = some s := by
  rcases s with _ | s
  · rfl
  · simp [add?, getOption?, get?_add]

/-! ### No repetitions -/

lemma nodup_add (h : t.items.Nodup) : (t.add s).1.items.Nodup := by
  by_cases hs : s ∈ t.items
  · rw [add_of_mem hs]
    exact h
  · rw [add_of_notMem hs, nodup_append_comm]
    exact nodup_cons.mpr ⟨hs, h⟩

lemma nodup_addAll : (ss : List String) → ∀ {t : Table}, t.items.Nodup → (t.addAll ss).1.items.Nodup
  | [], _, h => h
  | _ :: ss, _, h => nodup_addAll ss (nodup_add h)

/-! ### Texts and their numbers -/

/-- Texts and numbers belong together: no text stands twice, and finding a text undoes reading its
number. -/
structure Numbers (t : Table) : Prop where
  nodup : t.items.Nodup
  get?_iff : ∀ i s, t.get? i = some s ↔ t.find? s = some i

lemma numbers_of_nodup (h : t.items.Nodup) : t.Numbers := by
  refine ⟨h, fun i s => ?_⟩
  unfold get? find?
  rw [idxOf?_eq_some_iff]
  constructor
  · intro hi
    obtain ⟨hlt, hs⟩ := List.getElem?_eq_some_iff.mp hi
    refine ⟨hlt, hs, fun j hj heq => ?_⟩
    have hji : j = i := (Nodup.getElem_inj_iff h).mp (heq.trans hs.symm)
    omega
  · rintro ⟨hlt, hs, -⟩
    exact List.getElem?_eq_some_iff.mpr ⟨hlt, hs⟩

lemma Numbers.eq_iff (h : t.Numbers) {x y : String} (hi : t.get? i = some x)
    (hj : t.get? j = some y) : i = j ↔ x = y := by
  constructor
  · rintro rfl
    exact Option.some.inj (hi.symm.trans hj)
  · rintro rfl
    exact Option.some.inj (((h.get?_iff i x).mp hi).symm.trans ((h.get?_iff j x).mp hj))

/-- A table grows by texts that are new. -/
structure Grows (t u : Table) : Prop where
  old : t.Extends u
  nodup : t.items.Nodup → u.items.Nodup

lemma Grows.refl (t : Table) : t.Grows t := ⟨.refl t, id⟩

lemma Grows.trans (h1 : t.Grows u) (h2 : u.Grows v) : t.Grows v :=
  ⟨h1.old.trans h2.old, fun h => h2.nodup (h1.nodup h)⟩

lemma Grows.size_le (h : t.Grows u) : t.size ≤ u.size := h.old.length_le

lemma grows_add : t.Grows (t.add s).1 := ⟨extends_add t s, fun h => nodup_add h⟩

lemma grows_addAll : t.Grows (t.addAll ss).1 :=
  ⟨extends_addAll ss t, fun h => nodup_addAll ss h⟩

lemma lt_size_of_get? (h : t.get? i = some s) : i < t.size :=
  (List.getElem?_eq_some_iff.mp h).1

lemma lt_size_of_getAll? {is : List Nat} (h : t.getAll? is = some ss) (i : Nat) (hi : i ∈ is) :
    i < t.size := by
  obtain ⟨s, hs⟩ := exists_of_forall₂ (mapM_eq_some_iff.mp h) hi
  exact lt_size_of_get? hs

lemma lt_size_of_getOption? {is : Option Nat} {s : Option String} (h : t.getOption? is = some s)
    (i : Nat) (hi : i ∈ is.toList) : i < t.size := by
  rw [Option.mem_toList.mp hi] at h
  obtain ⟨s, hs, -⟩ := Option.map_eq_some_iff.mp h
  exact lt_size_of_get? hs

lemma add_lt (t : Table) (s : String) : (t.add s).2 < (t.add s).1.size :=
  lt_size_of_get? (get?_add t s)

lemma addAll_lt : ∀ i ∈ (t.addAll ss).2, i < (t.addAll ss).1.size :=
  lt_size_of_getAll? (getAll?_addAll ss t)

end Table

namespace Keyed

variable {κ α β : Type} [DecidableEq κ] {key : κ} {a : α} {pairs : List (κ × α)}

/-! ### Entries under keys -/

def keys (l : Keyed κ α) : List κ := l.map Prod.fst

lemma get?_put (key k : κ) : (l : Keyed κ α) → get? k (put key a l) = if k = key then some a
    else get? k l
  | [] => by
    simp only [put, get?]
    by_cases h : key = k
    · simp [h]
    · simp [h, Ne.symm h]
  | (k', b) :: rest => by
    simp only [put]
    by_cases hk : k' = key
    · subst hk
      simp only [↓reduceIte, get?]
      by_cases h : k' = k
      · simp [h]
      · simp [h, Ne.symm h]
    · simp only [hk, ↓reduceIte, get?]
      by_cases h : k' = k
      · have hne : k ≠ key := h ▸ hk
        simp [h, hne]
      · simp [h, get?_put key k rest]

lemma get?_filter_ne (key k : κ) : (l : Keyed κ α) →
    get? k (l.filter (·.1 ≠ key)) = if k = key then none else get? k l
  | [] => by simp [get?]
  | (k', b) :: rest => by
    have ih := get?_filter_ne key k rest
    by_cases hk : k' = key
    · rw [filter_cons_of_neg (by simpa using hk), ih]
      by_cases h : k = key
      · rw [if_pos h, if_pos h]
      · have hne : k' ≠ k := fun heq => h (heq.symm.trans hk)
        rw [if_neg h, if_neg h, get?, if_neg hne]
    · rw [filter_cons_of_pos (by simpa using hk), get?, get?, ih]
      by_cases h : k' = k
      · rw [if_pos h, if_pos h, if_neg (h ▸ hk)]
      · rw [if_neg h, if_neg h]

lemma get?_eq_none_iff (k : κ) : (l : Keyed κ α) → (get? k l = none ↔ k ∉ l.keys)
  | [] => by simp [get?, keys]
  | (k', b) :: rest => by
    have ih := get?_eq_none_iff k rest
    simp only [keys] at ih
    by_cases h : k' = k
    · simp [get?, keys, h]
    · simp [get?, keys, h, Ne.symm h, ih]

lemma put_of_notMem {key : κ} : {l : Keyed κ α} → key ∉ l.keys → put key a l = l ++ [(key, a)]
  | [], _ => rfl
  | (k, b) :: rest, h => by
    simp only [keys, map_cons, mem_cons, not_or] at h
    obtain ⟨hk, hrest⟩ := h
    simp only [put, if_neg (Ne.symm hk), cons_append, put_of_notMem hrest]

lemma keys_put : (l : Keyed κ α) →
    (put key a l).keys = if key ∈ l.keys then l.keys else l.keys ++ [key]
  | [] => by simp [put, keys]
  | (k, b) :: rest => by
    have ih := keys_put rest
    simp only [keys] at ih
    by_cases hk : k = key
    · simp [put, keys, hk]
    · by_cases hmem : key ∈ rest.map Prod.fst
      · simp [put, keys, hk, ih, hmem]
      · simp [put, keys, hk, ih, hmem, Ne.symm hk]

lemma nodup_keys_put {l : Keyed κ α} (h : l.keys.Nodup) : (put key a l).keys.Nodup := by
  rw [keys_put]
  split_ifs with hmem
  · exact h
  · rw [nodup_append_comm]
    exact nodup_cons.mpr ⟨hmem, h⟩

lemma mem_of_get? {key : κ} {a : α} : {l : Keyed κ α} → get? key l = some a → (key, a) ∈ l
  | [], h => nomatch h
  | (k, b) :: rest, h => by
    by_cases hk : k = key
    · simp only [get?, hk, if_true, Option.some.injEq] at h
      simp [hk, h]
    · simp only [get?, hk, if_false] at h
      exact mem_cons_of_mem _ (mem_of_get? h)

lemma mem_of_mem_put {key : κ} {a : α} {e : κ × α} :
    {l : Keyed κ α} → e ∈ put key a l → e = (key, a) ∨ e ∈ l
  | [], h => .inl (by simpa [put] using h)
  | (k, b) :: rest, h => by
    by_cases hk : k = key
    · simp only [put, hk, if_true, mem_cons] at h
      exact h.imp_right (mem_cons_of_mem _)
    · simp only [put, hk, if_false, mem_cons] at h
      rcases h with rfl | h
      · exact .inr mem_cons_self
      · exact (mem_of_mem_put h).imp_right (mem_cons_of_mem _)

/-! ### Groups under keys -/

/-- The groups of pairs that come one after the other. -/
def group (pairs : List (κ × α)) : Keyed κ (List α) :=
  pairs.foldl (fun g p => addTo p.1 p.2 g) []

lemma group_concat (p : κ × α) : group (pairs ++ [p]) = addTo p.1 p.2 (group pairs) := by
  simp [group, foldl_append]

lemma addTo_map (g : κ → List α) : {ks : List κ} → ks.Nodup →
    addTo key a (ks.map fun k => (k, g k)) =
      if key ∈ ks then ks.map fun k => (k, if k = key then g k ++ [a] else g k)
      else ks.map (fun k => (k, g k)) ++ [(key, [a])]
  | [], _ => rfl
  | k :: ks, h => by
    obtain ⟨hk, hks⟩ := nodup_cons.mp h
    simp only [map_cons, addTo]
    by_cases hkey : k = key
    · subst hkey
      have hrest : ∀ x ∈ ks, (x, g x) = (x, if x = k then g x ++ [a] else g x) := by
        intro x hx
        have hxk : x ≠ k := fun hxk => hk (hxk ▸ hx)
        rw [if_neg hxk]
      simp [map_congr_left hrest]
    · rw [if_neg hkey, addTo_map g hks]
      by_cases hmem : key ∈ ks
      · simp [hmem, hkey]
      · simp [hmem, Ne.symm hkey]

/-- The groups of pairs: one for each key, in order of first arrival, with what came under the key,
in order. -/
lemma group_eq : group pairs = (pairs.map Prod.fst).eraseDups.map fun k =>
      (k, (pairs.filter (·.1 = k)).map Prod.snd) := by
  induction pairs using List.reverseRecOn with
  | nil => rfl
  | append_singleton pairs p ih =>
    obtain ⟨key, a⟩ := p
    rw [group_concat, ih, addTo_map _ (nodup_eraseDups _), map_append, map_singleton,
      eraseDups_concat]
    by_cases h : key ∈ pairs.map Prod.fst
    · rw [if_pos (mem_eraseDups.mpr h), if_pos h]
      refine map_congr_left fun k _ => ?_
      by_cases hk : k = key
      · simp [hk]
      · simp [hk, Ne.symm hk]
    · rw [if_neg (fun h' => h (mem_eraseDups.mp h')), if_neg h, map_append]
      have hold : ∀ k ∈ (pairs.map Prod.fst).eraseDups,
          (k, (pairs.filter (·.1 = k)).map Prod.snd) =
            (k, ((pairs ++ [(key, a)]).filter (·.1 = k)).map Prod.snd) := by
        intro k hk
        have hne : key ≠ k := fun hkk => h (hkk ▸ mem_eraseDups.mp hk)
        simp [hne]
      have hnew : pairs.filter (·.1 = key) = [] := by
        rw [filter_eq_nil_iff]
        intro q hq hkey
        exact h (mem_map.mpr ⟨q, hq, by simpa using hkey⟩)
      rw [map_congr_left hold]
      simp [hnew]

lemma keys_group : (group pairs).keys = (pairs.map Prod.fst).eraseDups := by
  rw [group_eq, keys, map_map]
  exact map_id' _

lemma exists_mem_group {pairs : List (κ × α)} {k : κ} {a : α} (h : (k, a) ∈ pairs) :
    ∃ as, (k, as) ∈ group pairs ∧ a ∈ as := by
  refine ⟨(pairs.filter (·.1 = k)).map Prod.snd, ?_, ?_⟩
  · rw [group_eq]
    exact mem_map.mpr ⟨k, mem_eraseDups.mpr (mem_map.mpr ⟨_, h, rfl⟩), rfl⟩
  · exact mem_map.mpr ⟨(k, a), mem_filter.mpr ⟨h, by simp⟩, rfl⟩

lemma mem_group {pairs : List (κ × α)} {k : κ} {as : List α} (h : (k, as) ∈ group pairs) {a : α} :
    a ∈ as ↔ (k, a) ∈ pairs := by
  rw [group_eq] at h
  obtain ⟨k', -, hk'⟩ := mem_map.mp h
  obtain ⟨rfl, rfl⟩ := Prod.mk.inj hk'
  simp

end Keyed

/-! ### Lists with a dictionary -/

namespace Ledger

variable {l : Ledger}

def table (l : Ledger) : Table := ⟨l.items⟩

/-- The dictionary is the inverse of the list. -/
def Inverse (l : Ledger) : Prop := ∀ s i, l.numbers.get? s = some i ↔ l.table.get? i = some s

lemma Inverse.get?_eq (h : l.Inverse) (s : String) : l.numbers.get? s = l.table.find? s := by
  rcases hf : l.table.find? s with _ | i
  · have hs : s ∉ l.items := idxOf?_eq_none_iff.mp hf
    exact Option.eq_none_iff_forall_ne_some.mpr fun i hi => hs (mem_of_getElem? ((h s i).mp hi))
  · obtain ⟨hi, hs, -⟩ := idxOf?_eq_some_iff.mp hf
    exact (h s i).mpr (List.getElem?_eq_some_iff.mpr ⟨hi, hs⟩)

/-- A text gets its number in the table, and the two writes keep the dictionary inverse. -/
lemma Inverse.add (h : l.Inverse) (s : String) :
    (l.add s).1.Inverse ∧ ((l.add s).1.table, (l.add s).2) = l.table.add s := by
  unfold Ledger.add Table.add
  rw [h.get?_eq]
  rcases hs : l.table.find? s with _ | n
  · refine ⟨fun x i => ?_, rfl⟩
    have hnew : l.items[i]? ≠ some s := fun hi => idxOf?_eq_none_iff.mp hs (mem_of_getElem? hi)
    have hold := h x i
    simp only [Keyed.get?_put, Table.get?, table, getElem?_append, getElem?_singleton] at hold ⊢
    grind
  · exact ⟨h, rfl⟩

lemma Inverse.addAll (h : l.Inverse) (ss : List String) :
    (l.addAll ss).1.Inverse ∧ ((l.addAll ss).1.table, (l.addAll ss).2) = l.table.addAll ss := by
  induction ss generalizing l with
  | nil => exact ⟨h, rfl⟩
  | cons s ss ih =>
    obtain ⟨hadd, heq⟩ := h.add s
    obtain ⟨hall, hrest⟩ := ih hadd
    refine ⟨hall, ?_⟩
    rw [Table.addAll, ← heq]
    exact congrArg (fun r => (r.1, (l.add s).2 :: r.2)) hrest

/-- **A list with a dictionary numbers texts as a table does**, whatever is added to it, and the
dictionary is the inverse of the list. -/
theorem addAll_eq_table (ss : List String) : let r := ({} : Ledger).addAll ss
    (r.1.table, r.2) = ({} : Table).addAll ss ∧
      ∀ s i, r.1.numbers.get? s = some i ↔ r.1.items[i]? = some s := by
  have hempty : ({} : Ledger).Inverse := fun s i => by simp [Keyed.get?, Table.get?, table]
  obtain ⟨hinverse, heq⟩ := hempty.addAll ss
  exact ⟨heq, hinverse⟩

end Ledger

end CodeAtlas
