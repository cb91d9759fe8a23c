import CodeAtlas.Files.Change
import CodeAtlas.Proofs.Table
import Mathlib.Logic.Relation

/-!
# Look-ups step by step

A look-up takes one name after the other: it stays, goes up, enters a directory or follows a link
(`Goes`). `Reaches` is a run of such steps.
-/

namespace CodeAtlas.Files

open List Option Entry
open Keyed (get?)

variable {root root' : Entry} {gone : List Place} {k n : Nat} {here place : Place}
  {names rest : List String} {e : Entry} {name : String} {es es' : List (String × Entry)}
  {last : Bool} {r : Except Fault Target} {content : List UInt8}

namespace Entry

/-! ### Places -/

lemma exists_eq_dir {child : Entry} (h : get? name e.entries = some child) :
    ∃ es, e = .dir es := by
  cases e with
  | dir es => exact ⟨es, rfl⟩
  | file _ _ => simp [entries, get?] at h
  | link _ => simp [entries, get?] at h

lemma at?_append (e : Entry) (front rest : Place) :
    e.at? (front ++ rest) = (e.at? front).bind (·.at? rest) := by
  induction front generalizing e with
  | nil => rfl
  | cons name front ih =>
    simp only [cons_append, at?, bind_assoc]
    exact congrArg (Option.bind _) (funext fun e' => ih e')

lemma at?_concat (h : e.at? here = some (.dir es)) :
    e.at? (here ++ [name]) = get? name es := by
  rw [at?_append, h]
  simp [at?, entries]

/-- The directory of a place is there. -/
def HasParent (e : Entry) (place : Place) : Prop :=
  ∀ front name, place = front ++ [name] → ∃ es, e.at? front = some (.dir es)

lemma hasParent_concat (h : e.at? here = some (.dir es)) (name : String) :
    e.HasParent (here ++ [name]) := by
  intro front last heq
  obtain ⟨rfl, -⟩ := append_inj' heq rfl
  exact ⟨es, h⟩

lemma hasParent_of_at? {place : Place} (h : root.at? place = some e) : root.HasParent place := by
  rintro front name rfl
  rw [at?_append] at h
  obtain ⟨d, hd, hname⟩ := bind_eq_some_iff.mp h
  obtain ⟨child, hchild, -⟩ := bind_eq_some_iff.mp hname
  obtain ⟨es, rfl⟩ := exists_eq_dir hchild
  exact ⟨es, hd⟩

lemma exists_dir_dropLast (h : root.at? here = some (.dir es)) :
    ∃ es', root.at? here.dropLast = some (.dir es') := by
  rcases eq_nil_or_concat' here with rfl | ⟨front, last, rfl⟩
  · exact ⟨es, h⟩
  · rw [dropLast_concat]
    exact hasParent_of_at? h front last rfl

lemma exists_eq_dir_of_at? (h : root.at? here = some (.dir es)) : ∃ es', root = .dir es' := by
  cases here with
  | nil => exact ⟨es, Option.some.inj h⟩
  | cons name rest =>
    obtain ⟨child, hchild, -⟩ := bind_eq_some_iff.mp h
    exact exists_eq_dir hchild

/-- Two readings of a place find the same, up to what a directory holds. -/
inductive Alike : Option Entry → Option Entry → Prop
  | dir (es es' : List (String × Entry)) : Alike (some (.dir es)) (some (.dir es'))
  | same (e : Option Entry) : Alike e e

lemma Alike.eq_of_link {target : String} {e : Option Entry} (h : Alike (some (.link target)) e) :
    e = some (.link target) := by
  cases h
  rfl

lemma Alike.eq_of_file {modified : Int} {e : Option Entry}
    (h : Alike (some (.file content modified)) e) : e = some (.file content modified) := by
  cases h
  rfl

lemma Alike.eq_of_none {e : Option Entry} (h : Alike none e) : e = none := by
  cases h
  rfl

lemma Alike.exists_dir {e : Option Entry} (h : Alike (some (.dir es)) e) :
    ∃ es', e = some (.dir es') := by
  cases h with
  | dir _ es' => exact ⟨es', rfl⟩
  | same _ => exact ⟨es, rfl⟩

lemma Alike.exists_noLink {e' : Option Entry} (h : Alike (some e) e')
    (hnolink : ∀ target, e ≠ .link target) : ∃ e1, e' = some e1 ∧ ∀ target, e1 ≠ .link target := by
  cases h with
  | dir _ es' => exact ⟨_, rfl, by simp⟩
  | same _ => exact ⟨e, rfl, hnolink⟩

lemma Alike.symm {e : Option Entry} (h : Alike e e') : Alike e' e := by
  cases h with
  | same _ => exact .same _
  | dir _ _ => exact .dir _ _

lemma Alike.isSome_eq {e : Option Entry} (h : Alike e e') : e'.isSome = e.isSome := by
  cases h <;> rfl

lemma Alike.trans {e e'' : Option Entry} (h : Alike e e') (h' : Alike e' e'') : Alike e e'' := by
  cases h with
  | same _ => exact h'
  | dir es es' =>
    cases h' with
    | dir _ es'' => exact .dir _ _
    | same _ => exact .dir _ _

end Entry

lemma not_prefix_of_dir {place : Place} (hplace : ∀ es, root.at? place ≠ some (.dir es))
    (hhere : root.at? here = some (.dir es)) : ¬ place <+: here := by
  rintro ⟨rest, rfl⟩
  rw [at?_append] at hhere
  obtain ⟨e, he, hrest⟩ := bind_eq_some_iff.mp hhere
  obtain ⟨es', rfl⟩ := exists_eq_dir_of_at? hrest
  exact hplace es' he

/-- How far a look-up has come: the links that it may still follow, the directory where it is, and
the names that it has to take. -/
structure Stage where
  links : Nat
  here : Place
  names : List String

variable {s s' : Stage}

namespace Stage

/-- A stage with more names to take. -/
def append (s : Stage) (rest : List String) : Stage := { s with names := s.names ++ rest }

def more (s : Stage) (links : Nat) : Stage := { s with links := s.links + links }

end Stage

/-- A name that leads into a directory: no dots, and not too long. -/
structure PlainName (name : String) : Prop where
  dot : name ≠ "."
  dots : name ≠ ".."
  short : ¬ maxName < name.utf8ByteSize

instance (name : String) : Decidable (PlainName name) :=
  decidable_of_iff (name ≠ "." ∧ name ≠ ".." ∧ ¬ maxName < name.utf8ByteSize)
    ⟨fun h => ⟨h.1, h.2.1, h.2.2⟩, fun h => ⟨h.dot, h.dots, h.short⟩⟩

/-- One step of a look-up that follows all links. -/
inductive Goes (root : Entry) : Stage → Stage → Prop
  | stay {n : Nat} {here : Place} {rest : List String} {es : List (String × Entry)}
      (dir : root.at? here = some (.dir es)) : Goes root ⟨n, here, "." :: rest⟩ ⟨n, here, rest⟩
  | up {n : Nat} {here : Place} {rest : List String} {es : List (String × Entry)}
      (dir : root.at? here = some (.dir es)) :
        Goes root ⟨n, here, ".." :: rest⟩ ⟨n, here.dropLast, rest⟩
  | enter {n : Nat} {here : Place} {rest : List String} {es : List (String × Entry)} {name : String}
  {e : Entry}
      (dir : root.at? here = some (.dir es)) (plain : PlainName name)
        (get : get? name es = some e)
      (noLink : ∀ target, e ≠ .link target) :
        Goes root ⟨n, here, name :: rest⟩ ⟨n, here ++ [name], rest⟩
  | link {n : Nat} {here : Place} {rest : List String} {es : List (String × Entry)}
  {name target : String}
      (dir : root.at? here = some (.dir es)) (plain : PlainName name)
      (get : get? name es = some (.link target)) :
      Goes root ⟨n + 1, here, name :: rest⟩
        ⟨n, if target.startsWith "/" then [] else here, Entry.targetNames target ++ rest⟩

/-- A run of steps. -/
def Reaches (root : Entry) : Stage → Stage → Prop := Relation.ReflTransGen (Goes root)

variable {root : Entry}

/-! ### Steps and look-ups -/

lemma Goes.followLinks_eq (h : Goes root s s') (last : Bool) (rest : List String)
    (hlast : last = true ∨ rest ≠ []) : followLinks root last s.links s.here (s.names ++ rest) =
      followLinks root last s'.links s'.here (s'.names ++ rest) := by
  cases h with
  | @stay n here names es dir => cases n <;> simp [followLinks, follow, dir]
  | @up n here names es dir => cases n <;> simp [followLinks, follow, dir]
  | @enter n here names es name e dir plain get noLink =>
    cases e with
    | link target => exact absurd rfl (noLink target)
    | _ => cases n <;> simp [followLinks, follow, dir, plain.dot, plain.dots, plain.short, get]
  | @link n here names es name target dir plain get =>
    have hgo : ((names ++ rest).isEmpty && !last) = false := by
      rcases hlast with rfl | hrest
      · simp
      · cases rest with
        | nil => exact absurd rfl hrest
        | cons => simp
    simp [followLinks, follow, dir, plain.dot, plain.dots, plain.short, get, hgo]

lemma Reaches.followLinks_eq (h : Reaches root s s') (last : Bool) (rest : List String)
    (hlast : last = true ∨ rest ≠ []) : followLinks root last s.links s.here (s.names ++ rest) =
      followLinks root last s'.links s'.here (s'.names ++ rest) := by
  induction h with
  | refl => rfl
  | tail _ hgoes ih => rw [ih, hgoes.followLinks_eq last rest hlast]

/-- A stage from which there is no step, and what the look-up comes out with there. -/
inductive Stage.Ends (root : Entry) (last : Bool) : Stage → Except Fault Target → Prop
  | found {n : Nat} {here : Place} {e : Entry} (there : root.at? here = some e) :
      Ends root last ⟨n, here, []⟩ (.ok (.entry here e))
  | lost {n : Nat} {here : Place} (none : root.at? here = none) :
  Ends root last ⟨n, here, []⟩ (.error .missing)
  | noDir {n : Nat} {here : Place} {name : String} {rest : List String}
      (noDir : ∀ es, root.at? here ≠ some (.dir es)) :
        Ends root last ⟨n, here, name :: rest⟩ (.error .notDirectory)
  | long {n : Nat} {here : Place} {name : String} {rest : List String} {es : List (String × Entry)}
      (dir : root.at? here = some (.dir es)) (dot : name ≠ ".") (dots : name ≠ "..")
      (long : maxName < name.utf8ByteSize) :
        Ends root last ⟨n, here, name :: rest⟩ (.error .nameTooLong)
  | vacant {n : Nat} {here : Place} {name : String} {es : List (String × Entry)}
      (dir : root.at? here = some (.dir es)) (plain : PlainName name)
        (free : get? name es = none) :
      Ends root last ⟨n, here, [name]⟩ (.ok (.vacant (here ++ [name])))
  | missing {n : Nat} {here : Place} {name : String} {rest : List String}
  {es : List (String × Entry)}
      (dir : root.at? here = some (.dir es)) (plain : PlainName name)
        (free : get? name es = none)
      (more : rest ≠ []) : Ends root last ⟨n, here, name :: rest⟩ (.error .missing)
  | stays {n : Nat} {here : Place} {name target : String} {es : List (String × Entry)}
      (dir : root.at? here = some (.dir es)) (plain : PlainName name)
      (get : get? name es = some (.link target)) (noLast : last = false) :
      Ends root last ⟨n, here, [name]⟩ (.ok (.entry (here ++ [name]) (.link target)))
  | links {here : Place} {name target : String} {rest : List String} {es : List (String × Entry)}
      (dir : root.at? here = some (.dir es)) (plain : PlainName name)
      (get : get? name es = some (.link target)) :
        Ends root last ⟨0, here, name :: rest⟩ (.error .tooManyLinks)

lemma exists_ends_follow {onLink : Place → List String → Except Fault Target}
    (hlink : ∀ here names, n = 0 ∧ onLink here names = .error .tooManyLinks ∨
      ∃ m s', n = m + 1 ∧ Reaches root ⟨m, here, names⟩ s' ∧ s'.Ends root last (onLink here names))
    (names : List String) (here : Place) :
    ∃ s', Reaches root ⟨n, here, names⟩ s' ∧
      s'.Ends root last (follow root last onLink names here) := by
  fun_induction follow root last onLink names here with
  | case1 here e he => exact ⟨_, .refl, .found he⟩
  | case2 here hnone => exact ⟨_, .refl, .lost hnone⟩
  | case3 rest here es hes ih =>
    obtain ⟨s', hrun, hend⟩ := ih
    exact ⟨s', hrun.head (.stay hes), hend⟩
  | case4 rest here es hes _ ih =>
    obtain ⟨s', hrun, hend⟩ := ih
    exact ⟨s', hrun.head (.up hes), hend⟩
  | case5 name rest here es hes hdot hdots hlong => exact ⟨_, .refl, .long hes hdot hdots hlong⟩
  | case6 name rest here es hes hdot hdots hshort hfree hrest =>
    obtain rfl := isEmpty_iff.mp hrest
    exact ⟨_, .refl, .vacant hes ⟨hdot, hdots, hshort⟩ hfree⟩
  | case7 name rest here es hes hdot hdots hshort hfree hrest =>
    exact ⟨_, .refl, .missing hes ⟨hdot, hdots, hshort⟩ hfree (by simpa using hrest)⟩
  | case8 name rest here es hes hdot hdots hshort target hget hlast =>
    obtain ⟨rfl, rfl⟩ : rest = [] ∧ last = false := by simpa using hlast
    exact ⟨_, .refl, .stays hes ⟨hdot, hdots, hshort⟩ hget rfl⟩
  | case9 name rest here es hes hdot hdots hshort target hget hlast =>
    rcases hlink (if target.startsWith "/" then []
      else here) (Entry.targetNames target ++ rest) with
      ⟨rfl, hnone⟩ | ⟨m, s', rfl, hrun, hend⟩
    · rw [hnone]
      exact ⟨_, .refl, .links hes ⟨hdot, hdots, hshort⟩ hget⟩
    · exact ⟨s', hrun.head (.link hes ⟨hdot, hdots, hshort⟩ hget), hend⟩
  | case10 name rest here es hes hdot hdots hshort e' hne hget ih =>
    obtain ⟨s', hrun, hend⟩ := ih
    exact ⟨s', hrun.head (.enter hes ⟨hdot, hdots, hshort⟩ hget hne), hend⟩
  | case11 name rest here hnodir => exact ⟨_, .refl, .noDir hnodir⟩

/-- A look-up is a run that ends. -/
lemma exists_ends : (n : Nat) → ∀ (here : Place) (names : List String),
    ∃ s', Reaches root ⟨n, here, names⟩ s' ∧ s'.Ends root last (followLinks root last n here names)
  | 0, here, names => exists_ends_follow (fun _ _ => .inl ⟨rfl, rfl⟩) names here
  | n + 1, here, names => exists_ends_follow (fun here names =>
      let ⟨s', hrun, hend⟩ := exists_ends n here names
      .inr ⟨n, s', rfl, hrun, hend⟩) names here

lemma Reaches.followLinks_of_ends (h : Reaches root s s') (hend : s'.Ends root true r) :
    followLinks root true s.links s.here s.names = r := by
  have heq := h.followLinks_eq true [] (.inl rfl)
  simp only [append_nil] at heq
  rw [heq]
  obtain ⟨k, here, names⟩ := s'
  cases hend with
  | found there => cases k <;> simp [followLinks, follow, there]
  | lost none => cases k <;> simp [followLinks, follow, none]
  | noDir noDir =>
    rcases hat : root.at? here with _ | _ | es | _ <;> cases k <;> simp [followLinks, follow, hat]
    all_goals exact absurd hat (noDir es)
  | long dir dot dots long => cases k <;> simp [followLinks, follow, dir, dot, dots, long]
  | vacant dir plain free => cases k <;>
      simp [followLinks, follow, dir, plain.dot, plain.dots, plain.short, free]
  | missing dir plain free more =>
    cases k <;> simp [followLinks, follow, dir, plain.dot, plain.dots, plain.short, free, more]
  | stays dir plain get noLast => cases noLast
  | links dir plain get => simp [followLinks, follow, dir, plain.dot, plain.dots, plain.short, get]

/-- A run that has no names left has found what stands there. -/
lemma followLinks_of_reaches (h : Reaches root ⟨n, here, names⟩ ⟨k, place, []⟩)
    (hat : root.at? place = some e) :
    followLinks root true n here names = .ok (.entry place e) := h.followLinks_of_ends (.found hat)

lemma Stage.Ends.of_entry (h : s.Ends root last (.ok (.entry place e))) :
    root.at? place = some e ∧ (last = true → ∃ k, s = ⟨k, place, []⟩) := by
  cases h with
  | found there => exact ⟨there, fun _ => ⟨_, rfl⟩⟩
  | stays dir _ get noLast =>
      exact ⟨by rw [at?_concat dir, get], fun hlast => by simp [noLast] at hlast⟩

/-- A look-up that finds an entry is a run. -/
lemma reaches_of_followLinks (h : followLinks root true n here names = .ok (.entry place e)) :
    ∃ k, Reaches root ⟨n, here, names⟩ ⟨k, place, []⟩ := by
  obtain ⟨s', hrun, hend⟩ := exists_ends n here names
  obtain ⟨k, rfl⟩ := (h ▸ hend).of_entry.2 rfl
  exact ⟨k, hrun⟩

lemma at?_of_followLinks (h : followLinks root last n here names = .ok (.entry place e)) :
    root.at? place = some e := by
  obtain ⟨s', -, hend⟩ := exists_ends n here names
  exact (h ▸ hend).of_entry.1

/-! ### Cutting runs -/

lemma Goes.exists_dir (h : Goes root s s') : ∃ es, root.at? s.here = some (.dir es) := by
  cases h with
  | stay dir => exact ⟨_, dir⟩
  | up dir => exact ⟨_, dir⟩
  | enter dir => exact ⟨_, dir⟩
  | link dir => exact ⟨_, dir⟩

lemma Goes.more (h : Goes root s s') (links : Nat) : Goes root (s.more links) (s'.more links) := by
  cases h with
  | stay dir => exact .stay dir
  | up dir => exact .up dir
  | enter dir plain get noLink => exact .enter dir plain get noLink
  | @link n here rest es name target dir plain get =>
    simp only [Stage.more, Nat.add_right_comm n 1 links]
    exact .link dir plain get

/-- More links that may be followed do no harm. -/
lemma Reaches.more (h : Reaches root s s') (links : Nat) :
    Reaches root (s.more links) (s'.more links) :=
  h.lift (Stage.more · links) fun _ _ hgoes => hgoes.more links

lemma Goes.links_le (h : Goes root s s') : s'.links ≤ s.links := by
  cases h <;> simp

lemma Reaches.links_le (h : Reaches root s s') : s'.links ≤ s.links := by
  induction h with
  | refl => exact Nat.le_refl _
  | tail _ hgoes ih => exact Nat.le_trans hgoes.links_le ih

lemma Goes.of_append {u : Stage} (h : Goes root (s.append rest) u) (hne : s.names ≠ []) :
    ∃ s', u = s'.append rest ∧ Goes root s s' := by
  obtain ⟨n, here, names⟩ := s
  cases names with
  | nil => exact absurd rfl hne
  | cons name names =>
    cases h with
    | stay dir => exact ⟨_, rfl, .stay dir⟩
    | up dir => exact ⟨_, rfl, .up dir⟩
    | enter dir plain get noLink =>
        exact ⟨⟨n, here ++ [name], names⟩, rfl, .enter dir plain get noLink⟩
    | @link m _ _ _ _ target dir plain get =>
      refine ⟨⟨m, if target.startsWith "/" then [] else here, Entry.targetNames target ++ names⟩,
        ?_, .link dir plain get⟩
      simp [Stage.append]

/-- A run that takes all names takes the first ones, and then the others. -/
lemma Reaches.split (h : Reaches root (s.append rest) ⟨k, place, []⟩) :
    ∃ m here, Reaches root s ⟨m, here, []⟩ ∧ Reaches root ⟨m, here, rest⟩ ⟨k, place, []⟩ := by
  generalize hu : s.append rest = u at h
  induction h using Relation.ReflTransGen.head_induction_on generalizing s with
  | refl =>
    obtain ⟨n, here, names⟩ := s
    simp only [Stage.append, Stage.mk.injEq, append_eq_nil_iff] at hu
    obtain ⟨rfl, rfl, rfl, rfl⟩ := hu
    exact ⟨n, here, .refl, .refl⟩
  | head hgoes hrun ih =>
    subst hu
    obtain ⟨n, here, names⟩ := s
    by_cases hnames : names = []
    · subst hnames
      exact ⟨n, here, .refl, hrun.head hgoes⟩
    · obtain ⟨s', rfl, hgoes'⟩ := hgoes.of_append hnames
      obtain ⟨m, there, hfirst, hothers⟩ := ih rfl
      exact ⟨m, there, hfirst.head hgoes', hothers⟩

/-! ### Places as paths -/

mutual

/-- All names below an entry lead into directories. -/
def Entry.Plain : Entry → Prop
  | .file _ _ => True
  | .dir es => plainBelow es
  | .link _ => True

def plainBelow : List (String × Entry) → Prop
  | [] => True
  | (name, e) :: es => PlainName name ∧ e.Plain ∧ plainBelow es

end

lemma plainBelow_iff : plainBelow es ↔ ∀ x ∈ es, PlainName x.1 ∧ x.2.Plain := by
  induction es with
  | nil => simp [plainBelow]
  | cons x es ih =>
    obtain ⟨name, e⟩ := x
    simp [plainBelow, ih, and_assoc]

lemma Entry.Plain.of_at? {e' : Entry} (h : e.Plain) (hat : e.at? place = some e') :
    (∀ name ∈ place, PlainName name) ∧ e'.Plain := by
  induction place generalizing e with
  | nil =>
    simp only [Entry.at?, Option.some.injEq] at hat
    exact ⟨by simp, hat ▸ h⟩
  | cons name rest ih =>
    simp only [Entry.at?, bind_eq_some_iff] at hat
    obtain ⟨child, hget, hrest⟩ := hat
    obtain ⟨es, rfl⟩ := exists_eq_dir hget
    simp only [Entry.Plain] at h
    obtain ⟨hname, hchild⟩ := plainBelow_iff.mp h _ (Keyed.mem_of_get? hget)
    obtain ⟨hnames, he'⟩ := ih hchild hrest
    exact ⟨forall_mem_cons.mpr ⟨hname, hnames⟩, he'⟩

lemma reaches_of_at? {front : Place} (hat : root.at? (here ++ front) = some e)
    (hplain : ∀ name ∈ front, PlainName name) (hnolink : ∀ target, e ≠ .link target) (n : Nat)
    (rest : List String) : Reaches root ⟨n, here, front ++ rest⟩ ⟨n, here ++ front, rest⟩ := by
  induction front using reverseRecOn generalizing e rest with
  | nil =>
    rw [append_nil]
    exact .refl
  | append_singleton front name ih =>
    rw [← append_assoc] at hat ⊢
    obtain ⟨es, hes⟩ := hasParent_of_at? hat _ name rfl
    have hget : get? name es = some e := by rw [← at?_concat hes, hat]
    have hfront := ih hes (fun w hw => hplain w (mem_append_left _ hw)) (by simp) (name :: rest)
    rw [append_assoc, singleton_append]
    exact hfront.tail (.enter hes (hplain name (by simp)) hget hnolink)

lemma Reaches.approach {m bound : Nat} {there base : Place}
    (h : Reaches root ⟨n, here, [name]⟩ ⟨m, there, []⟩)
    (hplace : base ++ place = here ++ [name]) (hne : place ≠ []) (hplain : ∀ w ∈ place, PlainName w)
    (hn : n ≤ bound) : ∃ k, Reaches root ⟨bound, base, place⟩ ⟨k, there, []⟩ := by
  obtain ⟨front, last, rfl⟩ := (eq_nil_or_concat' place).resolve_left hne
  rw [← append_assoc] at hplace
  obtain ⟨rfl, hlast⟩ := append_inj' hplace rfl
  obtain rfl : last = name := by simpa using hlast
  obtain ⟨es, hes⟩ : ∃ es, root.at? (base ++ front) = some (.dir es) := by
    rcases h.cases_head with heq | ⟨_, hgoes, _⟩
    · cases heq
    · exact hgoes.exists_dir
  have hlinks := h.more (bound - n)
  simp only [Stage.more, Nat.add_sub_cancel' hn] at hlinks
  have hfront := reaches_of_at? hes (fun w hw => hplain w (mem_append_left _ hw)) (by simp) bound
    [last]
  exact ⟨_, hfront.trans hlinks⟩

lemma followLinks_of_at? (hat : root.at? (here ++ place) = some e) (hne : place ≠ [])
    (hplain : ∀ w ∈ place, PlainName w) (n : Nat) :
    followLinks root false n here place = .ok (.entry (here ++ place) e) := by
  obtain ⟨front, name, rfl⟩ := (eq_nil_or_concat' place).resolve_left hne
  rw [← append_assoc] at hat ⊢
  obtain ⟨es, hes⟩ := hasParent_of_at? hat _ name rfl
  have hget : get? name es = some e := by rw [← at?_concat hes, hat]
  have hname : PlainName name := hplain name (by simp)
  have hfront := reaches_of_at? hes (fun w hw => hplain w (mem_append_left _ hw)) (by simp) n []
  have heq := hfront.followLinks_eq false [name] (.inr (by simp))
  simp only [append_nil, nil_append] at heq
  rw [heq]
  cases n <;> cases e <;>
    simp [followLinks, follow, hes, hname.dot, hname.dots, hname.short, hget, hat, -append_assoc]

/-! ### Trees that are alike -/

/-- Two trees that are alike besides some places, where no directory stands in the first. -/
structure Besides (gone : List Place) (root root' : Entry) : Prop where
  noDir : ∀ g ∈ gone, ∀ es, root.at? g ≠ some (.dir es)
  alike : ∀ q, (∀ g ∈ gone, ¬ g <+: q) → Entry.Alike (root.at? q) (root'.at? q)

namespace Besides

lemma exists_dir (h : Besides gone root root') (hes : root.at? here = some (.dir es)) :
    ∃ es', root'.at? here = some (.dir es') := by
  have halike := h.alike here fun g hg => not_prefix_of_dir (h.noDir g hg) hes
  rw [hes] at halike
  exact halike.exists_dir

lemma alike_at? (h : Besides gone root root') {q : Place} (hat : root.at? q = some e)
    (hq : q ∉ gone) : Entry.Alike (some e) (root'.at? q) := by
  rw [← hat]
  refine h.alike q fun g hg hprefix => ?_
  obtain ⟨rest, rfl⟩ := hprefix
  cases rest with
  | nil => exact hq (by simpa using hg)
  | cons name rest =>
    -- an erased place with something below it would have been a directory
    obtain ⟨d, hd, hname⟩ := bind_eq_some_iff.mp ((at?_append ..).symm.trans hat)
    obtain ⟨child, hchild, -⟩ := bind_eq_some_iff.mp hname
    obtain ⟨es, rfl⟩ := exists_eq_dir hchild
    exact h.noDir g hg es hd

lemma alike_get? (h : Besides gone root root') (hes : root.at? here = some (.dir es))
    (hes' : root'.at? here = some (.dir es')) (hkept : here ++ [name] ∉ gone) :
    Entry.Alike (get? name es) (get? name es') := by
  rw [← at?_concat hes, ← at?_concat hes']
  refine h.alike _ fun g hg hprefix => ?_
  rcases prefix_concat_iff.mp hprefix with rfl | hprefix
  · exact hkept hg
  · exact not_prefix_of_dir (h.noDir g hg) hes hprefix

end Besides

/-- The next name of a stage is at one of some places. -/
def Stage.Meets (gone : List Place) (s : Stage) : Prop :=
  ∃ name rest, s.names = name :: rest ∧ PlainName name ∧ s.here ++ [name] ∈ gone

lemma Besides.goes (h : Besides gone root root') (hgoes : Goes root s s') :
    s.Meets gone ∨ Goes root' s s' := by
  obtain ⟨es, hes⟩ := hgoes.exists_dir
  obtain ⟨es', hes'⟩ := h.exists_dir hes
  cases hgoes with
  | stay dir => exact .inr (.stay hes')
  | up dir => exact .inr (.up hes')
  | @enter n here rest _ name e dir plain get noLink =>
    by_cases hmeet : here ++ [name] ∈ gone
    · exact .inl ⟨name, rest, rfl, plain, hmeet⟩
    · have halike := h.alike_get? dir hes' hmeet
      rw [get] at halike
      obtain ⟨e', he', hnolink⟩ := halike.exists_noLink noLink
      exact .inr (.enter hes' plain he' hnolink)
  | @link n here rest _ name target dir plain get =>
    by_cases hmeet : here ++ [name] ∈ gone
    · exact .inl ⟨name, rest, rfl, plain, hmeet⟩
    · have halike := h.alike_get? dir hes' hmeet
      rw [get] at halike
      exact .inr (.link hes' plain halike.eq_of_link)

/-- A run is one in the other tree too, or it passes a stage that meets one of the places. -/
lemma Besides.reaches (h : Besides gone root root') (hrun : Reaches root s s') :
    Reaches root' s s' ∨ ∃ u, Reaches root s u ∧ Reaches root' s u ∧ Reaches root u s' ∧
      u.Meets gone := by
  induction hrun using Relation.ReflTransGen.head_induction_on with
  | refl => exact .inl .refl
  | @head s u hgoes hrest ih =>
    rcases h.goes hgoes with hmeets | hgoes'
    · exact .inr ⟨s, .refl, .refl, hrest.head hgoes, hmeets⟩
    · rcases ih with hrun' | ⟨v, hfirst, hfirst', hthen, hmeets⟩
      · exact .inl (hrun'.head hgoes')
      · exact .inr ⟨v, hfirst.head hgoes, hfirst'.head hgoes', hthen, hmeets⟩

end CodeAtlas.Files
