import CodeAtlas.Proofs.Index.Join
import CodeAtlas.Proofs.Index.Separation
import Mathlib.Data.List.Flatten

/-!
# How far locations are stable

A location is a position: it counts the entities that are recorded before. So an edit that only adds
definitions to a file never lowers one (`Project.location_kept_iff`).
-/

namespace CodeAtlas

open List

variable {owner : Int → Option String} {path : String} {k : Nat} {f g : Outline.File} {β : Type}
  {q : β → Bool}

namespace Index

open Skeleton (fileName)

/-! ### What entities go by -/

/-- What an entity goes by. -/
inductive Identity where
  | module (file name : String)
  | «class» (file name : String)
  /-- A function at the top of a module has no owner, a method that of its class. -/
  | function (file : String) (owner : Option String) (name : String)
  | «import» (file name : String)
deriving DecidableEq, Repr

def classEntities (file : String) (c : Outline.Class) : List Identity :=
  .class file c.name :: c.methods.map fun g => .function file (some c.name) g.name

/-- The entities of a file in the order in which they are recorded. -/
def fileEntities (file : String) (f : Outline.File) : List Identity :=
  .module file f.moduleName ::
    (f.classes.flatMap (classEntities file)
      ++ f.functions.map (fun g => .function file none g.name)
      ++ f.imports.map fun i => .import file i.module)

def positions {α : Type} [DecidableEq α] (a : α) (as : List α) : List Nat :=
  (as.zipIdx.filter (·.1 = a)).map (·.2)

namespace Skeleton

def moduleIdentity? (s : Skeleton) (e : ModuleEntry) : Option Identity :=
  (s.readModule e).map fun r => .module r.2 r.1

def classIdentity? (s : Skeleton) (e : ClassEntry) : Option Identity :=
  (s.readClass e).map fun r => .class r.file r.name

def functionIdentity? (s : Skeleton) (e : FunctionEntry) : Option Identity :=
  (s.readMember e).map fun r => .function r.2.file (r.1.map (·.2.name)) r.2.name

def importIdentity? (s : Skeleton) (e : ImportEntry) : Option Identity :=
  (s.readImport e).map fun r => .import r.2 r.1

/-- The locations of all rows of a skeleton that go by an identity. -/
def locationsOf (s : Skeleton) (x : Identity) : List Nat :=
  (s.modules.filter (s.moduleIdentity? · = some x)).map (·.location)
    ++ (s.classes.filter (s.classIdentity? · = some x)).map (·.location)
    ++ (s.functions.filter (s.functionIdentity? · = some x)).map (·.location)
    ++ (s.imports.filter (s.importIdentity? · = some x)).map (·.location)

end Skeleton

/-! ### Identities in a roll -/

/-- What a member of a roll goes by, if the numbers of classes are looked up by `owner`. -/
def Listed.identity (owner : Int → Option String) : Listed → Identity
  | ⟨path, .module f⟩ => .module (fileName path) f.moduleName
  | ⟨path, .class c⟩ => .class (fileName path) c.name
  | ⟨path, .function parent f⟩ => .function (fileName path) (owner parent) f.name
  | ⟨path, .import i⟩ => .import (fileName path) i.module

lemma identity_classRoll {c : Outline.Class} (h : owner k = some c.name) :
    (classRoll path c k).map (Listed.identity owner) = classEntities (fileName path) c := by
  simp [classRoll, classEntities, Listed.identity, h]

lemma identity_fileRoll (hnone : owner (-1) = none)
    (h : ∀ ck ∈ f.classes.zipIdx k, owner ck.2 = some ck.1.name) :
    (fileRoll path f k).map (Listed.identity owner) = fileEntities (fileName path) f := by
  have hclasses : ((f.classes.zipIdx k).flatMap fun ck => classRoll path ck.1 ck.2).map
      (Listed.identity owner) = f.classes.flatMap (classEntities (fileName path)) := by
    rw [map_flatMap, ← flatMap_zipIdx_fst f.classes]
    exact flatMap_congr fun ck hck => identity_classRoll (h ck hck)
  unfold fileRoll fileEntities
  rw [map_cons, map_append, map_append, hclasses, map_map, map_map]
  simp [Listed.identity, hnone, Function.comp_def]

lemma identity_rollFrom (hnone : owner (-1) = none) {cs : List ClassReading}
    (hsome : ∀ (j : Nat) (c : ClassReading), cs[j]? = some c → owner j = some c.name)
    (files : List (String × Outline.File)) (before : List ClassReading)
    (hcs : cs = before ++ files.flatMap fun pf => pf.2.classes.map (classReading (fileName pf.1))) :
    (rollFrom before.length files).map (Listed.identity owner) =
      files.flatMap fun pf => fileEntities (fileName pf.1) pf.2 := by
  induction files generalizing before with
  | nil => rfl
  | cons pf files ih =>
    obtain ⟨path, f⟩ := pf
    have hclasses : ∀ ck ∈ f.classes.zipIdx before.length, owner ck.2 = some ck.1.name :=
      fun ck hck =>
      hsome ck.2 (classReading (fileName path) ck.1) (hcs ▸ getElem?_classReadings before files hck)
    have hrest := ih (before ++ f.classes.map (classReading (fileName path))) (by simp [hcs])
    rw [length_append, length_map] at hrest
    rw [rollFrom, map_append, identity_fileRoll hnone hclasses, hrest, flatMap_cons]

/-! ### Locations are positions -/

lemma map_filter_of_forall₂ {α γ : Type} {R : α → β → Prop} {as : List α} {bs : List β}
    {p : α → Bool} {f : α → γ} {g : β → γ} (h : Forall₂ R as bs)
    (hR : ∀ a ∈ as, ∀ b, R a b → f a = g b ∧ p a = q b) :
    (as.filter p).map f = (bs.filter q).map g := by
  induction h with
  | nil => rfl
  | @cons a b as bs hab _ ih =>
    have hrest := ih fun a ha => hR a (mem_cons_of_mem _ ha)
    obtain ⟨hfg, hpq⟩ := hR a mem_cons_self b hab
    rw [filter_cons, filter_cons, hpq]
    by_cases hq : q b
    · rw [if_pos hq, if_pos hq, map_cons, map_cons, hrest, hfg]
    · rw [if_neg hq, if_neg hq, hrest]

lemma locations_of_shows {ε : Type} {s : Skeleton} {r : List Listed} {location : ε → Nat}
    {read : Skeleton → ε → Option β} {what? : Listed → Option β} {rows : List ε}
    (h : Forall₂ (s.Shows location read) rows (located what? r)) {p : ε → Bool}
    (hp : ∀ e ∈ rows, ∀ b, read s e = some b → p e = q b) :
    (rows.filter p).map location = (r.zipIdx.filter fun xl => (what? xl.1).any q).map (·.2) := by
  have hrows : (rows.filter p).map location = ((located what? r).filter (q ·.2)).map (·.1) :=
    map_filter_of_forall₂ h fun e he lb hshow => ⟨hshow.1, hp e he lb.2 hshow.2.2⟩
  rw [hrows, located, filter_filterMap, map_filterMap, ← filterMap_eq_map, filterMap_filter]
  refine filterMap_congr fun xl _ => ?_
  rcases what? xl.1 with _ | b
  · rfl
  · by_cases hq : q b <;> simp [hq]

namespace Atlas

variable (files : List (String × Outline.File))

/-- The name of the class that has a number in a skeleton. -/
def ownerName (s : Skeleton) (parent : Int) : Option String :=
  (s.readParent parent).join.map (·.2.name)

lemma identity_roll : (roll files).map (Listed.identity (ownerName (ofFiles files).skeleton)) =
    files.flatMap fun pf => fileEntities (fileName pf.1) pf.2 := by
  refine identity_rollFrom rfl ?_ files [] rfl
  intro j c hc
  rw [ownerName, Skeleton.readParent_of_getElem? (readClass_ofFiles files) hc]
  rfl

lemma functionIdentity?_of_readOwned {e : FunctionEntry}
    (he : e ∈ (ofFiles files).skeleton.functions)
    {g : Int × FunctionReading} (hg : (ofFiles files).skeleton.readOwned e = some g) :
    (ofFiles files).skeleton.functionIdentity? e =
      some (.function g.2.file (ownerName (ofFiles files).skeleton g.1) g.2.name) := by
  have hmember : (ofFiles files).skeleton.readMember e ≠ none := by
    intro hnone
    have hmem : none ∈ (functionsFrom 0 (files.map fun pf => (fileName pf.1, pf.2))).map some := by
      rw [← readMember_ofFiles, ← hnone]
      exact mem_map_of_mem he
    simp at hmem
  unfold Skeleton.functionIdentity? ownerName
  rw [Skeleton.readMember_eq_bind, hg, Option.bind_some] at hmember ⊢
  rcases hparent : (ofFiles files).skeleton.readParent g.1 with _ | owner
  · simp [hparent] at hmember
  · rfl

lemma locationsOf_ofFiles (x : Identity) : (ofFiles files).skeleton.locationsOf x =
    positions x (files.flatMap fun pf => fileEntities (fileName pf.1) pf.2) := by
  have hfaithful := faithful_ofFiles files
  have hmodules := locations_of_shows hfaithful.modules
    (p := ((ofFiles files).skeleton.moduleIdentity? · = some x))
    (q := fun b => Identity.module b.2 b.1 = x)
    (by intro e _ b hb; simp [Skeleton.moduleIdentity?, hb])
  have hclasses := locations_of_shows hfaithful.classes
    (p := ((ofFiles files).skeleton.classIdentity? · = some x))
    (q := fun b => Identity.class b.file b.name = x)
    (by intro e _ b hb; simp [Skeleton.classIdentity?, hb])
  have hfunctions := locations_of_shows hfaithful.functions
    (p := ((ofFiles files).skeleton.functionIdentity? · = some x))
    (q := fun b => Identity.function b.2.file (ownerName (ofFiles files).skeleton b.1) b.2.name = x)
    (by intro e he b hb; simp [functionIdentity?_of_readOwned files he hb])
  have himports := locations_of_shows hfaithful.imports
    (p := ((ofFiles files).skeleton.importIdentity? · = some x))
    (q := fun b => Identity.import b.2 b.1 = x)
    (by intro e _ b hb; simp [Skeleton.importIdentity?, hb])
  rw [Skeleton.locationsOf, hmodules, hclasses, hfunctions, himports, positions, ← identity_roll,
    zipIdx_map, filter_map, map_map]
  -- only the members of one kind can go by `x`
  cases x <;>
    simp only [reduceCtorEq, decide_false, Option.any_false, filter_false, map_nil, append_nil,
      nil_append]
  all_goals
    refine congrArg (List.map _) (filter_congr fun xl _ => ?_)
    obtain ⟨⟨path, entity⟩, l⟩ := xl
    cases entity <;>
      simp [Listed.module?, Listed.class?, Listed.function?, Listed.import?, Listed.identity,
      classReading,
        functionReading]

end Atlas

/-! ### Positions in a list with insertions -/

section Positions

variable {α : Type} [DecidableEq α] {a : α} {as as' : List α} {i i' : Nat}

lemma mem_positions : i ∈ positions a as ↔ as[i]? = some a := by
  simp only [positions, mem_map, mem_filter, decide_eq_true_eq]
  constructor
  · rintro ⟨⟨b, j⟩, ⟨hmem, rfl⟩, rfl⟩
    exact mem_zipIdx_iff_getElem?.mp hmem
  · intro hi
    exact ⟨(a, i), ⟨mem_zipIdx_iff_getElem?.mpr hi, rfl⟩, rfl⟩

section

variable (h : positions a as = [i])

include h

lemma getElem?_of_positions : as[i]? = some a := by
  rw [← mem_positions, h]
  exact mem_singleton_self i

lemma eq_of_positions {j : Nat} (hj : as[j]? = some a) : j = i := by
  rw [← mem_positions, h] at hj
  exact mem_singleton.mp hj

lemma length_take_of_positions : (as.take i).length = i := by
  obtain ⟨hlt, -⟩ := List.getElem?_eq_some_iff.mp (getElem?_of_positions h)
  exact length_take_of_le (Nat.le_of_lt hlt)

lemma exists_of_positions : ∃ rest, as = as.take i ++ a :: rest ∧ a ∉ rest := by
  obtain ⟨hlt, hget⟩ := List.getElem?_eq_some_iff.mp (getElem?_of_positions h)
  refine ⟨as.drop (i + 1), ?_, ?_⟩
  · rw [← hget, getElem_cons_drop, take_append_drop]
  · intro hmem
    obtain ⟨j, hj⟩ := mem_iff_getElem?.mp hmem
    rw [getElem?_drop] at hj
    have hji := eq_of_positions h hj
    omega

end

lemma take_sublist_take (hsub : as.Sublist as') (h : positions a as = [i])
    (h' : positions a as' = [i']) : (as.take i).Sublist (as'.take i') := by
  obtain ⟨rest, has, -⟩ := exists_of_positions h
  obtain ⟨rest', has', hnot⟩ := exists_of_positions h'
  rw [has, has', append_sublist_iff] at hsub
  obtain ⟨front, back, happend, hfront, hback⟩ := hsub
  have hmem : a ∈ back := hback.subset mem_cons_self
  rcases append_eq_append_iff.mp happend with ⟨more, hmore, hrest⟩ | ⟨more, hmore, -⟩
  · rcases more with _ | ⟨b, more⟩
    · rw [hmore, append_nil] at hfront
      exact hfront
    · -- then the entry would stand once more behind itself
      obtain ⟨-, rfl⟩ := List.cons.inj hrest
      exact absurd (mem_append_right more hmem) hnot
  · rw [hmore]
    exact hfront.trans (sublist_append_left front more)

end Positions

end Index

/-! ### Edits that add definitions -/

namespace Outline

/-- The file `g` is the file `f` with definitions added: classes, functions and imports of `f` are
there in their order, as they were but for lines, docstrings and comments. -/
structure Adds (f g : File) : Prop where
  path : g.path = f.path
  moduleName : g.moduleName = f.moduleName
  classes : (f.classes.map Class.bare).Sublist (g.classes.map Class.bare)
  functions : (f.functions.map Function.bare).Sublist (g.functions.map Function.bare)
  imports : (f.imports.map Import.bare).Sublist (g.imports.map Import.bare)

end Outline

namespace Index

lemma classEntities_bare (file : String) (c : Outline.Class) :
    classEntities file c.bare = classEntities file c := by
  unfold classEntities
  rw [show c.bare.methods = c.methods.map Outline.Function.bare from rfl, map_map]
  rfl

lemma fileEntities_sublist (h : Outline.Adds f g) (file : String) :
    (fileEntities file f).Sublist (fileEntities file g) := by
  have hclasses : ∀ cs : List Outline.Class, cs.flatMap (classEntities file) =
      (cs.map Outline.Class.bare).flatMap (classEntities file) := by
    intro cs
    rw [flatMap_map]
    exact flatMap_congr fun c _ => (classEntities_bare file c).symm
  have hfunctions : ∀ fs : List Outline.Function,
      (fs.map fun g => Identity.function file none g.name) =
        (fs.map Outline.Function.bare).map fun g => Identity.function file none g.name := by
    intro fs
    rw [map_map]
    rfl
  have himports : ∀ is : List Outline.Import, (is.map fun i => Identity.import file i.module) =
      (is.map Outline.Import.bare).map fun i => Identity.import file i.module := by
    intro is
    rw [map_map]
    rfl
  unfold fileEntities
  rw [h.moduleName, hclasses, hclasses g.classes, hfunctions, hfunctions g.functions, himports,
    himports g.imports]
  apply Sublist.cons_cons
  apply Sublist.append
  · apply Sublist.append
    · exact h.classes.flatMap _
    · exact h.functions.map _
  · exact h.imports.map _

end Index

namespace Project

open Index

/-- The entities of files in the order in which they are recorded. -/
def entities (p : Project) (files : List Outline.File) : List Identity :=
  files.flatMap fun f => fileEntities (p.spelling f) f

variable (p : Project)

/-- An entity has as locations its positions among the entities of the project. -/
lemma locationsOf_atlas (files : List Outline.File) (x : Identity) :
    (p.atlas files).skeleton.locationsOf x = positions x (p.entities files) := by
  unfold atlas entities
  rw [Atlas.locationsOf_ofFiles, flatMap_map]
  simp only [fileName_inside]

lemma entities_append (xs ys : List Outline.File) :
    p.entities (xs ++ ys) = p.entities xs ++ p.entities ys := flatMap_append

lemma entities_sublist (before after : List Outline.File) (h : Outline.Adds f g) :
    (p.entities (before ++ f :: after)).Sublist (p.entities (before ++ g :: after)) := by
  have hspelling : p.spelling g = p.spelling f := by
    unfold spelling seen
    rw [h.path]
  have hfile : (p.entities (f :: after)).Sublist (p.entities (g :: after)) := by
    unfold entities
    rw [flatMap_cons, flatMap_cons, hspelling]
    exact (fileEntities_sublist h (p.spelling f)).append_right _
  rw [entities_append, entities_append]
  exact hfile.append_left _

/-- Definitions are added to a file, and an entity has one location before and one after. The
entities that were there are all there after, in their order. The location does not go down; it
stays the same exactly if the same entities are recorded before it as were. It stays the same in all
files that come before the edited one, and in all that come behind it goes up by the number of
entities that were added. -/
theorem location_kept_iff (p : Project) (before after : List Outline.File) {f g : Outline.File}
    (h : Outline.Adds f g) {x : Identity} {l l' : Nat}
    (hl : (p.atlas (before ++ f :: after)).skeleton.locationsOf x = [l])
    (hl' : (p.atlas (before ++ g :: after)).skeleton.locationsOf x = [l']) :
    let es := p.entities (before ++ f :: after)
    let es' := p.entities (before ++ g :: after)
    es.Sublist es' ∧ l ≤ l' ∧ (l' = l ↔ es'.take l' = es.take l) ∧
      (l < (p.entities before).length → l' = l) ∧
      ((p.entities (before ++ [f])).length ≤ l → l' = l + (es'.length - es.length)) := by
  intro es es'
  rw [locationsOf_atlas] at hl hl'
  have hsub : es.Sublist es' := p.entities_sublist before after h
  have htake : (es.take l).Sublist (es'.take l') := take_sublist_take hsub hl hl'
  have hlength := htake.length_le
  rw [length_take_of_positions hl, length_take_of_positions hl'] at hlength
  have hx := getElem?_of_positions hl
  refine ⟨hsub, hlength, ?_, ?_, ?_⟩
  · constructor
    · intro heq
      apply (htake.eq_of_length ?_).symm
      rw [length_take_of_positions hl, length_take_of_positions hl', heq]
    · intro heq
      rw [← length_take_of_positions hl', ← length_take_of_positions hl, heq]
  · intro hlt
    rw [entities_append, getElem?_append_left hlt] at hx
    refine (eq_of_positions hl' ?_).symm
    rw [entities_append, getElem?_append_left hlt, hx]
  · intro hle
    have hsplit : ∀ c : Outline.File, p.entities (before ++ c :: after) =
        p.entities (before ++ [c]) ++ p.entities after := by
      intro c
      rw [← entities_append, append_assoc]
      rfl
    have hgrow := hsub.length_le
    unfold es es' at hgrow ⊢
    rw [hsplit f, getElem?_append_right hle] at hx
    rw [hsplit f, hsplit g, length_append, length_append] at hgrow ⊢
    refine (eq_of_positions hl' ?_).symm
    rw [hsplit g, getElem?_append_right (by omega), ← hx]
    congr 1
    omega

def single : Outline.File :=
  { path := "/p/a.py", moduleName := "a", functions := [{ name := "g" }] }

/-- The file after a function was added in front. -/
def double : Outline.File :=
  { single with functions := [{ name := "f" }, { name := "g", firstLine := 2, lastLine := 2 }] }

/-- The main result where a function is added in front of another one. -/
theorem location_kept_iff_single :
    let p : Project := { path := ⟨"/", ["p"]⟩, output := ⟨"/", ["o"]⟩ }
    let x : Identity := .function "a.py" none "g"
    Outline.Adds single double ∧ (p.atlas [single]).skeleton.locationsOf x = [1] ∧
      (p.atlas [double]).skeleton.locationsOf x = [2] ∧
      1 ≤ 2 ∧ (2 = 1 ↔ (p.entities [double]).take 2 = (p.entities [single]).take 1) := by
  intro p x
  have hadds : Outline.Adds single double := ⟨rfl, rfl, by decide, by decide, by decide⟩
  have hl : (p.atlas [single]).skeleton.locationsOf x = [1] := by decide +kernel
  have hl' : (p.atlas [double]).skeleton.locationsOf x = [2] := by decide +kernel
  obtain ⟨-, hle, hiff, -⟩ := location_kept_iff p [] [] hadds hl hl'
  exact ⟨hadds, hl, hl', hle, hiff⟩

/-- A function that another one is put in front of loses its location. -/
theorem location_not_kept : let p : Project := { path := ⟨"/", ["p"]⟩, output := ⟨"/", ["o"]⟩ }
    let x : Identity := .function "a.py" none "g"
    Outline.Adds single double ∧ (p.atlas [single]).skeleton.locationsOf x = [1] ∧
      (p.atlas [double]).skeleton.locationsOf x = [2] := by
  refine ⟨⟨rfl, rfl, by decide, by decide, by decide⟩, ?_, ?_⟩
  · decide +kernel
  · decide +kernel

end Project

end CodeAtlas
