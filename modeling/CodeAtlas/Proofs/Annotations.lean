import CodeAtlas.Catalog.Describe
import CodeAtlas.Outline.Extract
import CodeAtlas.Proofs.Spelling

/-!
# Texts of annotations

Outlines write annotations with round brackets where they are needed. Catalogs write none, and the
arguments of a subscript as one union (`annotations_read_back`).
-/

namespace CodeAtlas

variable {es : List Expr} {ks : List TokenKind} {place : Rank}

namespace Syntax

open Grammar

/-- Annotations: names, dotted names, subscripts with one or several arguments, and unions. -/
inductive IsAnnotation : Expr → Prop
  | name (i : Identifier) {plain : Bool} (h : wordKind i.text.toList = some (.ident i plain)) :
    IsAnnotation (.name i.text)
  | dot {v : Expr} (hv : IsAnnotation v) (i : Identifier) {plain : Bool}
      (h : wordKind i.text.toList = some (.ident i plain)) : IsAnnotation (.attribute v i.text)
  | index {v : Expr} (hv : IsAnnotation v) {e : Expr} {es : List Expr}
  (h : ∀ x ∈ e :: es, IsAnnotation x) :
    IsAnnotation (.subscript v (together (e :: es)))
  | union {l r : Expr} (hl : IsAnnotation l) (hr : IsAnnotation r) :
  IsAnnotation (.binary l .bitOr r)

lemma spelled_cons (k : TokenKind) : spelled (k :: ks) = spelled [k] ++ spelled ks :=
  spelled_append [k] ks

lemma spelled_name (i : Identifier) (plain : Bool) : spelled [.ident i plain] = i.text := by
  simp [spelled, spelling]

lemma spelled_dot (i : Identifier) (plain : Bool) :
    spelled (ks ++ [.op ".", .ident i plain]) = spelled ks ++ "." ++ i.text := by
  rw [spelled_append, spelled_cons, spelled_name, String.append_assoc]
  rfl

lemma spelled_enclosed (o c : String) (ks ks' : List TokenKind) :
    spelled (ks ++ .op o :: (ks' ++ [.op c])) = spelled ks ++ spelled [.op o] ++ spelled ks' ++
      spelled [.op c] := by
  rw [spelled_append, spelled_cons, spelled_append, String.append_assoc, String.append_assoc]

lemma spelled_union (ks ks' : List TokenKind) :
    spelled (ks ++ .op "|" :: ks') = spelled ks ++ " | " ++ spelled ks' := by
  rw [spelled_append, spelled_cons, String.append_assoc]
  rfl

lemma spelled_items (ps : List (List TokenKind × Expr)) :
    ", ".intercalate (spelled ks :: ps.map (spelled ·.1)) = spelled (ks ++ moreTokens ps) := by
  induction ps generalizing ks with
  | nil =>
    rw [moreTokens, List.flatMap_nil, List.append_nil]
    exact String.intercalate_singleton
  | cons p ps ih =>
    rw [List.map_cons, String.intercalate_cons_cons, ih, moreTokens_cons, spelled_append ks,
      spelled_cons, String.append_assoc]
    rfl

/-! ### Source text -/

lemma Spells.fit {ks : List TokenKind} {e : Expr} (h : Spells true ks e) (tight : Bool) :
    Spells tight ks e := by
  cases tight with
  | true => exact h
  | false => exact h.loose

/-- A text spells an expression in a place. -/
def Writes (e : Expr) (place : Rank) : Prop :=
  ∃ ks, e.render false place = .ok (spelled ks) ∧ Spells (decide (Rank.bitOr < place)) ks e

lemma renderItems_of_writes {place : Rank} (h : ∀ e ∈ es, Writes e place) :
    ∃ ps : List (List TokenKind × Expr), renderItems false place es = .ok (ps.map (spelled ·.1)) ∧
      ps.map (·.2) = es ∧ ∀ p ∈ ps, Spells (decide (Rank.bitOr < place)) p.1 p.2 := by
  induction es with
  | nil => exact ⟨[], rfl, rfl, nofun⟩
  | cons e es ih =>
    obtain ⟨⟨ks, hrender, hspells⟩, hes⟩ := List.forall_mem_cons.mp h
    obtain ⟨ps, hrenders, hmap, hall⟩ := ih hes
    refine ⟨(ks, e) :: ps, ?_, by rw [List.map_cons, hmap],
      List.forall_mem_cons.mpr ⟨hspells, hall⟩⟩
    simp only [renderItems, hrender, hrenders, List.map_cons]
    rfl

lemma IsAnnotation.render_attribute {v : Expr} (hv : IsAnnotation v) (a : String) :
    (Expr.attribute v a).render false place =
      (do .ok ((← v.render false Rank.atom) ++ "" ++ "." ++ a)) := by
  cases hv <;> rfl

lemma IsAnnotation.render_subscript {e : Expr} (he : IsAnnotation e) (v : Expr) :
    (Expr.subscript v e).render false place = (do
      .ok ((← v.render false Rank.atom) ++ "[" ++ (← e.render false Rank.test) ++ "]")) := by
  cases he <;> rfl

/-- An annotation is written as it is spelled. -/
lemma IsAnnotation.writes {e : Expr} (h : IsAnnotation e) (place : Rank) : Writes e place := by
  induction h generalizing place with
  | @name i plain h => exact ⟨[.ident i plain], by rw [spelled_name]; rfl, (Spells.name i h).fit _⟩
  | @dot v hv i plain h ih =>
    obtain ⟨ks, hrender, hspells⟩ := ih Rank.atom
    refine ⟨ks ++ [.op ".", .ident i plain], ?_, (hspells.dot i h).fit _⟩
    rw [hv.render_attribute, hrender, spelled_dot]
    exact congrArg (fun s => Except.ok (s ++ "." ++ i.text)) String.append_empty
  | @index v hv e es h ih ihs =>
    obtain ⟨ks, hrender, hspells⟩ := ih Rank.atom
    obtain ⟨ks', hfirst, hspells'⟩ := ihs e List.mem_cons_self Rank.test
    obtain ⟨ps, hmore, rfl, hall⟩ :=
      renderItems_of_writes fun x hx => ihs x (List.mem_cons_of_mem _ hx) Rank.test
    have hitems : ∀ q ∈ (ks', e) :: ps, Spells false q.1 q.2 :=
      List.forall_mem_cons.mpr ⟨hspells', hall⟩
    refine ⟨_, ?_, (hspells.index hitems).fit _⟩
    rw [spelled_enclosed]
    cases ps with
    | nil =>
      rw [moreTokens, List.flatMap_nil, List.append_nil]
      refine ((h e List.mem_cons_self).render_subscript v).trans ?_
      rw [hrender, hfirst]
      rfl
    | cons p ps =>
      change (do
        let t ← v.render false Rank.atom
        let t' ← e.render false Rank.test
        let ts ← renderItems false Rank.test ((p :: ps).map (·.2))
        .ok (t ++ "[" ++ itemsText (t' :: ts) ++ "]") : Except SourceFault String) = _
      rw [hrender, hfirst, hmore, ← spelled_items]
      rfl
  | @union l r hl hr ihl ihr =>
    obtain ⟨ks, hrender, hspells⟩ := ihl Rank.bitOr
    obtain ⟨ks', hrender', hspells'⟩ := ihr Rank.bitXor
    have hspells : Spells false (ks ++ .op "|" :: ks') (.binary l .bitOr r) :=
      hspells.union hspells'
    have htext : (Expr.binary l .bitOr r).render false place =
        .ok (bracketed place Rank.bitOr (spelled ks ++ " " ++ "|" ++ " " ++ spelled ks')) := by
      change (do
        let a ← l.render false Rank.bitOr
        let b ← r.render false Rank.bitXor
        .ok (bracketed place Rank.bitOr (a ++ " " ++ "|" ++ " " ++ b)) :
          Except SourceFault String) = _
      rw [hrender, hrender']
      rfl
    have hbare : spelled ks ++ " " ++ "|" ++ " " ++ spelled ks' =
        spelled (ks ++ .op "|" :: ks') := by
      rw [spelled_union, show " | " = " " ++ "|" ++ " " from rfl]
      simp only [String.append_assoc]
    by_cases hplace : Rank.bitOr < place
    · refine ⟨.op "(" :: (ks ++ .op "|" :: ks' ++ [.op ")"]), ?_,
        decide_eq_true hplace ▸ hspells.round⟩
      rw [htext, hbare, bracketed, if_pos hplace, spelled_cons, spelled_append _ [.op ")"],
        ← String.append_assoc]
      rfl
    · refine ⟨_, ?_, decide_eq_false hplace ▸ hspells⟩
      rw [htext, hbare, bracketed, if_neg hplace]

/-! ### Regrouping -/

namespace Expr

def isUnion : Expr → Bool
  | .binary _ .bitOr _ => true
  | _ => false

def isSubscript : Expr → Bool
  | .subscript .. => true
  | _ => false

def isTuple : Expr → Bool
  | .tuple _ => true
  | _ => false

/-- Whether a dot or a bracket stands behind a union. -/
def endsUnion : Expr → Bool
  | .attribute v _ => v.isUnion
  | .subscript v _ => v.isUnion
  | _ => false

mutual

/-- How many parts of an annotation are of a kind. -/
def count (p : Expr → Bool) : Expr → Nat
  | .attribute v a => (p (.attribute v a)).toNat + count p v
  | .subscript v i => (p (.subscript v i)).toNat + (count p v + count p i)
  | .tuple es => (p (.tuple es)).toNat + counts p es
  | .binary l o r => (p (.binary l o r)).toNat + (count p l + count p r)
  | e => (p e).toNat

def counts (p : Expr → Bool) : List Expr → Nat
  | [] => 0
  | e :: es => count p e + counts p es

end

/-- No subscript has several arguments, and no dot or bracket stands behind a union. -/
def IsPlain (e : Expr) : Prop := e.count isTuple = 0 ∧ e.count endsUnion = 0

end Expr

open Syntax.Expr

/-- Annotations that differ only in how their unions are grouped. -/
inductive Regroups : Expr → Expr → Prop
  | refl (e : Expr) : Regroups e e
  | symm {e e' : Expr} (h : Regroups e e') : Regroups e' e
  | trans {e e' e'' : Expr} (h : Regroups e e') (h' : Regroups e' e'') : Regroups e e''
  | assoc (a b c : Expr) :
    Regroups (.binary (.binary a .bitOr b) .bitOr c) (.binary a .bitOr (.binary b .bitOr c))
  | dot {v v' : Expr} (h : Regroups v v') (a : String) : Regroups (.attribute v a) (.attribute v' a)
  | index {v v' i i' : Expr} (hv : Regroups v v') (hi : Regroups i i') :
    Regroups (.subscript v i) (.subscript v' i')
  | item {e e' : Expr} (es es' : List Expr) (h : Regroups e e') :
    Regroups (.tuple (es ++ e :: es')) (.tuple (es ++ e' :: es'))
  | union {l l' r r' : Expr} (hl : Regroups l l') (hr : Regroups r r') :
    Regroups (.binary l .bitOr r) (.binary l' .bitOr r')

namespace Regroups

variable {e e' : Expr}

lemma isUnion_eq (h : Regroups e e') : e.isUnion = e'.isUnion := by
  induction h with
  | symm _ ih => exact ih.symm
  | trans _ _ ih ih' => exact ih.trans ih'
  | _ => rfl

lemma isSubscript_eq (h : Regroups e e') : e.isSubscript = e'.isSubscript := by
  induction h with
  | symm _ ih => exact ih.symm
  | trans _ _ ih ih' => exact ih.trans ih'
  | _ => rfl

lemma endsUnion_eq (h : Regroups e e') : e.endsUnion = e'.endsUnion := by
  induction h with
  | symm _ ih => exact ih.symm
  | trans _ _ ih ih' => exact ih.trans ih'
  | dot h _ _ => exact h.isUnion_eq
  | index hv _ _ _ => exact hv.isUnion_eq
  | _ => rfl

lemma counts_append (p : Expr → Bool) (es es' : List Expr) :
    counts p (es ++ es') = counts p es + counts p es' := by
  induction es with
  | nil => exact (Nat.zero_add _).symm
  | cons e es ih => rw [List.cons_append, counts, counts, ih, Nat.add_assoc]

/-- Regrouping keeps the number of parts of a kind that no union is of. -/
lemma count_eq {p : Expr → Bool} (hp : ∀ e e', Regroups e e' → p e = p e')
    (hunion : ∀ l r, p (.binary l .bitOr r) = false) (h : Regroups e e') :
    e.count p = e'.count p := by
  induction h with
  | refl => rfl
  | symm _ ih => exact ih.symm
  | trans _ _ ih ih' => exact ih.trans ih'
  | assoc a b c =>
    simp only [count, hunion, Bool.toNat_false]
    omega
  | dot h a ih => rw [count, count, hp _ _ (h.dot a), ih]
  | index hv hi ihv ihi => rw [count, count, hp _ _ (hv.index hi), ihv, ihi]
  | item es es' h ih =>
    rw [count, count, hp _ _ (h.item es es'), counts_append, counts_append, counts, counts, ih]
  | union hl hr ihl ihr => rw [count, count, hunion, hunion, ihl, ihr]

lemma subscripts_eq (h : Regroups e e') : e.count isSubscript = e'.count isSubscript :=
  h.count_eq (fun _ _ h => h.isSubscript_eq) fun _ _ => rfl

lemma endsUnions_eq (h : Regroups e e') : e.count endsUnion = e'.count endsUnion :=
  h.count_eq (fun _ _ h => h.endsUnion_eq) fun _ _ => rfl

end Regroups

/-! ### Text without round brackets -/

/-- Operands that are no unions, with bars between them. -/
inductive Chain : List TokenKind → Expr → Prop
  | one {ks : List TokenKind} {e : Expr} (h : Spells true ks e) (hunion : e.isUnion = false) :
  Chain ks e
  | more {ks ks' : List TokenKind} {l r : Expr} (hl : Chain ks l) (hr : Spells true ks' r)
      (hunion : r.isUnion = false) : Chain (ks ++ .op "|" :: ks') (.binary l .bitOr r)

namespace Chain

variable {ks ks' : List TokenKind} {e l r : Expr}

lemma spells (h : Chain ks e) : Spells false ks e := by
  induction h with
  | one h _ => exact h.loose
  | more _ hr _ ih => exact ih.union hr

lemma join (hl : Chain ks l) (hr : Chain ks' r) :
    ∃ e, Chain (ks ++ .op "|" :: ks') e ∧ Regroups e (.binary l .bitOr r) := by
  induction hr with
  | one h hunion => exact ⟨_, hl.more h hunion, .refl _⟩
  | @more ks1 ks2 a b _ hb hunion ih =>
    obtain ⟨e, hchain, hregroups⟩ := ih
    refine ⟨.binary e .bitOr b, ?_, (hregroups.union (.refl b)).trans (.assoc l a b)⟩
    have hmore := hchain.more hb hunion
    rwa [List.append_assoc, List.cons_append] at hmore

lemma extend {f : Expr → Expr} (h : Chain ks e)
    (hf : ∀ {ks v}, Spells true ks v → Spells true (ks ++ ks') (f v) ∧ (f v).isUnion = false) :
    ∃ e', Chain (ks ++ ks') e' ∧ (e.isUnion = false → e' = f e) ∧ ∀ p n,
      (∀ l r, p (.binary l .bitOr r) = false) →
        (∀ v, v.isUnion = false → (f v).count p = v.count p + n) → e'.count p = e.count p + n := by
  cases h with
  | one h hunion => exact ⟨f e, .one (hf h).1 (hf h).2, fun _ => rfl, fun p n _ hn => hn e hunion⟩
  | @more ks1 ks2 l r hl hr hunion =>
    refine ⟨.binary l .bitOr (f r), ?_, nofun, fun p n hp hn => ?_⟩
    · rw [List.append_assoc, List.cons_append]
      exact hl.more (hf hr).1 (hf hr).2
    · rw [count, count, hp, hp, hn r hunion, Nat.add_assoc, Nat.add_assoc]

end Chain

end Syntax

namespace Catalog

open Syntax Syntax.Expr Syntax.Grammar

/-- How the text of an annotation is read again. -/
structure Rereads (e : Expr) (p : List TokenKind × Expr) : Prop where
  text : typeText e = .ok (spelled p.1)
  chain : Chain p.1 p.2
  subscripts : p.2.count isSubscript = e.count isSubscript + e.count isTuple
  not_endsUnion : p.2.count endsUnion = 0
  regroups : e.IsPlain → Regroups p.2 e

namespace Rereads

variable {e v i l r : Expr} {p q : List TokenKind × Expr}

lemma not_isEmpty (h : Rereads e p) : (spelled p.1).isEmpty = false := by
  obtain ⟨a, cs, hhead, -⟩ := h.chain.spells.head_spelled
  rw [spelled, hhead]
  simp

lemma dot (hv : Rereads v p) (i : Identifier) {plain : Bool}
    (h : wordKind i.text.toList = some (.ident i plain)) :
    ∃ q, Rereads (.attribute v i.text) q := by
  obtain ⟨e, hchain, heq, hcount⟩ :=
    hv.chain.extend (f := (.attribute · i.text)) (fun hs => ⟨hs.dot i h, rfl⟩)
  refine ⟨(_, e), ⟨?_, hchain, ?_, ?_, fun hplain => ?_⟩⟩
  · rw [spelled_dot, typeText, hv.text]
    exact congrArg Except.ok (if_neg (by simp [hv.not_isEmpty]))
  · rw [hcount isSubscript 0 (fun _ _ => rfl) (fun v _ => by simp [count, isSubscript]),
      hv.subscripts]
    simp [count, isSubscript, isTuple]
  · rw [hcount endsUnion 0 (fun _ _ => rfl) (fun v hunion => by simp [count, endsUnion, hunion]),
      hv.not_endsUnion]
  · simp only [IsPlain, count, endsUnion, Nat.add_eq_zero_iff, Bool.toNat_eq_zero] at hplain
    have hregroups := hv.regroups ⟨hplain.1.2, hplain.2.2⟩
    rw [show e = .attribute p.2 i.text from heq (hregroups.isUnion_eq.trans hplain.2.1)]
    exact hregroups.dot _

lemma index (hv : Rereads v p) (hi : Rereads i q) : ∃ r, Rereads (.subscript v i) r := by
  have hitem : ∀ p ∈ [q], Spells false p.1 p.2 := List.forall_mem_singleton.mpr hi.chain.spells
  obtain ⟨e, hchain, heq, hcount⟩ :=
    hv.chain.extend (f := (.subscript · q.2)) (fun hs => ⟨hs.index hitem, rfl⟩)
  refine ⟨(_, e), ⟨?_, hchain, ?_, ?_, fun hplain => ?_⟩⟩
  · rw [spelled_enclosed, moreTokens, List.flatMap_nil, List.append_nil, typeText, hv.text, hi.text]
    exact congrArg Except.ok (if_pos (by simp [hv.not_isEmpty, hi.not_isEmpty]))
  · have hmore (v : Expr) (_ : v.isUnion = false) :
        (Expr.subscript v q.2).count isSubscript =
          v.count isSubscript + (q.2.count isSubscript + 1) := by
      simp only [count, isSubscript, Bool.toNat_true]
      omega
    rw [hcount isSubscript _ (fun _ _ => rfl) hmore, hv.subscripts, hi.subscripts]
    simp only [count, isSubscript, isTuple, Bool.toNat_true, Bool.toNat_false]
    omega
  · rw [hcount endsUnion 0 (fun _ _ => rfl)
      (fun v hunion => by simp [count, endsUnion, hunion, hi.not_endsUnion]), hv.not_endsUnion]
  · simp only [IsPlain, count, endsUnion, isTuple, Nat.add_eq_zero_iff,
      Bool.toNat_eq_zero] at hplain
    have hregroups := hv.regroups ⟨hplain.1.2.1, hplain.2.2.1⟩
    rw [show e = .subscript p.2 q.2 from heq (hregroups.isUnion_eq.trans hplain.2.1)]
    exact hregroups.index (hi.regroups ⟨hplain.1.2.2, hplain.2.2.2⟩)

lemma union (hl : Rereads l p) (hr : Rereads r q) : ∃ s, Rereads (.binary l .bitOr r) s := by
  obtain ⟨e, hchain, hregroups⟩ := hl.chain.join hr.chain
  refine ⟨(_, e), ⟨?_, hchain, ?_, ?_, fun hplain => ?_⟩⟩
  · rw [spelled_union, typeText, hl.text, hr.text]
    exact congrArg Except.ok (if_pos (by simp [hl.not_isEmpty, hr.not_isEmpty]))
  · rw [hregroups.subscripts_eq]
    simp only [count, isSubscript, isTuple, hl.subscripts, hr.subscripts, Bool.toNat_false]
    omega
  · rw [hregroups.endsUnions_eq]
    simp [count, endsUnion, hl.not_endsUnion, hr.not_endsUnion]
  · simp only [IsPlain, count, Nat.add_eq_zero_iff] at hplain
    exact hregroups.trans
      ((hl.regroups ⟨hplain.1.2.1, hplain.2.2.1⟩).union (hr.regroups ⟨hplain.1.2.2, hplain.2.2.2⟩))

lemma items (h : ∀ x ∈ es, ∃ p, Rereads x p) :
    ∃ ps : List (List TokenKind × Expr), ps.length = es.length ∧
      typeTexts es = .ok (ps.map (spelled ·.1)) ∧
      (∀ p ∈ ps, Spells false p.1 p.2) ∧
      counts isSubscript (ps.map (·.2)) = counts isSubscript es + counts isTuple es ∧
      counts endsUnion (ps.map (·.2)) = 0 := by
  induction es with
  | nil => exact ⟨[], rfl, rfl, nofun, rfl, rfl⟩
  | cons e es ih =>
    obtain ⟨⟨p, hp⟩, hes⟩ := List.forall_mem_cons.mp h
    obtain ⟨ps, hlength, htexts, hspells, hsubscripts, hunions⟩ := ih hes
    refine ⟨p :: ps, congrArg (· + 1) hlength, ?_,
      List.forall_mem_cons.mpr ⟨hp.chain.spells, hspells⟩, ?_, ?_⟩
    · rw [typeTexts, htexts, hp.text]
      exact congrArg Except.ok (if_neg (by simp [hp.not_isEmpty]))
    · rw [List.map_cons, counts, counts, counts, hp.subscripts, hsubscripts]
      omega
    · rw [List.map_cons, counts, hp.not_endsUnion, hunions]

lemma tuple {e' : Expr} (h : ∀ x ∈ e :: e' :: es, ∃ p, Rereads x p) :
    ∃ q, Rereads (.tuple (e :: e' :: es)) q := by
  obtain ⟨_ | ⟨p, _ | ⟨p', ps⟩⟩, hlength, htexts, hspells, hsubscripts, hunions⟩ := items h
  · cases hlength
  · cases hlength
  have hname : Spells true [.ident ⟨"Union", rfl⟩ true] (.name "Union") := .name ⟨"Union", rfl⟩ rfl
  refine ⟨(_, _), ⟨?_, .one (hname.index hspells) rfl, ?_, ?_, fun hplain => ?_⟩⟩
  · rw [typeText, htexts, spelled_enclosed, ← spelled_items]
    rfl
  · simp only [together, List.map_cons] at hsubscripts ⊢
    simp only [count, isSubscript, isTuple, Bool.toNat_true, Bool.toNat_false, hsubscripts]
    omega
  · simp only [together, List.map_cons] at hunions ⊢
    simp only [count, endsUnion, isUnion, Bool.toNat_false, hunions]
  · have htuple := hplain.1
    simp [count, isTuple] at htuple

end Rereads

lemma rereads_of_isAnnotation {e : Expr} (h : IsAnnotation e) : ∃ p, Rereads e p := by
  induction h with
  | @name i plain h =>
    exact ⟨([.ident i plain], .name i.text),
      ⟨congrArg Except.ok (spelled_name i plain).symm, .one (.name i h) rfl, rfl, rfl,
      fun _ => .refl _⟩⟩
  | dot _ i h ih =>
    obtain ⟨p, hp⟩ := ih
    exact hp.dot i h
  | @index v _ e es _ ih ihs =>
    obtain ⟨p, hp⟩ := ih
    obtain ⟨q, hq⟩ : ∃ q, Rereads (together (e :: es)) q := by
      cases es with
      | nil => exact ihs e List.mem_cons_self
      | cons e' es => exact Rereads.tuple ihs
    exact hp.index hq
  | union _ _ ihl ihr =>
    obtain ⟨p, hp⟩ := ihl
    obtain ⟨q, hq⟩ := ihr
    exact hp.union hq

/-- **The text of an annotation in an outline reads as that annotation. The one in a catalog reads
as it, up to the grouping of unions, exactly if no subscript has several arguments and no dot or
bracket stands behind a union.** In every case there is one, and it reads as some expression. -/
theorem annotations_read_back {e : Expr} (h : IsAnnotation e) : ReadsAs (Outline.hintText e) e ∧
    ∃ t e', typeText e = .ok t ∧ ReadsAs t e' ∧ (Regroups e' e ↔ e.IsPlain) := by
  obtain ⟨ks, hrender, hspells⟩ := h.writes Rank.test
  obtain ⟨p, hp⟩ := rereads_of_isAnnotation h
  have hhint : Outline.hintText e = spelled ks := by
    rw [Outline.hintText, Expr.source, hrender]
    rfl
  refine ⟨hhint ▸ hspells.readsAs, _, p.2, hp.text, hp.chain.spells.readsAs,
    fun hregroups => ⟨?_, ?_⟩, hp.regroups⟩
  · have hcount := hregroups.subscripts_eq
    rw [hp.subscripts] at hcount
    omega
  · rw [← hregroups.endsUnions_eq, hp.not_endsUnion]

/-- A table of text and a dotted name or a number. -/
def tableHint : Expr :=
  .subscript (.name "Dict")
    (.tuple [.name "str", .binary (.attribute (.name "t") "T") .bitOr (.name "int")])

lemma isAnnotation_tableHint : IsAnnotation tableHint := by
  have hname (s : String) (h : Text.isIdentifier s.toList = true)
      (hword : wordKind s.toList = some (.ident ⟨s, h⟩ true)) :
        IsAnnotation (.name s) := .name ⟨s, h⟩ hword
  have hword : wordKind "T".toList = some (.ident ⟨"T", rfl⟩ true) := rfl
  have hunion := ((hname "t" rfl rfl).dot ⟨"T", rfl⟩ hword).union (hname "int" rfl rfl)
  exact (hname "Dict" rfl rfl).index
    (List.forall_mem_cons.mpr ⟨hname "str" rfl rfl, List.forall_mem_singleton.mpr hunion⟩)

theorem annotations_read_back_table :
    IsAnnotation tableHint ∧ ReadsAs (Outline.hintText tableHint) tableHint ∧
      ∃ t e', typeText tableHint = .ok t ∧ ReadsAs t e' ∧
      (Regroups e' tableHint ↔ tableHint.IsPlain) :=
  ⟨isAnnotation_tableHint, annotations_read_back isAnnotation_tableHint⟩

theorem arguments_become_union :
    ∃ t, typeText tableHint = .ok t ∧ t = "Dict[Union[str, t.T | int]]" ∧
    ∀ e, ReadsAs t e → ¬ Regroups e tableHint := by
  obtain ⟨p, hp⟩ := rereads_of_isAnnotation isAnnotation_tableHint
  have htext : typeText tableHint = .ok "Dict[Union[str, t.T | int]]" := rfl
  refine ⟨_, hp.text, (Except.ok.inj (hp.text.symm.trans htext)), fun e he hregroups => ?_⟩
  obtain rfl := he.unique hp.chain.spells.readsAs
  exact absurd (hp.subscripts.symm.trans hregroups.subscripts_eq) (by decide)

end Catalog

end CodeAtlas
