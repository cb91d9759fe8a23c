import CodeAtlas.Catalog.Sketch
import CodeAtlas.Proofs.Table

/-!
# Descriptions that cannot be written

An integer with too many digits has no text, and that is the only fault of descriptions (`FailsIf`).
-/

namespace CodeAtlas

open List

namespace Syntax

/-- Whether a literal is an integer with too many digits. -/
def Constant.isHuge : Constant → Bool
  | .int n => Digits.exceeds n
  | _ => Bool.false

/-- Whether an expression is an integer with too many digits. -/
def Expr.isHuge : Expr → Bool
  | .constant c => c.isHuge
  | _ => false

mutual

/-- Whether the text of an annotation would show an integer with too many digits. -/
def Expr.showsHuge : Expr → Bool
  | .constant c => c.isHuge
  | .subscript value index => value.showsHuge || index.showsHuge
  | .attribute value _ => value.showsHuge
  | .tuple items => anyShowsHuge items
  | .binary left .bitOr right => left.showsHuge || right.showsHuge
  | _ => false

def anyShowsHuge : List Expr → Bool
  | [] => false
  | e :: es => e.showsHuge || anyShowsHuge es

end

/-- Whether the text of a decorator would show an integer with too many digits. -/
def Expr.callsHuge : Expr → Bool
  | .call (.name _) args _ => (args.take 3).any Expr.isHuge
  | _ => false

end Syntax

namespace Catalog

open Syntax

/-- Something fails exactly in a case, and then for an integer with too many digits. -/
def FailsIf {α : Type} (huge : Bool) (x : Except SourceFault α) : Prop :=
  if huge then x = .error .hugeInteger else ∃ a, x = .ok a

section

variable {α β : Type} {huge huge' : Bool} {x : Except SourceFault α} {f : α → Except SourceFault β}

lemma FailsIf.pure (a : α) : FailsIf false (.ok a : Except SourceFault α) := ⟨a, rfl⟩

/-- What is done in two steps fails if one of them does. -/
lemma FailsIf.bind (hx : FailsIf huge x) (hf : ∀ a, FailsIf huge' (f a)) :
    FailsIf (huge || huge') (x >>= f) := by
  cases huge with
  | true =>
    rw [show x = .error .hugeInteger from hx]
    rfl
  | false =>
    obtain ⟨a, rfl⟩ := hx
    exact hf a

/-- A last step that cannot fail changes nothing. -/
lemma FailsIf.map (hx : FailsIf huge x) (g : α → β) : FailsIf huge (x >>= fun a => .ok (g a)) := by
  simpa using hx.bind fun a => .pure (g a)

lemma FailsIf.mapM {as : List α} {hugeAt : α → Bool} (h : ∀ a, FailsIf (hugeAt a) (f a)) :
    FailsIf (as.any hugeAt) (as.mapM f) := by
  induction as with
  | nil => exact .pure []
  | cons a as ih =>
    rw [mapM_cons, any_cons]
    exact (h a).bind fun b => ih.map (b :: ·)

lemma FailsIf.ok_iff (hx : FailsIf huge x) : (∃ a, x = .ok a) ↔ huge = false := by
  cases huge with
  | true => simp [show x = .error .hugeInteger from hx]
  | false => simpa using show ∃ a, x = .ok a from hx

end

lemma failsIf_constantText (c : Constant) : FailsIf c.isHuge (constantText c) := by
  cases c with
  | int n =>
    rcases h : Digits.exceeds n with _ | _ <;>
      simp [FailsIf, Constant.isHuge, constantText, intText, Digits.text?, h]
  | _ => exact .pure _

mutual

lemma failsIf_typeText (e : Expr) : FailsIf e.showsHuge (typeText e) := by
  cases e with
  | constant c => exact failsIf_constantText c
  | subscript value index =>
    exact (failsIf_typeText value).bind fun _ => (failsIf_typeText index).map _
  | «attribute» value attr => exact (failsIf_typeText value).map _
  | tuple items => exact (failsIf_typeTexts items).map _
  | binary left op right =>
    cases op with
    | bitOr => exact (failsIf_typeText left).bind fun _ => (failsIf_typeText right).map _
    | _ => exact .pure _
  | _ => exact .pure _

lemma failsIf_typeTexts : ∀ es : List Expr, FailsIf (anyShowsHuge es) (typeTexts es)
  | [] => .pure []
  | e :: es => (failsIf_typeText e).bind fun _ => (failsIf_typeTexts es).map _

end

lemma failsIf_defaultText? (e : Expr) : FailsIf e.isHuge (defaultText? e) := by
  cases e with
  | constant c =>
    cases c with
    | int n => exact (failsIf_constantText (.int n)).map _
    | _ => exact .pure _
  | _ => exact .pure _

lemma failsIf_decoratorText? (e : Expr) : FailsIf e.callsHuge (decoratorText? e) := by
  have hcases : e.callsHuge = false ∧ (∃ t, decoratorText? e = .ok t) ∨
      ∃ id args keywords, e = .call (.name id) args keywords := by
    cases e with
    | call f args keywords =>
      cases f with
      | name id => exact .inr ⟨id, args, keywords, rfl⟩
      | «attribute» value attr => cases value <;> exact .inl ⟨rfl, _, rfl⟩
      | _ => exact .inl ⟨rfl, _, rfl⟩
    | «attribute» value attr => cases value <;> exact .inl ⟨rfl, _, rfl⟩
    | _ => exact .inl ⟨rfl, _, rfl⟩
  rcases hcases with ⟨hhuge, t, ht⟩ | ⟨id, args, keywords, rfl⟩
  · rw [hhuge, ht]
    exact .pure t
  · refine FailsIf.map (FailsIf.mapM fun a => ?_) _
    exact (failsIf_defaultText? a).map _

/-- The decorators of a definition have texts unless one shows an integer with too many digits. -/
lemma failsIf_decoratorTexts (ds : List Decorator) :
    FailsIf (ds.any (·.expr.callsHuge)) (decoratorTexts ds) :=
  (FailsIf.mapM fun d : Decorator => (failsIf_decoratorText? d.expr).map _).map _

lemma failsIf_hintText? (hint : Option Expr) :
    FailsIf (hint.any Expr.showsHuge) (hintText? hint) := by
  cases hint with
  | none => exact .pure none
  | some e => exact (failsIf_typeText e).map _

lemma failsIf_defaultOf? (value : Option Expr) :
    FailsIf (value.any Expr.isHuge) (defaultOf? value) := by
  cases value with
  | none => exact .pure none
  | some e => exact (failsIf_defaultText? e).map _

end Catalog

end CodeAtlas
