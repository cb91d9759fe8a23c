import CodeAtlas.Proofs.Bases
import CodeAtlas.Proofs.Catalog.Overlong
import CodeAtlas.Proofs.Locate.Coordinates

/-!
# Decorators

A catalog tells decorators by texts, locations tell them by marks with lines. Both pass over the
same ones (`decorators_told_alike`).
-/

namespace CodeAtlas

open Syntax String

namespace Syntax

/-- What is called, or else the expression. -/
def Expr.callee : Expr → Expr
  | .call f _ _ => f
  | e => e

/-- Whether an expression is a call of a name without dots. -/
def Expr.callsName : Expr → Bool
  | .call (.name _) _ _ => true
  | _ => false

/-- What a catalog and locations tell of a decorator. The text begins with the name of the
decorator, and goes on if this is a name without dots that is called; the mark is that name behind
an at sign, with dots in brackets in the same case. -/
def Decorator.ToldBy (d : Decorator) (text : String) (place : Nat × String) : Prop :=
  ∃ name args, d.expr.callee.source = .ok name ∧ text = name ++ args ∧
    (args ≠ "" ↔ d.expr.callsName) ∧
    place = (d.line, "@" ++ name ++ if d.expr.callsName then "(...)" else "")

end Syntax

lemma toldBy_of_not_callsName {d : Decorator} {name : String}
    (hsource : d.expr.callee.source = .ok name)
    (hcall : d.expr.callsName = false) : d.ToldBy name (d.line, "@" ++ name) :=
  ⟨name, "", hsource, by simp, by simp [hcall], by simp [hcall]⟩

namespace Catalog

open Locate

/-- A decorator that has a text has a mark exactly if it is a name with at most one dot or a call of
such a name, and then its text and its mark go together. -/
lemma toldBy_decoratorText? {d : Decorator} {t : Option String}
    (h : decoratorText? d.expr = .ok t) :
    d.expr.callee.isShort = false ∧ t = none ∧ decoratorMark? d.expr = none ∨
      d.expr.callee.isShort = true ∧ ∃ text mark, t = some text ∧
      decoratorMark? d.expr = some mark ∧
        d.ToldBy text (d.line, mark) := by
  obtain ⟨line, e⟩ := d
  have hshort {base attr : String} (e : Expr) (hcallee : e.callee = .attribute (.name base) attr)
      (hcall : e.callsName = false) :
      Decorator.ToldBy ⟨line, e⟩ (base ++ "." ++ attr) (line, "@" ++ base ++ "." ++ attr) := by
    have hsource : e.callee.source = .ok (base ++ "." ++ attr) :=
      hcallee ▸ toldBy_baseName? (e := .attribute (.name base) attr) rfl
    simpa [append_assoc] using toldBy_of_not_callsName (d := ⟨line, e⟩) hsource hcall
  cases e with
  | name id =>
    cases h
    exact .inr ⟨rfl, _, _, rfl, rfl, toldBy_of_not_callsName rfl rfl⟩
  | «attribute» value attr =>
    cases value with
    | name base =>
      cases h
      exact .inr ⟨rfl, _, _, rfl, rfl, hshort (.attribute (.name base) attr) rfl rfl⟩
    | _ =>
      cases h
      exact .inl ⟨rfl, rfl, rfl⟩
  | call f args keywords =>
    cases f with
    | name id =>
      obtain ⟨ts, -, heq⟩ := exists_of_ok_bind h
      cases heq
      refine .inr ⟨rfl, _, _, rfl, rfl, id, "(" ++ ", ".intercalate ts ++ ")", rfl, ?_, ?_, rfl⟩
      · rw [append_assoc, append_assoc, append_assoc]
      · simp [Expr.callsName]
    | «attribute» value attr =>
      cases value with
      | name base =>
        cases h
        exact .inr ⟨rfl, _, _, rfl, rfl,
          hshort (.call (.attribute (.name base) attr) args keywords) rfl rfl⟩
      | _ =>
        cases h
        exact .inl ⟨rfl, rfl, rfl⟩
    | _ =>
      cases h
      exact .inl ⟨rfl, rfl, rfl⟩
  | _ =>
    cases h
    exact .inl ⟨rfl, rfl, rfl⟩

/-- What is told of decorators by their texts and by their marks. -/
structure ToldAlike (ds : List Decorator) (texts : List String)
    (told : List (String × Nat × String)) : Prop where
  toldBy : List.Forall₂ (fun d t => d.ToldBy t.1 t.2) (ds.filter (·.expr.callee.isShort)) told
  texts : texts = told.map (·.1)
  marks : ∀ l : Locations, (addDecorators l ds).2.map (·.1) = told.map (·.2.1) ∧
    (addDecorators l ds).1.decorators.getAll? ((addDecorators l ds).2.map (·.2)) =
      some (told.map (·.2.2))

/-- If decorators have texts, these go together with their marks. -/
lemma exists_toldAlike {ds : List Decorator} {texts : List String}
    (h : decoratorTexts ds = .ok texts) : ∃ told, ToldAlike ds texts told := by
  suffices hall : ∃ told : List (String × Nat × String),
      List.Forall₂ (fun d t => d.ToldBy t.1 t.2) (ds.filter (·.expr.callee.isShort)) told ∧
        texts = told.map (·.1) ∧ marksOf ds = told.map (·.2) by
    obtain ⟨told, htold, htexts, hmarks⟩ := hall
    refine ⟨told, htold, htexts, fun l => ?_⟩
    obtain ⟨hlines, -, hnumbers⟩ := addDecorators_spec ds l
    rw [hmarks, List.map_map] at hlines hnumbers
    exact ⟨hlines, hnumbers⟩
  induction ds generalizing texts with
  | nil =>
    cases h
    exact ⟨[], .nil, rfl, rfl⟩
  | cons d ds ih =>
    obtain ⟨front, more, hfront, hmore, rfl⟩ := exists_of_gather_cons h
    obtain ⟨told, htold, rfl, hmarks⟩ := ih hmore
    obtain ⟨t, ht, heq⟩ := exists_of_ok_bind hfront
    cases heq
    rcases toldBy_decoratorText? ht with ⟨hshort, rfl, hmark⟩ | ⟨hshort, text, mark, rfl, hmark, hd⟩
    · refine ⟨told, ?_, rfl, ?_⟩
      · rwa [List.filter_cons_of_neg (by simp [hshort])]
      · rw [← hmarks]
        simp [marksOf, hmark]
    · refine ⟨(text, d.line, mark) :: told, ?_, rfl, ?_⟩
      · rw [List.filter_cons_of_pos (by simpa using hshort)]
        exact .cons hd htold
      · simp only [List.map_cons, ← hmarks]
        simp [marksOf, hmark]

end Catalog

/-- **The decorators of a function in a catalog are those among the locations.** Their texts fail
exactly if one of the arguments they show is an integer with too many digits, the marks do not.
Otherwise both tell one entry each of the same decorators, names with at most one dot and calls of
such names, in order, whatever is numbered before, and entry by entry both begin with the name of
the decorator. So do the row of a function in a catalog and the row that locates it. -/
theorem decorators_told_alike (docs : Bool) (texts : List String)
    (ms : List (Path × String × Module)) :
    (∀ ds : List Decorator,
      if ds.any (·.expr.callsHuge) then Catalog.decoratorTexts ds = .error .hugeInteger
      else ∃ texts told, Catalog.decoratorTexts ds = .ok texts ∧ Catalog.ToldAlike ds texts told) ∧
    ∀ c, Catalog.recorded docs texts ms = .ok c →
      List.Forall₂ (fun r s => ∃ texts told, c.names.getAll? r.decorators = some texts ∧
          Catalog.ToldAlike s.head.decorators texts told ∧
          ∀ (x : Locate.Context) (k : Nat) (location : Value) (l : Locations), ∃ row,
            x.place k location s.span s.head.decorators s.body l =
              (.ok row, (Locate.addDecorators l s.head.decorators).1) ∧
            row.decorators = (Locate.addDecorators l s.head.decorators).2)
        c.functions (Catalog.functionSites 0
          (Catalog.statements (ms.map fun m => (m.1.text, m.2.2)))) := by
  refine ⟨fun ds => ?_, fun c hc => ?_⟩
  · have hfails := Catalog.failsIf_decoratorTexts ds
    split_ifs with hhuge
    · rwa [Catalog.FailsIf, if_pos hhuge] at hfails
    · obtain ⟨texts, htexts⟩ := hfails.ok_iff.mpr (by simpa using hhuge)
      obtain ⟨told, htold⟩ := Catalog.exists_toldAlike htexts
      exact ⟨texts, told, htexts, htold⟩
  · refine (Catalog.madeOf_recorded hc).rows.records.functions.imp fun r s hr => ?_
    obtain ⟨texts, htexts, hnames⟩ := hr.decorators
    obtain ⟨told, htold⟩ := Catalog.exists_toldAlike htexts
    exact ⟨texts, told, hnames, htold, fun x k location l => ⟨_, rfl, rfl⟩⟩

/-- A module with a function that has a decorator of each form, and one that is passed over. -/
def decoratedModule : Module :=
  let d : Expr := .name "d"
  ⟨[.function ⟨5, 5⟩ ⟨"marked", false, {}, [⟨1, d⟩, ⟨2, .call d [.constant (.int 1)] []⟩,
    ⟨3, .subscript d d⟩, ⟨4, .call (.attribute d "e") [] []⟩], none, rfl⟩ []]⟩

/-- The result at this module, of which there is a catalog. -/
theorem decorators_told_alike_decoratedModule :
    ∃ c, Catalog.recorded true [] [(⟨"", ["a.py"]⟩, "", decoratedModule)] = .ok c ∧
      List.Forall₂ (fun r s => ∃ texts told, c.names.getAll? r.decorators = some texts ∧
          Catalog.ToldAlike s.head.decorators texts told)
        c.functions (Catalog.functionSites 0 (Catalog.statements [("a.py", decoratedModule)])) := by
  obtain ⟨c, h⟩ : ∃ c, Catalog.recorded true [] [(⟨"", ["a.py"]⟩, "", decoratedModule)] = .ok c :=
    ⟨_, rfl⟩
  refine ⟨c, h, ((decorators_told_alike true [] _).2 c h).imp fun r s hr => ?_⟩
  obtain ⟨texts, told, hnames, htold, -⟩ := hr
  exact ⟨texts, told, hnames, htold⟩

/-- A decorator whose argument has more than 4300 digits has a mark, but there is no text. -/
theorem huge_argument_not_told : let digits := "0x".toList ++ List.replicate 4000 'f'
    let source := "@d(".toList ++ digits ++ ")\ndef f(): pass\n".toList
    (parseModule? source).map (fun m => (Outline.functionDefs m.body).map fun d =>
      ((Catalog.decoratorTexts d.2.1.decorators).toOption, Locate.marksOf d.2.1.decorators)) =
      some [(none, [(1, "@d(...)")])] := by
  decide +kernel

end CodeAtlas
