import CodeAtlas.Proofs.Catalog.Digests
import CodeAtlas.Proofs.Document

/-!
# The digest in the file of a catalog

Whoever loads the file can check it (`digest_of_saved`), whatever the order of entries and the
escapes: the file is loaded as the document that was digested.
-/

namespace CodeAtlas

open List Option

variable {p : Plan} {s s' : Session}

/-! ### Taking an entry out of a document -/

/-- The value at the end of a path of keys, and the document without that entry. -/
def Value.detach? : List String → Value → Option (Value × Value)
  | [key], .table es => do
    let v ← Keyed.get? key es
    return (v, .table (es.filter (·.1 ≠ key)))
  | key :: keys, .table es => do
    let inner ← Keyed.get? key es
    let (v, rest) ← inner.detach? keys
    return (v, .table (Keyed.put key rest es))
  | _, _ => none

lemma Value.Plain.of_detach? {ok : Int → Prop} {keys : List String} {v x rest : Value}
    (h : v.detach? keys = some (x, rest)) (hv : v.Plain ok) : rest.Plain ok := by
  fun_induction Value.detach? keys v generalizing x rest with
  | case1 key es =>
    obtain ⟨w, hw, heq⟩ := bind_eq_some_iff.mp h
    cases heq
    cases hv with
    | table hkeys hes =>
      exact .table (hkeys.sublist (filter_sublist.map _)) fun e he => hes e (mem_of_mem_filter he)
  | case2 key keys es hkeys ih =>
    obtain ⟨inner, hinner, heq⟩ := bind_eq_some_iff.mp h
    obtain ⟨⟨w, left⟩, hleft, heq⟩ := bind_eq_some_iff.mp heq
    cases heq
    cases hv with
    | table hnodup hes =>
      have hleft : left.Plain ok := ih inner hleft (hes _ (Keyed.mem_of_get? hinner))
      refine .table (Keyed.nodup_keys_put hnodup) fun e he => ?_
      rcases Keyed.mem_of_mem_put he with rfl | he
      · exact hleft
      · exact hes e he
  | case3 => cases h

namespace Catalog

open CodeAtlas.Action
open Value (AnyInt plain_nat plain_strings plain_table_map)

variable {c : Catalog} {n : Nat} {about : About} {o : Options}

/-! ### The document of a catalog is plain -/

@[simp] lemma plain_numbers (ns : List Nat) : (numbers ns).Plain AnyInt := by simp [numbers]

@[simp] lemma plain_number? (n : Option Nat) : (number? n).Plain AnyInt := by
  cases n with
  | none => exact .int trivial
  | some n => exact plain_nat n

@[simp] lemma plain_flagNumber (b : Bool) : (flagNumber b).Plain AnyInt := plain_nat _

lemma plain_header : (c.header about o).Plain AnyInt := by
  simp [header, totals, Options.compression]

lemma plain_parameterValue (h : c.parameters.keys.Nodup) : c.parameterValue.Plain AnyInt := by
  have hrows : ∀ rows : List ParameterRow, (Value.list (rows.map (·.toValue))).Plain AnyInt := by
    simp [ParameterRow.toValue]
  exact plain_table_map toString (fun _ _ => Json.toString_inj) hrows h

lemma plain_validation (hfiles : c.fileHashes.keys.Nodup) (hobjects : c.objectHashes.keys.Nodup) :
    c.validation.Plain AnyInt := by
  have hf := plain_table_map toString (fun _ _ => Json.toString_inj) Value.plain_str hfiles
  have ho := plain_table_map id (fun k l => id) Value.plain_str hobjects
  rw [validation, Value.plain_table]
  refine ⟨by simp, ?_⟩
  simp only [forall_mem_cons, not_mem_nil, false_imp_iff, implies_true, and_true]
  refine ⟨hf, ho, ?_⟩
  cases c.algorithm <;> cases c.dataHash <;> simp

/-- A document is plain if no key stands twice among those that come from the project. -/
lemma plain_document (hparameters : c.parameters.keys.Nodup) (hfiles : c.fileHashes.keys.Nodup)
    (hobjects : c.objectHashes.keys.Nodup) (about : About) (o : Options) :
    (c.document about o).Plain AnyInt := by
  have hnames : (if o.compress then Value.str (packNames o.compressor c.names.items) else
      Value.strings c.names.items).Plain AnyInt := by
    split_ifs <;> simp
  rw [document, Value.plain_table]
  refine ⟨by simp, ?_⟩
  simp only [forall_mem_cons, not_mem_nil, false_imp_iff, implies_true, and_true]
  refine ⟨plain_header, hnames, plain_strings _, ?_, ?_, ?_, plain_parameterValue hparameters, ?_,
    ?_, plain_validation hfiles hobjects, ?_⟩
  · simp [ModuleRow.toValue]
  · simp [ClassRow.toValue]
  · simp [FunctionRow.toValue]
  · simp [AttributeRow.toValue]
  · simp [DocstringRow.toValue]
  · simp [ImportRow.toValue]

/-! ### The digest in a document -/

/-- Where the digest of a document stands in it. -/
def digestKeys : List String := ["validation", "integritycheck", "datahash"]

/-- Taking the digest out of a document gives the document from before it was put in. -/
lemma detach?_document_withDataHash (h : c.dataHash = none) :
    ((c.withDataHash about o).document about o).detach? digestKeys =
      some (.str (documentHash o.hashLength (c.document about o)), c.document about o) := by
  have hvalidation : (c.withDataHash about o).validation.detach? ["integritycheck", "datahash"] =
      some (.str (documentHash o.hashLength (c.document about o)), c.validation) := by
    cases ha : c.algorithm <;>
      simp [validation, objectHashValue, withDataHash, Value.detach?, Keyed.get?, Keyed.put, h, ha]
  simp only [digestKeys, document, Value.detach?, Keyed.get?, Keyed.put, String.reduceEq,
    ↓reduceIte, bind_eq_bind, bind_some, hvalidation]
  rfl

/-! ### Catalogs that are made -/

/-- A catalog that is made gets its digests at the end, when its tables are in order. -/
lemma Sound.exists_of_generate {c' : Catalog} (hc : c.Sound c.classes.length)
    (h : generate p c s = (.ok c', s')) :
    ∃ (c₀ : Catalog) (algorithm : Nat), c₀.Sound c₀.classes.length ∧
      c' = c₀.complete p algorithm := by
  have hrenames := (renames_addNames c standardNames).trans (renames_addName _ "sha256")
  have hclasses : ((c.addNames standardNames).1.addName "sha256").1.classes = c.classes :=
    by rw [hrenames.eq]
  have hstart := hc.renames hrenames
  rw [← hclasses] at hstart
  obtain ⟨c₀, algorithm, hsound, -, heq⟩ := Catalog.exists_of_generate
    (P := fun _ c => c.Sound c.classes.length) (fun _ _ _ _ _ hc => hc.addModule _ _ _ _) hstart h
  exact ⟨c₀, algorithm, hsound, heq⟩

lemma nodup_keys_foldl_put {κ α β : Type} [DecidableEq κ] {l : Keyed κ α} (hl : l.keys.Nodup)
    (f : β → α) (es : List (κ × β)) : (es.foldl (fun hs e => hs.put e.1 (f e.2)) l).keys.Nodup := by
  induction es generalizing l with
  | nil => exact hl
  | cons e es ih => exact ih (Keyed.nodup_keys_put hl)

lemma Sound.document_complete (hc : c.Sound n) (p : Plan) (algorithm : Nat) :
    ((c.complete p algorithm).document p.about p.options).Plain AnyInt ∧
      ∃ rest, ((c.complete p algorithm).document p.about p.options).detach? digestKeys =
        some (.str (documentHash p.options.hashLength rest), rest) := by
  have hparameters : c.parameters.keys.Nodup := by
    rw [hc.parameterKeys]
    exact nodup_findIdxs
  have hobjects : (c.withObjectHashes p.options.hashLength).objectHashes.keys.Nodup := by
    rw [withObjectHashes, hc.undigested.1]
    exact nodup_keys_foldl_put (l := []) nodup_nil (textHash p.options.hashLength) c.objectTexts
  let done : Catalog := { c.withObjectHashes p.options.hashLength with algorithm := some algorithm }
  have hplain := plain_document
    (c := done.withDataHash p.about p.options) hparameters hc.hashedFiles hobjects p.about p.options
  exact ⟨hplain, done.document p.about p.options,
    detach?_document_withDataHash (c := done) hc.undigested.2⟩

/-! ### The file of a catalog -/

lemma exists_save {s₁ s₂ s₃ : Session} {content : List UInt8}
    (hdirs : makeDirs p.output s = (.ok (), s₁)) (hfault : c.documentFault? p = none)
    (hbytes : Document.bytes p.format (c.document p.about p.options) s₁ = (.ok content, s₂))
    (hwrite : writeBytes (p.output.child (fileName p)) content s₂ = (.ok (), s₃)) :
    ∃ s' : Session, save p c s = (.ok (), s') ∧ s'.tree.read (p.output.child (fileName p)) =
      .ok (content, s₂.now) := by
  have hread := read_of_writeBytes hwrite
  rw [save, bind_ok hdirs, hfault]
  dsimp only
  rw [bind_ok hbytes, bind_ok hwrite]
  refine Yields.exists_read ?_ hread
  exact (yields_fileSize hread).bind
    ((yields_print _).bind ((yields_print _).bind ((yields_print _).bind
    ((yields_forIn fun ⟨_, _, _⟩ _ => (yields_print _).bind (yields_pure _)).bind
    (yields_print _)))))

lemma exists_of_save (h : save p c s = (.ok (), s')) :
    ∃ content s₁ s₂ time, Document.bytes p.format (c.document p.about p.options) s₁ =
      (.ok content, s₂) ∧ s'.tree.read (p.output.child (fileName p)) = .ok (content, time) := by
  have hsave := h
  rw [save] at hsave
  obtain ⟨⟨⟩, s₁, hdirs, hsave⟩ := exists_of_bind_ok hsave
  rcases hfault : c.documentFault? p with _ | fault <;> rw [hfault] at hsave
  · obtain ⟨content, s₂, hbytes, hsave⟩ := exists_of_bind_ok hsave
    obtain ⟨⟨⟩, s₃, hwrite, -⟩ := exists_of_bind_ok hsave
    obtain ⟨s'', hs'', hread⟩ := exists_save hdirs hfault hbytes hwrite
    obtain ⟨-, rfl⟩ := Prod.mk.inj (h.symm.trans hs'')
    exact ⟨content, s₁, s₂, s₂.now, hbytes, hread⟩
  · -- after the empty file is written the fault is thrown
    obtain ⟨⟨⟩, s₂, -, hsave⟩ := exists_of_bind_ok hsave
    cases hsave

lemma suffix_file (p : Plan) {minify compress : Bool} (hformat : p.format = .json minify compress)
    (h : (p.output.child (fileName p)).suffix = ".gz") : compress = true := by
  cases compress with
  | true => rfl
  | false =>
    have hname : fileName p = "tech-index-py-" ++ p.root.name ++ "-v3" ++ p.format.suffix := rfl
    rw [hname, hformat] at h
    obtain ⟨w, hw⟩ := Path.exists_name_child p.output ("tech-index-py-" ++ p.root.name ++ "-v3")
      (e := ".json") (by decide) (by decide)
    exact absurd h (Path.splitSuffix_json hw)

/-- **The digest in the file of a catalog can be checked.** Whoever loads the file that a fresh
catalog was saved to, in whatever format, gets its document. Taking the digest out leaves a document
that can be written in the form that is digested, and the digest of that text is the one that was
taken out. Packed data is taken to come back as it was; it does if there is room for it in the
format (`Pack.unpack_pack`). -/
theorem digest_of_saved (p : Plan) {s s₁ s₂ : Session} {c : Catalog}
    (hgenerate : generate p {} s = (.ok c, s₁)) (hsave : save p c s₁ = (.ok (), s₂))
    (hpack : p.format = .packed → ∀ bytes, Pack.pack (c.document p.about p.options) = .ok bytes →
      Pack.unpack bytes = .ok (c.document p.about p.options)) : ∃ s₃ hash rest text,
      Document.load p.format (p.output.child (fileName p)) s₂ =
        (.ok (c.document p.about p.options), s₃) ∧
      (c.document p.about p.options).detach? digestKeys = some (.str hash, rest) ∧
      Json.write digestStyle rest = .ok text ∧ textHash p.options.hashLength text = hash := by
  obtain ⟨c₀, algorithm, hsound, rfl⟩ := sound_empty.exists_of_generate hgenerate
  obtain ⟨hplain, rest, hdetach⟩ := hsound.document_complete p algorithm
  obtain ⟨content, s₃, s₄, time, hbytes, hread⟩ := exists_of_save hsave
  obtain ⟨hwithin, hload⟩ :=
    Document.yields_load hplain hbytes hread (fun h => suffix_file p h) hpack
  obtain ⟨s₅, hs₅, -⟩ := hload s₂ rfl
  obtain ⟨text, htext⟩ := Json.exists_write digestStyle (hwithin.of_detach? hdetach)
  refine ⟨s₅, _, rest, text, hs₅, hdetach, htext, ?_⟩
  rw [documentHash, htext]
  rfl

/-! ### A packed catalog -/

/-- The text of a class with documentation and a method that has parameters. -/
def sizeText : String := "class A:\n    'Größe'\n    def f(self, x: 'ß' = 1): pass\n"

def sizePlan : Plan where
  root := twinRoot
  output := ⟨"/", ["o"]⟩
  options := { format := "msgpack" }
  format := .packed
  about := ⟨"", "/p", languageVersion⟩

def sizeSketch : ModuleSketch where
  imports := []
  definitions := [.class ⟨"A", [], [⟨"f", .plain, [], none,
    [⟨"self", none, none, .regular, true, rfl⟩, ⟨"x", some "ß", some "1", .regular, false, rfl⟩],
    none⟩], [], some "Größe"⟩]
  docstring := none

/-- The catalog of this file, all but its digests. -/
def sizeCatalog : Catalog where
  names := ⟨standardNames ++ ["sha256", "a", "A", "f", "self", "x", "ß", "1", "Größe"]⟩
  files := ⟨["a.py"]⟩
  nextLocation := 4
  modules := [⟨8, 0, 1⟩]
  classes := [⟨0, 9, [], [0], 3, []⟩]
  functions := [⟨0, some 0, 10, .plain, none, [0, 1], [], 2⟩]
  parameters := [(0, [⟨0, 11, none, none, .regular, true⟩,
    ⟨1, 12, some 13, some 14, .regular, false⟩])]
  docstrings := [⟨.class, 0, 15, 3⟩]
  fileHashes := [(0, fileHash 16 (Text.utf8Bytes sizeText))]

lemma moduleSketch_size :
    ∃ m, Syntax.parseModule? (Text.decodeAny (Text.utf8Bytes sizeText)).2 = some m ∧
    moduleSketch true m = .ok sizeSketch := by
  have h : (Syntax.parseModule? (Text.decodeAny (Text.utf8Bytes sizeText)).2).bind
      (fun m => (moduleSketch true m).toOption) = some sizeSketch := by decide +kernel
  obtain ⟨m, hm, hk⟩ := bind_eq_some_iff.mp h
  exact ⟨m, hm, ok_of_toOption hk⟩

lemma exists_generate_size : ∃ s : Session,
    generate sizePlan {}
      { tree := loneTree sizeText } = (.ok (sizeCatalog.complete sizePlan opening.2), s) ∧
      s.tree = loneTree sizeText := by
  obtain ⟨m, hm, hk⟩ := moduleSketch_size
  exact yields_generate_lone sizePlan (Text.utf8Bytes sizeText) rfl hm hk
    (c := sizeCatalog) rfl (by decide +kernel) rfl _ rfl


def sizeDocument : Value :=
  (sizeCatalog.complete sizePlan opening.2).document sizePlan.about sizePlan.options

lemma short_cutAt (t : String) : Pack.Short (Digest.cutAt 16 t) := by
  have hlength : (Digest.cutAt 16 t).length = min 16 t.toList.length := by simp [Digest.cutAt]
  refine Pack.short_of_length_lt (hlength ▸ ?_)
  omega

lemma packable_sizeDocument : Pack.Packable sizeDocument := by
  have hint : ∀ n, Pack.Packable (.int n) := .int
  have hall (a b d : String) (ha : Pack.Short a) (hb : Pack.Short b) (hd : Pack.Short d) :
    Pack.Packable
      (({ sizeCatalog with
          objectHashes := [("c0", a), ("f0", b)], algorithm := some 7, dataHash := some d } :
            Catalog).document
        sizePlan.about sizePlan.options) := by
    simp [document, header, Options.compression, totals, validation, objectHashValue,
      parameterValue,
      sizeCatalog, sizePlan, ModuleRow.toValue, ClassRow.toValue, FunctionRow.toValue,
      ParameterRow.toValue, DocstringRow.toValue, numbers, number?,
      flagNumber, sourceHash, textHash, fileHash, short_cutAt, ha, hb, hd, hint, Value.nat,
      Pack.packable_table, Pack.packable_list, Pack.packable_str, Value.strings, standardNames]
    and_intros <;> decide +kernel
  exact hall _ _ _ (short_cutAt _) (short_cutAt _) (short_cutAt _)


lemma exists_save_size (hs : s.tree = loneTree sizeText) :
    ∃ s' : Session, save sizePlan (sizeCatalog.complete sizePlan opening.2) s = (.ok (), s') := by
  let file : Files.Entry := .file (Text.utf8Bytes sizeText) 0
  let made : Files.Tree := ⟨.dir [("p", .dir [("a.py", file)]), ("o", .dir [])], []⟩
  have hmade : (loneTree sizeText).makeDirs sizePlan.output = (.ok (), made) := by
    rw [Files.Tree.makeDirs, Files.Tree.makeDirsBack.eq_def]
    rfl
  have hdirs : makeDirs sizePlan.output s = (.ok (), { s with tree := made }) := by
    have htree : tree s = (.ok (loneTree sizeText), s) := hs ▸ rfl
    rw [makeDirs, bind_ok htree, hmade]
    rfl
  have hfault : (sizeCatalog.complete sizePlan opening.2).documentFault? sizePlan = none := by
    change sizeCatalog.names.items.findSome? Text.encodeFault? = none
    decide +kernel
  obtain ⟨content, hpack⟩ : ∃ content, Pack.pack sizeDocument = .ok content := ⟨_, rfl⟩
  have hbytes : Document.bytes sizePlan.format sizeDocument { s with tree := made } =
      (.ok content, { s with tree := made }) := by
    have hformat : sizePlan.format = .packed := rfl
    rw [hformat, Document.bytes, hpack]
    rfl
  have hpath : made.Writable (sizePlan.output.child (fileName sizePlan)) :=
    ⟨.vacant _, rfl, by simp⟩
  obtain ⟨s₃, hwrite, -⟩ := exists_writeBytes (s := { s with tree := made }) hpath content
  exact (exists_save hdirs hfault hbytes hwrite).imp fun _ h => h.1

/-- The digest in a packed catalog of a project with one file. -/
theorem digest_of_saved_size :
    ∃ c s₁ s₂ s₃ hash rest text, c.classes.length = 1 ∧
      generate sizePlan {} { tree := loneTree sizeText } = (.ok c, s₁) ∧
      save sizePlan c s₁ = (.ok (), s₂) ∧
      Document.load .packed (sizePlan.output.child (fileName sizePlan)) s₂ =
        (.ok (c.document sizePlan.about sizePlan.options), s₃) ∧
      (c.document sizePlan.about sizePlan.options).detach? digestKeys = some (.str hash, rest) ∧
      Json.write digestStyle rest = .ok text ∧ textHash 16 text = hash := by
  obtain ⟨s₁, hgenerate, htree⟩ := exists_generate_size
  obtain ⟨s₂, hsave⟩ := exists_save_size htree
  obtain ⟨s₃, hash, rest, text, h⟩ := digest_of_saved sizePlan hgenerate hsave fun _ _ h =>
    Pack.unpack_pack packable_sizeDocument h
  exact ⟨_, s₁, s₂, s₃, hash, rest, text, rfl, hgenerate, hsave, h⟩

end Catalog

end CodeAtlas
