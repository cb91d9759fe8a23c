import CodeAtlas.Command.Audit
import CodeAtlas.Proofs.Gzip
import CodeAtlas.Proofs.Pack
import CodeAtlas.Proofs.Path
import CodeAtlas.Proofs.Session

/-!
# Documents come back from their files

Whoever knows the format of a file loads what its bytes were made of (`yields_load`). Without it the
name and the first two bytes decide, and no JSON text starts like a compressed file.
-/

namespace CodeAtlas.Document

open List CodeAtlas.Action String
open Text (utf8Bytes)

variable {format : Format} {data v : Value} {s s' : Session} {content : List UInt8} {time : Int}
  {compress compressed minify : Bool} {cs : List Char} {t : Files.Tree} {path : Path}

/-! ### Writing -/

lemma exists_save (hbytes : bytes format data s = (.ok content, s)) (hpath : s.tree.Writable path) :
    ∃ s' : Session, save format data path s = (.ok (), s') ∧
      s'.tree.read path = .ok (content, s.now) := by
  obtain ⟨s₁, hwrite, hread⟩ := exists_writeBytes hpath content
  obtain ⟨s₂, hs₂, hread2⟩ : ∃ s₂ : Session, (do
      info s!"Serialized{format.mark} to {path.text}"
      let size ← fileSize path
      debug s!"Output file size: {size} bytes" : Action Unit) s₁ = (.ok (), s₂) ∧
        s₂.tree.read path = .ok (content, s.now) :=
    Yields.exists_read ((yields_log _ _ _).bind ((yields_fileSize hread).bind (yields_log _ _ _)))
      hread
  refine ⟨s₂, onFailure_ok ?_ _, hread2⟩
  rw [bind_ok hbytes, bind_ok hwrite, hs₂]

lemma yields_save_error {e : Failure}
    (h : Yields (bytes format data >>= writeBytes path) t (.error e)) :
    Yields (save format data path) t (.error e) := by
  unfold save onFailure
  refine Yields.bind (Yields.attempt (r := .error e) ?_) ?_
  · rw [← bind_assoc]
    exact h.bind_error _
  · refine Yields.bind (x := ()) ?_ (yields_throw e)
    dsimp only
    split_ifs <;> exact yields_log _ _ _

/-! ### Reading -/

lemma yields_isCompressed (hread : t.read path = .ok (content, time))
    (hsuffix : path.suffix = ".gz" → compressed = true)
    (hmagic : content.take 2 = Gzip.magic ↔ compressed = true) :
    Yields (isCompressed path) t (.ok compressed) := by
  unfold isCompressed
  by_cases hgz : path.suffix = ".gz"
  · rw [if_pos hgz, hsuffix hgz]
    exact (yields_pure true).bind (yields_pure _)
  · rw [if_neg hgz]
    refine (yields_readBytes hread).attempt.bind ?_
    have hdecide : decide (content.take 2 = Gzip.magic) = compressed := by
      rw [Bool.eq_iff_iff, decide_eq_true_iff, hmagic]
    rw [← hdecide]
    exact yields_pure _

lemma yields_textAt {text : String} (hreturn : '\r' ∉ text.toList) (hread : t.read path =
      .ok (if compressed then Gzip.compress (utf8Bytes text) else utf8Bytes text, time)) :
    Yields (textAt path compressed) t (.ok text.toList) := by
  have htext : Yields (do return Text.unifyNewlines (← decode (utf8Bytes text))) t
      (.ok text.toList) := by
    refine (yields_decode (Text.utf8_utf8Bytes text)).bind ?_
    rw [Text.unifyNewlines_of_notMem hreturn]
    exact yields_pure _
  refine (yields_readBytes hread).bind ?_
  cases compressed with
  | false => exact (yields_pure _).bind htext
  | true =>
    have hdecompress : Yields (decompress (Gzip.compress (utf8Bytes text))) t
        (.ok (utf8Bytes text)) := by
      unfold decompress
      rw [Gzip.decompress_compress]
      exact yields_pure _
    exact hdecompress.bind htext

lemma yields_loadJson (hread : t.read path = .ok (content, time))
    (hcompressed : Yields (isCompressed path) t (.ok compressed))
    (htext : Yields (textAt path compressed) t (.ok cs)) (hjson : Json.readChars cs = .ok v) :
    Yields (loadJson path) t (.ok v) := by
  have hthere : Yields (requireThere path) t (.ok ()) := (yields_isThere hread).bind (yields_pure _)
  have hparse : Yields (parseJson cs) t (.ok v) := by
    unfold parseJson
    rw [hjson]
    exact yields_pure v
  refine hthere.bind (Yields.bind (Yields.attempt (hcompressed.bind (htext.bind (hparse.bind
    ((yields_log _ _ _).bind (yields_pure v)))))) ?_)
  exact yields_pure v

/-! ### Plain values -/

lemma faithful_jsonStyle (minify : Bool) : (jsonStyle minify).Faithful := ⟨rfl, rfl⟩

lemma take_utf8Bytes_ne_magic (h : Json.Reads cs v) :
    (utf8Bytes (ofList cs)).take 2 ≠ Gzip.magic := by
  obtain ⟨c, rest, rfl, hc⟩ := h.opens
  obtain ⟨-, -, hlow, hhigh⟩ := Json.of_mem_openings hc
  rw [Text.utf8Bytes_cons_of_lt hhigh]
  intro heq
  have hbyte : c.toNat.toUInt8 = 0x1f := (List.cons.inj heq).1
  have hnat : c.toNat.toUInt8.toNat = 31 := by rw [hbyte]; rfl
  rw [Nat.toUInt8, UInt8.toNat_ofNat'] at hnat
  omega

/-- What a file of a JSON text holds. -/
def contentOf (compress : Bool) (cs : List Char) : List UInt8 :=
  if compress then Gzip.compress (utf8Bytes (ofList cs)) else utf8Bytes (ofList cs)

lemma bytes_json (h : Json.writeChars (jsonStyle minify) 0 v = .ok cs) (compress : Bool)
    (s : Session) : bytes (.json minify compress) v s = (.ok (contentOf compress cs), s) := by
  have hwrite : Json.write (jsonStyle minify) v = .ok (ofList cs) := by
    rw [Json.write, h]
    rfl
  have htext : jsonText (jsonStyle minify) v s = (.ok (ofList cs), s) := by
    rw [jsonText, hwrite]
    rfl
  exact bind_ok htext _

lemma yields_of_reads (hreads : Json.Reads cs v) (hsuffix : path.suffix = ".gz" → compress = true)
    (hread : t.read path = .ok (contentOf compress cs, time)) :
    Yields (isCompressed path) t (.ok compress) ∧ Yields (loadJson path) t (.ok v) := by
  have hcompressed : Yields (isCompressed path) t (.ok compress) := by
    refine yields_isCompressed hread hsuffix ?_
    cases compress with
    | false => simpa [contentOf] using take_utf8Bytes_ne_magic hreads
    | true => simp [contentOf, Gzip.take_compress]
  have hreturn : '\r' ∉ (ofList cs).toList := by
    rw [toList_ofList]
    exact hreads.returns
  have htext := yields_textAt hreturn hread
  rw [toList_ofList] at htext
  exact ⟨hcompressed, yields_loadJson hread hcompressed htext hreads.readChars⟩

/-! ### Files of a known format -/

/-- Reads a document from a file of a known format. -/
def load : Format → Path → Action Value
  | .json _ _ => loadJson
  | .packed => loadPacked

lemma yields_loadPacked (hread : t.read path = .ok (content, time))
    (hunpack : Pack.unpack content = .ok v) : Yields (loadPacked path) t (.ok v) := by
  have hthere : Yields (requireThere path) t (.ok ()) := (yields_isThere hread).bind (yields_pure _)
  refine hthere.bind
    (Yields.bind (Yields.attempt (r := .ok v) ((yields_readBytes hread).bind ?_)) (yields_pure v))
  rw [hunpack]
  exact (yields_log _ _ _).bind (yields_pure v)

lemma exists_of_bytes_json (h : bytes (.json minify compress) v s = (.ok content, s')) :
    ∃ cs, Json.writeChars (jsonStyle minify) 0 v = .ok cs ∧ content = contentOf compress cs := by
  rcases hcs : Json.writeChars (jsonStyle minify) 0 v with e | cs
  · have hwrite : Json.write (jsonStyle minify) v = .error e := by
      rw [Json.write, hcs]
      rfl
    obtain ⟨text, s₁, htext, -⟩ := exists_of_bind_ok h
    rw [jsonText, hwrite] at htext
    cases htext
  · rw [bytes_json hcs] at h
    cases h
    exact ⟨cs, rfl, rfl⟩

lemma pack_of_bytes (h : bytes .packed v s = (.ok content, s')) : Pack.pack v = .ok content := by
  rcases hpack : Pack.pack v with e | bs
  · simp only [bytes, hpack] at h
    cases h
  · simp only [bytes, hpack] at h
    cases h
    rfl

/-- A document is loaded from the file that holds its bytes. -/
lemma yields_load {ok : Int → Prop} (hv : v.Plain ok)
    (hbytes : bytes format v s = (.ok content, s')) (hread : t.read path = .ok (content, time))
    (hsuffix : ∀ {minify compress}, format = .json minify compress → path.suffix = ".gz" →
      compress = true)
    (hpack : format = .packed → ∀ bytes, Pack.pack v = .ok bytes → Pack.unpack bytes = .ok v) :
    v.Plain Digits.Within ∧ Yields (load format path) t (.ok v) := by
  cases format with
  | json minify compress =>
    obtain ⟨cs, hcs, rfl⟩ := exists_of_bytes_json hbytes
    have hreads := Json.reads_of_writeChars hv (faithful_jsonStyle minify) hcs
    exact ⟨Json.plain_of_writeChars hv hcs, (yields_of_reads hreads (hsuffix rfl) hread).2⟩
  | packed =>
    have hcontent := pack_of_bytes hbytes
    have hplain := (Pack.inRange_of_packAt hv hcontent).imp fun _ => Pack.within_of_inRange
    exact ⟨hplain, yields_loadPacked hread (hpack rfl _ hcontent)⟩

lemma bytes_packed {bs : List UInt8} (h : Pack.pack v = .ok bs) :
    bytes .packed v s = (.ok bs, s) := by
  simp only [bytes, h]
  rfl

lemma yields_bytes_packed_error {f : Pack.Fault} (h : Pack.pack v = .error f) :
    Yields (bytes .packed v) t (.error (.pack f)) := by
  simp only [bytes, h]
  exact yields_throw _

lemma exists_save_packed (v : Value) (path : Path) (s : Session) :
    (∃ bs s', Pack.pack v = .ok bs ∧ s.tree.Writable path ∧ save .packed v path s = (.ok (), s') ∧
      s'.tree.read path = .ok (bs, s.now)) ∨
      ((∃ bs, Pack.pack v = .ok bs) → ¬ s.tree.Writable path) ∧
      ∃ e s', save .packed v path s = (.error e, s') ∧ s'.tree = s.tree := by
  rcases hpack : Pack.pack v with f | bs
  · obtain ⟨s', hsave, htree⟩ :=
      yields_save_error ((yields_bytes_packed_error hpack).bind_error (writeBytes path)) s rfl
    exact .inr ⟨by simp, _, s', hsave, htree⟩
  · by_cases hpath : s.tree.Writable path
    · obtain ⟨s', hsave, hread⟩ := exists_save (bytes_packed hpack) hpath
      exact .inl ⟨bs, s', rfl, hpath, hsave, hread⟩
    · obtain ⟨e, hwrite⟩ := exists_yields_writeBytes_error hpath
      have hbytes : Yields (bytes .packed v) s.tree (.ok bs) :=
        fun s hs => ⟨s, bytes_packed hpack, hs⟩
      obtain ⟨s', hsave, htree⟩ := yields_save_error (hbytes.bind hwrite) s rfl
      exact .inr ⟨fun _ => hpath, e, s', hsave, htree⟩

/-! ### Saved documents -/

lemma suffix_outputFile (dir : Path) (stem : String)
    (h : (Command.outputFile dir stem (.json minify compress)).suffix = ".gz") :
    compress = true := by
  cases compress with
  | true => rfl
  | false =>
    obtain ⟨w, hw⟩ := Path.exists_name_child dir stem (e := ".json") (by decide) (by decide)
    exact absurd h (Path.splitSuffix_json hw)

/-- **Plain documents come back from their files.** A plain value is saved in either layout,
compressed or not, under any name that says `.gz` only of a compressed file, as all names of output
files do. The file is then found to be compressed exactly if it is, and loading it gives the value,
with the entries of all tables in their order. -/
theorem load_saved_json {v : Value} (hv : v.Plain Digits.Within) (minify compress : Bool) :
    (∀ dir stem, (Command.outputFile dir stem (.json minify compress)).suffix = ".gz" →
      compress = true) ∧
      ∀ {path : Path} {s : Session}, (path.suffix = ".gz" → compress = true) →
      s.tree.Writable path →
        ∃ s₁ s₂ s₃, save (.json minify compress) v path s = (.ok (), s₁) ∧
          isCompressed path s₁ = (.ok compress, s₂) ∧ loadJson path s₁ = (.ok v, s₃) := by
  refine ⟨fun dir stem h => suffix_outputFile dir stem h, fun hsuffix hpath => ?_⟩
  obtain ⟨cs, hcs⟩ := Json.exists_writeChars (jsonStyle minify) hv 0
  obtain ⟨s₁, hsave, hread⟩ := exists_save (bytes_json hcs compress _) hpath
  obtain ⟨hcompressed, hload⟩ :=
    yields_of_reads (Json.reads_of_writeChars hv (faithful_jsonStyle minify) hcs) hsuffix hread
  obtain ⟨s₂, hs₂, -⟩ := hcompressed s₁ rfl
  obtain ⟨s₃, hs₃, -⟩ := hload s₁ rfl
  exact ⟨s₁, s₂, s₃, hsave, hs₂, hs₃⟩

/-- A value of every kind, with characters that are escaped and some that are not. -/
def sample : Value :=
  .table [("\u043a", .list [.null, .bool false, .int (-4300), .str "\"\\\r\n\x01\x7f\u20ac"]),
    ("", .table []), ("a", .list [])]

lemma plain_sample : sample.Plain Digits.Within := by
  have hint : Digits.Within (-4300) := by decide
  refine .table (by decide) ?_
  simp only [forall_mem_cons, not_mem_nil, false_imp_iff, implies_true, and_true]
  refine ⟨.list ?_, .table nodup_nil (by simp), .list (by simp)⟩
  simp only [forall_mem_cons, not_mem_nil, false_imp_iff, implies_true, and_true]
  exact ⟨.null, .bool false, .int hint, .str _⟩

/-- A compressed document comes back from a file whose name does not tell. -/
theorem load_saved_json_sample :
    sample.Plain Digits.Within ∧ (⟨.dir [], []⟩ : Files.Tree).Writable ⟨"", ["out.bin"]⟩ ∧
      ∃ s₁ s₂ s₃, save (.json true true) sample ⟨"", ["out.bin"]⟩
        { tree := ⟨.dir [], []⟩ } = (.ok (), s₁) ∧
        isCompressed ⟨"", ["out.bin"]⟩ s₁ = (.ok true, s₂) ∧
        loadJson ⟨"", ["out.bin"]⟩ s₁ = (.ok sample, s₃) := by
  have hpath : (⟨.dir [], []⟩ : Files.Tree).Writable ⟨"", ["out.bin"]⟩ :=
    ⟨.vacant ["out.bin"], by rfl, by simp⟩
  exact ⟨plain_sample, hpath, (load_saved_json plain_sample true true).2 (fun _ => rfl) hpath⟩

/-- **Packed documents are saved whole or not at all.** A value whose lengths fit into four bytes,
and whose lists and tables are nested at most five hundred deep, is saved exactly if all its
integers fit into eight bytes and a file can be written at the path. The file is then loaded as the
value. Otherwise all files stay as they were. -/
theorem save_packed_whole {v : Value} (hv : Pack.Packable v) (hnesting : v.nesting ≤ 500)
    (path : Path) (s : Session) :
    ((save .packed v path s).1 = .ok () ↔ v.Plain Pack.InRange ∧ s.tree.Writable path) ∧
      (∀ s₁, save .packed v path s = (.ok (), s₁) → ∃ s₂, loadPacked path s₁ = (.ok v, s₂)) ∧
      ∀ e s₁, save .packed v path s = (.error e, s₁) → s₁.tree = s.tree := by
  have hrange := Pack.exists_pack_iff hv.plain (Nat.le_trans hnesting (by decide))
  rcases exists_save_packed v path s with ⟨bs, s', hpack, hpath, hsave, hread⟩ | ⟨hnone, e, s',
    hsave, htree⟩
  · rw [hsave]
    refine ⟨iff_of_true rfl ⟨hrange.mp ⟨bs, hpack⟩, hpath⟩, ?_, nofun⟩
    rintro s₁ ⟨⟩
    obtain ⟨s₂, hload, -⟩ := yields_loadPacked hread (Pack.unpack_pack hv hpack) s' rfl
    exact ⟨s₂, hload⟩
  · rw [hsave]
    refine ⟨iff_of_false nofun fun h => hnone (hrange.mpr h.1) h.2, nofun, ?_⟩
    rintro e' s₁ ⟨⟩
    exact htree

lemma packable_sample : Pack.Packable sample := by
  have hint := Pack.Packable.int (-4300)
  refine .table (by decide) (by decide) (by decide +kernel) ?_
  simp only [forall_mem_cons, not_mem_nil, false_imp_iff, implies_true, and_true]
  refine ⟨.list (by decide) ?_, .table (by decide) nodup_nil (by simp) (by simp),
    .list (by decide) (by simp)⟩
  simp only [forall_mem_cons, not_mem_nil, false_imp_iff, implies_true, and_true]
  exact ⟨.null, .bool false, hint, .str (by decide +kernel)⟩

/-- A value of every kind, at a path where there is nothing yet. -/
theorem save_packed_whole_sample : Pack.Packable sample ∧ sample.nesting ≤ 500 ∧
      ((save .packed sample ⟨"", ["out.bin"]⟩ { tree := ⟨.dir [], []⟩ }).1 = .ok () ↔
        sample.Plain Pack.InRange ∧ (⟨.dir [], []⟩ : Files.Tree).Writable ⟨"", ["out.bin"]⟩) := by
  have hnesting : sample.nesting ≤ 500 := by decide
  exact ⟨packable_sample, hnesting, (save_packed_whole packable_sample hnesting _ _).1⟩

end CodeAtlas.Document
