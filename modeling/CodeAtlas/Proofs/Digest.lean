import CodeAtlas.Proofs.Pack
import CodeAtlas.Proofs.Quoted
import CodeAtlas.Proofs.Session
import CodeAtlas.Workspace

/-!
# Digests by pieces and at once

A stream comes to the same hash however its bytes are cut (`Method.isHash_iff`), so all digests of
one content agree (`digests_agree`).
-/

namespace CodeAtlas

open List
open Text (utf8Bytes)

variable {bytes digest : List UInt8}

/-! ### Reading by pieces -/

namespace Digest

variable {size : Nat} {ps qs : List (List UInt8)}

/-- What is fed when bytes are read by pieces up to the end: as long as some are left, the next
`size` of them, or all that are left if these are fewer. -/
inductive Reads (size : Nat) : List UInt8 → List (List UInt8) → Prop where
  | done : Reads size [] []
  | read {bytes : List UInt8} {ps : List (List UInt8)} (left : bytes ≠ [])
    (rest : Reads size (bytes.drop size) ps) : Reads size bytes (bytes.take size :: ps)

lemma Reads.flatten (h : Reads size bytes ps) : ps.flatten = bytes := by
  induction h with
  | done => rfl
  | read left rest ih => rw [flatten_cons, ih, take_append_drop]

lemma Reads.unique (hp : Reads size bytes ps) (hq : Reads size bytes qs) : ps = qs := by
  induction hp generalizing qs with
  | done =>
    cases hq with
    | done => rfl
    | read left => exact absurd rfl left
  | read left rest ih =>
    cases hq with
    | done => exact absurd rfl left
    | read _ rest' => rw [ih rest']

lemma Reads.length_of_dvd (h : Reads size bytes ps) (hdvd : size ∣ bytes.length) :
    ∀ p ∈ ps, p.length = size := by
  induction h with
  | done => simp
  | @read bytes ps left rest ih =>
    have hle : size ≤ bytes.length := Nat.le_of_dvd (length_pos_iff.mpr left) hdvd
    refine forall_mem_cons.mpr ⟨length_take_of_le hle, ih ?_⟩
    rw [length_drop]
    exact Nat.dvd_sub hdvd (Nat.dvd_refl size)

/-- The bound on the number of pieces cuts nothing off. -/
lemma reads_piecesFrom {fuel : Nat} (h : bytes.length ≤ fuel * size) :
    Reads size bytes (piecesFrom size fuel bytes) := by
  induction fuel generalizing bytes with
  | zero =>
    obtain rfl : bytes = [] := by simpa using h
    exact .done
  | succ fuel ih =>
    by_cases hleft : bytes = []
    · rw [hleft]
      exact .done
    · have hrest : (bytes.drop size).length ≤ fuel * size := by
        rw [length_drop, Nat.sub_le_iff_le_add, ← Nat.succ_mul]
        exact h
      have hstep : piecesFrom size (fuel + 1) bytes =
          bytes.take size :: piecesFrom size fuel (bytes.drop size) := by
        simp [piecesFrom, hleft]
      rw [hstep]
      exact .read hleft (ih hrest)

lemma exists_reads (hsize : 0 < size) (bytes : List UInt8) : ∃ ps, Reads size bytes ps :=
  ⟨_, reads_piecesFrom (Nat.le_mul_of_pos_right bytes.length hsize)⟩

lemma reads_iff : Reads pieceSize bytes ps ↔ ps = pieces bytes := by
  have hlength : bytes.length ≤ (bytes.length / pieceSize + 1) * pieceSize := by
    rw [Nat.mul_comm]
    exact Nat.le_of_lt (Nat.lt_mul_div_succ _ (by decide))
  exact ⟨fun h => h.unique (reads_piecesFrom hlength), fun h => h ▸ reads_piecesFrom hlength⟩

end Digest

/-! ### Streams and messages -/

namespace Hash

namespace Method

variable {σ : Type} {m : Method σ} {blocks : List (List UInt8)}

/-- The bytes that a state is written as, once a message is taken in block by block. -/
def ofBlocks (m : Method σ) (blocks : List (List UInt8)) : List UInt8 :=
  (m.words (blocks.foldl (fun st b => m.compress st (m.endian.words b)) m.start)).flatMap
    fun w => m.endian.bytes 4 w.toNat

/-- The hash of bytes, as it is defined on whole messages: the bytes, a mark, the fewest zeros that
fill the last block up and the length in bits are a row of blocks. -/
def IsHash (m : Method σ) (bytes digest : List UInt8) : Prop :=
  ∃ zeros < 64, ∃ blocks : List (List UInt8), (∀ b ∈ blocks, b.length = 64) ∧
    blocks.flatten = bytes ++
    0x80 :: (replicate zeros 0 ++ m.endian.bytes 8 (bytes.length * 8 % Nat.pow 2 64)) ∧
    digest = m.ofBlocks blocks

lemma update_waiting (bytes : List UInt8) (s : Stream σ) (h : s.count % 64 + bytes.length < 64) :
    m.update s bytes =
      { s with waiting := bytes.reverse ++ s.waiting, count := s.count + bytes.length } := by
  induction bytes generalizing s with
  | nil => rfl
  | cons b bytes ih =>
    rw [length_cons] at h
    have hpush : m.push s b = { s with waiting := b :: s.waiting, count := s.count + 1 } :=
      if_neg (by omega)
    have hcount : (s.count + 1) % 64 + bytes.length < 64 := by omega
    rw [update, foldl_cons, hpush]
    refine (ih _ hcount).trans ?_
    simp [Nat.add_comm, Nat.add_left_comm]

/-- A block that finds nothing waiting is taken in whole. -/
lemma update_block {block : List UInt8} (hblock : block.length = 64) (st : σ) (n : Nat) :
    m.update ⟨st, [], 64 * n⟩ block = ⟨m.compress st (m.endian.words block), [], 64 * (n + 1)⟩ := by
  obtain ⟨front, b, rfl⟩ :=
    (eq_nil_or_concat' block).resolve_left (ne_nil_of_length_eq_add_one hblock)
  have hfront : front.length = 63 := by simpa using hblock
  rw [update_append, update_waiting front _ (by simp [hfront])]
  have hfull : (64 * n + 63) % 64 = 63 := by omega
  simp [update, push, hfull, hfront, Nat.mul_add]

lemma foldl_update_blocks (m : Method σ) (st : σ) (n : Nat) (h : ∀ b ∈ blocks, b.length = 64) :
    blocks.foldl m.update ⟨st, [], 64 * n⟩ =
      ⟨blocks.foldl (fun st b => m.compress st (m.endian.words b)) st, [],
      64 * (n + blocks.length)⟩ := by
  induction blocks generalizing st n with
  | nil => rfl
  | cons b blocks ih =>
    obtain ⟨hb, hblocks⟩ := forall_mem_cons.mp h
    rw [foldl_cons, update_block hb, ih _ _ hblocks, length_cons, foldl_cons, Nat.add_assoc,
      Nat.add_comm 1]

lemma count_update (s : Stream σ) : (m.update s bytes).count = s.count + bytes.length := by
  induction bytes generalizing s with
  | nil => rfl
  | cons b bytes ih =>
    have hpush : (m.push s b).count = s.count + 1 := by
      unfold push
      split <;> rfl
    rw [update, foldl_cons, ← update, ih, hpush, length_cons, Nat.add_assoc, Nat.add_comm 1]

/-- However its padding is found, a message of whole blocks is hashed block by block. -/
lemma hash_eq_ofBlocks (hblocks : ∀ b ∈ blocks, b.length = 64)
    (hflatten : blocks.flatten = bytes ++ m.padding bytes.length) :
    m.hash bytes = m.ofBlocks blocks := by
  have hcount : (m.update m.fresh bytes).count = bytes.length :=
    (count_update _).trans (Nat.zero_add _)
  have hstream := foldl_update_blocks m m.start 0 hblocks
  rw [update_flatten, hflatten, update_append] at hstream
  rw [hash, close, hcount, ofBlocks]
  exact congrArg (fun s : Stream σ => (m.words s.state).flatMap fun w => m.endian.bytes 4 w.toNat)
    hstream

lemma length_flatten_blocks (h : ∀ b ∈ blocks, b.length = 64) : 64 ∣ blocks.flatten.length := by
  induction blocks with
  | nil => simp
  | cons b blocks ih =>
    obtain ⟨hb, hblocks⟩ := forall_mem_cons.mp h
    rw [flatten_cons, length_append, hb]
    exact Nat.dvd_add (Nat.dvd_refl 64) (ih hblocks)

/-- A stream comes to the hash that is defined on the message, and the message has no other. -/
lemma isHash_iff : m.IsHash bytes digest ↔ digest = m.hash bytes := by
  constructor
  · rintro ⟨zeros, hzeros, blocks, hblocks, hflatten, rfl⟩
    have hdvd := length_flatten_blocks hblocks
    rw [hflatten, length_append, length_cons, length_append, length_replicate,
      Pack.length_bytes] at hdvd
    obtain rfl : zeros = (119 - bytes.length % 64) % 64 := by omega
    exact (hash_eq_ofBlocks hblocks hflatten).symm
  · rintro rfl
    obtain ⟨blocks, hreads⟩ :=
      Digest.exists_reads (show 0 < 64 by decide) (bytes ++ m.padding bytes.length)
    have hblocks : ∀ b ∈ blocks, b.length = 64 := hreads.length_of_dvd (by
      rw [padding, length_append, length_cons, length_append, length_replicate, Pack.length_bytes]
      omega)
    exact ⟨_, Nat.mod_lt _ (by decide), blocks, hblocks, hreads.flatten,
      hash_eq_ofBlocks hblocks hreads.flatten⟩

end Method

lemma length_hexText : (hexText bytes).toList.length = 2 * bytes.length := by
  rw [hexText, String.toList_ofList]
  induction bytes with
  | nil => rfl
  | cons b bytes ih =>
    rw [flatMap_cons, length_append, ih, Text.length_hexDigits, length_cons, Nat.mul_succ,
      Nat.add_comm]

lemma length_sha256 : (sha256.hash bytes).length = 32 := by
  simp [Method.hash, Method.close, sha256, Pack.length_bytes]

end Hash

/-! ### Digests of one content -/

namespace Digest

open CodeAtlas.Action

variable {t : Files.Tree} {path : Path} {time : Int} {length : Nat}

/-- The first digits of the hash of a content. -/
def leading (length : Nat) (bytes : List UInt8) : String :=
  cut length (Hash.hexText (Hash.sha256.hash bytes))

lemma ofPieces_sha256 : ofPieces .sha256 bytes = Hash.hexText (Hash.sha256.hash bytes) := by
  have hflatten : (pieces bytes).flatten = bytes := (reads_iff.mpr rfl).flatten
  rw [ofPieces, Hash.Method.hashPieces, Hash.Method.update_flatten, hflatten]
  rfl

lemma cutAt_natCast (digest : String) : cutAt length digest = cut length digest := by
  simp [cutAt, cut]

lemma yields_lengthOf (h : length ∈ hashLengths) :
    Yields (lengthOf (.nat length)) t (.ok length) := by
  have hlength : length? (.nat length) = some length := by
    simp only [hashLengths, mem_cons, not_mem_nil, or_false] at h
    rcases h with rfl | rfl | rfl | rfl <;> rfl
  unfold lengthOf
  rw [hlength]
  exact yields_pure length

lemma yields_ofFile (hread : t.read path = .ok (bytes, time)) (hlength : length ∈ hashLengths) :
    Yields (ofFile path (.nat length)) t (.ok (leading length bytes)) := by
  refine (yields_lengthOf hlength).bind ((yields_isThere hread).bind ((yields_isFile hread).bind
    (Yields.onFailure ?_ _)))
  rw [leading, ← ofPieces_sha256]
  exact (yields_readBytes hread).bind ((yields_log _ _ _).bind (yields_pure _))

lemma yields_digest (hread : t.read path = .ok (bytes, time)) (hlength : length ∈ hashLengths) :
    Yields (Workspace.digest path "sha256" (some length)) t (.ok (leading length bytes)) := by
  have hpositive : 0 < (length : Int) := by
    simp only [hashLengths, mem_cons, not_mem_nil, or_false] at hlength
    omega
  have hrequire : Yields (Workspace.requireFile path) t (.ok ()) :=
    (yields_isThere hread).bind ((yields_isFile hread).bind (yields_pure _))
  refine hrequire.bind (Yields.onFailure ?_ _)
  rw [leading, ← ofPieces_sha256]
  refine (yields_readBytes hread).bind ?_
  simp only [if_pos hpositive, Int.toNat_natCast]
  exact (yields_log _ _ _).bind (yields_pure _)

lemma yields_ofContent (text : String) (hlength : length ∈ hashLengths) :
    Yields (ofContent (.str text) (.nat length)) t (.ok (leading length (utf8Bytes text))) :=
  (yields_lengthOf hlength).bind ((yields_log _ _ _).bind (yields_pure _))

/-- **All digests of one content agree.** If a file holds the UTF-8 bytes of a text, then the two
ways to digest a file, the digest of a file in a catalog, that of the text and that of the text in a
catalog come to the same digits: the first ones of the SHA-256 hash, the only bytes that are a hash
of the content. Reading by pieces ends, in one way only, and feeds every byte once and in its order.
-/
theorem digests_agree {text : String} (hread : t.read path = .ok (utf8Bytes text, time))
    (hlength : length ∈ hashLengths) :
    ∃ hash d, (∀ x, Hash.sha256.IsHash (utf8Bytes text) x ↔ x = hash) ∧
      d.toList = (Hash.hexText hash).toList.take length ∧ d.length = length ∧
      Yields (ofFile path (.nat length)) t (.ok d) ∧
      Yields (Workspace.digest path "sha256" (some length)) t (.ok d) ∧
      Yields (Catalog.fileHash length <$> readBytes path) t (.ok d) ∧
      Yields (ofContent (.str text) (.nat length)) t (.ok d) ∧ Catalog.textHash length text = d ∧
      (∀ ps, Reads pieceSize (utf8Bytes text) ps ↔ ps = pieces (utf8Bytes text)) ∧
      (pieces (utf8Bytes text)).flatten = utf8Bytes text := by
  have hdigits : (leading length (utf8Bytes text)).length = length := by
    rw [leading, cut, String.length_ofList, length_take, Hash.length_hexText, Hash.length_sha256]
    simp only [hashLengths, mem_cons, not_mem_nil, or_false] at hlength
    omega
  have hfile : Catalog.fileHash length (utf8Bytes text) =
      leading length (utf8Bytes text) := by
    rw [Catalog.fileHash, cutAt_natCast, ofPieces_sha256, leading]
  refine ⟨_, leading length (utf8Bytes text), fun x => Hash.Method.isHash_iff,
    String.toList_ofList, hdigits,
    yields_ofFile hread hlength, yields_digest hread hlength, ?_, yields_ofContent text hlength,
    cutAt_natCast _, fun ps => reads_iff, (reads_iff.mpr rfl).flatten⟩
  rw [map_eq_pure_bind, ← hfile]
  exact (yields_readBytes hread).bind (yields_pure _)

/-- A text whose file is one piece, of 64 whole blocks. -/
def fullPiece : String := String.ofList (replicate 4096 'a')

def fullPieceTree : Files.Tree := ⟨.dir [("a", .file (utf8Bytes fullPiece) 0)], []⟩

theorem digests_agree_full_piece :
    fullPieceTree.read (Path.ofString "a") = .ok (utf8Bytes fullPiece, 0) ∧ 16 ∈ hashLengths ∧
      ∃ d : String, d.length = 16 ∧
      Yields (ofFile (Path.ofString "a") (.nat 16)) fullPieceTree (.ok d) ∧
        Yields (ofContent (.str fullPiece) (.nat 16)) fullPieceTree (.ok d) := by
  have hread : fullPieceTree.read (Path.ofString "a") = .ok (utf8Bytes fullPiece, 0) := rfl
  have hlength : 16 ∈ hashLengths := by decide
  obtain ⟨-, d, -, -, hd, hfile, -, -, htext, -⟩ := digests_agree hread hlength
  exact ⟨hread, hlength, d, hd, hfile, htext⟩

example : leading 16 (utf8Bytes "abc") = "ba7816bf8f01cfea" := by decide +kernel

end Digest

end CodeAtlas
