import CodeAtlas.Data.Gzip
import Mathlib.Data.List.Basic

/-!
# Compressing and decompressing

A compressed file is read as what was compressed (`Gzip.decompress_compress`).
-/

namespace CodeAtlas

open List Nat

namespace Deflate

lemma pair_pairBytes {n : Nat} (h : n < 65536) :
    pair (n % 256).toUInt8 (n / 256 % 256).toUInt8 = n := by
  simp only [pair, Nat.toUInt8, UInt8.toNat_ofNat']
  omega

lemma blocks_storedBlock (isLast : Bool) {bytes : List UInt8} (h : bytes.length ≤ storedMax)
    (more : List UInt8) (fuel : Nat) (out : Array UInt8) :
    blocks (fuel + 1) { rest := storedBlock isLast bytes ++ more } out =
      if isLast then .ok ({ rest := more }, out ++ bytes) else blocks fuel { rest := more }
        (out ++ bytes) := by
  have hlength : pair (bytes.length % 256).toUInt8 (bytes.length / 256 % 256).toUInt8 =
      bytes.length :=
    pair_pairBytes (lt_succ_of_le h)
  have hcheck : pair ((65535 - bytes.length) % 256).toUInt8
    ((65535 - bytes.length) / 256 % 256).toUInt8 =
      65535 - bytes.length := pair_pairBytes (by omega)
  have hsum : bytes.length + (65535 - bytes.length) = 65535 := add_sub_of_le h
  have hstored : ∀ held, stored ⟨held, pairBytes bytes.length ++ (pairBytes (65535 - bytes.length)
      ++ (bytes ++ more))⟩ out = .ok ({ rest := more }, out ++ bytes) := by
    intro held
    simp [stored, pairBytes, hlength, hcheck, hsum]
  cases isLast with
  | true =>
    simp [blocks, storedBlock, Bits.next, Bits.number, bitsOf, hstored, bind, Except.bind, pure,
      Except.pure]
  | false =>
    simp [blocks, storedBlock, Bits.next, Bits.number, bitsOf, hstored, bind, Except.bind, pure,
      Except.pure]

lemma blocks_deflateFrom (more : List UInt8) : (n : Nat) → ∀ {bytes : List UInt8} {fuel : Nat}
    (out : Array UInt8),
      bytes.length < (n + 1) * storedMax → n < fuel →
      blocks fuel { rest := deflateFrom n bytes ++ more } out = .ok ({ rest := more }, out ++ bytes)
  | 0, bytes, fuel + 1, out, hlength, _ => by
    rw [deflateFrom, blocks_storedBlock true (by omega), if_pos rfl]
  | n + 1, bytes, fuel + 1, out, hlength, hfuel => by
    rw [deflateFrom]
    by_cases hshort : bytes.length ≤ storedMax
    · rw [if_pos hshort, blocks_storedBlock true hshort, if_pos rfl]
    · have hfront : (bytes.take storedMax).length ≤ storedMax := length_take_le _ _
      have hrest : (bytes.drop storedMax).length < (n + 1) * storedMax := by
        rw [length_drop]
        rw [succ_mul] at hlength
        omega
      rw [if_neg hshort, append_assoc, blocks_storedBlock false hfront, if_neg Bool.false_ne_true,
        blocks_deflateFrom more n _ hrest (by omega)]
      refine congrArg (fun out => Except.ok ((⟨[], more⟩ : Bits), out)) (Array.ext' ?_)
      simp

lemma length_storedBlock (isLast : Bool) (bytes : List UInt8) :
    (storedBlock isLast bytes).length = bytes.length + 5 := by
  simp [storedBlock, pairBytes]

lemma length_le_deflateFrom : (n : Nat) → ∀ bytes :
    List UInt8, bytes.length ≤ (deflateFrom n bytes).length
  | 0, bytes => by
    rw [deflateFrom, length_storedBlock]
    omega
  | n + 1, bytes => by
    rw [deflateFrom]
    by_cases hshort : bytes.length ≤ storedMax
    · rw [if_pos hshort, length_storedBlock]
      omega
    · have hrest := length_le_deflateFrom n (bytes.drop storedMax)
      rw [length_drop] at hrest
      rw [if_neg hshort, length_append, length_storedBlock, length_take]
      omega

/-- A stored stream is read as its bytes, whatever follows it. -/
lemma inflate_deflate (bytes more : List UInt8) :
    inflate (deflate bytes ++ more) = .ok (bytes, more) := by
  have hlength : bytes.length < (bytes.length / storedMax + 1) * storedMax := by
    rw [Nat.mul_comm]
    exact lt_mul_div_succ _ (by decide)
  have hfuel : bytes.length / storedMax < 8 * (deflate bytes ++ more).length + 1 := by
    have hdeflate := length_le_deflateFrom (bytes.length / storedMax) bytes
    have hdiv := div_le_self bytes.length storedMax
    rw [← deflate] at hdeflate
    rw [length_append]
    omega
  have hblocks := blocks_deflateFrom more _ #[] hlength hfuel
  rw [← deflate] at hblocks
  simp only [inflate, hblocks, bind, Except.bind, pure, Except.pure]
  simp

end Deflate

namespace Gzip

lemma header_magic (rest : List UInt8) :
    header (magic ++ [8, 0, 0, 0, 0, 0, 2, 255] ++ rest) = .ok (some rest) := by
  have hskip : skip 6 (0 :: 0 :: 0 :: 0 :: 2 :: 255 :: rest) = .ok rest := by
    simp [skip]
  simp [header, magic, hskip, bind, Except.bind, pure, Except.pure]

lemma exists_wordBytes {n : Nat} (h : n < 4294967296) (more : List UInt8) :
    ∃ a b c d, wordBytes n ++ more = a :: b :: c :: d :: more ∧ word a b c d = n := by
  refine ⟨_, _, _, _, rfl, ?_⟩
  simp only [word, Deflate.pair, Nat.toUInt8, UInt8.toNat_ofNat']
  omega

variable (content : List UInt8)

lemma trailer_wordBytes :
    trailer content (wordBytes (Hash.crc32 content).toNat ++
      wordBytes (content.length % Nat.pow 2 32)) = .ok [] := by
  obtain ⟨e, f, g, h, hsize, hlength⟩ := exists_wordBytes (n := content.length % Nat.pow 2 32)
    (mod_lt _ (by decide)) []
  obtain ⟨a, b, c, d, hsum, hcrc⟩ := exists_wordBytes (Hash.crc32 content).toNat_lt
    (wordBytes (content.length % Nat.pow 2 32))
  rw [append_nil] at hsize
  rw [hsum, hsize, trailer, hcrc, hlength]
  simp

/-- What is compressed comes out again. -/
lemma decompress_compress : decompress (compress content) = .ok content := by
  let tail := wordBytes (Hash.crc32 content).toNat ++ wordBytes (content.length % Nat.pow 2 32)
  have htext : compress content = magic ++ [8, 0, 0, 0, 0, 0, 2, 255] ++
      (Deflate.deflate content ++ tail) := by
    simp only [compress, tail, append_assoc]
  have hend : members (compress content).length [] = .ok [] := by
    rw [htext]
    rfl
  simp only [decompress, members]
  rw [htext] at hend ⊢
  rw [header_magic]
  simp only [bind, Except.bind, Deflate.inflate_deflate, tail, trailer_wordBytes, hend, pure,
    Except.pure, append_nil]

lemma take_compress : (compress content).take 2 = magic := rfl

end Gzip

end CodeAtlas
