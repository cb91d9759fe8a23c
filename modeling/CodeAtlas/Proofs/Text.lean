import CodeAtlas.Text.Encoding
import Mathlib.Data.List.Basic

/-!
# Laws of text encodings

A text comes back from its bytes (`utf8_utf8Bytes`).
-/

namespace CodeAtlas.Text

open List

/-- A member of joined lists is one of the separator or of one of the lists. -/
lemma mem_of_mem_intercalate {α : Type} {x : α} {sep : List α} {ts : List (List α)}
    (h : x ∈ sep.intercalate ts) : x ∈ sep ∨ ∃ t ∈ ts, x ∈ t := by
  induction ts with
  | nil => simp at h
  | cons t ts ih =>
    by_cases hlast : ts = []
    · exact .inr ⟨t, mem_cons_self, by simpa [hlast] using h⟩
    · rw [intercalate_cons_of_ne_nil hlast, mem_append, mem_append] at h
      rcases h with (h | h) | h
      · exact .inr ⟨t, mem_cons_self, h⟩
      · exact .inl h
      · exact (ih h).imp_right fun ⟨u, hu, hx⟩ => ⟨u, mem_cons_of_mem _ hu, hx⟩

lemma toListLoop_eq (bs : ByteArray) (i : Nat) (back : List UInt8) :
    ByteArray.toList.loop bs i back = back.reverse ++ bs.data.toList.drop i := by
  fun_induction ByteArray.toList.loop bs i back with
  | case1 i back hi ih =>
    have hi' : i < bs.data.toList.length := hi
    have hget : bs.get! i = bs.data.toList[i] := getElem!_pos bs.data i hi
    rw [ih, drop_eq_getElem_cons hi', ← hget, reverse_cons, append_assoc,
      singleton_append]
  | case2 i back hi =>
    rw [drop_eq_nil_of_le (Nat.le_of_not_lt hi), append_nil]

/-- A text comes back from its bytes. -/
lemma utf8_utf8Bytes (s : String) : utf8 (utf8Bytes s) = .ok s.toList := by
  have hbytes : (⟨(utf8Bytes s).toArray⟩ : ByteArray) = s.toUTF8 := by
    simp [utf8Bytes, ByteArray.toList, toListLoop_eq]
  have hread : String.fromUTF8? s.toUTF8 = some s := by
    unfold String.fromUTF8?
    rw [String.toUTF8_eq_toByteArray, dif_pos s.isValidUTF8]
    rfl
  unfold utf8
  rw [hbytes, hread]

lemma utf8Bytes_ofList (cs : List Char) :
    utf8Bytes (String.ofList cs) = cs.flatMap String.utf8EncodeChar := by
  simp [utf8Bytes, ByteArray.toList, toListLoop_eq, List.utf8Encode]

lemma utf8Bytes_cons_of_lt {c : Char} (h : c.toNat < 0x80) (cs : List Char) :
    utf8Bytes (String.ofList (c :: cs)) = c.toNat.toUInt8 :: utf8Bytes (String.ofList cs) := by
  have hbyte : String.utf8EncodeChar c = [c.toNat.toUInt8] := by
    have hle : c.val.toNat ≤ 127 := Nat.le_of_lt_succ h
    simp only [String.utf8EncodeChar, hle, if_true]
    rfl
  rw [utf8Bytes_ofList, utf8Bytes_ofList, flatMap_cons, hbyte, singleton_append]

/-- Without carriage returns there is nothing to unify. -/
lemma unifyNewlines_of_notMem {cs : List Char} (h : '\r' ∉ cs) : unifyNewlines cs = cs := by
  induction cs with
  | nil => rfl
  | cons c cs ih =>
    rw [mem_cons, not_or] at h
    have hrest : (cs.foldr unifyStep (false, [])).2 = cs := ih h.2
    simp only [unifyNewlines, foldr_cons, unifyStep, Ne.symm h.1, if_false, hrest]

lemma notMem_unifyNewlines (cs : List Char) : '\r' ∉ unifyNewlines cs := by
  unfold unifyNewlines
  induction cs with
  | nil => simp
  | cons c cs ih =>
    simp only [foldr_cons, unifyStep]
    split
    · split
      · exact ih
      · exact not_mem_cons_of_ne_of_not_mem (by decide) ih
    · next hc => exact not_mem_cons_of_ne_of_not_mem (Ne.symm hc) ih

end CodeAtlas.Text
