import CodeAtlas.Data.Pack
import CodeAtlas.Proofs.Json.Document

/-!
# Packing and unpacking

Packed data is unpacked as it was, if its lengths fit into four bytes (`unpack_pack`).
-/

namespace CodeAtlas

open List

variable {v : Value} {vs : List Value} {es : List (String × Value)} {depth k levels m : Nat}
  {first : UInt8} {bs : List UInt8} {s : String} {pieces : List (List UInt8)} {ok : Int → Prop}
  {rest : List UInt8}

namespace Value

mutual

/-- How many lists and tables stand in one another. -/
def nesting : Value → Nat
  | .list items => nestingItems items + 1
  | .table entries => nestingEntries entries + 1
  | _ => 0

def nestingItems : List Value → Nat
  | [] => 0
  | v :: vs => max v.nesting (nestingItems vs)

def nestingEntries : List (String × Value) → Nat
  | [] => 0
  | (_, v) :: es => max v.nesting (nestingEntries es)

end

lemma nesting_le_items (h : v ∈ vs) : v.nesting ≤ nestingItems vs := by
  induction vs with
  | nil => cases h
  | cons w vs ih =>
    rw [nestingItems]
    rcases mem_cons.mp h with rfl | h
    · exact Nat.le_max_left _ _
    · exact Nat.le_trans (ih h) (Nat.le_max_right _ _)

lemma nesting_le_entries {e : String × Value} (h : e ∈ es) : e.2.nesting ≤ nestingEntries es := by
  induction es with
  | nil => cases h
  | cons d es ih =>
    rw [nestingEntries]
    rcases mem_cons.mp h with rfl | h
    · exact Nat.le_max_left _ _
    · exact Nat.le_trans (ih h) (Nat.le_max_right _ _)

end Value

namespace Pack

open Hash (Endian lowBytes)

/-! ### Numbers -/

lemma toNat_toUInt8 {n : Nat} (h : n < 256) : n.toUInt8.toNat = n := by
  rw [Nat.toUInt8, UInt8.toNat_ofNat', Nat.mod_eq_of_lt h]

lemma number_concat (b : UInt8) : number (bs ++ [b]) = number bs * 256 + b.toNat := by
  simp [number]

lemma number_bytes {n : Nat} (h : n < Nat.pow 256 k) : number (Endian.big.bytes k n) = n := by
  induction k generalizing n with
  | zero =>
    obtain rfl : n = 0 := Nat.lt_one_iff.mp h
    rfl
  | succ k ih =>
    have hbytes : Endian.big.bytes (k + 1) n = Endian.big.bytes k (n / 256) ++
        [(n % 256).toUInt8] := by
      simp [Endian.bytes, lowBytes]
    have hdiv : n / 256 < Nat.pow 256 k := Nat.div_lt_of_lt_mul (by rwa [Nat.mul_comm])
    rw [hbytes, number_concat, ih hdiv, toNat_toUInt8 (Nat.mod_lt n (by decide)), Nat.div_add_mod']

lemma length_bytes (e : Endian) (k n : Nat) : (e.bytes k n).length = k := by
  have hlow : ∀ n, (lowBytes k n).length = k := by
    induction k with
    | zero => exact fun _ => rfl
    | succ k ih => exact fun n => congrArg (· + 1) (ih _)
  cases e with
  | big => exact length_reverse.trans (hlow n)
  | little => exact hlow n

lemma takeBytes_append (front rest : List UInt8) :
    takeBytes front.length (front ++ rest) = .ok (front, rest) := by
  simp [takeBytes]

lemma takeBytes_bytes (k n : Nat) :
    takeBytes k (Endian.big.bytes k n ++ rest) = .ok (Endian.big.bytes k n, rest) := by
  have h := takeBytes_append (Endian.big.bytes k n) rest
  rwa [length_bytes] at h

lemma takeNumber_bytes {n : Nat} (h : n < Nat.pow 256 k) :
    takeNumber k (Endian.big.bytes k n ++ rest) = .ok (n, rest) := by
  simp only [takeNumber, takeBytes_bytes, bind, Except.bind, number_bytes h]
  rfl

lemma bind_takeNumber {n : Nat} (h : n < Nat.pow 256 k) (reader : Nat → Reader) : (do
      let (n, bytes) ← takeNumber k (Endian.big.bytes k n ++ rest)
      reader n bytes) = reader n rest := by
  rw [takeNumber_bytes h]
  rfl

/-! ### Heads -/

variable {size n : Nat} {inner : Option Reader} {reader : Reader}

lemma itemWith_textHead (h : n < 0x100000000) :
    itemWith size inner (textHead n ++ rest) = takeText n rest := by
  unfold textHead
  split_ifs with h1 h2 h3
  · have hb : (0xa0 + n).toUInt8.toNat = 0xa0 + n := toNat_toUInt8 (by omega)
    simp only [singleton_append, itemWith, hb]
    rw [if_neg (by omega), if_neg (by omega), if_neg (by omega), if_pos (by omega),
      Nat.add_sub_cancel_left]
  · exact bind_takeNumber (k := 1) h2 takeText
  · exact bind_takeNumber (k := 2) h3 takeText
  · exact bind_takeNumber (k := 4) h takeText

lemma itemWith_containerHead {short mid long : UInt8} (members : Nat → Reader) (rest : List UInt8)
    (hshort : n < 0x10 → itemWith size inner ((short + n.toUInt8) :: rest) = members n rest)
    (hmid : ∀ bytes, itemWith size inner (mid :: bytes) = takeNumber 2 bytes >>= fun p =>
      members p.1 p.2)
    (hlong : ∀ bytes, itemWith size inner (long :: bytes) = takeNumber 4 bytes >>= fun p =>
      members p.1 p.2)
    (h : n < 0x100000000) :
    itemWith size inner (containerHead short mid long n ++ rest) = members n rest := by
  unfold containerHead
  split_ifs with h1 h2
  · exact hshort h1
  · exact (hmid _).trans (bind_takeNumber (k := 2) h2 members)
  · exact (hlong _).trans (bind_takeNumber (k := 4) h members)

lemma toNat_add_toUInt8 {first : UInt8} (hfirst : first.toNat ≤ 0xf0) (h : n < 0x10) :
    (first + n.toUInt8).toNat = first.toNat + n := by
  rw [UInt8.toNat_add, toNat_toUInt8 (by omega)]
  exact Nat.mod_eq_of_lt (by omega)

lemma itemWith_listHead (h : n < 0x100000000) (hsize : n ≤ size) :
    itemWith size (some reader)
      (containerHead 0x90 0xdc 0xdd n ++ rest) = takeItems reader n [] rest := by
  refine (itemWith_containerHead (fun n bytes => if size < n then .error (.arrayLength n size)
    else takeItems reader n [] bytes) rest (fun hn => ?_) (fun _ => rfl) (fun _ => rfl) h).trans
    (if_neg (by omega))
  have hb : (0x90 + n.toUInt8).toNat = 0x90 + n := toNat_add_toUInt8 (by decide) hn
  simp only [itemWith, hb]
  rw [if_neg (by omega), if_neg (by omega), if_pos (by omega), Nat.add_sub_cancel_left]

lemma itemWith_tableHead (h : n < 0x100000000) (hsize : 2 * n ≤ size) :
    itemWith size (some reader)
      (containerHead 0x80 0xde 0xdf n ++ rest) = takeEntries reader n [] rest := by
  refine (itemWith_containerHead
    (fun n bytes => if size / 2 < n then .error (.mapLength n (size / 2))
    else takeEntries reader n [] bytes) rest (fun hn => ?_) (fun _ => rfl) (fun _ => rfl) h).trans
    (if_neg (by omega))
  have hb : (0x80 + n.toUInt8).toNat = 0x80 + n := toNat_add_toUInt8 (by decide) hn
  simp only [itemWith, hb]
  rw [if_neg (by omega), if_pos (by omega), Nat.add_sub_cancel_left]

/-! ### Integers -/

lemma bind_takeBytes (value : List UInt8 → Value) : (do
      let (front, bytes) ← takeBytes k (Endian.big.bytes k n ++ rest)
      return (value front, bytes) : Except Fault (Value × List UInt8)) =
      .ok (value (Endian.big.bytes k n), rest) := by
  rw [takeBytes_bytes]
  rfl

lemma signed_bytes (h : 2 * m + 2 ≤ Nat.pow 256 k) :
    signed (Endian.big.bytes k (Nat.pow 256 k - 1 - m)) = Int.negSucc m := by
  have hmod : ((Nat.pow 256 k - 1 - m : Nat) : Int) % (Nat.pow 256 k : Nat) =
      (Nat.pow 256 k - 1 - m : Nat) :=
    Int.emod_eq_of_lt (by omega) (by omega)
  rw [signed, number_bytes (by omega), length_bytes, Int.bmod_def, hmod, if_neg (by omega)]
  omega

lemma itemWith_headed_ofNat (hfirst : ∀ bytes, itemWith size inner (first :: bytes) = (do
      let (front, bytes) ← takeBytes k bytes
      return (.int (number front), bytes))) (h : n < Nat.pow 256 k) (rest : List UInt8) :
    itemWith size inner (headed first k n ++ rest) = .ok (.int n, rest) := by
  rw [headed, cons_append, hfirst, bind_takeBytes (fun bs => .int (number bs)), number_bytes h]

lemma itemWith_headed_negSucc (hfirst : ∀ bytes, itemWith size inner (first :: bytes) = (do
      let (front, bytes) ← takeBytes k bytes
      return (.int (signed front), bytes))) (h : 2 * m + 2 ≤ Nat.pow 256 k) (rest : List UInt8) :
    itemWith size inner (headed first k (Nat.pow 256 k - 1 - m) ++ rest) =
      .ok (.int (Int.negSucc m), rest) := by
  rw [headed, cons_append, hfirst, bind_takeBytes (fun bs => .int (signed bs)), signed_bytes h]

lemma itemWith_packInt {n : Int} (h : packInt n = .ok bs) (rest : List UInt8) :
    itemWith size inner (bs ++ rest) = .ok (.int n, rest) := by
  unfold packInt at h
  cases n with
  | ofNat n =>
    simp only at h
    split_ifs at h with h0 h1 h2 h4 h8 <;> cases h
    · have hb : n.toUInt8.toNat = n := toNat_toUInt8 (by omega)
      simp only [singleton_append, itemWith, hb]
      rw [if_pos h0]
      rfl
    · exact itemWith_headed_ofNat (k := 1) (fun _ => rfl) h1 rest
    · exact itemWith_headed_ofNat (k := 2) (fun _ => rfl) h2 rest
    · exact itemWith_headed_ofNat (k := 4) (fun _ => rfl) h4 rest
    · exact itemWith_headed_ofNat (k := 8) (fun _ => rfl) h8 rest
  | negSucc m =>
    simp only at h
    split_ifs at h with h0 h1 h2 h4 h8 <;> cases h
    · have hb : (0xff - m).toUInt8.toNat = 0xff - m := toNat_toUInt8 (by omega)
      have hvalue : ((0xff - m : Nat) : Int) - 0x100 = Int.negSucc m := by omega
      simp only [singleton_append, itemWith, hb]
      rw [if_neg (by omega), if_neg (by omega), if_neg (by omega), if_neg (by omega),
        if_pos (by omega), hvalue]
    · exact itemWith_headed_negSucc
        (k := 1) (fun _ => rfl) (by change 2 * m + 2 ≤ 0x100; omega) rest
    · exact itemWith_headed_negSucc
        (k := 2) (fun _ => rfl) (by change 2 * m + 2 ≤ 0x10000; omega) rest
    · exact itemWith_headed_negSucc
        (k := 4) (fun _ => rfl) (by change 2 * m + 2 ≤ 0x100000000; omega) rest
    · exact itemWith_headed_negSucc (k := 8) (fun _ => rfl)
        (by change 2 * m + 2 ≤ 0x10000000000000000; omega) rest

/-! ### Texts -/

/-- A text whose length in bytes fits into four bytes. -/
def Short (s : String) : Prop := (Text.utf8Bytes s).length < 0x100000000

instance (s : String) : Decidable (Short s) :=
  inferInstanceAs (Decidable ((Text.utf8Bytes s).length < 0x100000000))

lemma short_of_length_lt (h : s.length < 0x40000000) : Short s := by
  have hbytes : ∀ cs : List Char, (cs.flatMap String.utf8EncodeChar).length ≤ 4 * cs.length := by
    intro cs
    induction cs with
    | nil => exact Nat.le_refl _
    | cons c cs ih =>
      have hc := Char.utf8Size_le_four c
      simp only [flatMap_cons, length_append, length_cons, String.length_utf8EncodeChar]
      omega
  have hlength := hbytes s.toList
  rw [← Text.utf8Bytes_ofList, String.ofList_toList, String.length_toList] at hlength
  exact Nat.lt_of_le_of_lt hlength (by omega)

lemma takeText_utf8Bytes :
    takeText (Text.utf8Bytes s).length (Text.utf8Bytes s ++ rest) = .ok (.str s, rest) := by
  simp only [takeText, takeBytes_append, Text.utf8_utf8Bytes, bind, Except.bind,
    String.ofList_toList]
  rfl

lemma itemWith_packText (h : Short s) (rest : List UInt8) :
    itemWith size inner (packText s ++ rest) = .ok (.str s, rest) := by
  rw [packText, append_assoc, itemWith_textHead h, takeText_utf8Bytes]

/-! ### Values -/

/-- A value that the format has room for: lengths fit into four bytes, and no key stands twice. -/
inductive Packable : Value → Prop
  | null : Packable .null
  | bool (b : Bool) : Packable (.bool b)
  | int (n : Int) : Packable (.int n)
  | str {s : String} (h : Short s) : Packable (.str s)
  | list {items : List Value} (hlength : items.length < 0x100000000) (h : ∀ v ∈ items, Packable v) :
      Packable (.list items)
  | table {entries : List (String × Value)} (hlength : entries.length < 0x100000000)
      (hkeys : (entries.map Prod.fst).Nodup) (htexts : ∀ e ∈ entries, Short e.1)
      (h : ∀ e ∈ entries, Packable e.2) : Packable (.table entries)

lemma packable_str : Packable (.str s) ↔ Short s := ⟨fun h => by cases h; assumption, .str⟩

lemma packable_list {items : List Value} :
    Packable (.list items) ↔ items.length < 0x100000000 ∧ ∀ v ∈ items, Packable v := by
  refine ⟨fun h => ?_, fun h => .list h.1 h.2⟩
  cases h with
  | list hlength h => exact ⟨hlength, h⟩

lemma packable_table {entries : List (String × Value)} : Packable (.table entries) ↔
    entries.length < 0x100000000 ∧ (entries.map Prod.fst).Nodup ∧ (∀ e ∈ entries, Short e.1) ∧
      ∀ e ∈ entries, Packable e.2 := by
  refine ⟨fun h => ?_, fun h => .table h.1 h.2.1 h.2.2.1 h.2.2.2⟩
  cases h with
  | table hlength hkeys htexts h => exact ⟨hlength, hkeys, htexts, h⟩

/-- Bytes are read as a value that stands `depth` levels deep, whatever follows them. -/
def Unpacks (depth : Nat) (bs : List UInt8) (v : Value) : Prop :=
  ∀ size levels, maxNesting < depth + levels → bs.length ≤ size →
    ∀ rest, item size levels (bs ++ rest) = .ok (v, rest)

lemma Unpacks.length_pos (h : Unpacks depth bs v) : 0 < bs.length := by
  refine length_pos_iff.mpr ?_
  rintro rfl
  have hread := h 0 (maxNesting + 1) (by omega) (Nat.le_refl _) []
  cases hread

lemma unpacks_of_itemWith (h : ∀ size inner rest,
    itemWith size inner (bs ++ rest) = .ok (v, rest)) : Unpacks depth bs v := by
  intro size levels _ _ rest
  cases levels with
  | zero => exact h size none rest
  | succ levels => exact h size _ rest

lemma unpacks_packText (depth : Nat) (h : Short s) :
    Unpacks depth (packText s) (.str s) := unpacks_of_itemWith fun _ _ => itemWith_packText h

lemma takeItems_flatten (hlevels : maxNesting < depth + levels)
    (h : Forall₂ (Unpacks depth) pieces vs)
    (hsize : pieces.flatten.length ≤ size) (done : List Value) :
    takeItems (item size levels) vs.length done (pieces.flatten ++ rest) =
      .ok (.list (done.reverse ++ vs), rest) := by
  induction h generalizing done with
  | nil => simp [takeItems]
  | @cons b v pieces vs hb _ ih =>
    simp only [flatten_cons, length_append] at hsize
    simp only [flatten_cons, append_assoc, length_cons, takeItems,
      hb size levels hlevels (Nat.le_trans (Nat.le_add_right _ _) hsize), bind, Except.bind]
    rw [ih (by omega) (v :: done)]
    simp

lemma takeEntries_flatten (hlevels : maxNesting < depth + levels)
    (h : Forall₂ (fun b e => Short e.1 ∧
      ∃ b', b = packText e.1 ++ b' ∧ Unpacks depth b' e.2) pieces es)
    (hsize : pieces.flatten.length ≤ size)
    {done : List (String × Value)} (hkeys : ((done ++ es).map Prod.fst).Nodup) :
    takeEntries (item size levels) es.length done (pieces.flatten ++ rest) =
      .ok (.table (done ++ es), rest) := by
  induction h generalizing done with
  | nil => simp [takeEntries]
  | @cons b e pieces es hb _ ih =>
    obtain ⟨htext, b', rfl, hb'⟩ := hb
    simp only [flatten_cons, length_append] at hsize
    have hkey : item size levels (packText e.1 ++ (b' ++ (pieces.flatten ++ rest))) =
        .ok (.str e.1, b' ++ (pieces.flatten ++ rest)) :=
      unpacks_packText depth htext size levels hlevels (by omega) _
    have hput : Value.putEntry e.1 e.2 done = done ++ [e] := by
      refine Json.putEntry_of_notMem fun hmem => ?_
      rw [map_append, nodup_append] at hkeys
      exact hkeys.2.2 _ hmem _ mem_cons_self rfl
    simp only [flatten_cons, append_assoc, length_cons, takeEntries, hkey,
      hb' size levels hlevels (by omega), keyOf, hput, bind, Except.bind]
    rw [ih (by omega) (by simpa using hkeys)]
    simp

/-! ### What packing comes to -/

lemma of_nested {bytes : List UInt8} (h : nested depth bytes = .ok bs) : bs = bytes := by
  unfold nested at h
  split_ifs at h
  exact (Except.ok.inj h).symm

lemma packItems_eq : packItems depth vs = (vs.mapM (packAt depth)).map flatten := by
  induction vs with
  | nil => rfl
  | cons v vs ih =>
    rw [packItems, mapM_cons, ih]
    cases packAt depth v <;> cases vs.mapM (packAt depth) <;> rfl

/-- The bytes of an entry of a table. -/
def packEntry (depth : Nat) (e : String × Value) : Except Fault (List UInt8) :=
  if maxNesting < depth then .error .nesting else (packAt depth e.2).map (packText e.1 ++ ·)

lemma packEntries_eq : packEntries depth es = (es.mapM (packEntry depth)).map flatten := by
  induction es with
  | nil => rfl
  | cons e es ih =>
    rw [packEntries, mapM_cons, ih, packEntry]
    split_ifs
    · rfl
    · cases packAt depth e.2 <;> cases es.mapM (packEntry depth) <;> rfl

/-- Containers are packed unless they stand too deep. -/
lemma exists_of_container {α : Type} {head : List UInt8} {xs : List α}
    {f : α → Except Fault (List UInt8)} (h : (do
      if maxNesting < depth then throw .nesting
      return head ++ (← (xs.mapM f).map flatten) : Except Fault (List UInt8)) = .ok bs) :
    depth ≤ maxNesting ∧ ∃ pieces, Forall₂ (fun b x => f x = .ok b) pieces xs ∧
      bs = head ++ pieces.flatten := by
  by_cases hdepth : maxNesting < depth
  · rw [if_pos hdepth] at h
    cases h
  · rcases hxs : xs.mapM f with e | pieces <;> simp only [if_neg hdepth, hxs] at h <;> cases h
    exact ⟨Nat.not_lt.mp hdepth, pieces, forall₂_of_mapM hxs, rfl⟩

lemma exists_of_packAt_list (h : packAt depth (.list vs) = .ok bs) :
    depth ≤ maxNesting ∧ ∃ pieces, Forall₂ (fun b v => packAt (depth + 1) v = .ok b) pieces vs ∧
      bs = containerHead 0x90 0xdc 0xdd vs.length ++ pieces.flatten := by
  rw [packAt, packItems_eq] at h
  exact exists_of_container h

lemma exists_of_packAt_table (h : packAt depth (.table es) = .ok bs) :
    depth ≤ maxNesting ∧ ∃ pieces, Forall₂
        (fun b e => ∃ b', b = packText e.1 ++ b' ∧ packAt (depth + 1) e.2 = .ok b') pieces es ∧
      bs = containerHead 0x80 0xde 0xdf es.length ++ pieces.flatten := by
  rw [packAt, packEntries_eq] at h
  obtain ⟨hdepth, pieces, hpieces, rfl⟩ := exists_of_container h
  refine ⟨hdepth, pieces, hpieces.imp fun b e hb => ?_, rfl⟩
  unfold packEntry at hb
  split_ifs at hb
  rcases he : packAt (depth + 1) e.2 with f | b' <;> rw [he] at hb <;> cases hb
  exact ⟨b', rfl, rfl⟩

lemma packInt_of_packAt {n : Int} (h : packAt depth (.int n) = .ok bs) : packInt n = .ok bs := by
  rw [packAt] at h
  by_cases hdepth : maxNesting < depth
  · rw [if_pos hdepth] at h
    cases h
  · rwa [if_neg hdepth] at h

/-- An integer that fits into eight bytes, with a sign or without. -/
def InRange (n : Int) : Prop := -0x8000000000000000 ≤ n ∧ n ≤ 0xFFFFFFFFFFFFFFFF

lemma exists_packInt_iff {n : Int} : (∃ bs, packInt n = .ok bs) ↔ InRange n := by
  unfold packInt InRange
  cases n with
  | ofNat n =>
    simp only [Int.ofNat_eq_natCast]
    split_ifs <;> simp only [Except.ok.injEq, exists_eq', true_iff, exists_false, false_iff] <;>
      omega
  | negSucc m =>
    simp only
    split_ifs <;> simp only [Except.ok.injEq, exists_eq', true_iff, exists_false, false_iff] <;>
      omega

lemma within_of_inRange {n : Int} (h : InRange n) : Digits.Within n := by
  unfold InRange at h
  have hlt : n.natAbs < 10 ^ 20 := by omega
  have hlength := (Nat.length_toDigits_le_iff (by decide) (by decide)).mpr hlt
  exact Nat.le_trans hlength (by decide)

lemma inRange_of_packAt (hv : v.Plain ok) :
    ∀ {depth bs}, packAt depth v = .ok bs → v.Plain InRange := by
  induction hv with
  | null => exact fun _ => .null
  | bool b => exact fun _ => .bool b
  | int hn => exact fun h => .int (exists_packInt_iff.mp ⟨_, packInt_of_packAt h⟩)
  | str s => exact fun _ => .str s
  | list _ ih =>
    intro depth bs h
    obtain ⟨-, pieces, hpieces, -⟩ := exists_of_packAt_list h
    refine .list fun v hv => ?_
    obtain ⟨b, hb⟩ := exists_of_forall₂ hpieces.flip hv
    exact ih v hv hb
  | table hkeys _ ih =>
    intro depth bs h
    obtain ⟨-, pieces, hpieces, -⟩ := exists_of_packAt_table h
    refine .table hkeys fun e he => ?_
    obtain ⟨b, b', -, hb'⟩ := exists_of_forall₂ hpieces.flip he
    exact ih e he hb'

/-! ### What can be packed -/

lemma Packable.plain (h : Packable v) : v.Plain fun _ => True := by
  induction h with
  | null => exact .null
  | bool b => exact .bool b
  | int n => exact .int trivial
  | str _ => exact .str _
  | list _ _ ih => exact .list ih
  | table _ hkeys _ _ ih => exact .table hkeys ih

lemma exists_packAt (hv : v.Plain InRange) :
    ∀ {depth}, depth + v.nesting ≤ maxNesting → ∃ bs, packAt depth v = .ok bs := by
  have hnested : ∀ {depth : Nat} (bytes : List UInt8), depth ≤ maxNesting →
      nested depth bytes = .ok bytes :=
    fun _ h => if_neg (Nat.not_lt.mpr h)
  induction hv with
  | null => exact fun h => ⟨_, hnested _ h⟩
  | bool b => cases b <;> exact @fun _ h => ⟨_, hnested _ h⟩
  | int hn =>
    intro depth hdepth
    obtain ⟨bs, hbs⟩ := exists_packInt_iff.mpr hn
    refine ⟨bs, ?_⟩
    rw [packAt, if_neg (show ¬ maxNesting < depth from Nat.not_lt.mpr hdepth)]
    exact hbs
  | str s => exact fun h => ⟨_, hnested _ h⟩
  | @list items _ ih =>
    intro depth hdepth
    rw [Value.nesting] at hdepth
    have hitems : ∀ v ∈ items, ∃ bs, packAt (depth + 1) v = .ok bs := by
      intro v hv
      have hle := Value.nesting_le_items hv
      exact ih v hv (by omega)
    obtain ⟨pieces, hpieces⟩ := exists_mapM hitems
    rw [packAt, packItems_eq, hpieces, if_neg (by omega)]
    exact ⟨_, rfl⟩
  | @table entries _ _ ih =>
    intro depth hdepth
    rw [Value.nesting] at hdepth
    have hentries : ∀ e ∈ entries, ∃ bs, packEntry (depth + 1) e = .ok bs := by
      intro e he
      have hle := Value.nesting_le_entries he
      obtain ⟨bs, hbs⟩ := @ih e he (depth + 1) (by omega)
      rw [packEntry, if_neg (by omega), hbs]
      exact ⟨_, rfl⟩
    obtain ⟨pieces, hpieces⟩ := exists_mapM hentries
    rw [packAt, packEntries_eq, hpieces, if_neg (by omega)]
    exact ⟨_, rfl⟩

/-- A value that is not nested too deeply is packed exactly if its integers fit. -/
lemma exists_pack_iff (hv : v.Plain ok) (hnesting : v.nesting ≤ maxNesting) :
    (∃ bs, pack v = .ok bs) ↔ v.Plain InRange := by
  constructor
  · rintro ⟨bs, hbs⟩
    exact inRange_of_packAt hv hbs
  · intro hrange
    exact exists_packAt hrange (by omega)

/-! ### Round trip -/

lemma length_le_flatten (h : Forall₂ (Unpacks depth) pieces vs) :
    vs.length ≤ pieces.flatten.length := by
  induction h with
  | nil => exact Nat.le_refl _
  | cons hb _ ih =>
    have hpos := hb.length_pos
    simp only [flatten_cons, length_append, length_cons]
    omega

lemma two_mul_length_le_flatten (h : Forall₂ (fun b e => Short e.1 ∧
      ∃ b', b = packText e.1 ++ b' ∧ Unpacks depth b' e.2) pieces es) :
        2 * es.length ≤ pieces.flatten.length := by
  induction h with
  | nil => exact Nat.le_refl _
  | @cons b e _ _ hb _ ih =>
    obtain ⟨htext, b', rfl, hb'⟩ := hb
    have hkey := (unpacks_packText depth htext).length_pos
    have hpos := hb'.length_pos
    simp only [flatten_cons, length_append, length_cons]
    omega

/-- What is packed at a depth is unpacked there. -/
lemma unpacks_of_packAt (hv : Packable v) :
    ∀ {depth bs}, packAt depth v = .ok bs → Unpacks depth bs v := by
  induction hv with
  | null =>
    intro depth bs h
    obtain rfl := of_nested h
    exact unpacks_of_itemWith fun _ _ _ => rfl
  | bool b =>
    intro depth bs h
    cases b <;> obtain rfl := of_nested h <;> exact unpacks_of_itemWith fun _ _ _ => rfl
  | int n =>
    intro depth bs h
    exact unpacks_of_itemWith fun _ _ => itemWith_packInt (packInt_of_packAt h)
  | str htext =>
    intro depth bs h
    obtain rfl := of_nested h
    exact unpacks_packText depth htext
  | list hlength _ ih =>
    intro depth bs h
    obtain ⟨hdepth, pieces, hpieces, rfl⟩ := exists_of_packAt_list h
    have hunpacks := forall₂_imp_of_mem hpieces fun v hv b hb => ih v hv hb
    intro size levels hlevels hsize rest
    obtain ⟨levels, rfl⟩ : ∃ l, levels = l + 1 := ⟨levels - 1, by omega⟩
    have hcount := length_le_flatten hunpacks
    rw [length_append] at hsize
    rw [append_assoc, item, itemWith_listHead hlength (by omega),
      takeItems_flatten (by omega) hunpacks (by omega)]
    rfl
  | table hlength hkeys htexts _ ih =>
    intro depth bs h
    obtain ⟨hdepth, pieces, hpieces, rfl⟩ := exists_of_packAt_table h
    have hunpacks := forall₂_imp_of_mem (S := fun b e => Short e.1 ∧
      ∃ b', b = packText e.1 ++ b' ∧ Unpacks (depth + 1) b' e.2) hpieces fun e he b hb =>
        ⟨htexts e he, hb.imp fun b' hb' => ⟨hb'.1, ih e he hb'.2⟩⟩
    intro size levels hlevels hsize rest
    obtain ⟨levels, rfl⟩ : ∃ l, levels = l + 1 := ⟨levels - 1, by omega⟩
    have hcount := two_mul_length_le_flatten hunpacks
    rw [length_append] at hsize
    rw [append_assoc, item, itemWith_tableHead hlength (by omega),
      takeEntries_flatten (by omega) hunpacks (by omega) (by simpa using hkeys)]
    rfl

/-- **Packed data comes back.** -/
theorem unpack_pack (hv : Packable v) (h : pack v = .ok bs) : unpack bs = .ok v := by
  have hread := unpacks_of_packAt hv h bs.length maxLevels (by decide) (Nat.le_refl _) []
  rw [append_nil] at hread
  simp only [unpack, hread, bind, Except.bind]
  rfl

end Pack

end CodeAtlas
