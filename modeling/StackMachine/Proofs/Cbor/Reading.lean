import StackMachine.Cbor.Reader

/-!
# Written items are read back

A head that was written in its shortest form is read as the number it was written for, and from this an item with all
that it holds is found again, whatever follows it.
-/

set_option autoImplicit false

namespace StackMachine

namespace Bytes

theorem length_bigEndian (width n : Nat) : (bigEndian width n).length = width := by
  induction width generalizing n with
  | zero => rfl
  | succ width ih => simp [bigEndian, ih]

theorem number_append (bs : Bytes) (b : UInt8) : number (bs ++ [b]) = 256 * number bs + b.toNat := by
  simp [number]

theorem number_bigEndian (width n : Nat) : number (bigEndian width n) = n % Nat.pow 256 width := by
  induction width generalizing n with
  | zero => exact (Nat.mod_one n).symm
  | succ width ih =>
    have hbyte : (UInt8.ofNat n).toNat = n % 256 := UInt8.toNat_ofNat'
    calc
      number (bigEndian (width + 1) n) = 256 * (n / 256 % Nat.pow 256 width) + n % 256 := by
        rw [bigEndian, number_append, ih, hbyte]
      _ = n % (256 * Nat.pow 256 width) := by rw [Nat.mod_mul, Nat.add_comm]
      _ = n % Nat.pow 256 (width + 1) := by rw [Nat.mul_comm]; rfl

end Bytes

namespace Cbor

variable {major n : Nat} {inner : Option (Reader Item)}

/-! ## Heads -/

theorem takeBytes_append (bs rest : Bytes) : takeBytes bs.length (bs ++ rest) = some (bs, rest) := by
  simp [takeBytes]

theorem takeNumber_bigEndian (width : Nat) (h : n < Nat.pow 256 width) (rest : Bytes) :
    takeNumber width (Bytes.bigEndian width n ++ rest) = some (n, rest) := by
  have htake := takeBytes_append (Bytes.bigEndian width n) rest
  rw [Bytes.length_bigEndian] at htake
  simp only [takeNumber, htake, Option.map_some, Bytes.number_bigEndian, Nat.mod_eq_of_lt h]

/-- A head is a byte for the major type and an argument after it. -/
theorem head_eq (major : Nat) (hn : n < UInt64.size) :
    ∃ info bs, info < 32 ∧ head major n = UInt8.ofNat (32 * major + info) :: bs ∧
      ∀ rest, readArgument info (bs ++ rest) = some (some n, rest) := by
  unfold head
  split
  next h => exact ⟨n, [], by omega, rfl, fun rest => by simp [readArgument, h]⟩
  split
  next h => exact ⟨24, _, by decide, rfl, fun rest => by simp [readArgument, takeNumber_bigEndian 1 h]⟩
  split
  next h => exact ⟨25, _, by decide, rfl, fun rest => by simp [readArgument, takeNumber_bigEndian 2 h]⟩
  split
  next h => exact ⟨26, _, by decide, rfl, fun rest => by simp [readArgument, takeNumber_bigEndian 4 h]⟩
  next => exact ⟨27, _, by decide, rfl, fun rest => by simp [readArgument, takeNumber_bigEndian 8 hn]⟩

/-- Simple values are left out, since one below thirty-two may not have a second byte. -/
theorem readHead_head (hmajor : major < 7) (hn : n < UInt64.size) (rest : Bytes) :
    ∃ info, readHead (head major n ++ rest) = some (⟨major, info, some n⟩, rest) := by
  obtain ⟨info, bs, hinfo, hhead, hargument⟩ := head_eq major hn
  have hbyte : (UInt8.ofNat (32 * major + info)).toNat = 32 * major + info := by
    rw [UInt8.toNat_ofNat']
    omega
  have hdiv : (32 * major + info) / 32 = major := by omega
  have hmod : (32 * major + info) % 32 = info := by omega
  refine ⟨info, ?_⟩
  rw [hhead, List.cons_append, readHead]
  simp only [hbyte, hdiv, hmod, hargument]
  rw [if_neg (by omega)]

theorem startsWithTag_head (hmajor : major < 6) (hn : n < UInt64.size) (rest : Bytes) :
    startsWithTag (head major n ++ rest) = false := by
  obtain ⟨info, bs, hinfo, hhead, -⟩ := head_eq major hn
  have hbyte : (UInt8.ofNat (32 * major + info)).toNat = 32 * major + info := by
    rw [UInt8.toNat_ofNat']
    omega
  simp only [hhead, List.cons_append, startsWithTag, hbyte, beq_eq_false_iff_ne]
  omega

theorem readTagged_head (hmajor : major < 6) (hn : n < UInt64.size) (rest : Bytes) :
    readTagged inner (head major n ++ rest) = readPlain inner (head major n ++ rest) := by
  rw [readTagged, startsWithTag_head hmajor hn]
  rfl

/-! ## What containers hold -/

theorem readMany_encodeAll {p : Reader Item} {items : List Item}
    (h : ∀ i ∈ items, ∀ rest, p (i.encode ++ rest) = some (i, rest)) (done : List Item) (rest : Bytes) :
    readMany p done items.length (encodeAll items ++ rest) = some (done.reverse ++ items, rest) := by
  induction items generalizing done with
  | nil => simp [readMany, encodeAll]
  | cons i items ih =>
    have hfirst := h i List.mem_cons_self (encodeAll items ++ rest)
    rw [List.length_cons, encodeAll, List.append_assoc, readMany, hfirst]
    simp only
    rw [ih fun j hj => h j (List.mem_cons_of_mem _ hj)]
    simp

/-- Keys and values in turn. -/
def inTurn (entries : List (Item × Item)) : List Item :=
  entries.flatMap fun e => [e.1, e.2]

theorem length_inTurn (entries : List (Item × Item)) : (inTurn entries).length = 2 * entries.length := by
  induction entries with
  | nil => rfl
  | cons e entries ih =>
    change (inTurn entries).length + 2 = 2 * (entries.length + 1)
    omega

theorem encodeAll_inTurn (entries : List (Item × Item)) : encodeAll (inTurn entries) = encodePairs entries := by
  induction entries with
  | nil => rfl
  | cons e entries ih =>
    rw [encodePairs, ← ih, List.append_assoc]
    rfl

theorem pairUp_inTurn (entries : List (Item × Item)) : pairUp (inTurn entries) = some entries := by
  induction entries with
  | nil => rfl
  | cons e entries ih =>
    change (pairUp (inTurn entries)).map ((e.1, e.2) :: ·) = _
    rw [ih]
    rfl

/-! ## Items -/

/-- Items that are read as they were written, if as many levels may be nested: no text is in pieces, numbers have at
most sixty-four bits, and containers are not too large. -/
inductive Readable : Nat → Item → Prop where
  | unsigned {levels n : Nat} (hn : n < UInt64.size) : Readable levels (.unsigned n)
  | negative {levels n : Nat} (hn : n < UInt64.size) : Readable levels (.negative n)
  | text {levels : Nat} {b : Bytes} (hb : b.length < UInt64.size) : Readable levels (.text [b])
  | null {levels : Nat} : Readable levels .null
  | array {levels : Nat} {items : List Item} (hsize : items.length ≤ maxElements)
      (hitems : ∀ i ∈ items, Readable levels i) : Readable (levels + 1) (.array items)
  | map {levels : Nat} {entries : List (Item × Item)} (hsize : entries.length ≤ maxElements)
      (hkeys : ∀ e ∈ entries, Readable levels e.1) (hvalues : ∀ e ∈ entries, Readable levels e.2) :
      Readable (levels + 1) (.map entries)

theorem lt_of_le_maxElements (h : n ≤ maxElements) : n < UInt64.size :=
  Nat.lt_of_le_of_lt h (by decide)

/-- An item whose head has the major type and argument given. -/
theorem readItem_head (levels : Nat) (hmajor : major < 6) (hn : n < UInt64.size) (rest : Bytes) :
    ∃ inner, readItem levels (head major n ++ rest) = readPlain inner (head major n ++ rest) ∧
      ∀ fewer, levels = fewer + 1 → inner = some (readItem fewer) := by
  cases levels with
  | zero => exact ⟨none, readTagged_head hmajor hn rest, fun fewer h => by omega⟩
  | succ levels =>
    refine ⟨some (readItem levels), readTagged_head hmajor hn rest, ?_⟩
    rintro fewer hfewer
    cases hfewer
    rfl

theorem readItem_encode {levels : Nat} {i : Item} (h : Readable levels i) (rest : Bytes) :
    readItem levels (i.encode ++ rest) = some (i, rest) := by
  induction h generalizing rest with
  | @unsigned levels n hn =>
    obtain ⟨inner, hitem, -⟩ := readItem_head levels (by decide : 0 < 6) hn rest
    obtain ⟨info, hhead⟩ := readHead_head (by decide : 0 < 7) hn rest
    rw [Item.encode, hitem, readPlain, hhead]
    rfl
  | @negative levels n hn =>
    obtain ⟨inner, hitem, -⟩ := readItem_head levels (by decide : 1 < 6) hn rest
    obtain ⟨info, hhead⟩ := readHead_head (by decide : 1 < 7) hn rest
    rw [Item.encode, hitem, readPlain, hhead]
    rfl
  | @text levels b hb =>
    obtain ⟨inner, hitem, -⟩ := readItem_head levels (by decide : 3 < 6) hb (b ++ rest)
    obtain ⟨info, hhead⟩ := readHead_head (by decide : 3 < 7) hb (b ++ rest)
    rw [Item.encode, List.flatten_singleton, List.append_assoc, hitem, readPlain, hhead]
    simp [readString, takeBytes_append]
  | @null levels => cases levels <;> rfl
  | @array levels items hsize hitems ih =>
    have hn := lt_of_le_maxElements hsize
    obtain ⟨inner, hitem, hinner⟩ := readItem_head (levels + 1) (by decide : 4 < 6) hn (encodeAll items ++ rest)
    obtain ⟨info, hhead⟩ := readHead_head (by decide : 4 < 7) hn (encodeAll items ++ rest)
    cases hinner levels rfl
    rw [Item.encode, List.append_assoc, hitem, readPlain, hhead]
    simp [readGroups, hsize, readMany_encodeAll ih]
  | @map levels entries hsize hkeys hvalues ihkeys ihvalues =>
    have hn := lt_of_le_maxElements hsize
    have hinTurn : ∀ i ∈ inTurn entries, ∀ rest, readItem levels (i.encode ++ rest) = some (i, rest) := by
      intro i hi
      obtain ⟨e, he, hi⟩ := List.mem_flatMap.mp hi
      simp only [List.mem_cons, List.not_mem_nil, or_false] at hi
      obtain rfl | rfl := hi
      · exact ihkeys e he
      · exact ihvalues e he
    have hmany := readMany_encodeAll hinTurn [] rest
    rw [length_inTurn, encodeAll_inTurn] at hmany
    obtain ⟨inner, hitem, hinner⟩ := readItem_head (levels + 1) (by decide : 5 < 6) hn (encodePairs entries ++ rest)
    obtain ⟨info, hhead⟩ := readHead_head (by decide : 5 < 7) hn (encodePairs entries ++ rest)
    cases hinner levels rfl
    rw [Item.encode, List.append_assoc, hitem, readPlain, hhead]
    simp [readGroups, hsize, hmany, pairUp_inTurn]

theorem parse_encode {i : Item} (h : Readable maxLevels i) : parse i.encode = some i := by
  have hread := readItem_encode h []
  rw [List.append_nil] at hread
  rw [parse, hread]

end Cbor
end StackMachine
