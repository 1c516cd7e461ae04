import StackMachine.Cbor.Value
import StackMachine.Proofs.Cbor.Reading
import StackMachine.Proofs.Text.Decimal

/-!
# Written values are read back

Each kind of field is read as the value that was written, and a record finds its fields again, also if those with
zero values are left out.
-/

set_option autoImplicit false

namespace StackMachine

theorem Bytes.text?_ofText (s : String) : Bytes.text? (Bytes.ofText s) = some s := by
  have hvalid : (ByteArray.mk (Bytes.ofText s).toArray).IsValidUTF8 := s.isValidUTF8
  rw [Bytes.text?, String.fromUTF8?, dif_pos hvalid]
  rfl

namespace Cbor.Item

/-! ## Single values -/

theorem field_ofInt {α : Type} (zero : α) (read : Item → Option α) (n : Int) :
    field zero read (ofInt n) = read (ofInt n) := by
  unfold ofInt
  split <;> rfl

theorem integer?_ofInt (n : Int) : (ofInt n).integer? = some n := by
  unfold ofInt
  split
  next hneg =>
    have hint : -1 - ((-1 - n).toNat : Int) = n := by omega
    rw [integer?, hint]
  next hneg =>
    have hint : (n.toNat : Int) = n := by omega
    rw [integer?, hint]

theorem word_ofInt (w : Word) : word (ofInt w.toInt) = some w := by
  rw [word, field_ofInt, integer?_ofInt, Option.bind_some, Word.ofInt?_toInt]

theorem byte_unsigned (b : UInt8) : byte (unsigned b.toNat) = some b := by
  have hlt := b.toNat_lt
  have hrange : (0 : Int) ≤ b.toNat ∧ (b.toNat : Int) ≤ 255 := by omega
  simp [byte, field, untag, isNull, integer?, hrange]

theorem string_ofText (s : String) : string (ofText s) = some s := by
  simp [string, ofText, field, untag, isNull, text?, Bytes.text?_ofText, String.join]

theorem mapM_written {α : Type} {write : α → Item} {read : Item → Option α} {xs : List α}
    (h : ∀ x, read (write x) = some x) : (xs.map write).mapM read = some xs := by
  induction xs with
  | nil => rfl
  | cons x xs ih =>
    rw [List.map_cons, List.mapM_cons, h, ih]
    rfl

theorem list_array {α : Type} {write : α → Item} {read : Item → Option α} (h : ∀ x, read (write x) = some x)
    (xs : List α) : list read (array (xs.map write)) = some (some xs) := by
  simp only [list, field, untag, Option.bind_some, isNull, mapM_written h]
  rfl

/-! ## Records -/

/-- The entries for fields with numbers. -/
def numbered (fs : List (Nat × Item)) : List (Item × Item) :=
  fs.map fun f => (unsigned f.1, f.2)

/-- A field that is left out in some cases. -/
def slot (n : Nat) (absent : Prop) [Decidable absent] (i : Item) : List (Nat × Item) :=
  if absent then [] else [(n, i)]

section Record

variable {n m : Nat} {absent : Prop} [Decidable absent] {i : Item} {fs : List (Nat × Item)}

@[simp] theorem numbered_append (fs gs : List (Nat × Item)) : numbered (fs ++ gs) = numbered fs ++ numbered gs :=
  List.map_append

@[simp] theorem numbered_slot : numbered (slot n absent i) = if absent then [] else [(unsigned n, i)] := by
  unfold slot
  split <;> rfl

@[simp] theorem lookup_slot_self : (slot n absent i).lookup n = if absent then none else some i := by
  unfold slot
  split
  · rfl
  · exact List.lookup_cons_self

@[simp] theorem lookup_slot_of_ne (h : m ≠ n) : (slot n absent i).lookup m = none := by
  have hbeq : (m == n) = false := by simpa using h
  unfold slot
  split
  · rfl
  · simp [List.lookup_cons, hbeq]

theorem fields_numbered (fs : List (Nat × Item)) : Item.fields (numbered fs) = some fs := by
  induction fs with
  | nil => rfl
  | cons f fs ih =>
    change (do
      let others ← Item.fields (numbered fs)
      return [f] ++ others) = _
    rw [ih]
    rfl

theorem record_numbered {α : Type} (zero : α) (read : List (Nat × Item) → Option α) (fs : List (Nat × Item)) :
    record zero read (map (numbered fs)) = read fs := by
  simp only [record, field, untag, Option.bind_some, isNull, fields_numbered]
  rfl

theorem get_of_lookup {α : Type} {zero x : α} {read : Item → Option α} (hlookup : fs.lookup n = some i)
    (hread : read i = some x) : get fs n zero read = some x := by
  rw [get, hlookup]
  exact hread

/-- A field that is left out has the value that is assumed then. -/
theorem get_of_lookup_slot {α : Type} [DecidableEq α] {zero x : α} {read : Item → Option α}
    (hlookup : fs.lookup n = if x = zero then none else some i) (hread : read i = some x) :
    get fs n zero read = some x := by
  split at hlookup
  next hzero => rw [get, hlookup, hzero]
  next => exact get_of_lookup hlookup hread

end Record

/-! ## Limits of the format -/

section Limits

variable {levels : Nat}

theorem readable_ofInt (w : Word) : Readable levels (ofInt w.toInt) := by
  have hlow := w.le_toInt
  have hhigh := w.toInt_lt
  have hsize : UInt64.size = 18446744073709551616 := rfl
  unfold ofInt
  split
  · exact .negative (by omega)
  · exact .unsigned (by omega)

theorem readable_ofText {s : String} (h : s.utf8ByteSize < UInt64.size) : Readable levels (ofText s) :=
  .text h

/-- At most `count` fields, all of which are read back. -/
structure ReadableFields (levels count : Nat) (fs : List (Nat × Item)) : Prop where
  length_le : fs.length ≤ count
  readable : ∀ f ∈ fs, f.1 < UInt64.size ∧ Readable levels f.2

namespace ReadableFields

variable {count more : Nat} {fs gs : List (Nat × Item)}

theorem slot {n : Nat} {absent : Prop} [Decidable absent] {i : Item} (hn : n < UInt64.size)
    (hi : Readable levels i) : ReadableFields levels 1 (slot n absent i) := by
  unfold Item.slot
  split
  · exact ⟨Nat.zero_le 1, by simp⟩
  · exact ⟨Nat.le_refl 1, by simp [hn, hi]⟩

theorem append (h : ReadableFields levels count fs) (h' : ReadableFields levels more gs) :
    ReadableFields levels (count + more) (fs ++ gs) where
  length_le := by
    rw [List.length_append]
    exact Nat.add_le_add h.length_le h'.length_le
  readable := List.forall_mem_append.mpr ⟨h.readable, h'.readable⟩

theorem map (h : ReadableFields levels count fs) (hcount : count ≤ maxElements) :
    Readable (levels + 1) (map (numbered fs)) := by
  refine .map ?_ ?_ ?_
  · rw [numbered, List.length_map]
    exact Nat.le_trans h.length_le hcount
  · intro e he
    obtain ⟨f, hf, rfl⟩ := List.mem_map.mp he
    exact .unsigned (h.readable f hf).1
  · intro e he
    obtain ⟨f, hf, rfl⟩ := List.mem_map.mp he
    exact (h.readable f hf).2

end ReadableFields

end Limits

end Cbor.Item
end StackMachine
