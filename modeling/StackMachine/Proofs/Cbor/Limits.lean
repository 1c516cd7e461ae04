import StackMachine.Cbor.Value
import StackMachine.Proofs.Cbor.Reading

/-!
# Limits of what is read

An array with too many elements is refused, and so is whatever holds it. Of what is read, no array has too many
elements and no text is longer than the bytes it was read from.
-/

set_option autoImplicit false

namespace StackMachine.Cbor

/-! ## Refused items -/

def Refused (levels : Nat) (i : Item) : Prop :=
  ∀ rest, readItem levels (i.encode ++ rest) = none

/-- No array has too many elements, and no text is longer than `size` bytes. The keys of a map do not matter. -/
inductive Bounded (size : Nat) : Item → Prop where
  | unsigned (n : Nat) : Bounded size (.unsigned n)
  | negative (n : Nat) : Bounded size (.negative n)
  | bytes (b : Bytes) : Bounded size (.bytes b)
  | text {chunks : List Bytes} (h : chunks.flatten.length ≤ size) : Bounded size (.text chunks)
  | array {items : List Item} (hsize : items.length ≤ maxElements) (hitems : ∀ i ∈ items, Bounded size i) :
      Bounded size (.array items)
  | map {entries : List (Item × Item)} (hvalues : ∀ e ∈ entries, Bounded size e.2) : Bounded size (.map entries)
  | tag {n : Nat} {content : Item} (h : Bounded size content) : Bounded size (.tag n content)
  | simple (n : Nat) : Bounded size (.simple n)
  | float : Bounded size .float

section Read

variable {bs rest : Bytes}

theorem takeBytes_eq_some {n : Nat} {b : Bytes} (h : takeBytes n bs = some (b, rest)) :
    b.length + rest.length = bs.length := by
  unfold takeBytes at h
  split at h
  next hle =>
    cases h
    rw [List.length_take, List.length_drop]
    omega
  next => cases h

theorem readArgument_le {info : Nat} {a : Option Nat} (h : readArgument info bs = some (a, rest)) :
    rest.length ≤ bs.length := by
  have hwide : ∀ width, ((takeNumber width bs).map fun read => (some read.1, read.2)) = some (a, rest) →
      rest.length ≤ bs.length := by
    intro width hwide
    obtain ⟨⟨n, rest⟩, hnumber, ⟨⟩⟩ := Option.map_eq_some_iff.mp hwide
    obtain ⟨⟨b, rest⟩, hbytes, ⟨⟩⟩ := Option.map_eq_some_iff.mp hnumber
    have hlength := takeBytes_eq_some hbytes
    simp only
    omega
  unfold readArgument at h
  split at h
  · cases h
    exact Nat.le_refl _
  · split at h
    · exact hwide 1 h
    · exact hwide 2 h
    · exact hwide 4 h
    · exact hwide 8 h
    · cases h
      exact Nat.le_refl _
    · cases h

theorem readHead_le {h : Head} (hread : readHead bs = some (h, rest)) : rest.length ≤ bs.length := by
  unfold readHead at hread
  split at hread
  · cases hread
  next b tail =>
    simp only at hread
    split at hread
    · cases hread
    next harg =>
      have hle := readArgument_le harg
      split at hread
      · cases hread
        exact Nat.le_succ_of_le hle
      · cases hread
    next harg =>
      have hle := readArgument_le harg
      split at hread
      · cases hread
      · cases hread
        exact Nat.le_succ_of_le hle

theorem readChunks_le {major fuel : Nat} {chunks : List Bytes} (h : readChunks major fuel bs = some (chunks, rest)) :
    chunks.flatten.length + rest.length ≤ bs.length := by
  induction fuel generalizing bs chunks with
  | zero => cases h
  | succ fuel ih =>
    unfold readChunks at h
    split at h
    · cases h
    next b tail =>
      split at h
      · cases h
        simp
      · obtain ⟨⟨head, afterHead⟩, hhead, h⟩ := Option.bind_eq_some_iff.mp h
        obtain ⟨n, -, h⟩ := Option.bind_eq_some_iff.mp h
        split at h
        · cases h
        · obtain ⟨⟨chunk, afterChunk⟩, hchunk, h⟩ := Option.bind_eq_some_iff.mp h
          obtain ⟨⟨others, last⟩, hothers, ⟨⟩⟩ := Option.bind_eq_some_iff.mp h
          have hle := readHead_le hhead
          have htaken := takeBytes_eq_some hchunk
          have hrest := ih hothers
          simp only [List.flatten_cons, List.length_append] at *
          omega

theorem readString_le {h : Head} {chunks : List Bytes} (hread : readString h bs = some (chunks, rest)) :
    chunks.flatten.length + rest.length ≤ bs.length := by
  unfold readString at hread
  split at hread
  · obtain ⟨⟨b, tail⟩, hbytes, ⟨⟩⟩ := Option.map_eq_some_iff.mp hread
    have htaken := takeBytes_eq_some hbytes
    simp only [List.flatten_singleton]
    omega
  · exact readChunks_le hread

/-- A reader does not add to what there is, and what it reads is bounded by that. -/
def BoundedReader (p : Reader Item) : Prop :=
  ∀ bs i rest, p bs = some (i, rest) → rest.length ≤ bs.length ∧ ∀ size, bs.length ≤ size → Bounded size i

/-- Items read one after another: those of `done`, the last of them first, and at most `limit` more. -/
structure Collected (bs : Bytes) (done : List Item) (limit : Nat) (items : List Item) (rest : Bytes) : Prop where
  length_le : items.length ≤ done.length + limit
  rest_le : rest.length ≤ bs.length
  bounded : ∀ size, bs.length ≤ size → (∀ i ∈ done, Bounded size i) → ∀ i ∈ items, Bounded size i

section Collected

variable {p : Reader Item} {done items : List Item} {limit : Nat}

theorem Collected.end (h : rest.length ≤ bs.length) : Collected bs done limit done.reverse rest where
  length_le := by
    rw [List.length_reverse]
    exact Nat.le_add_right _ _
  rest_le := h
  bounded _ _ hdone i hi := hdone i (List.mem_reverse.mp hi)

theorem Collected.next {tail : Bytes} {i : Item} (hp : BoundedReader p) (hread : p bs = some (i, tail))
    (h : Collected tail (i :: done) limit items rest) : Collected bs done (limit + 1) items rest := by
  obtain ⟨hle, hi⟩ := hp _ _ _ hread
  constructor
  · have hlength := h.length_le
    rw [List.length_cons] at hlength
    omega
  · exact Nat.le_trans h.rest_le hle
  · intro size hsize hdone
    exact h.bounded size (Nat.le_trans hle hsize) (List.forall_mem_cons.mpr ⟨hi size hsize, hdone⟩)

theorem collected_readMany (hp : BoundedReader p) {n : Nat} (h : readMany p done n bs = some (items, rest)) :
    Collected bs done n items rest := by
  induction n generalizing done bs with
  | zero =>
    cases h
    exact .end (Nat.le_refl _)
  | succ n ih =>
    unfold readMany at h
    split at h
    · cases h
    next hread => exact .next hp hread (ih h)

theorem collected_readUntilBreak (hp : BoundedReader p)
    (h : readUntilBreak p done limit bs = some (items, rest)) : Collected bs done limit items rest := by
  have htail : bs.tail.length ≤ bs.length := by
    rw [List.length_tail]
    exact Nat.sub_le _ _
  induction limit generalizing done bs with
  | zero =>
    unfold readUntilBreak at h
    split at h
    · cases h
      exact .end htail
    · cases h
  | succ limit ih =>
    unfold readUntilBreak at h
    split at h
    · cases h
      exact .end htail
    · split at h
      · cases h
      next hread => exact .next hp hread (ih h (by simp))

theorem collected_readGroups (hp : BoundedReader p) {width : Nat} {head : Head}
    (h : readGroups p width limit head bs = some (items, rest)) : Collected bs [] (width * limit) items rest := by
  unfold readGroups at h
  split at h
  next n _ =>
    split at h
    next hn =>
      have hmany := collected_readMany hp h
      exact ⟨Nat.le_trans hmany.length_le (Nat.add_le_add_left (Nat.mul_le_mul_left width hn) _), hmany.rest_le,
        hmany.bounded⟩
    next => cases h
  next => exact collected_readUntilBreak hp h

theorem mem_of_pairUp {entries : List (Item × Item)} (h : pairUp items = some entries) :
    ∀ e ∈ entries, e.2 ∈ items := by
  fun_induction pairUp items generalizing entries with
  | case1 =>
    cases h
    simp
  | case2 => cases h
  | case3 k v rest ih =>
    obtain ⟨others, hothers, rfl⟩ := Option.map_eq_some_iff.mp h
    intro e he
    obtain rfl | he := List.mem_cons.mp he
    · simp
    · simp [ih hothers e he]

end Collected

theorem boundedReader_readPlain {inner : Option (Reader Item)} (hinner : ∀ p, inner = some p → BoundedReader p) :
    BoundedReader (readPlain inner) := by
  intro bs i rest h
  obtain ⟨⟨head, tail⟩, hhead, h⟩ := Option.bind_eq_some_iff.mp h
  have hle := readHead_le hhead
  simp only at h
  split at h
  · obtain ⟨n, -, ⟨⟩⟩ := Option.bind_eq_some_iff.mp h
    exact ⟨hle, fun _ _ => .unsigned n⟩
  · obtain ⟨n, -, ⟨⟩⟩ := Option.bind_eq_some_iff.mp h
    exact ⟨hle, fun _ _ => .negative n⟩
  · obtain ⟨⟨chunks, last⟩, hstring, ⟨⟩⟩ := Option.bind_eq_some_iff.mp h
    have hlength := readString_le hstring
    have hlast : last.length ≤ bs.length := by omega
    exact ⟨hlast, fun _ _ => .bytes _⟩
  · obtain ⟨⟨chunks, last⟩, hstring, ⟨⟩⟩ := Option.bind_eq_some_iff.mp h
    have hlength := readString_le hstring
    have hlast : last.length ≤ bs.length := by omega
    have htext : chunks.flatten.length ≤ bs.length := by omega
    exact ⟨hlast, fun size hsize => .text (Nat.le_trans htext hsize)⟩
  · obtain ⟨p, hp, h⟩ := Option.bind_eq_some_iff.mp h
    obtain ⟨⟨items, last⟩, hitems, ⟨⟩⟩ := Option.bind_eq_some_iff.mp h
    have hread := collected_readGroups (hinner p hp) hitems
    refine ⟨Nat.le_trans hread.rest_le hle, fun size hsize => .array ?_ ?_⟩
    · simpa using hread.length_le
    · exact hread.bounded size (Nat.le_trans hle hsize) (by simp)
  · obtain ⟨p, hp, h⟩ := Option.bind_eq_some_iff.mp h
    obtain ⟨⟨items, last⟩, hitems, h⟩ := Option.bind_eq_some_iff.mp h
    obtain ⟨entries, hentries, ⟨⟩⟩ := Option.bind_eq_some_iff.mp h
    have hread := collected_readGroups (hinner p hp) hitems
    refine ⟨Nat.le_trans hread.rest_le hle, fun size hsize => .map fun e he => ?_⟩
    exact hread.bounded size (Nat.le_trans hle hsize) (by simp) _ (mem_of_pairUp hentries e he)
  · obtain ⟨n, -, ⟨⟩⟩ := Option.bind_eq_some_iff.mp h
    refine ⟨hle, fun _ _ => ?_⟩
    split
    · exact .float
    · exact .simple n
  · cases h

theorem boundedReader_readTagged {inner : Option (Reader Item)} (hinner : ∀ p, inner = some p → BoundedReader p) :
    BoundedReader (readTagged inner) := by
  have hplain := boundedReader_readPlain hinner
  intro bs i rest h
  unfold readTagged at h
  split at h
  · obtain ⟨⟨head, tail⟩, hhead, h⟩ := Option.bind_eq_some_iff.mp h
    obtain ⟨n, -, h⟩ := Option.bind_eq_some_iff.mp h
    have hle := readHead_le hhead
    -- A tag inside the tag is read as an inner item, other content on the same level.
    have hcontent : ∃ q content last, BoundedReader q ∧ q tail = some (content, last) ∧ .tag n content = i ∧
        last = rest := by
      simp only at h
      split at h
      · obtain ⟨⟨content, last⟩, hcontent, ⟨⟩⟩ := Option.bind_eq_some_iff.mp h
        obtain ⟨p, hp, hcontent⟩ := Option.bind_eq_some_iff.mp hcontent
        exact ⟨p, content, _, hinner p hp, hcontent, rfl, rfl⟩
      · obtain ⟨⟨content, last⟩, hcontent, ⟨⟩⟩ := Option.bind_eq_some_iff.mp h
        exact ⟨_, content, _, hplain, hcontent, rfl, rfl⟩
    obtain ⟨q, content, last, hq, hread, rfl, rfl⟩ := hcontent
    obtain ⟨hlast, hbounded⟩ := hq _ _ _ hread
    exact ⟨Nat.le_trans hlast hle, fun size hsize => .tag (hbounded size (Nat.le_trans hle hsize))⟩
  · exact hplain _ _ _ h

theorem boundedReader_readItem (levels : Nat) : BoundedReader (readItem levels) := by
  induction levels with
  | zero => exact boundedReader_readTagged (by simp)
  | succ levels ih =>
    refine boundedReader_readTagged ?_
    rintro p ⟨⟩
    exact ih

theorem bounded_of_parse {i : Item} (h : parse bs = some i) : Bounded bs.length i := by
  unfold parse at h
  split at h
  next hread =>
    cases h
    exact (boundedReader_readItem maxLevels _ _ _ hread).2 _ (Nat.le_refl _)
  next => cases h

end Read

/-! ## Values that were read -/

namespace Item

variable {size : Nat} {i : Item}

theorem bounded_of_untag (h : Bounded size i) {j : Item} (hj : i.untag = some j) : Bounded size j := by
  have hinner : ∀ {n : Nat} {c : Item}, Bounded size (.tag n c) → Bounded size c := by
    intro n c h
    cases h
    assumption
  fun_induction untag i with
  | case1 c htext ih => exact ih (hinner h) hj
  | case3 c hnumber ih => exact ih (hinner h) hj
  | case5 c hbytes =>
    cases hj
    exact h
  | case7 c hbytes =>
    cases hj
    exact h
  | case9 n c _ _ _ _ ih => exact ih (hinner h) hj
  | case10 i =>
    cases hj
    exact h
  | _ => cases hj

/-- A field has its zero value or was read from an item. -/
theorem field_cases {α : Type} {zero x : α} {read : Item → Option α} (h : Bounded size i)
    (hx : field zero read i = some x) : x = zero ∨ ∃ j, Bounded size j ∧ read j = some x := by
  obtain ⟨j, hj, hx⟩ := Option.bind_eq_some_iff.mp hx
  split at hx
  · cases hx
    exact .inl rfl
  · exact .inr ⟨j, bounded_of_untag h hj, hx⟩

theorem utf8ByteSize_of_text? {b : Bytes} {s : String} (h : Bytes.text? b = some s) : s.utf8ByteSize = b.length := by
  rw [Bytes.text?, String.fromUTF8?] at h
  split at h
  · cases h
    rfl
  · cases h

theorem utf8ByteSize_join {chunks : List Bytes} {texts : List String} (h : chunks.mapM Bytes.text? = some texts) :
    (String.join texts).utf8ByteSize = chunks.flatten.length := by
  induction chunks generalizing texts with
  | nil =>
    cases h
    rfl
  | cons b chunks ih =>
    rw [List.mapM_cons] at h
    obtain ⟨s, hs, h⟩ := Option.bind_eq_some_iff.mp h
    obtain ⟨texts, htexts, ⟨⟩⟩ := Option.bind_eq_some_iff.mp h
    rw [String.join_cons, String.utf8ByteSize_append, utf8ByteSize_of_text? hs, ih htexts, List.flatten_cons,
      List.length_append]

theorem string_le (h : Bounded size i) {s : String} (hs : i.string = some s) : s.utf8ByteSize ≤ size := by
  obtain rfl | ⟨j, hj, hs⟩ := field_cases h hs
  · exact Nat.zero_le _
  · unfold text? at hs
    split at hs
    next chunks =>
      obtain ⟨texts, htexts, rfl⟩ := Option.map_eq_some_iff.mp hs
      cases hj with
      | text hle => exact utf8ByteSize_join htexts ▸ hle
    next => cases hs

theorem mapM_length {α : Type} {element : Item → Option α} {items : List Item} {xs : List α}
    (h : items.mapM element = some xs) :
    xs.length = items.length ∧ ∀ x ∈ xs, ∃ j ∈ items, element j = some x := by
  induction items generalizing xs with
  | nil =>
    cases h
    simp
  | cons i items ih =>
    rw [List.mapM_cons] at h
    obtain ⟨x, hx, h⟩ := Option.bind_eq_some_iff.mp h
    obtain ⟨xs, hxs, ⟨⟩⟩ := Option.bind_eq_some_iff.mp h
    obtain ⟨hlength, hmem⟩ := ih hxs
    constructor
    · simp [hlength]
    · intro y hy
      obtain rfl | hy := List.mem_cons.mp hy
      · exact ⟨i, List.mem_cons_self, hx⟩
      · obtain ⟨j, hj, hread⟩ := hmem y hy
        exact ⟨j, List.mem_cons_of_mem _ hj, hread⟩

theorem list_le (h : Bounded size i) {α : Type} {element : Item → Option α} {xs : List α}
    (hxs : i.list element = some (some xs)) :
    xs.length ≤ maxElements ∧ ∀ x ∈ xs, ∃ j, Bounded size j ∧ element j = some x := by
  obtain hnone | ⟨j, hj, hxs⟩ := field_cases h hxs
  · cases hnone
  · split at hxs
    next items =>
      obtain ⟨ys, hys, ⟨⟩⟩ := Option.map_eq_some_iff.mp hxs
      obtain ⟨hlength, hmem⟩ := mapM_length hys
      cases hj with
      | array hsize hitems =>
        refine ⟨hlength ▸ hsize, ?_⟩
        intro x hx
        obtain ⟨j, hj, hread⟩ := hmem x hx
        exact ⟨j, hitems j hj, hread⟩
    next => cases hxs

theorem fields_bounded {entries : List (Item × Item)} (h : ∀ e ∈ entries, Bounded size e.2)
    {fs : List (Nat × Item)} (hfs : Item.fields entries = some fs) : ∀ f ∈ fs, Bounded size f.2 := by
  induction entries generalizing fs with
  | nil =>
    cases hfs
    simp
  | cons e entries ih =>
    obtain ⟨n, -, hfs⟩ := Option.bind_eq_some_iff.mp hfs
    obtain ⟨others, hothers, ⟨⟩⟩ := Option.bind_eq_some_iff.mp hfs
    intro f hf
    obtain hf | hf := List.mem_append.mp hf
    · obtain ⟨m, -, rfl⟩ := Option.map_eq_some_iff.mp (Option.mem_toList.mp hf)
      exact h e List.mem_cons_self
    · exact ih (fun e he => h e (List.mem_cons_of_mem _ he)) hothers f hf

theorem get_cases {fs : List (Nat × Item)} (h : ∀ f ∈ fs, Bounded size f.2) {α : Type} {zero x : α}
    {read : Item → Option α} {n : Nat} (hx : get fs n zero read = some x) :
    x = zero ∨ ∃ j, Bounded size j ∧ read j = some x := by
  unfold get at hx
  split at hx
  · cases hx
    exact .inl rfl
  next j hlookup =>
    obtain ⟨before, after, rfl, -⟩ := List.lookup_eq_some_iff.mp hlookup
    exact .inr ⟨j, h (n, j) (by simp), hx⟩

theorem record_cases (h : Bounded size i) {α : Type} {zero x : α} {read : List (Nat × Item) → Option α}
    (hx : record zero read i = some x) : x = zero ∨ ∃ fs, (∀ f ∈ fs, Bounded size f.2) ∧ read fs = some x := by
  refine (field_cases h hx).imp_right ?_
  rintro ⟨j, hj, hx⟩
  split at hx
  next entries =>
    obtain ⟨fs, hfs, hx⟩ := Option.bind_eq_some_iff.mp hx
    cases hj with
    | map hvalues => exact ⟨fs, fields_bounded hvalues hfs, hx⟩
  next => cases hx

end Item

end StackMachine.Cbor
