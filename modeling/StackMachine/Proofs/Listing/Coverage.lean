import StackMachine.Listing
import StackMachine.Proofs.Verification.Reading

/-!
# Listings show what the verifier walks

The listing and the verifier go through code in steps of their own: the verifier stops at an opcode whose operand is
missing, and the listing steps past the end of the code with it. Still they stand at the same addresses, whatever the
words are, and the words from one address to the next are all there are.
-/

set_option autoImplicit false

namespace StackMachine

section Fetched

variable {code : Array Word} {addr : Nat} {f : Fetched}

/-- The operand that is missing would be the first word after the code. -/
theorem end_of_truncated {op : Opcode} (h : fetch? code addr = some (.truncated op)) :
    addr + op.size = code.size + 1 := by
  obtain ⟨hwords, hoperands⟩ := fetch?_eq_truncated_iff.mp h
  have hlast := congrArg List.length hwords
  have hlt := lt_size_of_fetch? h
  have hsize : op.size = 2 := by
    cases op with
    | br | brt | brf | iconst | load | gload | store | gstore | call => rfl
    | _ => exact (hoperands rfl).elim
  rw [List.length_drop, Array.length_toList, List.length_singleton] at hlast
  omega

theorem end_of_fetch? (h : fetch? code addr = some f) :
    addr + f.size ≤ code.size ∨ addr + f.size = code.size + 1 ∧ ∃ op, f = .truncated op := by
  cases f with
  | instr i => exact .inl (words_of_fetch? h).2.2
  | invalid w => exact .inl (lt_size_of_fetch? h)
  | truncated op => exact .inr ⟨end_of_truncated h, op, rfl⟩

end Fetched

namespace Verification

variable {code : Array Word} {w : Nat}

/-- `w` is one of the words that `p` takes up. -/
def Covers (p : Nat × Fetched) (w : Nat) : Prop :=
  p.1 ≤ w ∧ w < p.1 + p.2.size

theorem exists_covers {addr : Nat} (haddr : addr ≤ w) (hw : w < code.size) : ∃ p ∈ walkFrom code addr, Covers p w := by
  fun_induction walkFrom code addr with
  | case1 addr hnone =>
    have hle := fetch?_eq_none_iff.mp hnone
    omega
  | case2 addr op hop =>
    have hend : w < addr + op.size := by
      rw [end_of_truncated hop]
      omega
    exact ⟨_, List.mem_singleton_self _, haddr, hend⟩
  | case3 addr f _ _ ih =>
    by_cases hnext : addr + f.size ≤ w
    · obtain ⟨p, hp, hcovers⟩ := ih hnext
      exact ⟨p, List.mem_cons_of_mem _ hp, hcovers⟩
    · exact ⟨_, List.mem_cons_self, haddr, Nat.lt_of_not_le hnext⟩

theorem eq_of_covers {l : List (Nat × Fetched)} (h : l.Pairwise fun p q => p.1 + p.2.size ≤ q.1) {p q : Nat × Fetched}
    (hp : p ∈ l) (hq : q ∈ l) (hpw : Covers p w) (hqw : Covers q w) : p = q := by
  obtain ⟨hple, hplt⟩ := hpw
  obtain ⟨hqle, hqlt⟩ := hqw
  induction h with
  | nil => cases hp
  | cons hapart _ ih =>
    rw [List.mem_cons] at hp hq
    obtain hp | hp := hp
    · obtain hq | hq := hq
      · exact hp.trans hq.symm
      · have hle := hapart q hq
        rw [← hp] at hle
        omega
    · obtain hq | hq := hq
      · have hle := hapart p hp
        rw [← hq] at hle
        omega
      · exact ih hp hq

theorem walk_apart (code : Array Word) : (walk code).Pairwise fun p q => p.1 + p.2.size ≤ q.1 := by
  obtain ⟨fs, hfs⟩ := exists_reading code
  rw [walk_of_reading hfs]
  exact located_apart 0 fs

theorem starts_increasing (code : Array Word) : (starts code).Pairwise (· < ·) := by
  obtain ⟨fs, hfs⟩ := exists_reading code
  rw [starts_of_reading hfs]
  exact List.pairwise_map.mpr (located_increasing 0 fs)

end Verification

namespace Listing

open Verification

variable {code : Array Word} {table : Option FunctionTable} {addr : Nat} {f : Fetched}

/-! ## Lines of code -/

theorem line_of_fetch? (h : fetch? code addr = some f) : line code table addr = (mark addr ++ body table f, f.size) := by
  have hnonneg : ¬ (addr : Int) < 0 := by omega
  simp only [line, if_neg hnonneg, Int.toNat_natCast, h]

theorem linesFrom_none (h : fetch? code addr = none) : linesFrom code table addr = [] := by
  rw [linesFrom]
  split
  next => rfl
  next hf =>
    rw [h] at hf
    cases hf

theorem linesFrom_some (h : fetch? code addr = some f) :
    linesFrom code table addr =
      (namesAt table addr).map (· ++ ":") ++ (mark addr ++ body table f) :: linesFrom code table (addr + f.size) := by
  rw [linesFrom]
  split
  next hnone =>
    rw [h] at hnone
    cases hnone
  next hf =>
    rw [h] at hf
    cases hf
    rfl

/-- The lines for something the walk meets: those of the functions that start there, and its own. -/
def block (table : Option FunctionTable) (p : Nat × Fetched) : List String :=
  (namesAt table p.1).map (· ++ ":") ++ [mark p.1 ++ body table p.2]

theorem linesFrom_eq_blocks (code : Array Word) (table : Option FunctionTable) (addr : Nat) :
    linesFrom code table addr = (walkFrom code addr).flatMap (block table) := by
  fun_induction walkFrom code addr with
  | case1 addr hnone => exact linesFrom_none hnone
  | case2 addr op hop =>
    -- The listing is past the end of the code where the verifier has stopped.
    have hend : fetch? code (addr + (Fetched.truncated op).size) = none := by
      rw [fetch?_eq_none_iff, Fetched.size, end_of_truncated hop]
      exact Nat.le_succ _
    rw [linesFrom_some hop, linesFrom_none hend, List.flatMap_singleton]
    rfl
  | case3 addr f _ hf ih =>
    rw [linesFrom_some hf, ih, List.flatMap_cons, block, List.append_assoc]
    rfl

/-! ## Lines of names -/

/-- The function with this id. -/
def descriptor? (table : Option FunctionTable) (id : Nat) : Option Descriptor :=
  table.bind fun t => t.entries[id]?

/-- The names are those of the functions that start at `addr`, in the order of their ids. -/
def Named (table : Option FunctionTable) (addr : Nat) (names : List String) : Prop :=
  ∃ ids : List Nat, ids.Pairwise (· < ·) ∧
    (∀ id, id ∈ ids ↔ ∃ d, descriptor? table id = some d ∧ d.address.toInt = addr) ∧
    ids.map (fun id => (descriptor? table id).map (·.name)) = names.map some

section Positions

variable {α : Type} (p : α → Bool) (l : List α)

/-- Where in a list the elements with a property stand. -/
def positions : List Nat :=
  (l.zipIdx.filter fun q => p q.1).map Prod.snd

theorem positions_increasing : (positions p l).Pairwise (· < ·) := by
  have hincreasing : (l.zipIdx.map Prod.snd).Pairwise (· < ·) := by
    rw [List.zipIdx_map_snd]
    exact List.pairwise_lt_range'
  exact List.pairwise_map.mpr ((List.pairwise_map.mp hincreasing).filter _)

theorem mem_positions {n : Nat} : n ∈ positions p l ↔ ∃ a, l[n]? = some a ∧ p a = true := by
  constructor
  · intro hn
    obtain ⟨⟨a, n⟩, hmem, rfl⟩ := List.mem_map.mp hn
    obtain ⟨hmem, ha⟩ := List.mem_filter.mp hmem
    exact ⟨a, List.mk_mem_zipIdx_iff_getElem?.mp hmem, ha⟩
  · rintro ⟨a, hget, ha⟩
    exact List.mem_map.mpr ⟨(a, n), List.mem_filter.mpr ⟨List.mk_mem_zipIdx_iff_getElem?.mpr hget, ha⟩, rfl⟩

theorem map_getElem?_positions : (positions p l).map (l[·]?) = (l.filter p).map some := by
  have hfilter := List.filter_map (f := Prod.fst) (p := p) (l := l.zipIdx)
  rw [List.zipIdx_map_fst] at hfilter
  rw [hfilter, positions, List.map_map, List.map_map]
  refine List.map_congr_left ?_
  rintro ⟨a, n⟩ hq
  exact List.mk_mem_zipIdx_iff_getElem?.mp (List.mem_filter.mp hq).1

end Positions

theorem named_namesAt (table : Option FunctionTable) (addr : Nat) : Named table addr (namesAt table addr) := by
  cases table with
  | none =>
    refine ⟨[], .nil, fun id => ?_, rfl⟩
    constructor
    · intro hid
      cases hid
    · rintro ⟨d, hd, -⟩
      cases hd
  | some t =>
    have hmap := map_getElem?_positions (fun d => d.address.toInt == (addr : Int)) t.entries.toList
    refine ⟨positions (fun d => d.address.toInt == (addr : Int)) t.entries.toList, positions_increasing _ _,
      fun id => ?_, ?_⟩
    · rw [mem_positions]
      simp [descriptor?]
    · have hnames := congrArg (List.map (Option.map (·.name))) hmap
      rw [List.map_map, List.map_map] at hnames
      rw [namesAt, List.map_map]
      simpa [descriptor?, Function.comp_def] using hnames

theorem lines_eq_linesFrom (code : Array Word) (table : Option FunctionTable) :
    lines code table = table.elim [] header ++ "; Code:" :: linesFrom code table 0 := by
  cases table with
  | none => rfl
  | some t => rfl

theorem lines_eq_starts (code : Array Word) (table : Option FunctionTable) :
    lines code table = table.elim [] header ++ "; Code:" :: (starts code).flatMap fun (addr : Nat) =>
      (namesAt table addr).map (· ++ ":") ++ [(line code table addr).1] := by
  rw [lines_eq_linesFrom, linesFrom_eq_blocks, starts, List.flatMap_map, List.flatMap_def, List.flatMap_def]
  refine congrArg (fun blocks => _ ++ "; Code:" :: List.flatten blocks) (List.map_congr_left ?_)
  intro p hp
  rw [line_of_fetch? (mem_walkFrom hp).1]
  rfl

/-- Whatever the words are, what a listing prints is its header and then, address by address that the verifier walks
and in ascending order, a line for each function that starts there, in the order of their ids, and the line of the
instruction. The lengths of the instructions cover every word once, and only a truncated one reaches past the end, by
one word. -/
theorem listing_covers_code (code : Array Word) (table : Option FunctionTable) :
    (text code table = String.join ((table.elim [] header ++ "; Code:" :: (starts code).flatMap fun (addr : Nat) =>
      (namesAt table addr).map (· ++ ":") ++ [(line code table addr).1]).map (· ++ "\n"))) ∧
    (∀ addr, Named table addr (namesAt table addr)) ∧
    (starts code).Pairwise (· < ·) ∧
    (∀ w < code.size, ∃ addr ∈ starts code, (addr ≤ w ∧ w < addr + (line code table addr).2) ∧
      ∀ other ∈ starts code, other ≤ w ∧ w < other + (line code table other).2 → other = addr) ∧
    ∀ addr ∈ starts code, ∃ f, fetch? code addr = some f ∧ (line code table addr).1 = mark addr ++ body table f ∧
      (addr + (line code table addr).2 ≤ code.size ∨
        addr + (line code table addr).2 = code.size + 1 ∧ ∃ op, f = .truncated op) := by
  refine ⟨?_, named_namesAt table, starts_increasing code, ?_, ?_⟩
  · rw [text, lines_eq_starts]
  · intro w hw
    obtain ⟨p, hp, hcovers⟩ := exists_covers (Nat.zero_le w) hw
    refine ⟨p.1, List.mem_map_of_mem hp, ?_, ?_⟩
    · rw [line_of_fetch? (mem_walkFrom hp).1]
      exact hcovers
    · intro other hother hcovers'
      obtain ⟨q, hq, rfl⟩ := List.mem_map.mp hother
      rw [line_of_fetch? (mem_walkFrom hq).1] at hcovers'
      rw [eq_of_covers (walk_apart code) hp hq hcovers hcovers']
  · intro addr haddr
    obtain ⟨p, hp, rfl⟩ := List.mem_map.mp haddr
    have hfetch := (mem_walkFrom hp).1
    refine ⟨p.2, hfetch, ?_⟩
    rw [line_of_fetch? hfetch]
    exact ⟨rfl, end_of_fetch? hfetch⟩

end Listing
end StackMachine
