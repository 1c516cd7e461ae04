import Std.Data.HashSet.Lemmas
import StackMachine.Verification

/-!
# Boundaries of verified code

The walk goes from one instruction to the next. In code without findings every place that an instruction can
lead to, by itself or through its operand, is the end of the code or something the walk meets.
-/

set_option autoImplicit false

namespace StackMachine.Verification

/-- The end of the code, or the address of something the walk meets. -/
def Boundary (code : Array Word) (a : Int) : Prop :=
  a = code.size ∨ ∃ n ∈ starts code, a = n

section Walk

variable {code : Array Word} {a b : Nat} {f : Fetched}

theorem mem_walkFrom_self (h : fetch? code a = some f) : (a, f) ∈ walkFrom code a := by
  rw [walkFrom]
  split
  next hnone =>
    rw [h] at hnone
    cases hnone
  next hop =>
    rw [h] at hop
    cases hop
    exact List.mem_singleton_self _
  next hg =>
    rw [h] at hg
    cases hg
    exact List.mem_cons_self

/-- What the walk meets stands there, and the walk meets what stands after it. -/
theorem mem_walkFrom (h : (a, f) ∈ walkFrom code b) :
    fetch? code a = some f ∧
      ((∀ op, f ≠ .truncated op) → ∀ g, fetch? code (a + f.size) = some g →
        (a + f.size, g) ∈ walkFrom code b) := by
  fun_induction walkFrom code b with
  | case1 => cases h
  | case2 addr op hop =>
    cases List.mem_singleton.mp h
    exact ⟨hop, fun hne => (hne op rfl).elim⟩
  | case3 addr g hne hg ih =>
    obtain hhead | htail := List.mem_cons.mp h
    · cases hhead
      refine ⟨hg, ?_⟩
      intro _ g' hg'
      exact List.mem_cons_of_mem _ (mem_walkFrom_self hg')
    · obtain ⟨hfetch, hnext⟩ := ih htail
      exact ⟨hfetch, fun hne g' hg' => List.mem_cons_of_mem _ (hnext hne g' hg')⟩

end Walk

/-- Code in which nothing leads astray. -/
structure Verified (code : Array Word) (globals : Word) (table : FunctionTable) : Prop where
  /-- An instruction stands at every start, and a boundary follows it. -/
  fetches : ∀ a ∈ starts code, ∃ i, fetch? code a = some (.instr i) ∧ Boundary code ((a + i.size : Nat) : Int)
  branches : ∀ a ∈ starts code, ∀ i w, fetch? code a = some (.instr i) →
    i = .br w ∨ i = .brt w ∨ i = .brf w → ∃ n, w.target? code.size = some n ∧ Boundary code n
  globals : ∀ a ∈ starts code, ∀ i w, fetch? code a = some (.instr i) →
    i = .gload w ∨ i = .gstore w → w.index? globals.toInt.toNat ≠ none
  calls : ∀ a ∈ starts code, ∀ id, fetch? code a = some (.instr (.call id)) → table.lookup? id ≠ none
  functions : ∀ d ∈ table.entries, ∃ n, d.address.target? code.size = some n ∧ Boundary code n

section Verified

variable {code : Array Word} {globals : Word} {table : FunctionTable}

/-- The test for boundaries, on the list of starts. -/
def meets (code : Array Word) (w : Word) : Bool :=
  match w.target? code.size with
  | none => false
  | some i => i == code.size || (starts code).contains i

theorem isBoundary_eq_meets (code : Array Word) :
    isBoundary code.size (Std.HashSet.ofList ((walk code).map Prod.fst)) = meets code := by
  funext w
  unfold isBoundary meets
  cases w.target? code.size with
  | none => rfl
  | some i =>
    simp only [Std.HashSet.contains_ofList]
    rfl

/-- What the second pass finds wrong with something the walk meets. -/
def fetchedProblem (boundary : Word → Bool) (globals : Word) (table : Option FunctionTable) :
    Fetched → Option Problem
  | .instr i => operandProblem boundary globals table i
  | _ => none

/-- The second pass, on its own way through the code, meets what the walk meets. -/
theorem operandFindingsFrom_eq (boundary : Word → Bool) (globals : Word) (table : Option FunctionTable)
    (code : Array Word) (addr : Nat) :
    operandFindingsFrom boundary globals table code addr =
      (walkFrom code addr).filterMap fun (a, f) =>
        (fetchedProblem boundary globals table f).map (Finding.mk a) := by
  fun_induction operandFindingsFrom boundary globals table code addr with
  | case1 addr hnone =>
    rw [walkFrom, hnone]
    rfl
  | case2 addr op hop =>
    rw [walkFrom, hop]
    rfl
  | case3 addr w hw ih =>
    rw [walkFrom, hw, ih]
    rfl
  | case4 addr i hi ih =>
    rw [walkFrom, hi, ih]
    cases hproblem : operandProblem boundary globals table i <;> simp [fetchedProblem, hproblem, Fetched.size]

theorem findings_eq (code : Array Word) (globals : Word) (table : Option FunctionTable) :
    findings code globals table =
      ((walk code).filterMap fun (addr, f) => (shapeProblem f).map (Finding.mk addr)) ++
      ((walk code).filterMap fun (addr, f) =>
        (fetchedProblem (meets code) globals table f).map (Finding.mk addr)) ++
      addressFindings (meets code) table := by
  simp only [findings, isBoundary_eq_meets, operandFindingsFrom_eq]
  rfl

theorem meets_eq_true_iff {w : Word} :
    meets code w = true ↔ ∃ n, w.target? code.size = some n ∧ Boundary code n := by
  unfold meets
  cases hw : w.target? code.size with
  | none => simp
  | some n =>
    simp only [Bool.or_eq_true, beq_iff_eq, List.contains_iff_mem, Option.some.injEq, exists_eq_left',
      Boundary]
    constructor
    · rintro (h | h)
      · exact .inl (congrArg _ h)
      · exact .inr ⟨n, h, rfl⟩
    · rintro (h | ⟨k, hk, h⟩)
      · exact .inl (Int.ofNat.inj h)
      · exact .inr (Int.ofNat.inj h ▸ hk)

theorem walk_instr (hshapes : ∀ p ∈ walk code, shapeProblem p.2 = none) {a : Nat} (ha : a ∈ starts code) :
    ∃ i, (a, .instr i) ∈ walk code ∧ fetch? code a = some (.instr i) ∧
      Boundary code ((a + i.size : Nat) : Int) := by
  obtain ⟨⟨a, f⟩, hmem, rfl⟩ := List.mem_map.mp ha
  obtain ⟨hfetch, hnext⟩ := mem_walkFrom hmem
  have hshape := hshapes _ hmem
  cases f with
  | invalid w => cases hshape
  | truncated op => cases hshape
  | instr i =>
    refine ⟨i, hmem, hfetch, ?_⟩
    obtain ⟨-, -, hsize⟩ := words_of_fetch? hfetch
    -- What follows is the end of the code, or the walk meets it next.
    cases hg : fetch? code (a + i.size) with
    | none =>
      have hend := fetch?_eq_none_iff.mp hg
      exact .inl (congrArg _ (Nat.le_antisymm hsize hend))
    | some g =>
      have hmem' := hnext (by intro op hop; cases hop) g hg
      exact .inr ⟨_, List.mem_map_of_mem hmem', rfl⟩

theorem boundary_of_addressFindings {boundary : Word → Bool}
    (h : addressFindings boundary (some table) = []) : ∀ d ∈ table.entries, boundary d.address = true := by
  intro d hd
  simp only [addressFindings, List.filterMap_eq_nil_iff] at h
  obtain ⟨k, hk, rfl⟩ := List.mem_iff_getElem.mp (Array.mem_toList_iff.mpr hd)
  simpa using h _ (List.mem_mapIdx.mpr ⟨k, hk, rfl⟩)

theorem verified_of_findings (h : findings code globals (some table) = []) : Verified code globals table := by
  simp only [findings_eq, List.append_eq_nil_iff, List.filterMap_eq_nil_iff, Option.map_eq_none_iff] at h
  obtain ⟨⟨hshapes, hoperands⟩, haddresses⟩ := h
  have hoperand : ∀ a ∈ starts code, ∀ i, fetch? code a = some (.instr i) →
      operandProblem (meets code) globals (some table) i = none := by
    intro a ha i hi
    obtain ⟨j, hmem, hj, -⟩ := walk_instr hshapes ha
    rw [hi] at hj
    cases hj
    exact hoperands _ hmem
  constructor
  case fetches =>
    intro a ha
    obtain ⟨i, -, hi⟩ := walk_instr hshapes ha
    exact ⟨i, hi⟩
  case branches =>
    intro a ha i w hi hw
    have hnone := hoperand a ha i hi
    apply meets_eq_true_iff.mp
    apply Classical.byContradiction
    intro hb
    obtain rfl | rfl | rfl := hw <;> simp [operandProblem, hb] at hnone
  case globals =>
    intro a ha i w hi hw
    have hnone := hoperand a ha i hi
    have hrange : 0 ≤ w ∧ w < globals := by
      apply Classical.byContradiction
      intro hb
      obtain rfl | rfl := hw <;> simp only [operandProblem, hb, if_false] at hnone <;> cases hnone
    rw [Int64.le_iff_toInt_le, Int64.lt_iff_toInt_lt] at hrange
    have hzero : (0 : Word).toInt = 0 := rfl
    have hindex : w.index? globals.toInt.toNat = some w.toInt.toNat :=
      Word.index?_eq_some_iff.mpr ⟨by omega, by omega⟩
    rw [hindex]
    intro h
    cases h
  case calls =>
    intro a ha id hi hd
    have hnone := hoperand a ha _ hi
    simp [operandProblem, hd] at hnone
  case functions =>
    intro d hd
    exact meets_eq_true_iff.mp (boundary_of_addressFindings haddresses d hd)

end Verified

end StackMachine.Verification
