import StackMachine.Proofs.Verification.Boundaries

/-!
# Reading code from its start

Words can be read in exactly one way as items that stand one after the other: instructions, words that are no opcode,
and at the end perhaps an opcode whose operand is missing. The walk of the verifier is this reading, with the address
of each item.
-/

set_option autoImplicit false

namespace StackMachine

theorem Instr.ofOpcode_opcode (i : Instr) : ofOpcode i.opcode (i.operand?.getD 0) = i := by
  cases i <;> rfl

theorem Instr.operand?_eq_none_iff {i : Instr} : i.operand? = none ↔ i.opcode.operands = 0 := by
  cases i <;> simp [operand?, opcode, Opcode.operands]

/-! ## Words at an address -/

section Words

variable {code : Array Word} {addr : Nat} {ws : List Word} {i : Instr} {w : Word} {op : Opcode}

theorem getElem?_of_drop (h : code.toList.drop addr = ws) (k : Nat) : code[addr + k]? = ws[k]? := by
  rw [← Array.getElem?_toList, ← List.getElem?_drop, h]

theorem drop_add_of_drop {vs : List Word} (h : code.toList.drop addr = vs ++ ws) :
    code.toList.drop (addr + vs.length) = ws := by
  rw [← List.drop_drop, h, List.drop_left]

theorem drop_of_fetch? (h : fetch? code addr = some (.instr i)) :
    code.toList.drop addr = i.encode ++ code.toList.drop (addr + i.size) := by
  obtain ⟨hop, hoperand, -⟩ := words_of_fetch? h
  rw [← Array.getElem?_toList] at hop
  rw [← Instr.length_encode, Instr.encode, List.drop_eq_getElem?_toList_append, hop]
  cases hi : i.operand? with
  | none => rfl
  | some w =>
    have hw := hoperand w hi
    rw [← Array.getElem?_toList] at hw
    rw [List.drop_eq_getElem?_toList_append, hw]
    rfl

theorem fetch?_of_drop_encode (h : code.toList.drop addr = i.encode ++ ws) : fetch? code addr = some (.instr i) := by
  have hop : code[addr]? = some i.opcode.word := getElem?_of_drop h 0
  have hoperand := getElem?_of_drop h 1
  simp only [fetch?, hop, Opcode.ofWord?_eq_some_iff.mpr rfl, hoperand]
  have hi := i.ofOpcode_opcode
  cases hw : i.operand? with
  | none =>
    rw [hw] at hi
    rw [if_pos (Instr.operand?_eq_none_iff.mp hw)]
    exact congrArg (fun i => some (Fetched.instr i)) hi
  | some w =>
    have hsome : i.opcode.operands ≠ 0 := by
      intro hnone
      rw [Instr.operand?_eq_none_iff.mpr hnone] at hw
      cases hw
    rw [hw] at hi
    rw [if_neg hsome]
    simp only [Instr.encode, hw, Option.toList_some, List.cons_append, List.nil_append, List.getElem?_cons_succ,
      List.getElem?_cons_zero]
    exact congrArg (fun i => some (Fetched.instr i)) hi

theorem fetch?_eq_invalid_iff :
    fetch? code addr = some (.invalid w) ↔ code[addr]? = some w ∧ ∀ op : Opcode, w ≠ op.word := by
  have hnone : Opcode.ofWord? w = none ↔ ∀ op : Opcode, w ≠ op.word := by
    rw [Option.eq_none_iff_forall_ne_some]
    exact forall_congr' fun op => not_congr Opcode.ofWord?_eq_some_iff
  rw [← hnone]
  constructor
  · intro h
    unfold fetch? at h
    split at h
    next => cases h
    next v hv =>
      split at h
      next hop =>
        cases h
        exact ⟨hv, hop⟩
      next =>
        split at h
        next => cases h
        next => split at h <;> cases h
  · rintro ⟨hw, hop⟩
    simp only [fetch?, hw, hop]

theorem fetch?_eq_truncated_iff :
    fetch? code addr = some (.truncated op) ↔ code.toList.drop addr = [op.word] ∧ op.operands ≠ 0 := by
  constructor
  · intro h
    unfold fetch? at h
    split at h
    next => cases h
    next v hv =>
      split at h
      next => cases h
      next op' hop =>
        split at h
        next => cases h
        next hsome =>
          split at h
          next hend =>
            cases h
            rw [Opcode.ofWord?_eq_some_iff.mp hop, ← Array.getElem?_toList] at hv
            rw [← Array.getElem?_toList] at hend
            have hrest : code.toList.drop (addr + 1) = [] :=
              List.drop_eq_nil_iff.mpr (List.getElem?_eq_none_iff.mp hend)
            refine ⟨?_, hsome⟩
            rw [List.drop_eq_getElem?_toList_append, hv, hrest]
            rfl
          next => cases h
  · rintro ⟨h, hsome⟩
    have hop : code[addr]? = some op.word := getElem?_of_drop h 0
    have hend : code[addr + 1]? = none := getElem?_of_drop h 1
    simp only [fetch?, hop, Opcode.ofWord?_eq_some_iff.mpr rfl, hend, if_neg hsome]

end Words

namespace Verification

/-! ## The one reading of words -/

/-- The words are those of the items, one after the other. -/
inductive Reading : List Word → List Fetched → Prop
  | done : Reading [] []
  | instr {ws : List Word} {fs : List Fetched} (i : Instr) (h : Reading ws fs) :
    Reading (i.encode ++ ws) (.instr i :: fs)
  | invalid {w : Word} {ws : List Word} {fs : List Fetched} (hw : ∀ op : Opcode, w ≠ op.word) (h : Reading ws fs) :
    Reading (w :: ws) (.invalid w :: fs)
  | truncated (op : Opcode) (hop : op.operands ≠ 0) : Reading [op.word] [.truncated op]

/-- Items with their addresses, the first of which is `addr`. -/
def located (addr : Nat) : List Fetched → List (Nat × Fetched)
  | [] => []
  | f :: fs => (addr, f) :: located (addr + f.size) fs

/-- The words that items take up. -/
def span : List Fetched → Nat
  | [] => 0
  | f :: fs => f.size + span fs

section Located

variable {addr : Nat} {fs : List Fetched} {p : Nat × Fetched}

theorem map_snd_located (addr : Nat) (fs : List Fetched) : (located addr fs).map Prod.snd = fs := by
  induction fs generalizing addr with
  | nil => rfl
  | cons f fs ih => rw [located, List.map_cons, ih]

theorem mem_located : p ∈ located addr fs ↔ ∃ pre post, fs = pre ++ p.2 :: post ∧ p.1 = addr + span pre := by
  obtain ⟨a, g⟩ := p
  induction fs generalizing addr with
  | nil => simp [located]
  | cons f fs ih =>
    rw [located, List.mem_cons, ih]
    constructor
    · rintro (h | ⟨pre, post, rfl, h⟩)
      · cases h
        exact ⟨[], fs, rfl, rfl⟩
      · refine ⟨f :: pre, post, rfl, ?_⟩
        rw [h, span, Nat.add_assoc]
    · rintro ⟨pre, post, hfs, h⟩
      cases pre with
      | nil =>
        cases hfs
        exact .inl (congrArg (·, g) h)
      | cons f' pre =>
        cases hfs
        refine .inr ⟨pre, post, rfl, ?_⟩
        rw [h, span, Nat.add_assoc]

/-- Items further on stand after all the words of this one. -/
theorem located_apart (addr : Nat) (fs : List Fetched) :
    (located addr fs).Pairwise fun p q => p.1 + p.2.size ≤ q.1 := by
  induction fs generalizing addr with
  | nil => exact .nil
  | cons f fs ih =>
    refine .cons ?_ (ih _)
    intro q hq
    obtain ⟨pre, post, -, hq⟩ := mem_located.mp hq
    change addr + f.size ≤ q.1
    omega

theorem located_increasing (addr : Nat) (fs : List Fetched) : (located addr fs).Pairwise fun p q => p.1 < q.1 := by
  refine (located_apart addr fs).imp ?_
  intro p q hle
  have hpos := p.2.size_pos
  omega

theorem nodup_located (addr : Nat) (fs : List Fetched) : ((located addr fs).map Prod.fst).Nodup :=
  List.pairwise_map.mpr ((located_increasing addr fs).imp fun hlt => Nat.ne_of_lt hlt)

end Located

section Walk

variable {code : Array Word} {addr : Nat} {f : Fetched} {fs gs : List Fetched} {ws : List Word}

theorem walkFrom_of_none (h : fetch? code addr = none) : walkFrom code addr = [] := by
  rw [walkFrom]
  split
  next => rfl
  next hop =>
    rw [h] at hop
    cases hop
  next hf =>
    rw [h] at hf
    cases hf

theorem walkFrom_of_truncated {op : Opcode} (h : fetch? code addr = some (.truncated op)) :
    walkFrom code addr = [(addr, .truncated op)] := by
  rw [walkFrom]
  split
  next hnone =>
    rw [h] at hnone
    cases hnone
  next hop =>
    rw [h] at hop
    cases hop
    rfl
  next hne hf =>
    rw [h] at hf
    cases hf
    exact (hne op rfl).elim

theorem walkFrom_of_some (h : fetch? code addr = some f) (hf : ∀ op, f ≠ .truncated op) :
    walkFrom code addr = (addr, f) :: walkFrom code (addr + f.size) := by
  rw [walkFrom]
  split
  next hnone =>
    rw [h] at hnone
    cases hnone
  next hop =>
    rw [h] at hop
    cases hop
    exact (hf _ rfl).elim
  next hg =>
    rw [h] at hg
    cases hg
    rfl

theorem walkFrom_of_reading (h : Reading ws fs) (hws : code.toList.drop addr = ws) :
    walkFrom code addr = located addr fs := by
  induction h generalizing addr with
  | done =>
    have hnone : fetch? code addr = none := by
      rw [fetch?_eq_none_iff, ← Array.length_toList]
      exact List.drop_eq_nil_iff.mp hws
    exact walkFrom_of_none hnone
  | instr i h ih =>
    have hrest := drop_add_of_drop hws
    rw [Instr.length_encode] at hrest
    rw [walkFrom_of_some (fetch?_of_drop_encode hws) (by intro op hop; cases hop), located]
    exact congrArg _ (ih hrest)
  | @invalid w ws fs hw h ih =>
    have hfetch : fetch? code addr = some (.invalid _) := fetch?_eq_invalid_iff.mpr ⟨getElem?_of_drop hws 0, hw⟩
    have hrest : code.toList.drop (addr + [w].length) = ws := drop_add_of_drop hws
    rw [walkFrom_of_some hfetch (by intro op hop; cases hop), located]
    exact congrArg _ (ih hrest)
  | truncated op hop => exact walkFrom_of_truncated (fetch?_eq_truncated_iff.mpr ⟨hws, hop⟩)

theorem exists_reading_from (code : Array Word) (addr : Nat) : ∃ fs, Reading (code.toList.drop addr) fs := by
  fun_induction walkFrom code addr with
  | case1 addr hnone =>
    have hnil : code.toList.drop addr = [] :=
      List.drop_eq_nil_iff.mpr (fetch?_eq_none_iff.mp hnone)
    exact ⟨[], hnil ▸ .done⟩
  | case2 addr op hop =>
    obtain ⟨hwords, hsome⟩ := fetch?_eq_truncated_iff.mp hop
    exact ⟨[.truncated op], hwords ▸ .truncated op hsome⟩
  | case3 addr f hne hf ih =>
    obtain ⟨fs, hfs⟩ := ih
    refine ⟨f :: fs, ?_⟩
    cases f with
    | instr i =>
      rw [drop_of_fetch? hf]
      exact .instr i hfs
    | invalid w =>
      obtain ⟨hw, hop⟩ := fetch?_eq_invalid_iff.mp hf
      rw [← Array.getElem?_toList] at hw
      rw [List.drop_eq_getElem?_toList_append, hw]
      exact .invalid hop hfs
    | truncated op => exact (hne op rfl).elim

theorem walk_of_reading (h : Reading code.toList fs) : walk code = located 0 fs :=
  walkFrom_of_reading h rfl

theorem exists_reading (code : Array Word) : ∃ fs, Reading code.toList fs :=
  exists_reading_from code 0

/-- Items that words can be read as are the only ones. -/
theorem Reading.unique (h : Reading ws fs) (h' : Reading ws gs) : fs = gs := by
  have hwalk : walk ws.toArray = located 0 fs := walk_of_reading h
  have hwalk' : walk ws.toArray = located 0 gs := walk_of_reading h'
  rw [hwalk'] at hwalk
  have hitems := congrArg (List.map Prod.snd) hwalk
  rw [map_snd_located, map_snd_located] at hitems
  exact hitems.symm

theorem starts_of_reading (h : Reading code.toList fs) : starts code = (located 0 fs).map Prod.fst := by
  rw [starts, walk_of_reading h]

/-- Whole instructions are read as what they are. -/
theorem reading_encode (is : List Instr) : Reading (is.flatMap Instr.encode) (is.map .instr) := by
  induction is with
  | nil => exact .done
  | cons i is ih => exact .instr i ih

end Walk

/-! ## Edges -/

/-- The end of `size` words, or the address of one of the items. -/
def Edge (fs : List Fetched) (size : Nat) (a : Int) : Prop :=
  a = size ∨ ∃ p ∈ located 0 fs, a = p.1

theorem boundary_iff_edge {code : Array Word} {fs : List Fetched} (h : Reading code.toList fs) {a : Int} :
    Boundary code a ↔ Edge fs code.size a := by
  unfold Boundary Edge
  rw [starts_of_reading h]
  simp

theorem boundary_eq_edge {code : Array Word} {fs : List Fetched} (h : Reading code.toList fs) :
    Boundary code = Edge fs code.size :=
  funext fun _ => propext (boundary_iff_edge h)

theorem lt_size_of_mem_starts {code : Array Word} {a : Nat} (h : a ∈ starts code) : a < code.size := by
  obtain ⟨⟨a, f⟩, hmem, rfl⟩ := List.mem_map.mp h
  exact lt_size_of_fetch? (mem_walkFrom hmem).1

end Verification
end StackMachine
