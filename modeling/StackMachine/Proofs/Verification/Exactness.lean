import Mathlib.Data.List.Nodup
import StackMachine.Proofs.Verification.Reading

/-!
# Verification is exact

There are no findings exactly for well-formed programs: whole instructions whose branches lead to instructions or to
the end, whose operands name what is there, and in which the functions start. Otherwise there is one finding for each
item of the one reading of the code that offends, and one for each function that does not start at an item.
-/

set_option autoImplicit false

namespace StackMachine.Verification

/-! ## Well-formed programs -/

/-- The code is the instructions `is`, one after the other, and none of them names something that is not there. Without
a table nothing is said about functions. -/
structure WellFormed (code : Array Word) (globals : Word) (table : Option FunctionTable) (is : List Instr) : Prop where
  words : code.toList = is.flatMap Instr.encode
  branches : ∀ w : Word, .br w ∈ is ∨ .brt w ∈ is ∨ .brf w ∈ is → Edge (is.map .instr) code.size w.toInt
  globals : ∀ w : Word, .gload w ∈ is ∨ .gstore w ∈ is → 0 ≤ w.toInt ∧ w.toInt < globals.toInt
  slots : ∀ w : Word, .load w ∈ is ∨ .store w ∈ is → 0 ≤ w.toInt
  calls : ∀ t, table = some t → ∀ id : Word, .call id ∈ is → 0 ≤ id.toInt ∧ id.toInt < t.size
  functions : ∀ t, table = some t → ∀ d ∈ t.entries, Edge (is.map .instr) code.size d.address.toInt

/-! ## Offences -/

/-- What is wrong with an item, if `edge` tells the addresses that can be gone to. -/
inductive Offence (edge : Int → Prop) (globals : Word) (table : Option FunctionTable) : Fetched → Problem → Prop
  | invalid (w : Word) : Offence edge globals table (.invalid w) (.invalidOpcode w)
  | truncated (op : Opcode) : Offence edge globals table (.truncated op) (.truncated op)
  | target {i : Instr} {w : Word} (hi : i = .br w ∨ i = .brt w ∨ i = .brf w) (h : ¬ edge w.toInt) :
    Offence edge globals table (.instr i) (.badTarget i.opcode w)
  | globalIndex {i : Instr} {w : Word} (hi : i = .gload w ∨ i = .gstore w)
    (h : ¬ (0 ≤ w.toInt ∧ w.toInt < globals.toInt)) :
    Offence edge globals table (.instr i) (.badGlobal i.opcode w globals)
  | slot {i : Instr} {w : Word} (hi : i = .load w ∨ i = .store w) (h : ¬ 0 ≤ w.toInt) :
    Offence edge globals table (.instr i) (.negativeSlot i.opcode w)
  | callee {t : FunctionTable} {id : Word} (ht : table = some t) (h : ¬ (0 ≤ id.toInt ∧ id.toInt < t.size)) :
    Offence edge globals table (.instr (.call id)) (.unknownFunction id)

section Offence

variable {code : Array Word} {globals : Word} {table : Option FunctionTable} {f : Fetched} {p : Problem}

theorem meets_iff_boundary {w : Word} : meets code w = true ↔ Boundary code w.toInt := by
  rw [meets_eq_true_iff]
  constructor
  · rintro ⟨n, hn, hboundary⟩
    rwa [(Word.index?_eq_some_iff.mp hn).1]
  · intro h
    obtain ⟨n, hn⟩ : ∃ n : Nat, w.toInt = n ∧ n ≤ code.size := by
      obtain h | ⟨n, hn, h⟩ := h
      · exact ⟨code.size, h, Nat.le_refl _⟩
      · exact ⟨n, h, Nat.le_of_lt (lt_size_of_mem_starts hn)⟩
    exact ⟨n, Word.index?_eq_some_iff.mpr ⟨hn.1, Nat.lt_succ_of_le hn.2⟩, hn.1 ▸ h⟩

theorem lookup?_isSome_iff {t : FunctionTable} {id : Word} :
    (t.lookup? id).isSome ↔ 0 ≤ id.toInt ∧ id.toInt < t.size := by
  rw [Option.isSome_iff_exists]
  constructor
  · rintro ⟨d, hd⟩
    obtain ⟨n, hn, -⟩ := Option.bind_eq_some_iff.mp hd
    obtain ⟨hid, hlt⟩ := Word.index?_eq_some_iff.mp hn
    omega
  · rintro ⟨h0, hlt⟩
    have hindex : id.index? t.size = some id.toInt.toNat := Word.index?_eq_some_iff.mpr ⟨by omega, by omega⟩
    have hbound : id.toInt.toNat < t.entries.size := (Word.index?_eq_some_iff.mp hindex).2
    refine ⟨t.entries[id.toInt.toNat], ?_⟩
    rw [FunctionTable.lookup?, hindex, Option.bind_some, Array.getElem?_eq_getElem hbound]

theorem nonneg_iff {w : Word} : 0 ≤ w ↔ 0 ≤ w.toInt :=
  Int64.le_iff_toInt_le

theorem inRange_iff {w : Word} : 0 ≤ w ∧ w < globals ↔ 0 ≤ w.toInt ∧ w.toInt < globals.toInt := by
  rw [nonneg_iff, Int64.lt_iff_toInt_lt]

theorem operandProblem_of_offence {i : Instr} (h : Offence (Boundary code) globals table (.instr i) p) :
    operandProblem (meets code) globals table i = some p := by
  cases h with
  | target hi h =>
    have hmeets := mt meets_iff_boundary.mp h
    obtain rfl | rfl | rfl := hi <;> exact Option.ite_none_left_eq_some.mpr ⟨hmeets, rfl⟩
  | globalIndex hi h =>
    have hrange := mt inRange_iff.mp h
    obtain rfl | rfl := hi <;> exact Option.ite_none_left_eq_some.mpr ⟨hrange, rfl⟩
  | slot hi h =>
    have hneg := mt nonneg_iff.mp h
    obtain rfl | rfl := hi <;> exact Option.ite_none_left_eq_some.mpr ⟨hneg, rfl⟩
  | callee ht h =>
    subst ht
    exact Option.ite_none_left_eq_some.mpr ⟨mt lookup?_isSome_iff.mp h, rfl⟩

theorem offence_of_operandProblem {i : Instr} (h : operandProblem (meets code) globals table i = some p) :
    Offence (Boundary code) globals table (.instr i) p := by
  cases i with
  | br w | brt w | brf w =>
    obtain ⟨hmeets, hp⟩ := Option.ite_none_left_eq_some.mp h
    cases hp
    exact .target (by simp) (mt meets_iff_boundary.mpr hmeets)
  | gload w | gstore w =>
    obtain ⟨hrange, hp⟩ := Option.ite_none_left_eq_some.mp h
    cases hp
    exact .globalIndex (by simp) (mt inRange_iff.mpr hrange)
  | load w | store w =>
    obtain ⟨hneg, hp⟩ := Option.ite_none_left_eq_some.mp h
    cases hp
    exact .slot (by simp) (mt nonneg_iff.mpr hneg)
  | call id =>
    cases table with
    | none => cases h
    | some t =>
      obtain ⟨hid, hp⟩ := Option.ite_none_left_eq_some.mp h
      cases hp
      exact .callee rfl (mt lookup?_isSome_iff.mpr hid)
  | iadd | isub | imul | ilt | ieq | iconst | print | pop | ret | halt => cases h

/-- The checks of the verifier find what is wrong with an item. -/
theorem offence_iff : Offence (Boundary code) globals table f p ↔
    shapeProblem f = some p ∨ fetchedProblem (meets code) globals table f = some p := by
  cases f with
  | instr i =>
    constructor
    · exact fun h => .inr (operandProblem_of_offence h)
    · rintro (h | h)
      · cases h
      · exact offence_of_operandProblem h
  | invalid w =>
    constructor
    · rintro ⟨⟩
      exact .inl rfl
    · rintro (h | h) <;> cases h
      exact .invalid w
  | truncated op =>
    constructor
    · rintro ⟨⟩
      exact .inl rfl
    · rintro (h | h) <;> cases h
      exact .truncated op

/-- An item is found at fault by one check at most. -/
theorem fetchedProblem_of_shapeProblem {boundary : Word → Bool} (h : shapeProblem f = some p) :
    fetchedProblem boundary globals table f = none := by
  cases f with
  | instr i => cases h
  | invalid | truncated => rfl

end Offence

/-! ## Findings -/

/-- A report on code that can be read as `fs`: no two of its findings are about one item or one function, and it tells
of every item that offends and of every function that does not start at an edge. -/
structure Reports (code : Array Word) (globals : Word) (table : Option FunctionTable) (fs : List Fetched)
    (items functions : List Finding) : Prop where
  distinct : (items.map Finding.address).Nodup
  offences : ∀ x, x ∈ items ↔ ∃ p ∈ located 0 fs, x.address = p.1 ∧
    Offence (Edge fs code.size) globals table p.2 x.problem
  once : functions.Nodup
  misplaced : ∀ x, x ∈ functions ↔ ∃ t, table = some t ∧ ∃ id d, t.entries[id]? = some d ∧
    ¬ Edge fs code.size d.address.toInt ∧ x = { address := d.address.toInt, problem := .badAddress id d.name }

section Reports

variable {code : Array Word} {globals : Word} {table : Option FunctionTable} {fs : List Fetched}

/-- The findings of one check. -/
def found (fs : List Fetched) (check : Fetched → Option Problem) : List Finding :=
  (located 0 fs).filterMap fun p => (check p.2).map (Finding.mk p.1)

theorem mem_found {check : Fetched → Option Problem} {x : Finding} :
    x ∈ found fs check ↔ ∃ p ∈ located 0 fs, x.address = p.1 ∧ check p.2 = some x.problem := by
  simp only [found, List.mem_filterMap, Option.map_eq_some_iff]
  constructor
  · rintro ⟨p, hp, problem, hcheck, rfl⟩
    exact ⟨p, hp, rfl, hcheck⟩
  · rintro ⟨p, hp, haddress, hcheck⟩
    refine ⟨p, hp, x.problem, hcheck, ?_⟩
    rw [← haddress]

theorem nodup_found (check : Fetched → Option Problem) : ((found fs check).map Finding.address).Nodup := by
  refine List.pairwise_map.mpr (List.pairwise_filterMap.mpr ((located_increasing 0 fs).imp ?_))
  intro p q hlt x hx y hy heq
  obtain ⟨_, -, rfl⟩ := Option.map_eq_some_iff.mp hx
  obtain ⟨_, -, rfl⟩ := Option.map_eq_some_iff.mp hy
  simp only at heq
  omega

theorem mem_addressFindings {boundary : Word → Bool} {x : Finding} :
    x ∈ addressFindings boundary table ↔ ∃ t, table = some t ∧ ∃ id d, t.entries[id]? = some d ∧
      ¬ boundary d.address = true ∧ x = { address := d.address.toInt, problem := .badAddress id d.name } := by
  cases table with
  | none => simp [addressFindings]
  | some t =>
    simp only [addressFindings, List.mem_filterMap, List.mem_mapIdx, Option.some.injEq, exists_eq_left',
      ← Array.getElem?_toList]
    constructor
    · rintro ⟨_, ⟨id, hid, rfl⟩, hx⟩
      obtain ⟨hboundary, hx⟩ := Option.ite_none_left_eq_some.mp hx
      exact ⟨id, _, List.getElem?_eq_getElem hid, hboundary, (Option.some.inj hx).symm⟩
    · rintro ⟨id, d, hd, hboundary, rfl⟩
      obtain ⟨hid, rfl⟩ := List.getElem?_eq_some_iff.mp hd
      exact ⟨_, ⟨id, hid, rfl⟩, Option.ite_none_left_eq_some.mpr ⟨hboundary, rfl⟩⟩

theorem nodup_addressFindings (boundary : Word → Bool) : (addressFindings boundary table).Nodup := by
  cases table with
  | none => exact List.nodup_nil
  | some t =>
    refine List.pairwise_filterMap.mpr (List.pairwise_iff_getElem.mpr ?_)
    intro j k hj hk hlt x hx y hy heq
    -- Findings about functions tell the ids, which are the places in the table.
    rw [List.getElem_mapIdx] at hx hy
    obtain ⟨-, hx⟩ := Option.ite_none_left_eq_some.mp hx
    obtain ⟨-, hy⟩ := Option.ite_none_left_eq_some.mp hy
    rw [← Option.some.inj hx, ← Option.some.inj hy] at heq
    injection heq with _ hproblem
    injection hproblem with hid
    omega

/-- The findings are a report. -/
theorem exists_report (globals : Word) (table : Option FunctionTable) (h : Reading code.toList fs) :
    ∃ items functions, findings code globals table = items ++ functions ∧
      Reports code globals table fs items functions := by
  have hedge := boundary_eq_edge h
  have hfindings : findings code globals table =
      found fs shapeProblem ++ found fs (fetchedProblem (meets code) globals table) ++
        addressFindings (meets code) table := by
    rw [findings_eq, walk_of_reading h]
    rfl
  refine ⟨_, _, hfindings, ?_, ?_, nodup_addressFindings _, ?_⟩
  · rw [List.map_append]
    refine List.nodup_append.mpr ⟨nodup_found _, nodup_found _, ?_⟩
    rintro a ha b hb rfl
    obtain ⟨x, hx, hxa⟩ := List.mem_map.mp ha
    obtain ⟨y, hy, hya⟩ := List.mem_map.mp hb
    obtain ⟨p, hp, hpx, hshape⟩ := mem_found.mp hx
    obtain ⟨q, hq, hqy, hoperand⟩ := mem_found.mp hy
    have hpq : p = q := List.inj_on_of_nodup_map (nodup_located 0 fs) hp hq (by omega)
    subst hpq
    rw [fetchedProblem_of_shapeProblem hshape] at hoperand
    cases hoperand
  · intro x
    rw [List.mem_append, mem_found, mem_found, ← hedge]
    simp only [offence_iff]
    constructor
    · rintro (⟨p, hp, haddress, hx⟩ | ⟨p, hp, haddress, hx⟩)
      · exact ⟨p, hp, haddress, .inl hx⟩
      · exact ⟨p, hp, haddress, .inr hx⟩
    · rintro ⟨p, hp, haddress, hx | hx⟩
      · exact .inl ⟨p, hp, haddress, hx⟩
      · exact .inr ⟨p, hp, haddress, hx⟩
  · intro x
    rw [mem_addressFindings, ← hedge]
    simp only [meets_iff_boundary]

/-- A report is empty if nothing offends and every function starts at an edge. -/
theorem Reports.eq_nil_iff {items functions : List Finding} (h : Reports code globals table fs items functions) :
    items ++ functions = [] ↔ (∀ f ∈ fs, ∀ problem, ¬ Offence (Edge fs code.size) globals table f problem) ∧
      ∀ t, table = some t → ∀ d ∈ t.entries, Edge fs code.size d.address.toInt := by
  rw [List.append_eq_nil_iff, List.eq_nil_iff_forall_not_mem, List.eq_nil_iff_forall_not_mem]
  constructor
  · rintro ⟨hitems, hfunctions⟩
    constructor
    · intro f hf problem hoffence
      rw [← map_snd_located 0 fs] at hf
      obtain ⟨p, hp, rfl⟩ := List.mem_map.mp hf
      exact hitems { address := p.1, problem := problem } ((h.offences _).mpr ⟨p, hp, rfl, hoffence⟩)
    · intro t ht d hd
      obtain ⟨id, hid⟩ := Array.mem_iff_getElem?.mp hd
      apply Classical.byContradiction
      intro hedge
      exact hfunctions _ ((h.misplaced _).mpr ⟨t, ht, id, d, hid, hedge, rfl⟩)
  · rintro ⟨hitems, hfunctions⟩
    constructor
    · intro x hx
      obtain ⟨p, hp, -, hoffence⟩ := (h.offences x).mp hx
      have hmem : p.2 ∈ fs := map_snd_located 0 fs ▸ List.mem_map_of_mem hp
      exact hitems p.2 hmem _ hoffence
    · intro x hx
      obtain ⟨t, ht, id, d, hd, hedge, -⟩ := (h.misplaced x).mp hx
      exact hedge (hfunctions t ht d (Array.mem_of_getElem? hd))

end Reports

section WellFormed

variable {code : Array Word} {globals : Word} {table : Option FunctionTable} {fs : List Fetched} {is : List Instr}

/-- Items none of which offends are instructions. -/
theorem exists_instrs {edge : Int → Prop} (h : ∀ f ∈ fs, ∀ problem, ¬ Offence edge globals table f problem) :
    ∃ is : List Instr, fs = is.map .instr := by
  induction fs with
  | nil => exact ⟨[], rfl⟩
  | cons f fs ih =>
    obtain ⟨is, rfl⟩ := ih fun f hf => h f (List.mem_cons_of_mem _ hf)
    have hf := h f List.mem_cons_self
    cases f with
    | instr i => exact ⟨i :: is, rfl⟩
    | invalid w => exact (hf _ (.invalid w)).elim
    | truncated op => exact (hf _ (.truncated op)).elim

theorem words_of_reading {ws : List Word} (h : Reading ws (is.map .instr)) : ws = is.flatMap Instr.encode := by
  induction is generalizing ws with
  | nil =>
    cases h
    rfl
  | cons i is ih =>
    cases h with
    | instr _ h => rw [List.flatMap_cons, ← ih h]

/-- Instructions that do not offend are a well-formed program. -/
theorem wellFormed_iff (hwords : code.toList = is.flatMap Instr.encode) :
    WellFormed code globals table is ↔
      (∀ f ∈ is.map Fetched.instr, ∀ problem,
        ¬ Offence (Edge (is.map .instr) code.size) globals table f problem) ∧
      ∀ t, table = some t → ∀ d ∈ t.entries, Edge (is.map .instr) code.size d.address.toInt := by
  constructor
  · intro h
    refine ⟨?_, h.functions⟩
    intro f hf problem hoffence
    obtain ⟨i, hi, rfl⟩ := List.mem_map.mp hf
    cases hoffence with
    | target hop hedge =>
      refine hedge (h.branches _ ?_)
      obtain rfl | rfl | rfl := hop
      · exact .inl hi
      · exact .inr (.inl hi)
      · exact .inr (.inr hi)
    | globalIndex hop hrange =>
      refine hrange (h.globals _ ?_)
      obtain rfl | rfl := hop
      · exact .inl hi
      · exact .inr hi
    | slot hop hneg =>
      refine hneg (h.slots _ ?_)
      obtain rfl | rfl := hop
      · exact .inl hi
      · exact .inr hi
    | callee ht hid => exact hid (h.calls _ ht _ hi)
  · rintro ⟨hoffences, hfunctions⟩
    have hinstr (i : Instr) (hi : i ∈ is) (problem : Problem) :=
      hoffences (.instr i) (List.mem_map_of_mem hi) problem
    refine ⟨hwords, ?_, ?_, ?_, ?_, hfunctions⟩
    · intro w hw
      apply Classical.byContradiction
      intro hedge
      obtain hi | hi | hi := hw
      · exact hinstr _ hi _ (.target (.inl rfl) hedge)
      · exact hinstr _ hi _ (.target (.inr (.inl rfl)) hedge)
      · exact hinstr _ hi _ (.target (.inr (.inr rfl)) hedge)
    · intro w hw
      apply Classical.byContradiction
      intro hrange
      obtain hi | hi := hw
      · exact hinstr _ hi _ (.globalIndex (.inl rfl) hrange)
      · exact hinstr _ hi _ (.globalIndex (.inr rfl) hrange)
    · intro w hw
      apply Classical.byContradiction
      intro hneg
      obtain hi | hi := hw
      · exact hinstr _ hi _ (.slot (.inl rfl) hneg)
      · exact hinstr _ hi _ (.slot (.inr rfl) hneg)
    · intro t ht id hi
      apply Classical.byContradiction
      intro hid
      exact hinstr _ hi _ (.callee ht hid)

end WellFormed

/-- There are no findings exactly for well-formed programs. Any code has one reading, and what is found is one finding
for each item of it that offends and one for each function that does not start at an edge. -/
theorem findings_exact (code : Array Word) (globals : Word) (table : Option FunctionTable) :
    (findings code globals table = [] ↔ ∃ is, WellFormed code globals table is) ∧
    ∃ fs, Reading code.toList fs ∧ (∀ gs, Reading code.toList gs → gs = fs) ∧
      ∃ items functions, findings code globals table = items ++ functions ∧
        Reports code globals table fs items functions := by
  obtain ⟨fs, hfs⟩ := exists_reading code
  obtain ⟨items, functions, hfindings, hreports⟩ := exists_report globals table hfs
  refine ⟨?_, fs, hfs, fun gs hgs => hgs.unique hfs, items, functions, hfindings, hreports⟩
  rw [hfindings, hreports.eq_nil_iff]
  constructor
  · intro h
    obtain ⟨is, rfl⟩ := exists_instrs h.1
    exact ⟨is, (wellFormed_iff (words_of_reading hfs)).mpr h⟩
  · rintro ⟨is, h⟩
    have hreading : Reading code.toList (is.map .instr) := h.words ▸ reading_encode is
    cases hreading.unique hfs
    exact (wellFormed_iff h.words).mp h

/-- A word that is no opcode, a branch to its own operand, and an opcode at the end without its operand. -/
def jumble : Array Word :=
  #[0, 6, 2, 9]

theorem jumble_reported :
    Reading jumble.toList [.invalid 0, .instr (.br 2), .truncated .iconst] ∧
    ∃ items functions, findings jumble 0 none = items ++ functions ∧
      Reports jumble 0 none [.invalid 0, .instr (.br 2), .truncated .iconst] items functions ∧
      { address := 0, problem := .invalidOpcode 0 } ∈ items ∧
      { address := 1, problem := .badTarget .br 2 } ∈ items ∧
      { address := 3, problem := .truncated .iconst } ∈ items := by
  have hreading : Reading jumble.toList [.invalid 0, .instr (.br 2), .truncated .iconst] :=
    .invalid (by intro op; cases op <;> decide) (.instr (.br 2) (.truncated .iconst (by decide)))
  have hedge : ¬ Edge [.invalid 0, .instr (.br 2), .truncated .iconst] jumble.size (2 : Word).toInt := by
    rintro (h | ⟨p, hp, h⟩)
    · cases h
    · simp only [located, List.mem_cons, List.not_mem_nil, or_false] at hp
      rcases hp with rfl | rfl | rfl <;> cases h
  obtain ⟨-, fs, -, hunique, items, functions, hfindings, hreports⟩ := findings_exact jumble 0 none
  cases hunique _ hreading
  refine ⟨hreading, items, functions, hfindings, hreports, ?_, ?_, ?_⟩
  · exact (hreports.offences _).mpr ⟨(0, .invalid 0), by simp [located], rfl, .invalid 0⟩
  · refine (hreports.offences _).mpr ⟨(1, .instr (.br 2)), by simp [located, Fetched.size], rfl, ?_⟩
    exact .target (.inl rfl) hedge
  · exact (hreports.offences _).mpr ⟨(3, .truncated .iconst), by decide, rfl, .truncated .iconst⟩

end StackMachine.Verification
