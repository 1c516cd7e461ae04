import StackMachine.Proofs.Assembly.Reassembly
import StackMachine.Proofs.FunctionTable.Numbering
import StackMachine.Proofs.Verification.Exactness

/-!
# Assembled code decodes

Every statement of a text is assembled to one whole instruction, and every label is given the number of words of the
statements before it. So the walk meets the statements one by one, labels stand at instructions or at the end, and
what verification objects to is a literal operand or the address of a function.
-/

set_option autoImplicit false

namespace StackMachine

namespace Assembly

/-! ## Statements as they are written -/

/-- The statement of a line, whatever its label is. -/
def lineStatement (hasTable : Bool) (number : Nat) (l : Line) : Program :=
  match readStatement hasTable l.fields with
  | .ok (some st) => [(number, st)]
  | _ => []

def statements (hasTable : Bool) (number : Nat) : List Line → Program
  | [] => []
  | l :: rest => lineStatement hasTable number l ++ statements hasTable (number + 1) rest

/-- All statements of a text with their lines. -/
def written (hasTable : Bool) (source : String) : Program :=
  statements hasTable 1 (sourceLines source)

/-- The opcode takes the operands that the statement has. -/
def Statement.Formed : Statement → Prop
  | plain op => op.operands = 0
  | literal op _ => op.operands = 1
  | branch op _ => op.isBranch = true
  | callByName _ => True

theorem formed_of_readOperand {hasTable : Bool} {op : Opcode} {arg : String} {st : Statement}
    (hop : op.operands = 1) (h : readOperand hasTable op arg = .ok st) : st.Formed := by
  unfold readOperand at h
  split at h
  next =>
    cases h
    exact hop
  next =>
    split at h
    next hbranch =>
      cases h
      exact hbranch
    next =>
      split at h
      next =>
        split at h
        next =>
          cases h
          trivial
        next => cases h
      next => cases h

theorem formed_of_readStatement {hasTable : Bool} {fields : List String} {st : Statement}
    (h : readStatement hasTable fields = .ok (some st)) : st.Formed := by
  unfold readStatement at h
  split at h
  next => cases h
  next word args =>
    split at h
    next => cases h
    next op _ =>
      split at h
      next => cases h
      next hcount =>
        split at h
        next =>
          cases h
          exact (Classical.not_not.mp hcount).symm
        next arg rest =>
          have hone : op.operands = 1 := by
            have hle : op.operands ≤ 1 := by cases op <;> decide
            simp only [List.length_cons] at hcount
            omega
          cases hread : readOperand hasTable op arg with
          | error cause =>
            rw [hread] at h
            cases h
          | ok st' =>
            rw [hread] at h
            cases h
            exact formed_of_readOperand hone hread

theorem formed_of_mem_statements {hasTable : Bool} {number : Nat} {ls : List Line} {s : Nat × Statement}
    (h : s ∈ statements hasTable number ls) : s.2.Formed := by
  induction ls generalizing number with
  | nil => cases h
  | cons l ls ih =>
    obtain h | h := List.mem_append.mp h
    · unfold lineStatement at h
      split at h
      next hread =>
        cases List.mem_singleton.mp h
        exact formed_of_readStatement hread
      next => cases h
    · exact ih h

/-! ## The first pass finds what is written -/

/-- Labels have the sizes of what comes before them. -/
def Survey.Marked (s : Survey) : Prop :=
  ∀ x ∈ s.labels, ∃ pre post, s.program = pre ++ post ∧ x.2 = pre.size

theorem Survey.labelled_eq_ok {label : Option String} {s t : Survey} (h : s.labelled label = .ok t) :
    t.program = s.program ∧ (t.labels = s.labels ∨ ∃ label, t.labels = s.labels ++ [(label, s.program.size)]) := by
  cases label with
  | none =>
    cases h
    exact ⟨rfl, .inl rfl⟩
  | some label =>
    simp only [labelled, defineLabel] at h
    split at h
    next => cases h
    next =>
      split at h
      next => cases h
      next =>
        cases h
        exact ⟨rfl, .inr ⟨label, rfl⟩⟩

/-- What a line adds. -/
theorem Survey.line_eq_ok {hasTable : Bool} {number : Nat} {l : Line} {s t : Survey}
    (h : s.line hasTable number l = .ok t) :
    t.program = s.program ++ lineStatement hasTable number l ∧
      (t.labels = s.labels ∨ ∃ label, t.labels = s.labels ++ [(label, s.program.size)]) := by
  obtain ⟨u, hlabel, hinstruction⟩ := bind_eq_ok_iff.mp h
  obtain ⟨hprogram, hlabels⟩ := labelled_eq_ok hlabel
  unfold instruction at hinstruction
  unfold lineStatement
  split at hinstruction
  next => cases hinstruction
  next hread =>
    cases hinstruction
    rw [hread]
    exact ⟨hprogram.trans (List.append_nil _).symm, hlabels⟩
  next hread =>
    cases hinstruction
    rw [hread]
    exact ⟨congrArg (· ++ _) hprogram, hlabels⟩

theorem Survey.Marked.line {hasTable : Bool} {number : Nat} {l : Line} {s t : Survey} (hs : s.Marked)
    (h : s.line hasTable number l = .ok t) : t.Marked := by
  obtain ⟨hprogram, hlabels⟩ := line_eq_ok h
  have hold : ∀ x ∈ s.labels, ∃ pre post, t.program = pre ++ post ∧ x.2 = pre.size := by
    intro x hx
    obtain ⟨pre, post, hsplit, hsize⟩ := hs x hx
    refine ⟨pre, post ++ lineStatement hasTable number l, ?_, hsize⟩
    rw [hprogram, hsplit, List.append_assoc]
  intro x hx
  obtain hlabels | ⟨label, hlabels⟩ := hlabels
  · exact hold x (hlabels ▸ hx)
  · rw [hlabels] at hx
    obtain hx | hx := List.mem_append.mp hx
    · exact hold x hx
    · cases List.mem_singleton.mp hx
      exact ⟨s.program, _, hprogram, rfl⟩

theorem Survey.lines_eq_none {hasTable : Bool} {number : Nat} {ls : List Line} {s : Survey} (hs : s.Marked)
    (h : (s.lines hasTable number ls).2 = none) :
    (s.lines hasTable number ls).1.program = s.program ++ statements hasTable number ls ∧
      (s.lines hasTable number ls).1.Marked := by
  induction ls generalizing number s with
  | nil => exact ⟨(List.append_nil _).symm, hs⟩
  | cons l ls ih =>
    rw [lines] at h ⊢
    cases hline : s.line hasTable number l with
    | error cause =>
      rw [hline] at h
      cases h
    | ok t =>
      rw [hline] at h
      obtain ⟨hprogram, hmarked⟩ := ih (hs.line hline) h
      refine ⟨?_, hmarked⟩
      simp only
      rw [hprogram, (line_eq_ok hline).1, statements, List.append_assoc]

/-! ## What assembling comes to -/

/-- The code is that of the statements as they are written, labels stand between them, and all names that statements
have for operands are known. -/
structure Yields (program : Program) (r : Assembled) (builder : Option TableBuilder) : Prop where
  formed : ∀ s ∈ program, s.2.Formed
  code : r.code.toList = program.draft r.labels builder
  labels : ∀ x ∈ r.labels, ∃ pre post, program = pre ++ post ∧ x.2 = pre.size
  branches : ∀ pre number op label post, program = pre ++ (number, .branch op label) :: post →
    ∃ addr, r.labels.lookup label = some addr
  calls : ∀ name ∈ program.mentioned, ∃ id, builder.bind (·.find? name) = some id

theorem survey_of_assemble {source : String} {builder : Option TableBuilder} {r : Assembled}
    (h : (assemble source builder).1 = .ok r) :
    (Survey.lines builder.isSome {} 1 (sourceLines source)).1.program = written builder.isSome source ∧
      (Survey.lines builder.isSome {} 1 (sourceLines source)).1.Marked := by
  have hfound := @Survey.lines_eq_none builder.isSome 1 (sourceLines source) {} nofun
  rw [assemble_eq_twoPass, twoPass] at h
  generalize Survey.lines builder.isSome {} 1 (sourceLines source) = first at h hfound ⊢
  obtain ⟨s, error⟩ := first
  cases error with
  | some e => cases h
  | none => exact hfound rfl

theorem yields_of_assemble {source : String} {builder builder' : Option TableBuilder} {r : Assembled}
    (h : assemble source builder = (.ok r, builder')) : Yields (written builder.isSome source) r builder' := by
  obtain ⟨hprogram, hmarked⟩ := survey_of_assemble (congrArg Prod.fst h)
  obtain ⟨-, number, hfollows⟩ := (Follows.initial builder 1).lines_eq (sourceLines source)
  have horder : ∀ ps : List Pending, (id ps).Perm ps := fun ps => .refl ps
  unfold assemble assembleIn at h
  generalize Assembler.lines _ 1 (sourceLines source) = final at h hfollows
  generalize Survey.lines _ _ 1 (sourceLines source) = first at hprogram hmarked hfollows
  obtain ⟨a, error⟩ := final
  dsimp only at h hfollows
  rw [hfollows.unresolved? horder] at h
  cases error with
  | some e => cases h
  | none =>
    cases hhead : a.pending.head? with
    | some p =>
      rw [hhead] at h
      cases h
    | none =>
      rw [hhead] at h
      cases h
      have hsettled := List.head?_eq_none_iff.mp hhead
      have hformed : ∀ s ∈ written builder.isSome source, s.2.Formed := fun s => formed_of_mem_statements
      rw [← hprogram] at hformed ⊢
      refine ⟨hformed, ?_, ?_, ?_, fun name => hfollows.found⟩
      · rw [hfollows.labels, hfollows.code]
      · rw [hfollows.labels]
        exact hmarked
      · intro pre number op label post hsplit
        rw [hfollows.pending, hsplit] at hsettled
        rw [hfollows.labels]
        exact lookup_of_waiting_nil hsettled

/-! ## Statements as instructions -/

/-- The instruction that a statement is assembled to. -/
def Statement.instr (labels : List (String × Nat)) (builder : Option TableBuilder) : Statement → Instr
  | plain op => .ofOpcode op 0
  | literal op w => .ofOpcode op w
  | branch op label => .ofOpcode op (((labels.lookup label).map Int64.ofNat).getD (-1))
  | callByName name => .call (((builder.bind (·.find? name)).map Int64.ofNat).getD 0)

def Program.items (labels : List (String × Nat)) (builder : Option TableBuilder) (p : Program) : List Fetched :=
  p.map fun s => .instr (s.2.instr labels builder)

section Items

variable {labels : List (String × Nat)} {builder : Option TableBuilder} {st : Statement} {p : Program}

theorem Statement.draft_eq_encode (h : st.Formed) : st.draft labels builder = (st.instr labels builder).encode := by
  cases st with
  | plain op =>
    have hop : op.operands = 0 := h
    rw [draft, instr, Instr.encode, Instr.opcode_ofOpcode, Instr.operand?_ofOpcode, if_pos hop]
    rfl
  | literal op w =>
    have hop : op.operands = 1 := h
    rw [draft, instr, Instr.encode, Instr.opcode_ofOpcode, Instr.operand?_ofOpcode, if_neg (by omega)]
    rfl
  | branch op label =>
    have hop : op.operands ≠ 0 := by cases op <;> first | decide | cases h
    rw [draft, instr, Instr.encode, Instr.opcode_ofOpcode, Instr.operand?_ofOpcode, if_neg hop]
    rfl
  | callByName name => rfl

theorem Statement.size_instr (h : st.Formed) : (st.instr labels builder).size = st.size := by
  rw [← Instr.length_encode, ← draft_eq_encode h, length_draft]

theorem Program.reading_draft (h : ∀ s ∈ p, s.2.Formed) :
    Verification.Reading (p.draft labels builder) (p.items labels builder) := by
  induction p with
  | nil => exact .done
  | cons s p ih =>
    obtain ⟨hs, hp⟩ := List.forall_mem_cons.mp h
    rw [draft_cons, Statement.draft_eq_encode hs]
    exact .instr _ (ih hp)

theorem Program.span_items (h : ∀ s ∈ p, s.2.Formed) : Verification.span (p.items labels builder) = p.size := by
  induction p with
  | nil => rfl
  | cons s p ih =>
    obtain ⟨hs, hp⟩ := List.forall_mem_cons.mp h
    rw [size, ← ih hp, ← Statement.size_instr hs]
    rfl

/-- Statements stand at the sizes of what comes before them. -/
theorem Program.mem_located_items (h : ∀ s ∈ p, s.2.Formed) {x : Nat × Fetched} :
    x ∈ Verification.located 0 (p.items labels builder) ↔
      ∃ pre s post, p = pre ++ s :: post ∧ x = (size pre, .instr (s.2.instr labels builder)) := by
  rw [Verification.mem_located]
  simp only [Nat.zero_add]
  constructor
  · rintro ⟨before, after, hitems, haddr⟩
    obtain ⟨pre, rest, rfl, rfl, hrest⟩ := List.map_eq_append_iff.mp hitems
    obtain ⟨s, post, rfl, hs, rfl⟩ := List.map_eq_cons_iff.mp hrest
    have hpre : ∀ s ∈ pre, s.2.Formed := fun s hs => h s (List.mem_append_left _ hs)
    refine ⟨pre, s, post, rfl, Prod.ext ?_ hs.symm⟩
    exact haddr.trans (span_items hpre)
  · rintro ⟨pre, s, post, rfl, rfl⟩
    have hpre : ∀ s ∈ pre, s.2.Formed := fun s hs => h s (List.mem_append_left _ hs)
    refine ⟨items labels builder pre, items labels builder post, ?_, (span_items hpre).symm⟩
    rw [items, List.map_append, List.map_cons]
    rfl

end Items

section Yields

variable {program : Program} {r : Assembled} {builder : Option TableBuilder} {pre post : Program} {number : Nat}

theorem Yields.reading (h : Yields program r builder) :
    Verification.Reading r.code.toList (program.items r.labels builder) :=
  h.code ▸ Program.reading_draft h.formed

theorem Yields.size_code (h : Yields program r builder) : r.code.size = program.size := by
  rw [← Array.length_toList, h.code, Program.length_draft]

/-- The walk meets the statements. -/
theorem Yields.mem_walk (h : Yields program r builder) {s : Nat × Statement} (hsplit : program = pre ++ s :: post) :
    (pre.size, .instr (s.2.instr r.labels builder)) ∈ Verification.walk r.code := by
  rw [Verification.walk_of_reading h.reading]
  exact (Program.mem_located_items h.formed).mpr ⟨pre, s, post, hsplit, rfl⟩

theorem Yields.boundary (h : Yields program r builder) (hsplit : program = pre ++ post) :
    Verification.Boundary r.code pre.size := by
  cases post with
  | nil =>
    refine .inl ?_
    rw [h.size_code, hsplit, List.append_nil]
  | cons s post => exact .inr ⟨_, List.mem_map_of_mem (h.mem_walk hsplit), rfl⟩

theorem Yields.branch (h : Yields program r builder) {op : Opcode} {label : String}
    (hsplit : program = pre ++ (number, .branch op label) :: post) :
    ∃ addr : Nat, r.labels.lookup label = some addr ∧ Verification.Boundary r.code addr ∧
      (pre.size, .instr (.ofOpcode op (Int64.ofNat addr))) ∈ Verification.walk r.code := by
  obtain ⟨addr, haddr⟩ := h.branches pre number op label post hsplit
  obtain ⟨before, after, hmem, -⟩ := List.lookup_eq_some_iff.mp haddr
  obtain ⟨upTo, rest, hlabel, hsize⟩ := h.labels (label, addr) (by simp [hmem])
  change addr = upTo.size at hsize
  have hmet := h.mem_walk hsplit
  rw [Statement.instr, haddr] at hmet
  exact ⟨addr, haddr, hsize ▸ h.boundary hlabel, hmet⟩

theorem Yields.call (h : Yields program r builder) {name : String}
    (hsplit : program = pre ++ (number, .callByName name) :: post) :
    ∃ b id, builder = some b ∧ b.find? name = some id ∧
      (pre.size, .instr (.call (Int64.ofNat id))) ∈ Verification.walk r.code := by
  have hmentioned : name ∈ program.mentioned := by
    simp [hsplit, Program.mentioned, Statement.mentioned]
  obtain ⟨id, hid⟩ := h.calls name hmentioned
  obtain ⟨b, hb, hfind⟩ := Option.bind_eq_some_iff.mp hid
  have hmet := h.mem_walk hsplit
  rw [Statement.instr, hid] at hmet
  exact ⟨b, id, hb, hfind, hmet⟩

end Yields

/-! ## What verification objects to -/

section Objections

variable {edge : Int → Prop} {globals : Word} {table : Option FunctionTable} {problem : Problem}

theorem operand?_of_offence {i : Instr} (h : Verification.Offence edge globals table (.instr i) problem) :
    i.operand? ≠ none := by
  cases h with
  | target hi => obtain rfl | rfl | rfl := hi <;> exact nofun
  | globalIndex hi => obtain rfl | rfl := hi <;> exact nofun
  | slot hi => obtain rfl | rfl := hi <;> exact nofun
  | callee => exact nofun

theorem edge_of_branch {op : Opcode} {w : Word} (hop : op.isBranch = true)
    (h : Verification.Offence edge globals table (.instr (.ofOpcode op w)) problem) : ¬ edge w.toInt := by
  cases op with
  | br | brt | brf =>
    cases h with
    | target hi h =>
      simp only [Instr.ofOpcode, Instr.br.injEq, Instr.brt.injEq, Instr.brf.injEq, reduceCtorEq, or_false,
        false_or] at hi
      exact hi ▸ h
    | globalIndex hi | slot hi => simp [Instr.ofOpcode] at hi
  | _ => cases hop

theorem unknown_of_call {id : Word} (h : Verification.Offence edge globals table (.instr (.call id)) problem) :
    ∃ t, table = some t ∧ ¬ (0 ≤ id.toInt ∧ id.toInt < t.size) := by
  cases h with
  | target hi | globalIndex hi | slot hi => simp at hi
  | callee ht h => exact ⟨_, ht, h⟩

theorem sound_shape_of_offence {i : Instr} (h : Verification.Offence edge globals table (.instr i) problem) :
    (∀ w, problem ≠ .invalidOpcode w) ∧ ∀ op, problem ≠ .truncated op := by
  cases h <;> exact ⟨nofun, nofun⟩

theorem toInt_ofNat_of_le {n : Nat} (h : (n : Int) ≤ Int64.maxValue.toInt) : (Int64.ofNat n).toInt = n := by
  rw [Int64.toInt_maxValue] at h
  exact Int64.toInt_ofNat_of_lt (by omega)

/-- The table has an entry for every name that the builder knows. -/
def Covers (builder : Option TableBuilder) (table : Option FunctionTable) : Prop :=
  ∀ b t, builder = some b → table = some t → b.slots.length ≤ t.size

/-- Ids are words. -/
def Numbered (builder : Option TableBuilder) : Prop :=
  ∀ b, builder = some b → (b.slots.length : Int) ≤ Int64.maxValue.toInt

/-- A finding is about a function or about a statement. -/
theorem Yields.cases_of_finding {program : Program} {r : Assembled} {builder : Option TableBuilder} {x : Finding}
    (h : Yields program r builder) (hx : x ∈ Verification.findings r.code globals table) :
    (∃ id name, x.problem = .badAddress id name) ∨
      ∃ pre number st post, program = pre ++ (number, st) :: post ∧ x.address = Program.size pre ∧
        Verification.Offence (Verification.Boundary r.code) globals table
          (.instr (st.instr r.labels builder)) x.problem := by
  have hedge := Verification.boundary_eq_edge h.reading
  obtain ⟨items, functions, hfindings, hreports⟩ := Verification.exists_report globals table h.reading
  rw [hfindings, List.mem_append] at hx
  obtain hx | hx := hx
  · obtain ⟨p, hp, haddress, hoffence⟩ := (hreports.offences x).mp hx
    obtain ⟨pre, ⟨number, st⟩, post, hsplit, rfl⟩ := (Program.mem_located_items h.formed).mp hp
    exact .inr ⟨pre, number, st, post, hsplit, haddress, hedge ▸ hoffence⟩
  · obtain ⟨t, -, id, d, -, -, rfl⟩ := (hreports.misplaced x).mp hx
    exact .inl ⟨id, d.name, rfl⟩

/-- A statement that is found at fault has a literal operand. -/
theorem Yields.literal_of_offence {program : Program} {r : Assembled} {builder : Option TableBuilder}
    (h : Yields program r builder) (hsize : (r.code.size : Int) ≤ Int64.maxValue.toInt) (hids : Numbered builder)
    (hcovers : Covers builder table) {pre post : Program} {number : Nat} {st : Statement}
    (hsplit : program = pre ++ (number, st) :: post)
    (hoffence : Verification.Offence (Verification.Boundary r.code) globals table
      (.instr (st.instr r.labels builder)) problem) :
    ∃ op w, st = .literal op w := by
  have hst : st.Formed := h.formed (number, st) (by simp [hsplit])
  cases st with
  | literal op w => exact ⟨op, w, rfl⟩
  | plain op =>
    have hop : op.operands = 0 := hst
    refine (operand?_of_offence hoffence ?_).elim
    rw [Statement.instr, Instr.operand?_ofOpcode, if_pos hop]
  | branch op label =>
    obtain ⟨addr, haddr, hboundary, -⟩ := h.branch hsplit
    have hle : addr ≤ r.code.size := by
      obtain hend | ⟨a, ha, hstart⟩ := hboundary
      · omega
      · have hlt := Verification.lt_size_of_mem_starts ha
        omega
    have hmisses := edge_of_branch hst hoffence
    rw [haddr, Option.map_some, Option.getD_some, toInt_ofNat_of_le (by omega)] at hmisses
    exact (hmisses hboundary).elim
  | callByName name =>
    obtain ⟨b, id, rfl, hfind, -⟩ := h.call hsplit
    obtain ⟨t, rfl, hunknown⟩ := unknown_of_call hoffence
    have hlt := TableBuilder.lt_length_of_find? hfind
    have hmax := hids b rfl
    have hcount := hcovers b t rfl rfl
    rw [Option.bind_some, hfind, Option.map_some, Option.getD_some, toInt_ofNat_of_le (by omega)] at hunknown
    omega

end Objections

/-- The walk of assembled code meets the statements of the text as whole instructions, and all labels are boundaries,
so that branches to labels lead to boundaries and calls by name to functions the builder knows. Verification with a
table for these functions can only object to literal operands and to the addresses of functions; such a table is any
that is built from what the assembler leaves. -/
theorem assembled_code_decodes {source : String} {builder builder' : Option TableBuilder} {r : Assembled}
    (h : assemble source builder = (.ok r, builder')) :
    Decodes r.code ∧
    (∀ globals table, ∀ x ∈ Verification.findings r.code globals table,
      (∀ w, x.problem ≠ .invalidOpcode w) ∧ ∀ op, x.problem ≠ .truncated op) ∧
    (∀ x ∈ r.labels, Verification.Boundary r.code x.2) ∧
    (∀ pre number op label post, written builder.isSome source = pre ++ (number, .branch op label) :: post →
      ∃ addr : Nat, r.labels.lookup label = some addr ∧ Verification.Boundary r.code addr ∧
        (Program.size pre, .instr (.ofOpcode op (Int64.ofNat addr))) ∈ Verification.walk r.code) ∧
    (∀ pre number name post, written builder.isSome source = pre ++ (number, .callByName name) :: post →
      ∃ b id, builder' = some b ∧ b.find? name = some id ∧
        (Program.size pre, .instr (.call (Int64.ofNat id))) ∈ Verification.walk r.code) ∧
    ((r.code.size : Int) ≤ Int64.maxValue.toInt → Numbered builder' → ∀ globals table, Covers builder' table →
      ∀ x ∈ Verification.findings r.code globals table, (∃ id name, x.problem = .badAddress id name) ∨
        ∃ pre number op w post, written builder.isSome source = pre ++ (number, .literal op w) :: post ∧
          x.address = Program.size pre) ∧
    ∀ b later t, builder' = some b → (Session.after TableBuilder.answer b later).build = .ok t →
      Covers builder' (some t) := by
  have hyields := yields_of_assemble h
  refine ⟨?_, ?_, ?_, fun _ _ _ _ _ => hyields.branch, fun _ _ _ _ => hyields.call, ?_, ?_⟩
  · intro p hp
    rw [Verification.walk_of_reading hyields.reading] at hp
    obtain ⟨pre, s, post, -, rfl⟩ := (Program.mem_located_items hyields.formed).mp hp
    exact ⟨_, rfl⟩
  · intro globals table x hx
    obtain ⟨id, name, hproblem⟩ | ⟨pre, number, st, post, -, -, hoffence⟩ := hyields.cases_of_finding hx
    · rw [hproblem]
      exact ⟨nofun, nofun⟩
    · exact sound_shape_of_offence hoffence
  · intro x hx
    obtain ⟨pre, post, hsplit, hsize⟩ := hyields.labels x hx
    exact hsize ▸ hyields.boundary hsplit
  · intro hsize hids globals table hcovers x hx
    obtain hfunction | ⟨pre, number, st, post, hsplit, haddress, hoffence⟩ := hyields.cases_of_finding hx
    · exact .inl hfunction
    · obtain ⟨op, w, rfl⟩ := hyields.literal_of_offence hsize hids hcovers hsplit hoffence
      exact .inr ⟨pre, number, op, w, post, hsplit, haddress⟩
  · rintro b later t rfl ht b' t' hb ht'
    cases hb
    cases ht'
    rw [TableBuilder.size_of_build ht]
    exact TableBuilder.length_after b later

/-- Two labels at one address and one at the end, a call before the definition, and a literal that leads nowhere. -/
def patchwork : String :=
  "start:\nloop: call f\n\nbrt end ; forward\nbr 99\nend:"

theorem patchwork_decodes :
    assemble patchwork (some .empty) =
      (.ok { code := #[16, 0, 7, 6, 6, 99], labels := [("start", 0), ("loop", 0), ("end", 6)] },
        some (TableBuilder.empty.insert "f")) ∧
    Decodes #[16, 0, 7, 6, 6, 99] ∧
    Verification.Boundary #[16, 0, 7, 6, 6, 99] (6 : Nat) ∧
    (0, .instr (.call 0)) ∈ Verification.walk #[16, 0, 7, 6, 6, 99] ∧
    ∀ globals, ∀ x ∈ Verification.findings #[16, 0, 7, 6, 6, 99] globals none,
      (∃ id name, x.problem = .badAddress id name) ∨ x.address = 4 := by
  have hassemble : assemble patchwork (some .empty) =
      (.ok { code := #[16, 0, 7, 6, 6, 99], labels := [("start", 0), ("loop", 0), ("end", 6)] },
        some (TableBuilder.empty.insert "f")) := rfl
  have hwritten : written true patchwork = [(2, .callByName "f"), (4, .branch .brt "end"), (5, .literal .br 99)] := rfl
  obtain ⟨hdecodes, -, hlabels, -, hcalls, hliteral, -⟩ := assembled_code_decodes hassemble
  refine ⟨hassemble, hdecodes, hlabels ("end", 6) (by simp), ?_, ?_⟩
  · obtain ⟨b, id, hb, hid, hmem⟩ := hcalls [] 2 "f" _ hwritten
    cases hb
    cases hid
    exact hmem
  · intro globals x hx
    have hnumbered : Numbered (some (TableBuilder.empty.insert "f")) := by
      intro b hb
      cases hb
      decide
    obtain hfunction | ⟨pre, number, op, w, post, hsplit, haddress⟩ :=
      hliteral (by decide) hnumbered globals none nofun x hx
    · exact .inl hfunction
    · rw [Option.isSome_some, hwritten] at hsplit
      -- Only the third statement has a literal operand.
      match pre with
      | [] | [_] | _ :: _ :: _ :: _ => simp at hsplit
      | [_, _] =>
        cases hsplit
        exact .inr haddress

end Assembly
end StackMachine
