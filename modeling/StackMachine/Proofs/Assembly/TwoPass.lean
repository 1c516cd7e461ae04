import StackMachine.Assembly.Assembler
import StackMachine.Proofs.FunctionTable.Reservation

/-!
# Assembling in two passes

A first pass finds the statements and gives every label the number of words before it; a second pass writes the
statements with all labels known. The assembler, which writes placeholders and fills them in later, comes to the
same code, labels, ids and errors, in whatever order it looks through the branches that are left.
-/

set_option autoImplicit false

namespace StackMachine.Assembly

/-! ## The two passes -/

/-- Statements with their lines. -/
abbrev Program := List (Nat × Statement)

/-- The number of words of a program. -/
def Program.size : Program → Nat
  | [] => 0
  | s :: rest => s.2.size + size rest

theorem Program.size_append (p q : Program) : size (p ++ q) = size p + size q := by
  induction p with
  | nil => exact (Nat.zero_add _).symm
  | cons s p ih => rw [List.cons_append, size, size, ih, Nat.add_assoc]

def Statement.mentioned : Statement → List String
  | callByName name => [name]
  | _ => []

/-- The functions that a program calls by name, in order. -/
def Program.mentioned (p : Program) : List String :=
  p.flatMap fun s => s.2.mentioned

/-- What the first pass finds. -/
structure Survey where
  program : Program := []
  labels : List (String × Nat) := []

namespace Survey

def defineLabel (s : Survey) (label : String) : Except Cause Survey :=
  if !isLabel label then .error (.badLabel label)
  else if (s.labels.lookup label).isSome then .error (.duplicateLabel label)
  else .ok { s with labels := s.labels ++ [(label, s.program.size)] }

def labelled (s : Survey) : Option String → Except Cause Survey
  | none => .ok s
  | some label => s.defineLabel label

def instruction (hasTable : Bool) (s : Survey) (number : Nat) (fields : List String) : Except Cause Survey :=
  match readStatement hasTable fields with
  | .error cause => .error cause
  | .ok none => .ok s
  | .ok (some st) => .ok { s with program := s.program ++ [(number, st)] }

def line (hasTable : Bool) (s : Survey) (number : Nat) (l : Line) : Except Cause Survey := do
  let s ← s.labelled l.label
  s.instruction hasTable number l.fields

/-- The first pass stops at the first line that is wrong by itself. -/
def lines (hasTable : Bool) (s : Survey) (number : Nat) : List Line → Survey × Option Error
  | [] => (s, none)
  | l :: rest =>
    match s.line hasTable number l with
    | .error cause => (s, some { line := number, cause := cause })
    | .ok s => s.lines hasTable (number + 1) rest

end Survey

/-- The words of a statement on line `number`, with all labels and function ids known. -/
def Statement.resolve (labels : List (String × Nat)) (builder : Option TableBuilder) (number : Nat) :
    Statement → Except Error (List Word)
  | plain op => .ok [op.word]
  | literal op w => .ok [op.word, w]
  | branch op label =>
    match labels.lookup label with
    | some addr => .ok [op.word, Int64.ofNat addr]
    | none => .error { line := number, cause := .unknownLabel label }
  | callByName name =>
    match builder.bind (·.find? name) with
    | some id => .ok [Opcode.call.word, Int64.ofNat id]
    | none => .error { line := number, cause := .needsTable name }

/-- The second pass stops at the first branch without a label. -/
def Program.resolve (labels : List (String × Nat)) (builder : Option TableBuilder) :
    Program → Except Error (List Word)
  | [] => .ok []
  | (number, st) :: rest => do
    let words ← st.resolve labels builder number
    let others ← resolve labels builder rest
    return words ++ others

def twoPass (source : String) (builder : Option TableBuilder) :
    Except Error Assembled × Option TableBuilder :=
  let (s, error) := Survey.lines builder.isSome {} 1 (sourceLines source)
  let builder := builder.map fun b => b.reserve s.program.mentioned
  match error with
  | some e => (.error e, builder)
  | none =>
    ((s.program.resolve s.labels builder).map fun words => { code := words.toArray, labels := s.labels }, builder)

/-! ## Code with placeholders -/

/-- The words of a statement as far as labels are known. -/
def Statement.draft (labels : List (String × Nat)) (builder : Option TableBuilder) : Statement → List Word
  | plain op => [op.word]
  | literal op w => [op.word, w]
  | branch op label => [op.word, ((labels.lookup label).map Int64.ofNat).getD (-1)]
  | callByName name => [Opcode.call.word, ((builder.bind (·.find? name)).map Int64.ofNat).getD 0]

/-- The placeholder of a statement at address `addr`, if its label is not known. -/
def Statement.waiting (labels : List (String × Nat)) (addr number : Nat) : Statement → List Pending
  | branch _ label => if (labels.lookup label).isSome then [] else [⟨label, addr + 1, number⟩]
  | _ => []

namespace Program

def draft (labels : List (String × Nat)) (builder : Option TableBuilder) (p : Program) : List Word :=
  p.flatMap fun s => s.2.draft labels builder

/-- The placeholders of a program that starts at address `addr`. -/
def waiting (labels : List (String × Nat)) (addr : Nat) : Program → List Pending
  | [] => []
  | (number, st) :: rest => st.waiting labels addr number ++ waiting labels (addr + st.size) rest

end Program

section Draft

variable {labels : List (String × Nat)} {builder : Option TableBuilder} {label : String} {addr here number : Nat}
  {st : Statement} {p : Program}

theorem Statement.length_draft (labels : List (String × Nat)) (builder : Option TableBuilder) (st : Statement) :
    (st.draft labels builder).length = st.size := by
  cases st <;> rfl

theorem Program.length_draft (labels : List (String × Nat)) (builder : Option TableBuilder) (p : Program) :
    (p.draft labels builder).length = p.size := by
  induction p with
  | nil => rfl
  | cons s p ih =>
    rw [draft] at ih
    rw [draft, List.flatMap_cons, List.length_append, Statement.length_draft, ih, size]

theorem Program.draft_cons (labels : List (String × Nat)) (builder : Option TableBuilder) (s : Nat × Statement)
    (p : Program) : draft labels builder (s :: p) = s.2.draft labels builder ++ draft labels builder p :=
  List.flatMap_cons

theorem Program.draft_append (labels : List (String × Nat)) (builder : Option TableBuilder) (p q : Program) :
    draft labels builder (p ++ q) = draft labels builder p ++ draft labels builder q :=
  List.flatMap_append

theorem Program.waiting_append (labels : List (String × Nat)) (addr : Nat) (p q : Program) :
    waiting labels addr (p ++ q) = waiting labels addr p ++ waiting labels (addr + p.size) q := by
  induction p generalizing addr with
  | nil => rfl
  | cons s p ih =>
    simp only [List.cons_append, waiting, ih, size, List.append_assoc, Nat.add_assoc]

/-- Writes an address to a placeholder that waits for the label. -/
def fill (label : String) (w : Word) (code : List Word) (p : Pending) : List Word :=
  if p.label = label then code.set p.placeholder w else code

theorem toList_foldl_fill (label : String) (w : Word) (ps : List Pending) (code : Array Word) :
    (ps.foldl (fun code p => if p.label = label then code.setIfInBounds p.placeholder w else code) code).toList =
      ps.foldl (fill label w) code.toList := by
  induction ps generalizing code with
  | nil => rfl
  | cons p ps ih =>
    rw [List.foldl_cons, List.foldl_cons, ih, fill]
    split
    · rw [Array.toList_setIfInBounds]
    · rfl

theorem lookup_new {l : List (String × Nat)} (h : l.lookup label = none) (addr : Nat) (other : String) :
    (l ++ [(label, addr)]).lookup other = if other = label then some addr else l.lookup other := by
  rw [List.lookup_append]
  split
  next heq =>
    subst heq
    simp [h]
  next hne =>
    have hbeq : (other == label) = false := by simpa using hne
    simp [List.lookup_cons, hbeq]

theorem Statement.fill_waiting (hlabel : labels.lookup label = none) (pre post : List Word)
    (hpre : pre.length = addr) :
    (st.waiting labels addr number).foldl (fill label (Int64.ofNat here)) (pre ++ st.draft labels builder ++ post) =
      pre ++ st.draft (labels ++ [(label, here)]) builder ++ post := by
  cases st with
  | plain op | literal op w | callByName name => rfl
  | branch op other =>
    simp only [waiting, draft, lookup_new hlabel]
    by_cases hother : other = label
    · subst hother
      simp [hlabel, fill, hpre]
    · cases hlookup : labels.lookup other <;> simp [hother, fill]

theorem Program.fill_waiting (hlabel : labels.lookup label = none) (pre : List Word) (hpre : pre.length = addr) :
    (p.waiting labels addr).foldl (fill label (Int64.ofNat here)) (pre ++ p.draft labels builder) =
      pre ++ p.draft (labels ++ [(label, here)]) builder := by
  induction p generalizing addr pre with
  | nil => rfl
  | cons s p ih =>
    obtain ⟨number, st⟩ := s
    have hlength : (pre ++ st.draft (labels ++ [(label, here)]) builder).length = addr + st.size := by
      rw [List.length_append, Statement.length_draft, hpre]
    rw [waiting, draft_cons, draft_cons, List.foldl_append, ← List.append_assoc,
      Statement.fill_waiting hlabel pre _ hpre, ih _ hlength, List.append_assoc]

theorem Program.filter_waiting (hlabel : labels.lookup label = none) (here : Nat) :
    (p.waiting labels addr).filter (fun q => q.label ≠ label) = p.waiting (labels ++ [(label, here)]) addr := by
  induction p generalizing addr with
  | nil => rfl
  | cons s p ih =>
    obtain ⟨number, st⟩ := s
    simp only [waiting, List.filter_append, ih]
    congr 1
    cases st with
    | plain op | literal op w | callByName name => rfl
    | branch op other =>
      simp only [Statement.waiting, lookup_new hlabel]
      by_cases hother : other = label
      · subst hother
        simp [hlabel]
      · cases hlookup : labels.lookup other <;> simp [hother]

end Draft

/-! ## The first of the branches that are left -/

/-- Placeholders stand on lines of the program, in the same order. -/
theorem Program.lines_waiting (labels : List (String × Nat)) (addr : Nat) (p : Program) :
    ((p.waiting labels addr).map Pending.line).Sublist (p.map Prod.fst) := by
  induction p generalizing addr with
  | nil => exact .slnil
  | cons s p ih =>
    obtain ⟨number, st⟩ := s
    have hrest := ih (addr + st.size)
    rw [waiting, List.map_append, List.map_cons]
    cases st with
    | plain op | literal op w | callByName name => exact hrest.cons number
    | branch op label =>
      simp only [Statement.waiting]
      split
      · exact hrest.cons number
      · exact hrest.cons_cons number

theorem foldl_earliest (q : Pending) (ps : List Pending) :
    ∃ r ∈ q :: ps, Assembler.earliest (q :: ps) = some r ∧ ∀ x ∈ q :: ps, r.line ≤ x.line := by
  unfold Assembler.earliest
  simp only [List.foldl_cons]
  induction ps generalizing q with
  | nil => exact ⟨q, List.mem_cons_self, rfl, by simp⟩
  | cons p ps ih =>
    simp only [List.foldl_cons]
    obtain ⟨r, hr, hfold, hle⟩ := ih (if p.line < q.line then p else q)
    have hfirst := hle _ List.mem_cons_self
    refine ⟨r, ?_, hfold, ?_⟩
    · grind
    · grind

/-- Whatever order branches on different lines are looked through in, the one on the smallest line is found. -/
theorem earliest_eq_head? {ps qs : List Pending} (hperm : ps.Perm qs)
    (hlines : qs.Pairwise fun x y => x.line < y.line) : Assembler.earliest ps = qs.head? := by
  cases ps with
  | nil =>
    rw [← hperm.nil_eq]
    rfl
  | cons q ps =>
    obtain ⟨r, hr, hfold, hle⟩ := foldl_earliest q ps
    rw [hfold]
    cases qs with
    | nil => cases hperm.mem_iff.mp hr
    | cons h rest =>
      obtain rfl | hrest := List.mem_cons.mp (hperm.mem_iff.mp hr)
      · rfl
      · have hlt := (List.pairwise_cons.mp hlines).1 r hrest
        have hle := hle h (hperm.mem_iff.mpr List.mem_cons_self)
        omega

/-! ## The assembler follows the first pass -/

theorem Program.mentioned_cons (s : Nat × Statement) (p : Program) :
    mentioned (s :: p) = s.2.mentioned ++ mentioned p :=
  List.flatMap_cons

theorem Program.mentioned_append (p q : Program) : mentioned (p ++ q) = mentioned p ++ mentioned q :=
  List.flatMap_append

section Mentioned

variable {labels : List (String × Nat)} {builder builder' : Option TableBuilder} {st : Statement} {p : Program}

theorem Statement.draft_congr
    (h : ∀ name ∈ st.mentioned, builder.bind (·.find? name) = builder'.bind (·.find? name)) :
    st.draft labels builder = st.draft labels builder' := by
  cases st with
  | plain op | literal op w | branch op label => rfl
  | callByName name => rw [draft, draft, h name (List.mem_singleton_self name)]

/-- A draft depends on the ids of the functions that are mentioned, and on no others. -/
theorem Program.draft_congr
    (h : ∀ name ∈ p.mentioned, builder.bind (·.find? name) = builder'.bind (·.find? name)) :
    p.draft labels builder = p.draft labels builder' := by
  induction p with
  | nil => rfl
  | cons s p ih =>
    rw [mentioned_cons] at h
    rw [draft_cons, draft_cons, ih fun name hname => h name (List.mem_append_right _ hname),
      Statement.draft_congr fun name hname => h name (List.mem_append_left _ hname)]

/-- Code is fine unless something waits in it. -/
def unlessWaiting (waiting : List Pending) (code : List Word) : Except Error (List Word) :=
  match waiting.head? with
  | none => .ok code
  | some q => .error q.error

theorem unlessWaiting_append (ps qs : List Pending) (code rest : List Word) :
    unlessWaiting (ps ++ qs) (code ++ rest) =
      (unlessWaiting ps code).bind fun code => (unlessWaiting qs rest).map fun rest => code ++ rest := by
  cases ps with
  | nil => cases qs <;> rfl
  | cons p ps => rfl

theorem Statement.resolve_eq (hfound : ∀ name ∈ st.mentioned, ∃ id, builder.bind (·.find? name) = some id)
    (addr number : Nat) :
    st.resolve labels builder number = unlessWaiting (st.waiting labels addr number) (st.draft labels builder) := by
  cases st with
  | plain op | literal op w => rfl
  | branch op label =>
    simp only [resolve, waiting, draft]
    cases labels.lookup label <;> rfl
  | callByName name =>
    obtain ⟨id, hid⟩ := hfound name (List.mem_singleton_self name)
    simp only [resolve, draft, hid]
    rfl

/-- The second pass gives the draft if nothing waits in it, and else the error of what waits first. -/
theorem Program.resolve_eq (hfound : ∀ name ∈ p.mentioned, ∃ id, builder.bind (·.find? name) = some id)
    (addr : Nat) : p.resolve labels builder = unlessWaiting (p.waiting labels addr) (p.draft labels builder) := by
  induction p generalizing addr with
  | nil => rfl
  | cons s p ih =>
    obtain ⟨number, st⟩ := s
    rw [mentioned_cons] at hfound
    rw [resolve, waiting, draft_cons, unlessWaiting_append,
      Statement.resolve_eq (fun name hname => hfound name (List.mem_append_left _ hname)) addr,
      ih (fun name hname => hfound name (List.mem_append_right _ hname)) (addr + st.size)]
    rfl

end Mentioned

/-- What appending a statement adds. -/
structure Appends (a : Assembler) (number : Nat) (st : Statement) (a' : Assembler) : Prop where
  labels : a'.labels = a.labels
  builder : a'.builder = a.builder.map fun b => b.reserve st.mentioned
  code : a'.emitter.code.toList = a.emitter.code.toList ++ st.draft a.labels a'.builder
  pending : a'.pending = a.pending ++ st.waiting a.labels a.emitter.offset number

theorem appends (a : Assembler) (number : Nat) {st : Statement} (h : a.builder = none → st.mentioned = []) :
    Appends a number st (a.append number st) := by
  have hsame : a.builder = a.builder.map fun b => b.reserve [] := by
    cases a.builder <;> rfl
  cases st with
  | plain op => exact ⟨rfl, hsame, by simp [Assembler.append, Assembler.emit, Emitter.emit, Statement.draft],
      (List.append_nil _).symm⟩
  | literal op w => exact ⟨rfl, hsame, by simp [Assembler.append, Assembler.emit, Emitter.emit, Statement.draft],
      (List.append_nil _).symm⟩
  | branch op label =>
    cases hlabel : a.labels.lookup label with
    | some addr =>
      simp only [Assembler.append, Assembler.address?, hlabel]
      refine ⟨rfl, hsame, ?_, ?_⟩
      · simp [Assembler.emit, Emitter.emit, Statement.draft, hlabel]
      · simp [Assembler.emit, Statement.waiting, hlabel]
    | none =>
      simp only [Assembler.append, Assembler.address?, hlabel]
      refine ⟨rfl, hsame, ?_, ?_⟩
      · simp [Emitter.emitBranch, Statement.draft, hlabel]
      · simp [Emitter.emitBranch, Statement.waiting, hlabel]
  | callByName name =>
    cases hb : a.builder with
    | none => cases h hb
    | some b =>
      have hid := TableBuilder.find?_idOf_self b name
      simp only [Assembler.append, hb]
      refine ⟨rfl, ?_, ?_, (List.append_nil _).symm⟩
      · rw [hb]
        rfl
      · simp [Assembler.emit, Emitter.emit, Statement.draft, hid]

/-- Both fail for the same reason, or both go on and agree. -/
inductive Together (R : Assembler → Survey → Prop) : Except Cause Assembler → Except Cause Survey → Prop
  | error (cause : Cause) : Together R (.error cause) (.error cause)
  | ok {a : Assembler} {s : Survey} (h : R a s) : Together R (.ok a) (.ok s)

theorem Together.bind {R R' : Assembler → Survey → Prop} {x : Except Cause Assembler} {y : Except Cause Survey}
    {f : Assembler → Except Cause Assembler} {g : Survey → Except Cause Survey} (h : Together R x y)
    (hf : ∀ a s, R a s → Together R' (f a) (g s)) : Together R' (x >>= f) (y >>= g) := by
  cases h with
  | error cause => exact .error cause
  | ok h => exact hf _ _ h

/-- Without a table there are no calls by name. -/
theorem mentioned_readStatement {fields : List String} {st : Statement}
    (h : readStatement false fields = .ok (some st)) : st.mentioned = [] := by
  unfold readStatement at h
  split at h
  next => cases h
  next word args =>
    split at h
    next => cases h
    next op _ =>
      split at h
      next => cases h
      next =>
        split at h
        next =>
          cases h
          rfl
        next arg _ =>
          unfold readOperand at h
          split at h
          next =>
            cases h
            rfl
          next =>
            split at h
            next =>
              cases h
              rfl
            next =>
              split at h <;> cases h

/-- The assembler `a` has come as far as the first pass `s`, and both are before line `number`. -/
structure Follows (given : Option TableBuilder) (number : Nat) (a : Assembler) (s : Survey) : Prop where
  labels : a.labels = s.labels
  builder : a.builder = given.map fun b => b.reserve s.program.mentioned
  code : a.emitter.code.toList = s.program.draft s.labels a.builder
  pending : a.pending = s.program.waiting s.labels 0
  lines : s.program.Pairwise fun x y => x.1 < y.1
  below : ∀ x ∈ s.program, x.1 < number
  callable : given = none → s.program.mentioned = []
  addresses : ∀ x ∈ s.labels, x.2 ≤ s.program.size

namespace Follows

variable {given : Option TableBuilder} {number : Nat} {a : Assembler} {s : Survey}

theorem initial (given : Option TableBuilder) (number : Nat) : Follows given number { builder := given } {} where
  labels := rfl
  builder := by cases given <;> rfl
  code := rfl
  pending := rfl
  lines := .nil
  below _ h := by cases h
  callable _ := rfl
  addresses _ h := by cases h

theorem offset (h : Follows given number a s) : a.emitter.offset = s.program.size := by
  rw [← Program.length_draft s.labels a.builder, ← h.code]
  rfl

/-- Every function that is mentioned has its id. -/
theorem found (h : Follows given number a s) {name : String} (hname : name ∈ s.program.mentioned) :
    ∃ id, a.builder.bind (·.find? name) = some id := by
  rw [h.builder]
  cases given with
  | none =>
    rw [h.callable rfl] at hname
    cases hname
  | some b => exact TableBuilder.find?_reserve_of_mem b hname

theorem bind {label : String} (h : Follows given number a s) (hlabel : s.labels.lookup label = none) :
    Follows given number (a.bind label) { s with labels := s.labels ++ [(label, s.program.size)] } where
  labels := by
    simp only [Assembler.bind, h.labels, h.offset]
  builder := h.builder
  code := by
    simp only [Assembler.bind, h.pending, h.offset, toList_foldl_fill, h.code]
    exact Program.fill_waiting hlabel [] rfl
  pending := by
    simp only [Assembler.bind, h.pending]
    exact Program.filter_waiting hlabel _
  lines := h.lines
  below := h.below
  callable := h.callable
  addresses := by
    intro x hx
    obtain hx | hx := List.mem_append.mp hx
    · exact h.addresses x hx
    · cases List.mem_singleton.mp hx
      exact Nat.le_refl _

theorem append {st : Statement} (h : Follows given number a s) (hst : given = none → st.mentioned = []) :
    Follows given (number + 1) (a.append number st) { s with program := s.program ++ [(number, st)] } := by
  have happends : Appends a number st (a.append number st) :=
    appends a number fun hnone => hst (by simpa [h.builder] using hnone)
  -- The functions mentioned before keep their ids.
  have hdraft : s.program.draft s.labels a.builder = s.program.draft s.labels (a.append number st).builder := by
    apply Program.draft_congr
    intro name hname
    obtain ⟨id, hid⟩ := h.found hname
    rw [hid, happends.builder]
    obtain ⟨b, hb, hfind⟩ := Option.bind_eq_some_iff.mp hid
    rw [hb]
    exact (TableBuilder.find?_reserve_of_some hfind _).symm
  refine ⟨?_, ?_, ?_, ?_, ?_, ?_, ?_, ?_⟩
  · rw [happends.labels, h.labels]
  · rw [happends.builder, h.builder, Program.mentioned_append]
    cases given with
    | none => rfl
    | some b =>
      simp only [Option.map_some, TableBuilder.reserve_append]
      simp [Program.mentioned]
  · rw [happends.code, h.code, h.labels, hdraft, Program.draft_append]
    simp [Program.draft]
  · rw [happends.pending, h.pending, h.labels, h.offset, Program.waiting_append, Nat.zero_add]
    simp [Program.waiting]
  · refine List.pairwise_append.mpr ⟨h.lines, List.pairwise_singleton _ _, ?_⟩
    intro x hx y hy
    cases List.mem_singleton.mp hy
    exact h.below x hx
  · intro x hx
    obtain hx | hx := List.mem_append.mp hx
    · exact Nat.lt_succ_of_lt (h.below x hx)
    · cases List.mem_singleton.mp hx
      exact Nat.lt_succ_self number
  · intro hnone
    rw [Program.mentioned_append, h.callable hnone]
    simpa [Program.mentioned] using hst hnone
  · intro x hx
    have hle := h.addresses x hx
    simp only [Program.size_append] at hle ⊢
    omega

theorem labelled (h : Follows given number a s) (label : Option String) :
    Together (Follows given number) (a.labelled label) (s.labelled label) := by
  cases label with
  | none => exact .ok h
  | some label =>
    simp only [Assembler.labelled, Survey.labelled, Assembler.defineLabel, Survey.defineLabel,
      Assembler.address?, h.labels]
    split
    next => exact .error _
    next =>
      split
      next => exact .error _
      next hnew => exact .ok (h.bind (Option.not_isSome_iff_eq_none.mp hnew))

theorem instruction (h : Follows given number a s) (fields : List String) :
    Together (Follows given (number + 1)) (a.instruction number fields)
      (s.instruction given.isSome number fields) := by
  have hsome : a.builder.isSome = given.isSome := by
    rw [h.builder, Option.isSome_map]
  unfold Assembler.instruction Survey.instruction
  rw [hsome]
  cases hread : readStatement given.isSome fields with
  | error cause => exact .error cause
  | ok statement =>
    cases statement with
    | none => exact .ok { h with below := fun x hx => Nat.lt_succ_of_lt (h.below x hx) }
    | some st =>
      refine .ok (h.append ?_)
      rintro rfl
      exact mentioned_readStatement hread

theorem line (h : Follows given number a s) (l : Line) :
    Together (Follows given (number + 1)) (a.line number l) (s.line given.isSome number l) :=
  (h.labelled l.label).bind fun _ _ h => h.instruction l.fields

/-- Any number of lines. -/
theorem lines_eq (h : Follows given number a s) (ls : List Line) :
    (a.lines number ls).2 = (s.lines given.isSome number ls).2 ∧
      ∃ number', Follows given number' (a.lines number ls).1 (s.lines given.isSome number ls).1 := by
  induction ls generalizing number a s with
  | nil => exact ⟨rfl, number, h⟩
  | cons l ls ih =>
    rw [Assembler.lines, Survey.lines]
    have hline := h.line l
    generalize a.line number l = x at hline
    generalize s.line given.isSome number l = y at hline
    cases hline with
    | error cause => exact ⟨rfl, number, h⟩
    | ok h' => exact ih h'

theorem pending_lines (h : Follows given number a s) : a.pending.Pairwise fun x y => x.line < y.line := by
  have hlines := (List.pairwise_map (R := (· < ·))).mpr h.lines
  rw [h.pending]
  exact List.pairwise_map.mp (hlines.sublist (Program.lines_waiting s.labels 0 s.program))

/-- The error of what is left is that of the first branch without a label, whatever order is taken. -/
theorem unresolved? (h : Follows given number a s) {order : List Pending → List Pending}
    (horder : ∀ ps, (order ps).Perm ps) : a.unresolved? order = a.pending.head?.map Pending.error := by
  rw [Assembler.unresolved?, earliest_eq_head? (horder a.pending) h.pending_lines]

theorem resolve_eq (h : Follows given number a s) :
    s.program.resolve s.labels a.builder = unlessWaiting a.pending a.emitter.code.toList := by
  rw [Program.resolve_eq (fun name => h.found) 0, ← h.pending, ← h.code]

end Follows

theorem assembleIn_eq {order : List Pending → List Pending} (horder : ∀ ps, (order ps).Perm ps) (source : String)
    (builder : Option TableBuilder) : assembleIn order source builder = twoPass source builder := by
  obtain ⟨herror, number, h⟩ := (Follows.initial builder 1).lines_eq (sourceLines source)
  unfold assembleIn twoPass
  generalize Assembler.lines _ 1 (sourceLines source) = r at herror h
  generalize Survey.lines _ _ 1 (sourceLines source) = r' at herror h
  obtain ⟨a, error⟩ := r
  obtain ⟨s, error'⟩ := r'
  dsimp only at herror h ⊢
  subst herror
  rw [← h.builder]
  cases error with
  | some e => rfl
  | none =>
    rw [Option.none_or, h.unresolved? horder, h.resolve_eq, ← h.labels, unlessWaiting]
    cases a.pending.head? <;> rfl

/-! ## No placeholder is left -/

theorem ofNat_ne_neg_one {n : Nat} (h : (n : Int) ≤ Int64.maxValue.toInt) : Int64.ofNat n ≠ -1 := by
  intro heq
  have hint := congrArg Int64.toInt heq
  rw [Int64.toInt_maxValue] at h
  rw [Int64.toInt_ofNat_of_lt (by omega)] at hint
  change (n : Int) = -1 at hint
  omega

/-- A branch to a known label is drafted with the label's address. -/
theorem Program.draft_branch {labels : List (String × Nat)} {builder : Option TableBuilder} {pre post : Program}
    {number addr : Nat} {op : Opcode} {label : String} (h : labels.lookup label = some addr) :
    (draft labels builder (pre ++ (number, .branch op label) :: post))[pre.size + 1]? = some (Int64.ofNat addr) := by
  rw [draft_append, draft_cons, ← length_draft labels builder pre]
  simp [Statement.draft, h]

theorem lookup_of_waiting_nil {labels : List (String × Nat)} {pre post : Program} {number : Nat} {op : Opcode}
    {label : String} (h : Program.waiting labels 0 (pre ++ (number, .branch op label) :: post) = []) :
    ∃ addr, labels.lookup label = some addr := by
  rw [Program.waiting_append] at h
  have hbranch := (List.append_eq_nil_iff.mp (List.append_eq_nil_iff.mp h).2).1
  apply Option.isSome_iff_exists.mp
  apply Classical.byContradiction
  intro hnone
  simp [Statement.waiting, hnone] at hbranch

/-- Assembled code is the draft of what the first pass found, and nothing waits in it. -/
structure Drafted (s : Survey) (r : Assembled) : Prop where
  labels : r.labels = s.labels
  code : ∃ builder, r.code.toList = s.program.draft s.labels builder
  settled : s.program.waiting s.labels 0 = []
  addresses : ∀ x ∈ s.labels, x.2 ≤ s.program.size

theorem drafted {order : List Pending → List Pending} (horder : ∀ ps, (order ps).Perm ps) {source : String}
    {builder : Option TableBuilder} {r : Assembled} (h : (assembleIn order source builder).1 = .ok r) :
    Drafted (Survey.lines builder.isSome {} 1 (sourceLines source)).1 r := by
  obtain ⟨-, number, hfollows⟩ := (Follows.initial builder 1).lines_eq (sourceLines source)
  unfold assembleIn at h
  generalize Assembler.lines _ 1 (sourceLines source) = final at h hfollows
  obtain ⟨a, error⟩ := final
  dsimp only at h hfollows
  rw [hfollows.unresolved? horder] at h
  cases error with
  | some e => cases h
  | none =>
    cases hhead : a.pending.head? with
    | some p =>
      rw [hhead] at h
      cases h
    | none =>
      rw [hhead] at h
      cases h
      exact ⟨hfollows.labels, ⟨_, hfollows.code⟩, hfollows.pending ▸ List.head?_eq_none_iff.mp hhead,
        hfollows.addresses⟩

theorem Drafted.branch {s : Survey} {r : Assembled} (h : Drafted s r) {pre post : Program} {number : Nat}
    {op : Opcode} {label : String} (hprogram : s.program = pre ++ (number, .branch op label) :: post) :
    ∃ addr ≤ r.code.size, r.labels.lookup label = some addr ∧ r.code[pre.size + 1]? = some (Int64.ofNat addr) := by
  obtain ⟨hlabels, ⟨b, hcode⟩, hsettled, haddresses⟩ := h
  have hsize : r.code.size = s.program.size := by
    rw [← Program.length_draft s.labels b, ← hcode, Array.length_toList]
  rw [hprogram] at hcode hsettled
  obtain ⟨addr, haddr⟩ := lookup_of_waiting_nil hsettled
  obtain ⟨before, after, hmem, -⟩ := List.lookup_eq_some_iff.mp haddr
  refine ⟨addr, ?_, hlabels ▸ haddr, ?_⟩
  · rw [hsize]
    exact haddresses (label, addr) (by simp [hmem])
  · rw [← Array.getElem?_toList, hcode]
    exact Program.draft_branch haddr

/-- Assembling in one pass comes to the same as in two, whatever order the branches that are left are looked through
in. If it succeeds, the operand of every branch to a label is an address of the code, and no placeholder. -/
theorem one_pass_eq_two_passes (order : List Pending → List Pending) (horder : ∀ ps, (order ps).Perm ps)
    (source : String) (builder : Option TableBuilder) :
    assembleIn order source builder = twoPass source builder ∧
    ∀ r, (assembleIn order source builder).1 = .ok r →
      ∀ pre number op label post,
        (Survey.lines builder.isSome {} 1 (sourceLines source)).1.program =
          pre ++ (number, .branch op label) :: post →
        ∃ addr ≤ r.code.size, r.labels.lookup label = some addr ∧
          r.code[Program.size pre + 1]? = some (Int64.ofNat addr) ∧
          ((r.code.size : Int) ≤ Int64.maxValue.toInt → Int64.ofNat addr ≠ -1) := by
  refine ⟨assembleIn_eq horder source builder, ?_⟩
  intro r hr pre number op label post hprogram
  obtain ⟨addr, hle, hlookup, hword⟩ := (drafted horder hr).branch hprogram
  exact ⟨addr, hle, hlookup, hword, fun hmax => ofNat_ne_neg_one (by omega)⟩

/-- Branches before and after the definitions of their labels. -/
def detour : String :=
  "br end\nloop: brt loop\nbrf end\nend: halt"

theorem detour_patched :
    (∀ ps : List Pending, ps.reverse.Perm ps) ∧
    assembleIn List.reverse detour none = twoPass detour none ∧
    (assembleIn List.reverse detour none).1 =
      .ok { code := #[6, 6, 7, 2, 8, 6, 18], labels := [("loop", 2), ("end", 6)] } ∧
    ∃ addr ≤ 7, [("loop", 2), ("end", 6)].lookup "end" = some addr ∧
      (#[6, 6, 7, 2, 8, 6, 18] : Array Word)[5]? = some (Int64.ofNat addr) ∧ Int64.ofNat addr ≠ -1 := by
  obtain ⟨heq, hsettled⟩ := one_pass_eq_two_passes List.reverse List.reverse_perm detour none
  have hresult : (assembleIn List.reverse detour none).1 =
      .ok { code := #[6, 6, 7, 2, 8, 6, 18], labels := [("loop", 2), ("end", 6)] } := rfl
  obtain ⟨addr, hle, hlookup, hword, hne⟩ := hsettled _ hresult
    [(1, .branch .br "end"), (2, .branch .brt "loop")] 3 .brf "end" [(4, .plain .halt)] rfl
  exact ⟨List.reverse_perm, heq, hresult, addr, hle, hlookup, hword, hne (by decide)⟩

/-- Branches that are left are reported from the smallest line on, also if they are looked through backwards. -/
example : (assembleIn List.reverse "br b\nbr a" none).1 = .error { line := 1, cause := .unknownLabel "b" } := rfl

end StackMachine.Assembly
