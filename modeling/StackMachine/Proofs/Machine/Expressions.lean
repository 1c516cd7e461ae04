import StackMachine.Proofs.Machine.Observation
import StackMachine.Proofs.Machine.Representation
import StackMachine.Proofs.Verification.Reading

/-!
# Expressions in postfix order

The code of an expression is the code of its parts followed by the instruction of its operator. A machine that has room
for the operands in between takes one cycle for every node, and then has the value of the expression on top of what was
there before; nothing else has changed. Values are 32-bit numbers in two's complement. Without that room the stack
overflows somewhere in the code of the expression.
-/

set_option autoImplicit false

namespace StackMachine

inductive Operator where
  | add | sub | mul | lt | eq
  deriving DecidableEq

namespace Operator

def instr : Operator → Instr
  | add => .iadd
  | sub => .isub
  | mul => .imul
  | lt => .ilt
  | eq => .ieq

/-- Comparisons are signed, and give one or zero. -/
def apply (op : Operator) (a b : Int32) : Int32 :=
  match op with
  | add => a + b
  | sub => a - b
  | mul => a * b
  | lt => if a < b then 1 else 0
  | eq => if a = b then 1 else 0

theorem instr_ne_halt (op : Operator) : op.instr ≠ .halt := by
  cases op <;> nofun

end Operator

inductive Expr where
  | literal (w : Word)
  | binary (op : Operator) (left right : Expr)
  deriving DecidableEq

namespace Expr

def code : Expr → List Word
  | literal w => (Instr.iconst w).encode
  | binary op left right => left.code ++ right.code ++ op.instr.encode

/-- A literal counts modulo 2 ^ 32. -/
def value : Expr → Int32
  | literal w => .ofInt w.toInt
  | binary op left right => op.apply left.value right.value

def nodes : Expr → Nat
  | literal _ => 1
  | binary _ left right => left.nodes + right.nodes + 1

/-- Cells that the operands take up at most; the right part is evaluated on top of the value of the left one. -/
def need : Expr → Nat
  | literal _ => 1
  | binary _ left right => max left.need (1 + right.need)

end Expr

namespace Machine

/-! ## Instructions -/

section Instructions

variable {c : Setup} {next : Nat} {x : Configuration}

theorem apply_iconst (w : Word) (hroom : x.stack.length < c.limits.stackSize) :
    Configuration.apply c next (.iconst w) x =
      .ok (next, { x with stack := (Expr.literal w).value.toInt64 :: x.stack }) := by
  have hvalue : (Expr.literal w).value.toInt64 = w.narrow := by
    rw [Expr.value, Int32.ofInt_int64ToInt, Word.narrow]
  rw [hvalue]
  simp only [Configuration.apply, Configuration.andThen, Configuration.push, hroom, if_true]

theorem apply_iconst_full (w : Word) (hfull : ¬ x.stack.length < c.limits.stackSize) :
    Configuration.apply c next (.iconst w) x = .error (.fault (.overflow c.limits.stackSize)) := by
  simp only [Configuration.apply, Configuration.andThen, Configuration.push, hfull, if_false]

/-- On words that hold 32-bit values an operator's instruction computes what the operator does. -/
theorem apply_operator (op : Operator) {a b : Int32} {rest : List Word}
    (hs : x.stack = b.toInt64 :: a.toInt64 :: rest) :
    Configuration.apply c next op.instr x = .ok (next, { x with stack := (op.apply a b).toInt64 :: rest }) := by
  cases op with
  | add =>
    simp only [Operator.instr, Operator.apply, Configuration.apply, Configuration.andThen, Configuration.binary, hs,
      Word.narrow, Int64.toInt32_add, Int32.toInt32_toInt64]
  | sub =>
    simp only [Operator.instr, Operator.apply, Configuration.apply, Configuration.andThen, Configuration.binary, hs,
      Word.narrow, Int64.toInt32_sub, Int32.toInt32_toInt64]
  | mul =>
    simp only [Operator.instr, Operator.apply, Configuration.apply, Configuration.andThen, Configuration.binary, hs,
      Word.narrow, Int64.toInt32_mul, Int32.toInt32_toInt64]
  | lt =>
    simp only [Operator.instr, Operator.apply, Configuration.apply, Configuration.andThen, Configuration.binary, hs,
      Int32.toInt64_lt, Word.ofBool, decide_eq_true_eq]
    split <;> rfl
  | eq =>
    have heq : a.toInt64 = b.toInt64 ↔ a = b :=
      ⟨fun h => by rw [← Int32.toInt32_toInt64 a, h, Int32.toInt32_toInt64], congrArg _⟩
    simp only [Operator.instr, Operator.apply, Configuration.apply, Configuration.andThen, Configuration.binary, hs,
      Word.ofBool, beq_iff_eq, heq]
    split <;> rfl

end Instructions

/-! ## Stretches of a run -/

/-- The machine runs, and the words from its instruction pointer on are these. -/
structure Poised (m : Machine) (addr : Nat) (ws : List Word) : Prop where
  sound : Sound m.setup m.state
  running : m.state.status = .running
  ip : m.state.ip = addr
  code : m.setup.code.toList.drop addr = ws

/-- After `n` steps the machine runs in state `t`, at `addr` and with these operands; apart from its counters the rest is
as it was. -/
structure Advances (m : Machine) (n addr : Nat) (stack : List Word) (t : State) : Prop where
  steps : steps n m = ({ m with state := t }, none)
  sound : Sound m.setup t
  running : t.status = .running
  ip : t.ip = addr
  view : t.view = { m.state.view with stack := stack, stats := t.stats }
  depth : t.depth = m.state.depth
  cycles : t.stats.cycleCounter = m.state.stats.cycleCounter + .ofNat n

/-- Within `n` steps the machine ends, as the stack overflows at an address from `low` to before `high`. -/
def Overruns (m : Machine) (n low high : Nat) : Prop :=
  ∃ k m' f, k < n ∧ steps (k + 1) m = (m', some (.run (.fault f))) ∧ m'.state.status = .faulted (.fault f) ∧
    f.reason = .overflow m.setup.limits.stackSize ∧ low ≤ f.ip ∧ f.ip < high

section Stretches

variable {m : Machine} {t : State} {i : Instr} {n addr : Nat} {ws stack : List Word}

theorem Poised.fetches (h : Poised m addr (i.encode ++ ws)) (hi : i ≠ .halt) : Fetches m.setup m.state i where
  nonneg := by rw [h.ip]; omega
  fetched := by
    rw [h.ip, Int.toNat_natCast]
    exact fetch?_of_drop_encode h.code
  applicable := hi

theorem Advances.poised {vs : List Word} (h : Advances m n (addr + vs.length) stack t)
    (hm : Poised m addr (vs ++ ws)) : Poised { m with state := t } (addr + vs.length) ws :=
  ⟨h.sound, h.running, h.ip, drop_add_of_drop hm.code⟩

theorem Advances.trans {k addr' : Nat} {stack' : List Word} {u : State} (h : Advances m n addr stack t)
    (h' : Advances { m with state := t } k addr' stack' u) : Advances m (n + k) addr' stack' u where
  steps := (steps_add h.steps h.running k).trans h'.steps
  sound := h'.sound
  running := h'.running
  ip := h'.ip
  view := by rw [h'.view, h.view]
  depth := h'.depth.trans h.depth
  cycles := by rw [h'.cycles, h.cycles, UInt64.ofNat_add, UInt64.add_assoc]

theorem Advances.overruns {k low high : Nat} (h : Advances m n addr stack t)
    (h' : Overruns { m with state := t } k low high) : Overruns m (n + k) low high := by
  obtain ⟨j, m', f, hj, hsteps, hend⟩ := h'
  exact ⟨n + j, m', f, by omega, (steps_add h.steps h.running (j + 1)).trans hsteps, hend⟩

theorem Overruns.mono {k low high low' high' : Nat} (h : Overruns m n low high) (hk : n ≤ k) (hlow : low' ≤ low)
    (hhigh : high ≤ high') : Overruns m k low' high' := by
  obtain ⟨j, m', f, hj, hsteps, hstatus, hreason, hle, hlt⟩ := h
  exact ⟨j, m', f, by omega, hsteps, hstatus, hreason, by omega, by omega⟩

/-- An instruction that only exchanges operands is one step. -/
theorem Poised.advances (h : Poised m addr (i.encode ++ ws)) (hi : i ≠ .halt)
    (happly : Configuration.apply m.setup (addr + i.size) i m.state.view =
      .ok (↑(addr + i.size), { m.state.view with stack := stack })) :
    ∃ t, Advances m 1 (addr + i.encode.length) stack t := by
  have haddr : m.state.ip.toNat = addr := by rw [h.ip, Int.toNat_natCast]
  rw [← haddr] at happly
  obtain ⟨t, hcycle, hsound, hip, hstatus, hview⟩ := cycle_of_applied h.sound (h.fetches hi) happly
  have hrunning := hstatus.trans h.running
  have hstats := congrArg Configuration.stats hview
  refine ⟨t, steps_running h.running hrunning hcycle, hsound, hrunning, ?_, ?_, ?_, cycle_counts hcycle hrunning⟩
  · rw [hip, haddr, Instr.length_encode]
  · rw [hview]
    exact congrArg (fun stats => { m.state.view with stack := stack, stats := stats }) hstats.symm
  · rw [hsound.depth_eq, hview]
    exact h.sound.depth_eq.symm

theorem Poised.overruns (h : Poised m addr (i.encode ++ ws)) (hi : i ≠ .halt)
    (happly : Configuration.apply m.setup (addr + i.size) i m.state.view =
      .error (.fault (.overflow m.setup.limits.stackSize))) :
    Overruns m 1 addr (addr + i.encode.length) := by
  have haddr : m.state.ip.toNat = addr := by rw [h.ip, Int.toNat_natCast]
  have hpos : 0 < i.encode.length := by
    rw [Instr.length_encode]
    exact Fetched.size_pos (.instr i)
  rw [← haddr] at happly
  have hcycle := cycle_of_fault h.sound (h.fetches hi) happly
  have hended : (m.state.fault m.state.ip i.opcode.word (.overflow m.setup.limits.stackSize)).status ≠ .running := nofun
  refine ⟨0, _, _, Nat.one_pos, steps_stopping h.running hended hcycle, rfl, rfl, Int.le_of_eq h.ip.symm, ?_⟩
  change m.state.ip < _
  omega

end Stretches

/-! ## Expressions -/

section Expressions

variable {m : Machine} {addr : Nat} {ws : List Word}

theorem advances_expr (e : Expr) (h : Poised m addr (e.code ++ ws))
    (hroom : m.state.stack.length + e.need ≤ m.setup.limits.stackSize) :
    ∃ t, Advances m e.nodes (addr + e.code.length) (e.value.toInt64 :: m.state.stack) t := by
  induction e generalizing m addr ws with
  | literal w => exact h.advances nofun (apply_iconst w hroom)
  | binary op left right ihl ihr =>
    simp only [Expr.need] at hroom
    simp only [Expr.code, List.append_assoc] at h
    obtain ⟨t, ht⟩ := ihl h (by omega)
    have hstack : t.stack = left.value.toInt64 :: m.state.stack := congrArg (·.stack) ht.view
    have hright : t.stack.length + right.need ≤ m.setup.limits.stackSize := by
      rw [hstack, List.length_cons]
      omega
    obtain ⟨u, hu⟩ := ihr (ht.poised h) hright
    have hpoised := hu.poised (ht.poised h)
    -- The right operand is on top, so the operator takes the left one first.
    have hoperands : u.stack = right.value.toInt64 :: left.value.toInt64 :: m.state.stack := by
      rw [← hstack]
      exact congrArg (·.stack) hu.view
    obtain ⟨v, hv⟩ := hpoised.advances op.instr_ne_halt (apply_operator op hoperands)
    refine ⟨v, ?_⟩
    simpa only [Expr.code, Expr.nodes, Expr.value, List.length_append, Nat.add_assoc] using (ht.trans hu).trans hv

theorem overruns_expr (e : Expr) (h : Poised m addr (e.code ++ ws))
    (hfull : m.setup.limits.stackSize < m.state.stack.length + e.need) :
    Overruns m e.nodes addr (addr + e.code.length) := by
  induction e generalizing m addr ws with
  | literal w => exact h.overruns nofun (apply_iconst_full w (Nat.not_lt.mpr (Nat.lt_succ_iff.mp hfull)))
  | binary op left right ihl ihr =>
    simp only [Expr.need] at hfull
    simp only [Expr.code, List.append_assoc] at h
    simp only [Expr.nodes, Expr.code, List.length_append]
    by_cases hleft : m.state.stack.length + left.need ≤ m.setup.limits.stackSize
    · obtain ⟨t, ht⟩ := advances_expr left h hleft
      have hstack : t.stack = left.value.toInt64 :: m.state.stack := congrArg (·.stack) ht.view
      have hright : m.setup.limits.stackSize < t.stack.length + right.need := by
        rw [hstack, List.length_cons]
        omega
      exact (ht.overruns (ihr (ht.poised h) hright)).mono (by omega) (by omega) (by omega)
    · exact (ihl h (by omega)).mono (by omega) (by omega) (by omega)

end Expressions

/-- However a machine has been brought to run at the code of an expression, it takes a step for each node and leaves
the value on the stack if there is room for the operands, and overflows within the code otherwise. -/
theorem postfix_evaluates {code : Array Word} {globals : Word} {table : Option FunctionTable} {base : Limits}
    {o : Options} {m : Machine} {history : List Request} {before after : List Word} (e : Expr)
    (hbase : 1 ≤ base.maxDepth) (hmake : make code globals table base o = .ok m)
    (hcode : code.toList = before ++ e.code ++ after) (hrun : (m.serve history).state.status = .running)
    (hip : (m.serve history).state.ip = before.length) :
    ((m.serve history).state.stack.length + e.need ≤ m.setup.limits.stackSize →
      ∃ t, Advances (m.serve history) e.nodes (before.length + e.code.length)
        (e.value.toInt64 :: (m.serve history).state.stack) t) ∧
    (m.setup.limits.stackSize < (m.serve history).state.stack.length + e.need →
      Overruns (m.serve history) e.nodes before.length (before.length + e.code.length)) := by
  obtain ⟨hsetup, -, -, address, hstanding⟩ := standing_of_make hbase hmake hrun
  rw [← setup_serve m history] at hsetup hstanding ⊢
  have hpoised : Poised (m.serve history) before.length (e.code ++ after) := by
    refine ⟨hstanding.sound, hrun, hip, ?_⟩
    rw [hsetup, hcode, List.append_assoc, List.drop_left]
  exact ⟨advances_expr e hpoised, overruns_expr e hpoised⟩

/-- The square of 65536 is zero, and 4294967295 is below it. -/
def wrapped : Expr :=
  .binary .lt (.literal 4294967295) (.binary .mul (.literal 65536) (.literal 65536))

/-- Three cells are enough for it, unless there is an operand already. -/
theorem wrapped_evaluates :
    1 ≤ ({} : Limits).maxDepth ∧
    ∃ m, make #[9, 7, 9, 4294967295, 9, 65536, 9, 65536, 3, 4, 18] 0 (some pairTable) {}
        { sizing := { stackSize := some 3 } } = .ok m ∧
      (∃ t, Advances (m.serve [.start 2]) 5 10 [1] t) ∧ Overruns (m.serve [.start 0, .step]) 5 2 10 := by
  have hcode : #[9, 7, 9, 4294967295, 9, 65536, 9, 65536, 3, 4, 18].toList = [9, 7] ++ wrapped.code ++ [18] := by
    decide +kernel
  have hglobals : 0 ≤ (0 : Word) := by decide
  have hdepth : 1 ≤ ({} : Limits).maxDepth := by decide
  obtain ⟨m, hm, -⟩ := make_eq_ok #[9, 7, 9, 4294967295, 9, 65536, 9, 65536, 3, 4, 18] pairTable {}
    { sizing := { stackSize := some 3 } } hglobals (by decide)
  refine ⟨hdepth, m, hm, ?_, ?_⟩
  · have hrun : (m.serve [.start 2]).state.status = .running := by
      cases hm
      rfl
    have hip : (m.serve [.start 2]).state.ip = ([9, 7] : List Word).length := by
      cases hm
      rfl
    have hvalue := (postfix_evaluates wrapped hdepth hm hcode hrun hip).1
    cases hm
    exact hvalue (by decide)
  · have hrun : (m.serve [.start 0, .step]).state.status = .running := by
      cases hm
      rfl
    have hip : (m.serve [.start 0, .step]).state.ip = ([9, 7] : List Word).length := by
      cases hm
      rfl
    refine (postfix_evaluates wrapped hdepth hm hcode hrun hip).2 ?_
    cases hm
    decide

end Machine
end StackMachine
