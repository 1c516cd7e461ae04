import StackMachine.Instr
import StackMachine.Machine.Memory
import StackMachine.Machine.Trace

/-!
# One cycle

A cycle fetches the instruction at the instruction pointer and applies it, or stops the machine. An
instruction that stops short leaves whatever it had changed by then, so its checks have to come first.
-/

set_option autoImplicit false

namespace StackMachine.Machine

/-- Why an instruction was not applied. -/
inductive Stop where
  | fault (reason : Reason)
  | refused (refusal : String)
  | abandoned (a : Abandoned)
  deriving DecidableEq, Repr

/-- A computation on states that may stop short. -/
abbrev Attempt := EStateM Stop State

instance : MonadLift Access Attempt where
  monadLift x := EStateM.adaptExcept .abandoned x

namespace Attempt

open Access

def refuse {α : Type} (reason : Reason) : Attempt α :=
  throw (.fault reason)

/-- Goes on only if the condition holds. -/
@[inline] def require (p : Prop) [Decidable p] (reason : Reason) : Attempt Unit :=
  if p then pure () else refuse reason

/-- Checks that there are `n` operands. -/
def need (n : Nat) : Attempt Unit := do
  let s ← get
  require (n ≤ s.sp + 1) (.underflow n s.held)

/-- Checks that one more operand fits. -/
def room : Attempt Unit := do
  let s ← get
  require (s.sp + 1 < s.cells.size) (.overflow s.cells.size)

def write (piece : String) : Attempt Unit := fun s =>
  match s.sink.write piece with
  | .ok sink => .ok () { s with sink := sink }
  | .error refusal => .error (.refused refusal) s

def binary (f : Word → Word → Word) : Attempt Unit := do
  need 2
  let b ← pop
  let a ← pop
  push (f a b)

/-- The place that a branch leads to. -/
def target (c : Setup) (w : Word) : Attempt Int :=
  match w.target? c.code.size with
  | some addr => pure addr
  | none => refuse (.branchOutside w)

/-- Pops a value and branches if it is exactly `taken`. -/
def branchOn (c : Setup) (next : Nat) (taken w : Word) : Attempt Int := do
  need 1
  let v ← top
  if v = taken then
    let addr ← target c w
    let _ ← pop
    return addr
  else
    let _ ← pop
    return next

def constant (w : Word) : Attempt Unit := do
  room
  push w

def load (slot : Word) : Attempt Unit := do
  let f ← activeFrame
  match f.slot? slot with
  | none => refuse (.localOutside slot f.size)
  | some v => constant v

def store (slot : Word) : Attempt Unit := do
  let f ← activeFrame
  match slot.index? f.size with
  | none => refuse (.localOutside slot f.size)
  | some i =>
    need 1
    let v ← pop
    modify fun s => { s with arena := s.arena.modifyActive (·.setCell i v) }

/-- Checks that an index names a global. -/
def needGlobal (index : Word) : Attempt Unit := do
  let s ← get
  require (index.index? s.globals.size).isSome (.globalOutside index s.globals.size)

def loadGlobal (index : Word) : Attempt Unit := do
  needGlobal index
  room
  let v ← global index
  push v

def storeGlobal (index : Word) : Attempt Unit := do
  needGlobal index
  need 1
  let v ← pop
  setGlobal index v

def print : Attempt Unit := do
  need 1
  let v ← top
  write (v.text ++ "\n")
  let _ ← pop

def drop : Attempt Unit := do
  need 1
  let _ ← pop

/-- Checks everything that a call of `d` needs. -/
def needCallable (c : Setup) (d : Descriptor) : Attempt Unit := do
  let s ← get
  require (d.args.toInt ≤ s.sp + 1) (.missingArguments d.name d.args s.held)
  require (s.depth < c.limits.maxDepth) (.depthExceeded d.name c.limits.maxDepth)
  require (d.address.target? c.code.size).isSome (.entryOutside d.name d.address)

def call (c : Setup) (next : Nat) (id : Word) : Attempt Int :=
  match c.table.lookup? id with
  | none => refuse (.unknownFunction id c.table.size)
  | some d => do
    needCallable c d
    enter d next d.frameSize
    takeArguments d.args
    modify fun s => { s with stats := s.stats.countCall }
    return d.address.toInt

def ret : Attempt Int := do
  let s ← get
  require (1 < s.depth) .outermostReturn
  let f ← leave
  modify fun s => { s with stats := s.stats.countReturn }
  return f.returnAddress

/-- Applies an instruction whose successor in code is at `next` and gives the address to go on at. -/
def apply (c : Setup) (next : Nat) : Instr → Attempt Int
  | .iadd => do binary fun a b => (a + b).narrow; return next
  | .isub => do binary fun a b => (a - b).narrow; return next
  | .imul => do binary fun a b => (a * b).narrow; return next
  | .ilt => do binary fun a b => .ofBool (a < b); return next
  | .ieq => do binary fun a b => .ofBool (a == b); return next
  | .br t => target c t
  | .brt t => branchOn c next 1 t
  | .brf t => branchOn c next 0 t
  | .iconst w => do constant w.narrow; return next
  | .load slot => do load slot; return next
  | .gload i => do loadGlobal i; return next
  | .store slot => do store slot; return next
  | .gstore i => do storeGlobal i; return next
  | .print => do print; return next
  | .pop => do drop; return next
  | .call id => call c next id
  | .ret => ret
  | .halt => return next

end Attempt

def halt (c : Setup) (s : State) : State :=
  { s.traced c (fun _ => haltLines c s.ip s.stack s.globals) with status := .halted }

/-- Goes on at `ip` after an applied instruction: it is counted and traced. -/
def proceed (c : Setup) (addr : Nat) (op : Opcode) (ip : Int) (s : State) : State :=
  let s := { s with ip := ip, stats := s.stats.record op s.depth }
  s.traced c fun _ => cycleLine c addr s.stack s.calls

/-- Applies the instruction at `addr`. If it stops short, the error is recorded in the state it left. -/
def perform (c : Setup) (addr : Nat) (i : Instr) : Access Unit := fun s =>
  match Attempt.apply c (addr + i.size) i s with
  | .ok ip t => .ok () (proceed c addr i.opcode ip t)
  | .error (.fault r) t => .ok () (t.fault addr i.opcode.word r)
  | .error (.refused text) t => .ok () (t.fail (.print addr text))
  | .error (.abandoned a) t => .error a t

/-- One cycle of a running machine. Reaching the end of the code halts, as the halt instruction does. -/
def cycle (c : Setup) : Access Unit := fun s =>
  if s.ip = c.code.size then .ok () (halt c s)
  else if s.ip < 0 then .ok () (s.fault s.ip 0 (.pointerOutside s.ip c.code.size))
  else
    match fetch? c.code s.ip.toNat with
    | none => .ok () (s.fault s.ip 0 (.pointerOutside s.ip c.code.size))
    | some (.invalid w) => .ok () (s.fault s.ip w (.invalidOpcode w))
    | some (.truncated op) => .ok () (s.fault s.ip op.word (.truncated op))
    | some (.instr .halt) => .ok () (halt c s)
    | some (.instr i) => perform c s.ip.toNat i s

end StackMachine.Machine
