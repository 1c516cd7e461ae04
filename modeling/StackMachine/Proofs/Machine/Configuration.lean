import StackMachine.Proofs.Machine.Memory

/-!
# Configurations

What instructions work on, without the way it is stored: operands and frames are lists with the topmost and the
innermost one first, and a frame has just its slots. Instructions are transitions of configurations. A
transition that is not made says why and changes nothing.
-/

set_option autoImplicit false

namespace StackMachine

/-- Why no frame with `size` slots can be made, if none can. -/
def Frame.refusal? (size : Word) : Option Abandoned :=
  if size.toInt < 0 then some (.frameSize size)
  else if largestBlock < size.toInt then some .allocation
  else none

theorem Frame.refusal?_eq_none_iff {size : Word} :
    refusal? size = none ↔ 0 ≤ size.toInt ∧ size.toInt ≤ largestBlock := by
  unfold refusal?
  split
  · simp only [reduceCtorEq, false_iff]
    omega
  · split
    · simp only [reduceCtorEq, false_iff]
      omega
    · simp only [true_iff]
      omega

theorem Frame.refusal?_eq_some_iff {size : Word} {a : Abandoned} :
    refusal? size = some a ↔ size.toInt < 0 ∧ a = .frameSize size ∨
      0 ≤ size.toInt ∧ largestBlock < size.toInt ∧ a = .allocation := by
  unfold refusal?
  split
  next hneg =>
    have hnot : ¬ 0 ≤ size.toInt := Int.not_le.mpr hneg
    simp only [Option.some.injEq, hneg, hnot, true_and, false_and, or_false]
    exact eq_comm
  next hneg =>
    have hnonneg : 0 ≤ size.toInt := Int.not_lt.mp hneg
    split
    next hlarge =>
      simp only [Option.some.injEq, hneg, hnonneg, hlarge, true_and, false_and, false_or]
      exact eq_comm
    next hlarge => simp only [reduceCtorEq, hneg, hlarge, false_and, and_false, or_false]

namespace Machine

structure Activation where
  function : Descriptor
  returnAddress : Int
  invoker : Int
  slots : List Word

structure Configuration where
  stack : List Word
  globals : Array Word
  frames : List Activation
  stats : Stats
  sink : Sink

namespace Configuration

/-- A transition, or why it is not made. -/
abbrev Transition (α : Type) := Configuration → Except Stop (α × Configuration)

def push (c : Setup) (w : Word) : Transition Unit := fun x =>
  if x.stack.length < c.limits.stackSize then .ok ((), { x with stack := w :: x.stack })
  else .error (.fault (.overflow c.limits.stackSize))

/-- Goes on with the topmost operand and what remains without it. -/
def withTop {α : Type} (f : Word → Transition α) : Transition α := fun x =>
  match x.stack with
  | [] => .error (.fault (.underflow 1 0))
  | v :: rest => f v { x with stack := rest }

def binary (f : Word → Word → Word) : Transition Unit := fun x =>
  match x.stack with
  | b :: a :: rest => .ok ((), { x with stack := f a b :: rest })
  | short => .error (.fault (.underflow 2 short.length))

def target (c : Setup) (w : Word) : Transition Int := fun x =>
  match w.target? c.code.size with
  | some addr => .ok (addr, x)
  | none => .error (.fault (.branchOutside w))

def branchOn (c : Setup) (next : Nat) (taken w : Word) : Transition Int :=
  withTop fun v x => if v = taken then target c w x else .ok (next, x)

def load (c : Setup) (slot : Word) : Transition Unit := fun x =>
  match x.frames with
  | [] => .error (.abandoned .noFrame)
  | f :: _ =>
    match (slot.index? f.slots.length).bind (f.slots[·]?) with
    | none => .error (.fault (.localOutside slot f.slots.length))
    | some v => push c v x

def store (slot : Word) : Transition Unit := fun x =>
  match x.frames with
  | [] => .error (.abandoned .noFrame)
  | f :: rest =>
    match slot.index? f.slots.length with
    | none => .error (.fault (.localOutside slot f.slots.length))
    | some i => x.withTop fun v y =>
      .ok ((), { y with frames := { f with slots := f.slots.set i v } :: rest })

def loadGlobal (c : Setup) (index : Word) : Transition Unit := fun x =>
  match (index.index? x.globals.size).bind (x.globals[·]?) with
  | none => .error (.fault (.globalOutside index x.globals.size))
  | some v => push c v x

def storeGlobal (index : Word) : Transition Unit := fun x =>
  match index.index? x.globals.size with
  | none => .error (.fault (.globalOutside index x.globals.size))
  | some i => x.withTop fun v y => .ok ((), { y with globals := y.globals.setIfInBounds i v })

def print : Transition Unit :=
  withTop fun v x =>
    match x.sink.write (v.text ++ "\n") with
    | .ok sink => .ok ((), { x with sink := sink })
    | .error refusal => .error (.refused refusal)

def drop : Transition Unit :=
  withTop fun _ x => .ok ((), x)

/-- The activation of `d` that its topmost operands make, the deepest one first. -/
def activation (d : Descriptor) (next : Nat) (x : Configuration) : Activation where
  function := d
  returnAddress := next
  invoker := x.frames.length - 1
  slots := (x.stack.take d.args.toInt.toNat).reverse ++ List.replicate d.locals.toInt.toNat 0

def call (c : Setup) (next : Nat) (id : Word) : Transition Int := fun x =>
  match c.table.lookup? id with
  | none => .error (.fault (.unknownFunction id c.table.size))
  | some d =>
    if x.stack.length < d.args.toInt then .error (.fault (.missingArguments d.name d.args x.stack.length))
    else if c.limits.maxDepth ≤ x.frames.length then .error (.fault (.depthExceeded d.name c.limits.maxDepth))
    else if d.address.target? c.code.size = none then .error (.fault (.entryOutside d.name d.address))
    else
      match Frame.refusal? d.frameSize with
      | some a => .error (.abandoned a)
      | none => .ok (d.address.toInt, { x with
          stack := x.stack.drop d.args.toInt.toNat
          frames := x.activation d next :: x.frames
          stats := x.stats.countCall })

def ret : Transition Int := fun x =>
  match x.frames with
  | f :: g :: rest => .ok (f.returnAddress, { x with frames := g :: rest, stats := x.stats.countReturn })
  | _ => .error (.fault .outermostReturn)

def andThen (next : Nat) (t : Transition Unit) : Transition Int := fun x =>
  match t x with
  | .ok (_, y) => .ok (next, y)
  | .error e => .error e

/-- The transition that an instruction makes, with the address to go on at. -/
def apply (c : Setup) (next : Nat) : Instr → Transition Int
  | .iadd => andThen next (binary fun a b => (a + b).narrow)
  | .isub => andThen next (binary fun a b => (a - b).narrow)
  | .imul => andThen next (binary fun a b => (a * b).narrow)
  | .ilt => andThen next (binary fun a b => .ofBool (a < b))
  | .ieq => andThen next (binary fun a b => .ofBool (a == b))
  | .br t => target c t
  | .brt t => branchOn c next 1 t
  | .brf t => branchOn c next 0 t
  | .iconst w => andThen next (push c w.narrow)
  | .load slot => andThen next (load c slot)
  | .gload i => andThen next (loadGlobal c i)
  | .store slot => andThen next (store slot)
  | .gstore i => andThen next (storeGlobal i)
  | .print => andThen next print
  | .pop => andThen next drop
  | .call id => call c next id
  | .ret => ret
  | .halt => fun x => .ok (next, x)

end Configuration

end Machine
end StackMachine
