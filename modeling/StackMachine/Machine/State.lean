import StackMachine.Fault
import StackMachine.Machine.CallStack
import StackMachine.Sink
import StackMachine.Stats

/-!
# Machine states

What a machine is given once (code, function table, limits) is kept apart from what a run changes. Operands
stand in a block of cells whose size is fixed when the machine is made; the stack pointer is the position of
the topmost one.
-/

set_option autoImplicit false

namespace StackMachine

structure Limits where
  stackSize : Nat := 1000
  /-- Most frames at a time, the outermost one included. -/
  maxDepth : Nat := 1000
  /-- Cycles between two consultations of the context. -/
  checkInterval : Nat := 1024
  deriving DecidableEq, Repr

/-- Requested limits; only positive numbers count as requests. -/
structure Sizing where
  stackSize : Option Word := none
  maxDepth : Option Word := none
  checkInterval : Option Word := none
  deriving DecidableEq, Repr

def Limits.request (current : Nat) (wish : Option Word) : Nat :=
  match wish with
  | some w => if 0 < w.toInt then w.toInt.toNat else current
  | none => current

def Limits.adjust (l : Limits) (s : Sizing) : Limits where
  stackSize := request l.stackSize s.stackSize
  maxDepth := request l.maxDepth s.maxDepth
  checkInterval := request l.checkInterval s.checkInterval

theorem Limits.adjust_maxDepth_pos {l : Limits} (s : Sizing) (h : 1 ≤ l.maxDepth) :
    1 ≤ (l.adjust s).maxDepth := by
  simp only [adjust, request]
  split
  · split
    · omega
    · exact h
  · exact h

inductive Status where
  | ready
  | running
  | halted
  | faulted (e : RunError)
  deriving DecidableEq, Repr

namespace Status

def number : Status → Nat
  | ready => 0
  | running => 1
  | halted => 2
  | faulted _ => 3

def nameOf : Int → String
  | 0 => "ready"
  | 1 => "running"
  | 2 => "halted"
  | 3 => "faulted"
  | n => "State(" ++ Text.decimal n ++ ")"

def name (s : Status) : String :=
  nameOf s.number

def isRunning : Status → Bool
  | running => true
  | _ => false

def error? : Status → Option RunError
  | faulted e => some e
  | _ => none

end Status

namespace Machine

structure Setup where
  code : Array Word
  table : FunctionTable
  limits : Limits := {}
  tracing : Bool := false

structure State where
  ip : Int := 0
  /-- Position of the topmost operand, −1 when there is none. -/
  sp : Int := -1
  cells : Array Word
  globals : Array Word
  arena : CallStack := {}
  status : Status := .ready
  stats : Stats := {}
  sink : Sink
  /-- Everything traced since the machine was made. -/
  trace : String := ""

namespace State

/-- The number of operands. -/
def held (s : State) : Nat :=
  (s.sp + 1).toNat

/-- The operands, topmost first. -/
def stack (s : State) : List Word :=
  (s.cells.toList.take s.held).reverse

def depth (s : State) : Nat :=
  s.arena.depth

/-- The active frames, innermost first. -/
def frames (s : State) : List Frame :=
  s.arena.toList

def functionName (s : State) : String :=
  match s.arena.active? with
  | none => ""
  | some f => f.function.name

/-- Names of the active functions, outermost first. -/
def calls (s : State) : List String :=
  (s.frames.map (·.function.name)).reverse

def fail (s : State) (e : RunError) : State :=
  { s with status := .faulted e }

/-- Records a fault of the instruction at `addr` and changes nothing else. -/
def fault (s : State) (addr : Int) (opcode : Word) (reason : Reason) : State :=
  s.fail (.fault {
    ip := addr
    opcode := opcode
    function := s.functionName
    depth := s.depth
    reason := reason })

def global? (s : State) (i : Word) : Option Word :=
  (i.index? s.globals.size).bind fun i => s.globals[i]?

def local? (s : State) (i : Word) : Option Word :=
  s.arena.active?.bind fun f => f.slot? i

/-- Writes a slot of the active frame from outside; any word is allowed. -/
def setLocal? (s : State) (i v : Word) : Option State :=
  s.arena.active?.bind fun f =>
    (i.index? f.size).map fun i => { s with arena := s.arena.modifyActive (·.setCell i v) }

end State

/-- Global memory in the pieces it is written in. -/
def dumpOf (globals : Array Word) : List String :=
  "Data memory:\n" ::
    globals.toList.mapIdx (fun i w => Text.zeroPadded 4 i ++ ": " ++ w.text ++ "\n") ++ ["\n"]

def State.dump (s : State) : List String :=
  dumpOf s.globals

end Machine

/-- A machine: what it was given, and where it stands. -/
structure Machine where
  setup : Machine.Setup
  state : Machine.State

namespace Machine

/-- Why no machine was made: the arguments were refused, or making it was abandoned. -/
inductive SetupError where
  | noTable
  | negativeGlobals (n : Word)
  | abandoned (a : Abandoned)
  deriving DecidableEq, Repr

def SetupError.message : SetupError → String
  | noTable => "vm: nil function table"
  | negativeGlobals n => "vm: negative global count " ++ n.text
  | abandoned a => a.message

/-- What a host chooses besides program and limits. -/
structure Options where
  sizing : Sizing := {}
  tracing : Bool := false
  sink : Sink := .unlimited

def make (code : Array Word) (globals : Word) (table : Option FunctionTable) (base : Limits)
    (o : Options) : Except SetupError Machine :=
  match table with
  | none => .error .noTable
  | some t =>
    if globals < 0 then .error (.negativeGlobals globals)
    else do
      let limits := base.adjust o.sizing
      let memory ← (allocate globals.toInt.toNat).mapError .abandoned
      let cells ← (allocate limits.stackSize).mapError .abandoned
      return {
        setup := { code := code, table := t, limits := limits, tracing := o.tracing }
        state := { cells := cells, globals := memory, sink := o.sink } }

end Machine
end StackMachine
