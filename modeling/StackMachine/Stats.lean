import StackMachine.Opcode

/-!
# Statistics of a run

Counters for what was executed, and the list of the most frequent opcodes. Counters are 64 bits wide and
start again from zero when they run over.
-/

set_option autoImplicit false

namespace StackMachine

structure Stats where
  cycleCounter : UInt64 := 0
  callCounter : UInt64 := 0
  returnCounter : UInt64 := 0
  maxDepth : Nat := 0
  opcodeCounters : Vector UInt64 18 := Vector.replicate 18 0
  deriving DecidableEq, Repr

namespace Stats

/-- Instructions applied; a halt is not one of them. -/
def cycles (s : Stats) : Nat :=
  s.cycleCounter.toNat

def calls (s : Stats) : Nat :=
  s.callCounter.toNat

def returns (s : Stats) : Nat :=
  s.returnCounter.toNat

def count (s : Stats) (op : Opcode) : Nat :=
  s.opcodeCounters[op.index].toNat

/-- Counts one applied instruction that left `depth` frames active. -/
def record (s : Stats) (op : Opcode) (depth : Nat) : Stats :=
  { s with
    cycleCounter := s.cycleCounter + 1
    opcodeCounters := s.opcodeCounters.set op.index (s.opcodeCounters[op.index] + 1)
    maxDepth := max s.maxDepth depth }

def countCall (s : Stats) : Stats :=
  { s with callCounter := s.callCounter + 1 }

def countReturn (s : Stats) : Stats :=
  { s with returnCounter := s.returnCounter + 1 }

/-- Opcodes that ran, in opcode order, with their counts. -/
def tallies (s : Stats) : List (Opcode × Nat) :=
  (Opcode.all.map fun op => (op, s.count op)).filter fun t => 0 < t.2

/-- The first of `t :: ts` with the largest count. -/
def largest (t : Opcode × Nat) (ts : List (Opcode × Nat)) : Opcode × Nat :=
  ts.foldl (fun m u => if m.2 < u.2 then u else m) t

/-- Selects up to `n` largest counts in turn; the head takes the place of the selected tally, so among equal
counts the order is that of the exchanges and not of the opcodes. -/
def select : Nat → List (Opcode × Nat) → List (Opcode × Nat)
  | 0, _ => []
  | _, [] => []
  | n + 1, t :: ts =>
    let m := largest t ts
    m :: select n (ts.map fun u => if u = m then t else u)

/-- The `n` most frequent opcodes, most frequent first. -/
def top (s : Stats) (n : Int) : List (Opcode × Nat) :=
  select n.toNat s.tallies

end Stats
end StackMachine
