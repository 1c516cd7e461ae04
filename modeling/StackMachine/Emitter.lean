import StackMachine.Word

/-!
# Emitting code

Code words are appended one instruction at a time. A forward branch gets a placeholder that is pointed at
the current end of the code later.
-/

set_option autoImplicit false

namespace StackMachine

structure Emitter where
  code : Array Word := #[]
  deriving DecidableEq, Repr

namespace Emitter

def offset (e : Emitter) : Nat :=
  e.code.size

/-- Appends an opcode word and its operands; also returns the address of the opcode word. -/
def emit (e : Emitter) (op : Word) (operands : List Word) : Nat × Emitter :=
  (e.offset, { code := e.code.push op ++ operands })

/-- Appends a branch with the placeholder −1; also returns the placeholder's address. -/
def emitBranch (e : Emitter) (op : Word) : Nat × Emitter :=
  (e.offset + 1, { code := (e.code.push op).push (-1) })

/-- Points the placeholder at the current end of the code; there has to be a word at its address. -/
def patch? (e : Emitter) (placeholder : Word) : Option Emitter :=
  (placeholder.index? e.code.size).map fun i =>
    { code := e.code.setIfInBounds i (Int64.ofNat e.offset) }

end Emitter
end StackMachine
