import StackMachine.Listing
import StackMachine.Machine.State

/-!
# Traces

One line a cycle: the instruction, the operand stack after it and the active functions. The line of a halt
is followed by global memory.
-/

set_option autoImplicit false

namespace StackMachine.Machine

/-- The operands are given topmost first and shown the other way round. -/
def stackText (stack : List Word) : String :=
  "stack=[" ++ String.join (stack.reverse.map fun w => " " ++ w.text) ++ " ]"

def callsText (names : List String) : String :=
  "calls=[" ++ String.intercalate ", " names ++ "]"

/-- The part of a trace line that shows the instruction at an address. -/
def instrText (c : Setup) (addr : Int) : String :=
  Text.padRight 35 (Listing.line c.code (some c.table) addr).1

def cycleLine (c : Setup) (addr : Int) (stack : List Word) (calls : List String) : String :=
  instrText c addr ++ Text.padRight 22 (stackText stack) ++ " " ++ callsText calls ++ "\n"

def haltLines (c : Setup) (addr : Int) (stack : List Word) (globals : Array Word) : String :=
  instrText c addr ++ stackText stack ++ "\n" ++ String.join (dumpOf globals)

/-- Appends to the trace of a machine that traces; other machines do not look at the text. -/
def State.traced (s : State) (c : Setup) (line : Unit → String) : State :=
  if c.tracing then { s with trace := s.trace ++ line () } else s

end StackMachine.Machine
