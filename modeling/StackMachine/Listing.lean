import StackMachine.FunctionTable
import StackMachine.Instr

/-!
# Listings

Code as readable lines. A listing starts with the functions, if a table is given, and walks the code from
its start, one line an instruction, each function's name on a line of its own before its address.
-/

set_option autoImplicit false

namespace StackMachine.Listing

/-- A call shows the callee's name when the table has the id; other operands are numbers. -/
def operandText (table : Option FunctionTable) (i : Instr) (w : Word) : String :=
  match i, table with
  | .call id, some t =>
    match t.lookup? id with
    | some d => d.name
    | none => w.text
  | _, _ => w.text

def mark (addr : Int) : String :=
  Text.zeroPadded 4 addr ++ ":\t"

def body (table : Option FunctionTable) : Fetched → String
  | .invalid w => "<invalid " ++ w.text ++ ">"
  | .truncated op => Text.padRight 11 op.mnemonic ++ "?"
  | .instr i =>
    match i.operand? with
    | none => i.opcode.mnemonic
    | some w => Text.padRight 11 i.opcode.mnemonic ++ operandText table i w

/-- The line for an address and the words it covers; none beyond the code. -/
def line (code : Array Word) (table : Option FunctionTable) (addr : Int) : String × Nat :=
  match (if addr < 0 then none else fetch? code addr.toNat) with
  | none => (mark addr ++ "<end of code>", 0)
  | some f => (mark addr ++ body table f, f.size)

/-- Names of the functions that start at an address, in table order. -/
def namesAt (table : Option FunctionTable) (addr : Nat) : List String :=
  match table with
  | none => []
  | some t => (t.entries.toList.filter fun d => d.address.toInt == (addr : Int)).map (·.name)

/-- The lines from `addr` on. -/
def linesFrom (code : Array Word) (table : Option FunctionTable) (addr : Nat) : List String :=
  match _h : fetch? code addr with
  | none => []
  | some f =>
    (namesAt table addr).map (· ++ ":") ++ (mark addr ++ body table f) ::
      linesFrom code table (addr + f.size)
termination_by code.size - addr
decreasing_by
  have hlt := lt_size_of_fetch? _h
  have hpos := f.size_pos
  omega

def header (t : FunctionTable) : List String :=
  ("; Functions (" ++ Text.decimal t.size ++ "):") ::
    t.entries.toList.mapIdx (fun id d =>
      ";   [" ++ Text.padLeft 3 (Text.decimal id) ++ "] " ++ d.text) ++ [""]

def lines (code : Array Word) (table : Option FunctionTable) : List String :=
  (match table with
    | none => []
    | some t => header t) ++ "; Code:" :: linesFrom code table 0

def text (code : Array Word) (table : Option FunctionTable) : String :=
  String.join ((lines code table).map (· ++ "\n"))

end StackMachine.Listing
