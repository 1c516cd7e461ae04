import Std.Data.HashSet.Basic
import StackMachine.FunctionTable
import StackMachine.Instr

/-!
# Verification

Code is walked from its start, instruction by instruction. Reported are words that are no opcode, a
truncated end, operands the machine would refuse, and functions that do not start at an instruction. Local
slots are only checked for sign, since the frame an instruction runs in is not known.
-/

set_option autoImplicit false

namespace StackMachine

inductive Problem where
  | invalidOpcode (word : Word)
  | truncated (op : Opcode)
  | badTarget (op : Opcode) (target : Word)
  | badGlobal (op : Opcode) (index globals : Word)
  | negativeSlot (op : Opcode) (slot : Word)
  | unknownFunction (id : Word)
  | badAddress (id : Nat) (name : String)
  deriving DecidableEq, Repr

def Problem.text : Problem → String
  | invalidOpcode w => "invalid opcode " ++ w.text
  | truncated op => "truncated " ++ op.mnemonic
  | badTarget op target => op.mnemonic ++ " target " ++ target.text ++ " is not an instruction boundary"
  | badGlobal op index globals =>
    op.mnemonic ++ " index " ++ index.text ++ " outside [0," ++ globals.text ++ ")"
  | negativeSlot op slot => op.mnemonic ++ " negative slot " ++ slot.text
  | unknownFunction id => "call to unknown function id " ++ id.text
  | badAddress id name =>
    "function " ++ Text.decimal id ++ " (" ++ name ++ ") address is not an instruction boundary"

/-- A problem and the address it is reported at. -/
structure Finding where
  address : Int
  problem : Problem
  deriving DecidableEq, Repr

def Finding.message (f : Finding) : String :=
  "vm: verify " ++ Text.zeroPadded 4 f.address ++ ": " ++ f.problem.text

namespace Verification

/-- What the walk from `addr` meets, each with its address; a truncated instruction ends it. -/
def walkFrom (code : Array Word) (addr : Nat) : List (Nat × Fetched) :=
  match _h : fetch? code addr with
  | none => []
  | some (.truncated op) => [(addr, .truncated op)]
  | some f => (addr, f) :: walkFrom code (addr + f.size)
termination_by code.size - addr
decreasing_by
  have hlt := lt_size_of_fetch? _h
  have hpos := f.size_pos
  omega

def walk (code : Array Word) : List (Nat × Fetched) :=
  walkFrom code 0

def starts (code : Array Word) : List Nat :=
  (walk code).map Prod.fst

/-- A word is a boundary if it is the end of the code or the address of something the walk meets. -/
def isBoundary (size : Nat) (starts : Std.HashSet Nat) (w : Word) : Bool :=
  match w.target? size with
  | none => false
  | some i => i == size || starts.contains i

def shapeProblem : Fetched → Option Problem
  | .instr _ => none
  | .invalid w => some (.invalidOpcode w)
  | .truncated op => some (.truncated op)

def operandProblem (boundary : Word → Bool) (globals : Word) (table : Option FunctionTable) :
    Instr → Option Problem
  | .br t => if boundary t then none else some (.badTarget .br t)
  | .brt t => if boundary t then none else some (.badTarget .brt t)
  | .brf t => if boundary t then none else some (.badTarget .brf t)
  | .gload i => if 0 ≤ i ∧ i < globals then none else some (.badGlobal .gload i globals)
  | .gstore i => if 0 ≤ i ∧ i < globals then none else some (.badGlobal .gstore i globals)
  | .load s => if 0 ≤ s then none else some (.negativeSlot .load s)
  | .store s => if 0 ≤ s then none else some (.negativeSlot .store s)
  | .call id =>
    match table with
    | none => none
    | some t => if (t.lookup? id).isSome then none else some (.unknownFunction id)
  | _ => none

/-- What the second pass reports from `addr` on. It makes its own way through the code, past words that are no
opcode and up to a truncated end. -/
def operandFindingsFrom (boundary : Word → Bool) (globals : Word) (table : Option FunctionTable)
    (code : Array Word) (addr : Nat) : List Finding :=
  match _h : fetch? code addr with
  | none => []
  | some (.truncated _) => []
  | some (.invalid _) => operandFindingsFrom boundary globals table code (addr + 1)
  | some (.instr i) =>
    ((operandProblem boundary globals table i).map (Finding.mk addr)).toList ++
      operandFindingsFrom boundary globals table code (addr + i.size)
termination_by code.size - addr
decreasing_by
  · have hlt := lt_size_of_fetch? _h
    omega
  · have hlt := lt_size_of_fetch? _h
    have hpos := (Fetched.instr i).size_pos
    simp only [Fetched.size] at hpos
    omega

def addressFindings (boundary : Word → Bool) (table : Option FunctionTable) : List Finding :=
  match table with
  | none => []
  | some t =>
    (t.entries.toList.mapIdx fun id d =>
      if boundary d.address then none
      else some { address := d.address.toInt, problem := .badAddress id d.name }).filterMap id

/-- All findings: shapes of the code first, then operands, then function addresses. -/
def findings (code : Array Word) (globals : Word) (table : Option FunctionTable) : List Finding :=
  let items := walk code
  let boundary := isBoundary code.size (Std.HashSet.ofList (items.map Prod.fst))
  let shapes := items.filterMap fun (addr, f) => (shapeProblem f).map (Finding.mk addr)
  shapes ++ operandFindingsFrom boundary globals table code 0 ++ addressFindings boundary table

def message (fs : List Finding) : String :=
  String.intercalate "\n" (fs.map Finding.message)

end Verification
end StackMachine
