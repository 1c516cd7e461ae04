import StackMachine.Opcode

/-!
# Faults

Why a run stopped short. A fault is recorded as its cause together with where it happened; its kind and its
wording follow from the cause.
-/

set_option autoImplicit false

namespace StackMachine

/-- Kinds are numbered from one; a number without a kind is shown as such. -/
inductive FaultKind where
  | decode
  | bounds
  | cancelled
  | unlisted (number : Int)
  deriving DecidableEq, Repr

namespace FaultKind

def ofNumber : Int → FaultKind
  | 1 => decode
  | 2 => bounds
  | 3 => cancelled
  | n => unlisted n

def name : FaultKind → String
  | decode => "decode fault"
  | bounds => "bounds fault"
  | cancelled => "cancelled"
  | unlisted n => "FaultKind(" ++ Text.decimal n ++ ")"

end FaultKind

/-- What a context reports once it no longer lets a run go on. -/
inductive Cancellation where
  | canceled
  | deadline
  /-- An error of the host's own. -/
  | other (text : String)
  deriving DecidableEq, Repr

def Cancellation.text : Cancellation → String
  | canceled => "context canceled"
  | deadline => "context deadline exceeded"
  | other text => text

inductive Reason where
  | invalidOpcode (word : Word)
  | pointerOutside (ip : Int) (size : Nat)
  | truncated (op : Opcode)
  | underflow (need held : Nat)
  | overflow (capacity : Nat)
  | localOutside (slot : Word) (size : Nat)
  | globalOutside (index : Word) (size : Nat)
  | branchOutside (target : Word)
  | unknownFunction (id : Word) (size : Nat)
  | missingArguments (callee : String) (args : Word) (held : Nat)
  | depthExceeded (callee : String) (limit : Nat)
  | entryOutside (callee : String) (address : Word)
  | outermostReturn
  | cancelled (why : Cancellation)
  deriving DecidableEq, Repr

namespace Reason

def kind : Reason → FaultKind
  | invalidOpcode _ => .decode
  | cancelled _ => .cancelled
  | _ => .bounds

def text : Reason → String
  | invalidOpcode w => "invalid opcode " ++ w.text
  | pointerOutside ip size =>
    "instruction pointer " ++ Text.decimal ip ++ " outside code [0," ++ Text.decimal size ++ ")"
  | truncated op =>
    "truncated instruction: " ++ op.mnemonic ++ " needs " ++ Text.decimal op.operands ++ " operand word(s)"
  | underflow need held =>
    "stack underflow: need " ++ Text.decimal need ++ " value(s), have " ++ Text.decimal held
  | overflow capacity => "stack overflow (capacity " ++ Text.decimal capacity ++ ")"
  | localOutside slot size => "local slot " ++ slot.text ++ " outside [0," ++ Text.decimal size ++ ")"
  | globalOutside index size => "global index " ++ index.text ++ " outside [0," ++ Text.decimal size ++ ")"
  | branchOutside target => "branch target " ++ target.text ++ " outside code"
  | unknownFunction id size =>
    "function id " ++ id.text ++ " outside table [0," ++ Text.decimal size ++ ")"
  | missingArguments callee args held =>
    "call " ++ callee ++ " needs " ++ args.text ++ " argument(s), stack holds " ++ Text.decimal held
  | depthExceeded callee limit =>
    "call stack overflow calling " ++ callee ++ " (max depth " ++ Text.decimal limit ++ ")"
  | entryOutside callee address =>
    "function " ++ callee ++ " address " ++ address.text ++ " outside code"
  | outermostReturn => "return from outermost frame"
  | cancelled why => why.text

end Reason

/-- The report of a fault in the form it is shown. -/
structure Diagnostic where
  kind : FaultKind
  ip : Int
  /-- The word fetched at `ip`, zero when none was. -/
  opcode : Word
  function : String
  depth : Int
  detail : String
  deriving DecidableEq, Repr

/-- A cancellation names no opcode; an unnamed function and an empty detail are left out. -/
def Diagnostic.message (d : Diagnostic) : String :=
  d.kind.name ++ " at ip=" ++ Text.decimal d.ip ++
    (if d.kind = .cancelled then "" else " (opcode " ++ Opcode.nameOf d.opcode ++ ")") ++
    (if d.function = "" then "" else " in " ++ d.function) ++
    " depth=" ++ Text.decimal d.depth ++
    (if d.detail = "" then "" else ": " ++ d.detail)

structure Fault where
  ip : Int
  opcode : Word
  function : String
  depth : Nat
  reason : Reason
  deriving DecidableEq, Repr

namespace Fault

def diagnostic (f : Fault) : Diagnostic where
  kind := f.reason.kind
  ip := f.ip
  opcode := f.opcode
  function := f.function
  depth := f.depth
  detail := f.reason.text

def message (f : Fault) : String :=
  f.diagnostic.message

end Fault

/-- How a run failed: by a fault, or because its output refused a line. -/
inductive RunError where
  | fault (f : Fault)
  | print (ip : Nat) (refusal : String)
  deriving DecidableEq, Repr

namespace RunError

def message : RunError → String
  | fault f => f.message
  | print ip refusal => "vm: print at ip=" ++ Text.decimal ip ++ ": " ++ refusal

def fault? : RunError → Option Fault
  | fault f => some f
  | print _ _ => none

end RunError
end StackMachine
