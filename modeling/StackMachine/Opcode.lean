import StackMachine.Word

/-!
# Opcodes

The eighteen opcodes, the word that stands for each in code, and what is fixed about an instruction by its
opcode alone: mnemonic, operand words, values popped and pushed.
-/

set_option autoImplicit false

namespace StackMachine

inductive Opcode where
  | iadd | isub | imul | ilt | ieq
  | br | brt | brf
  | iconst | load | gload | store | gstore
  | print | pop
  | call | ret
  | halt
  deriving DecidableEq, Repr

namespace Opcode

def all : List Opcode :=
  [iadd, isub, imul, ilt, ieq, br, brt, brf, iconst, load, gload, store, gstore, print, pop, call, ret, halt]

def index : Opcode → Fin 18
  | iadd => 0
  | isub => 1
  | imul => 2
  | ilt => 3
  | ieq => 4
  | br => 5
  | brt => 6
  | brf => 7
  | iconst => 8
  | load => 9
  | gload => 10
  | store => 11
  | gstore => 12
  | print => 13
  | pop => 14
  | call => 15
  | ret => 16
  | halt => 17

/-- Opcodes are numbered from one. -/
def number (op : Opcode) : Nat :=
  op.index.val + 1

def word (op : Opcode) : Word :=
  Int64.ofNat op.number

def ofNumber? : Int → Option Opcode
  | 1 => some iadd
  | 2 => some isub
  | 3 => some imul
  | 4 => some ilt
  | 5 => some ieq
  | 6 => some br
  | 7 => some brt
  | 8 => some brf
  | 9 => some iconst
  | 10 => some load
  | 11 => some gload
  | 12 => some store
  | 13 => some gstore
  | 14 => some print
  | 15 => some pop
  | 16 => some call
  | 17 => some ret
  | 18 => some halt
  | _ => none

def ofWord? (w : Word) : Option Opcode :=
  ofNumber? w.toInt

def mnemonic : Opcode → String
  | iadd => "iadd"
  | isub => "isub"
  | imul => "imul"
  | ilt => "ilt"
  | ieq => "ieq"
  | br => "br"
  | brt => "brt"
  | brf => "brf"
  | iconst => "iconst"
  | load => "load"
  | gload => "gload"
  | store => "store"
  | gstore => "gstore"
  | print => "print"
  | pop => "pop"
  | call => "call"
  | ret => "ret"
  | halt => "halt"

def ofMnemonic? (s : String) : Option Opcode :=
  all.find? fun op => op.mnemonic == s

/-- Operand words after the opcode. -/
def operands : Opcode → Nat
  | br | brt | brf | iconst | load | gload | store | gstore | call => 1
  | _ => 0

/-- Words the instruction takes up. -/
def size (op : Opcode) : Nat :=
  1 + op.operands

/-- Values taken off the stack; `none` for a call, which takes the callee's arguments. -/
def pops : Opcode → Option Nat
  | iadd | isub | imul | ilt | ieq => some 2
  | brt | brf | store | gstore | print | pop => some 1
  | br | iconst | load | gload | ret | halt => some 0
  | call => none

def pushes : Opcode → Nat
  | iadd | isub | imul | ilt | ieq | iconst | load | gload => 1
  | _ => 0

def isBranch : Opcode → Bool
  | br | brt | brf => true
  | _ => false

/-- The name of the opcode a word stands for, or a placeholder that shows the word. -/
def nameOf (w : Word) : String :=
  match ofWord? w with
  | some op => op.mnemonic
  | none => "UNKNOWN(" ++ w.text ++ ")"

theorem ofNumber?_eq_some_iff {n : Int} {op : Opcode} : ofNumber? n = some op ↔ n = op.number := by
  constructor
  · intro h
    unfold ofNumber? at h
    split at h <;> simp only [Option.some.injEq, reduceCtorEq] at h <;> subst h <;> rfl
  · rintro rfl
    cases op <;> rfl

theorem ofWord?_eq_some_iff {w : Word} {op : Opcode} : ofWord? w = some op ↔ w = op.word := by
  rw [ofWord?, ofNumber?_eq_some_iff]
  constructor
  · intro h
    rw [← Int64.ofInt_toInt w, h]
    cases op <;> rfl
  · rintro rfl
    cases op <;> rfl

end Opcode
end StackMachine
