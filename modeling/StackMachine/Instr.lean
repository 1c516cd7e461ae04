import StackMachine.Opcode

/-!
# Instructions

An instruction carries its operand. It is written as its opcode word followed by the operand, if it has
one. Reading code at an address gives an instruction, a word that is no opcode, or an opcode whose operand
lies beyond the end.
-/

set_option autoImplicit false

namespace StackMachine

inductive Instr where
  | iadd | isub | imul | ilt | ieq
  | br (target : Word) | brt (target : Word) | brf (target : Word)
  | iconst (value : Word)
  | load (slot : Word) | gload (index : Word) | store (slot : Word) | gstore (index : Word)
  | print | pop
  | call (id : Word) | ret
  | halt
  deriving DecidableEq, Repr

namespace Instr

def opcode : Instr → Opcode
  | iadd => .iadd
  | isub => .isub
  | imul => .imul
  | ilt => .ilt
  | ieq => .ieq
  | br _ => .br
  | brt _ => .brt
  | brf _ => .brf
  | iconst _ => .iconst
  | load _ => .load
  | gload _ => .gload
  | store _ => .store
  | gstore _ => .gstore
  | print => .print
  | pop => .pop
  | call _ => .call
  | ret => .ret
  | halt => .halt

def operand? : Instr → Option Word
  | br w | brt w | brf w | iconst w | load w | gload w | store w | gstore w | call w => some w
  | _ => none

/-- The instruction with this opcode; an opcode without operand leaves `w` unused. -/
def ofOpcode (op : Opcode) (w : Word) : Instr :=
  match op with
  | .iadd => iadd
  | .isub => isub
  | .imul => imul
  | .ilt => ilt
  | .ieq => ieq
  | .br => br w
  | .brt => brt w
  | .brf => brf w
  | .iconst => iconst w
  | .load => load w
  | .gload => gload w
  | .store => store w
  | .gstore => gstore w
  | .print => print
  | .pop => pop
  | .call => call w
  | .ret => ret
  | .halt => halt

def size (i : Instr) : Nat :=
  i.opcode.size

def encode (i : Instr) : List Word :=
  i.opcode.word :: i.operand?.toList

theorem length_encode (i : Instr) : i.encode.length = i.size := by
  cases i <;> rfl

theorem opcode_ofOpcode (op : Opcode) (w : Word) : (ofOpcode op w).opcode = op := by
  cases op <;> rfl

theorem operand?_ofOpcode (op : Opcode) (w : Word) :
    (ofOpcode op w).operand? = if op.operands = 0 then none else some w := by
  cases op <;> rfl

end Instr

/-- What stands at an address of code. -/
inductive Fetched where
  | instr (i : Instr)
  | invalid (w : Word)
  | truncated (op : Opcode)
  deriving DecidableEq, Repr

namespace Fetched

/-- Words taken up, the missing operand of a truncated instruction included. -/
def size : Fetched → Nat
  | instr i => i.size
  | invalid _ => 1
  | truncated op => op.size

theorem size_pos (f : Fetched) : 0 < f.size := by
  cases f <;> simp only [size, Instr.size, Opcode.size] <;> omega

end Fetched

/-- What stands at `addr`, or `none` from the end of the code on. -/
def fetch? (code : Array Word) (addr : Nat) : Option Fetched :=
  match code[addr]? with
  | none => none
  | some w =>
    match Opcode.ofWord? w with
    | none => some (.invalid w)
    | some op =>
      if op.operands = 0 then
        some (.instr (.ofOpcode op 0))
      else
        match code[addr + 1]? with
        | none => some (.truncated op)
        | some x => some (.instr (.ofOpcode op x))

theorem fetch?_eq_none_iff {code : Array Word} {addr : Nat} :
    fetch? code addr = none ↔ code.size ≤ addr := by
  constructor
  · intro h
    unfold fetch? at h
    split at h
    next hcode => exact Array.getElem?_eq_none_iff.mp hcode
    next =>
      split at h
      · cases h
      · split at h
        · cases h
        · split at h <;> cases h
  · intro h
    simp only [fetch?, Array.getElem?_eq_none_iff.mpr h]

theorem lt_size_of_fetch? {code : Array Word} {addr : Nat} {f : Fetched} (h : fetch? code addr = some f) :
    addr < code.size := by
  apply Nat.lt_of_not_le
  intro hge
  rw [fetch?_eq_none_iff.mpr hge] at h
  cases h

/-- The words of a fetched instruction stand at its address. -/
theorem words_of_fetch? {code : Array Word} {addr : Nat} {i : Instr}
    (h : fetch? code addr = some (.instr i)) :
    code[addr]? = some i.opcode.word ∧ (∀ w, i.operand? = some w → code[addr + 1]? = some w) ∧
      addr + i.size ≤ code.size := by
  unfold fetch? at h
  split at h
  next => cases h
  next w hw =>
    obtain ⟨hlt, -⟩ := Array.getElem?_eq_some_iff.mp hw
    split at h
    next => cases h
    next op hop =>
      have hword := Opcode.ofWord?_eq_some_iff.mp hop
      subst hword
      split at h
      next hnone =>
        cases h
        rw [Instr.size, Instr.opcode_ofOpcode, Instr.operand?_ofOpcode, if_pos hnone, Opcode.size, hnone]
        refine ⟨hw, ?_, hlt⟩
        intro w hw
        cases hw
      next hsome =>
        split at h
        next => cases h
        next x hx =>
          cases h
          obtain ⟨hlt', -⟩ := Array.getElem?_eq_some_iff.mp hx
          rw [Instr.size, Instr.opcode_ofOpcode, Instr.operand?_ofOpcode, if_neg hsome]
          refine ⟨hw, ?_, ?_⟩
          · intro w hw
            cases hw
            exact hx
          · have hsize : op.size ≤ 2 := by cases op <;> decide
            omega

end StackMachine
