import StackMachine.Text.Decimal

/-!
# Machine words

Code, operands and memory hold 64-bit signed words. What the machine computes is cut to 32 bits; a word
names a memory cell, a code address or a function only when it lies in range.
-/

set_option autoImplicit false

namespace StackMachine

abbrev Word := Int64

namespace Word

/-- The low 32 bits, read in two's complement. -/
def narrow (w : Word) : Word :=
  w.toInt32.toInt64

def ofBool (b : Bool) : Word :=
  if b then 1 else 0

def ofInt? (n : Int) : Option Word :=
  if -9223372036854775808 ≤ n ∧ n ≤ 9223372036854775807 then some (Int64.ofInt n) else none

/-- The word as an index into `size` cells. -/
def index? (w : Word) (size : Nat) : Option Nat :=
  if 0 ≤ w.toInt ∧ w.toInt < size then some w.toInt.toNat else none

/-- The word as a place to continue in `size` words of code; the end of the code is such a place. -/
def target? (w : Word) (size : Nat) : Option Nat :=
  w.index? (size + 1)

def text (w : Word) : String :=
  Text.decimal w.toInt

/-- An integer operand as it is written in assembler text. -/
def read? (cs : List Char) : Option Word :=
  (Text.readInteger? cs).bind ofInt?

theorem index?_eq_some_iff {w : Word} {size i : Nat} :
    w.index? size = some i ↔ w.toInt = i ∧ i < size := by
  unfold index?
  split
  · simp only [Option.some.injEq]
    omega
  · simp only [reduceCtorEq, false_iff]
    omega

theorem index?_eq_none_iff {w : Word} {size : Nat} :
    w.index? size = none ↔ ¬ (0 ≤ w.toInt ∧ w.toInt < size) := by
  unfold index?
  split <;> simp_all

end Word
end StackMachine
