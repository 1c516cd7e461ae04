import StackMachine.Text.Decimal

/-!
# Digits

Numbers in a base up to 36, signs, decimal fractions, and characters given by their number.
-/

set_option autoImplicit false

namespace StackMachine.Text

/-- The value of a digit or letter in a base. -/
def digitIn? (base : Nat) (c : Char) : Option Nat :=
  let n := c.toNat
  let d :=
    if 48 ≤ n ∧ n ≤ 57 then n - 48
    else if 97 ≤ n ∧ n ≤ 122 then n - 87
    else if 65 ≤ n ∧ n ≤ 90 then n - 55
    else base
  if d < base then some d else none

/-- The number with the given digits, most significant first. -/
def valueIn (base : Nat) (ds : List Nat) : Nat :=
  ds.foldl (fun n d => base * n + d) 0

/-- A number in a base, at least one digit. -/
def natIn? (base : Nat) (cs : List Char) : Option Nat :=
  if cs.isEmpty then none else (cs.mapM (digitIn? base)).map (valueIn base)

/-- Takes a sign off: whether it was a minus, and the rest. -/
def splitSign : List Char → Bool × List Char
  | '-' :: cs => (true, cs)
  | '+' :: cs => (false, cs)
  | cs => (false, cs)

def withSign (minus : Bool) (n : Nat) : Int :=
  if minus then -(n : Int) else n

/-- Takes off a point and the digits after it. -/
def splitFraction : List Char → List Char × List Char
  | '.' :: cs => (cs.takeWhile isDigit, cs.dropWhile isDigit)
  | cs => ([], cs)

/-- The character whose number is spelled in hexadecimal; surrogates are no characters. -/
def codePoint? (cs : List Char) : Option Char :=
  (natIn? 16 cs).bind fun n =>
    if n < 0xd800 ∨ 0xe000 ≤ n ∧ n ≤ 0x10ffff then some (Char.ofNat n) else none

end StackMachine.Text
