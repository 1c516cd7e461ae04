import StackMachine.Text.Bytes

/-!
# Base64

Four characters stand for three bytes. At the end one or two bytes may stand alone, filled up with equals
signs to four characters. Line ends do not count.
-/

set_option autoImplicit false

namespace StackMachine.Text.Base64

def digit? (c : Char) : Option Nat :=
  let n := c.toNat
  if 'A' ≤ c ∧ c ≤ 'Z' then some (n - 65)
  else if 'a' ≤ c ∧ c ≤ 'z' then some (n - 71)
  else if '0' ≤ c ∧ c ≤ '9' then some (n + 4)
  else if c = '+' then some 62
  else if c = '/' then some 63
  else none

def decodeGroups : List Char → Option Bytes
  | [] => some []
  | [a, b, '=', '='] => do
    let n := 64 * (← digit? a) + (← digit? b)
    return [UInt8.ofNat (n / 16)]
  | [a, b, c, '='] => do
    let n := 4096 * (← digit? a) + 64 * (← digit? b) + (← digit? c)
    return [UInt8.ofNat (n / 1024), UInt8.ofNat (n / 4)]
  | a :: b :: c :: d :: cs => do
    let n := 262144 * (← digit? a) + 4096 * (← digit? b) + 64 * (← digit? c) + (← digit? d)
    return UInt8.ofNat (n / 65536) :: UInt8.ofNat (n / 256) :: UInt8.ofNat n :: (← decodeGroups cs)
  | _ => none

def decode? (s : String) : Option Bytes :=
  decodeGroups (s.toList.filter fun c => c != '\n' && c != '\r')

end StackMachine.Text.Base64
