/-!
# Decimal text

Writing integers in decimal, with or without padding, and reading them back. Reading takes an optional
sign and at least one ASCII digit; nothing else is an integer.
-/

set_option autoImplicit false

namespace StackMachine.Text

def decimal (n : Int) : String :=
  if n < 0 then "-" ++ toString n.natAbs else toString n.natAbs

/-- Pads with blanks on the right; longer text is kept whole. -/
def padRight (width : Nat) (s : String) : String :=
  s ++ String.ofList (List.replicate (width - s.length) ' ')

/-- Pads with blanks on the left; longer text is kept whole. -/
def padLeft (width : Nat) (s : String) : String :=
  String.ofList (List.replicate (width - s.length) ' ') ++ s

/-- Zeros fill the width between the sign and the digits; the sign counts towards the width. -/
def zeroPadded (width : Nat) (n : Int) : String :=
  let digits := toString n.natAbs
  if n < 0 then
    "-" ++ String.ofList (List.replicate (width - 1 - digits.length) '0') ++ digits
  else
    String.ofList (List.replicate (width - digits.length) '0') ++ digits

def isDigit (c : Char) : Bool :=
  '0' ≤ c && c ≤ '9'

def digitsValue? (cs : List Char) : Option Nat :=
  if !cs.isEmpty && cs.all isDigit then some (Nat.ofDigitChars 10 cs 0) else none

def readInteger? : List Char → Option Int
  | '-' :: cs => (digitsValue? cs).map fun n => -(n : Int)
  | '+' :: cs => (digitsValue? cs).map fun n => (n : Int)
  | cs => (digitsValue? cs).map fun n => (n : Int)

end StackMachine.Text
