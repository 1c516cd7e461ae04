import StackMachine.Text.Digits
import StackMachine.Text.Scientific
import StackMachine.Word

/-!
# Values of flags

The truth values, integers and durations that the command line takes. Integers may name a base and have
underscores between their digits; durations are sums of decimal numbers with units.
-/

set_option autoImplicit false

namespace StackMachine.CommandLine

inductive ValueFault where
  | syntactic
  | range
  deriving DecidableEq, Repr

def ValueFault.text : ValueFault → String
  | syntactic => "parse error"
  | range => "value out of range"

def truth? (s : String) : Option Bool :=
  if ["1", "t", "T", "TRUE", "true", "True"].contains s then some true
  else if ["0", "f", "F", "FALSE", "false", "False"].contains s then some false
  else none

/-! ### Integers -/

/-- Reads digits after the value `n`, passing over underscores. The first thing that is wrong counts. -/
def readDigits (base n : Nat) : List Char → Except ValueFault Nat
  | [] => .ok n
  | '_' :: cs => readDigits base n cs
  | c :: cs =>
    match Text.digitIn? base c with
    | none => .error .syntactic
    | some d =>
      if base * n + d < 18446744073709551616 then readDigits base (base * n + d) cs else .error .range

/-- Whether underscores stand between digits only; `afterDigit` says whether a digit came last. -/
def isGrouped (afterDigit : Bool) : List Char → Bool
  | [] => true
  | '_' :: c :: cs => afterDigit && c != '_' && isGrouped true cs
  | ['_'] => false
  | _ :: cs => isGrouped true cs

/-- The base that a number names, and its digits; a named base counts as a digit before them. -/
def baseOf (cs : List Char) : Nat × Bool × List Char :=
  match cs with
  | '0' :: c :: d :: ds =>
    if c = 'b' ∨ c = 'B' then (2, true, d :: ds)
    else if c = 'o' ∨ c = 'O' then (8, true, d :: ds)
    else if c = 'x' ∨ c = 'X' then (16, true, d :: ds)
    else (8, true, c :: d :: ds)
  | '0' :: ds => (8, true, ds)
  | ds => (10, false, ds)

def readNatural (cs : List Char) : Except ValueFault Nat :=
  if cs.isEmpty then .error .syntactic
  else do
    let (base, afterDigit, ds) := baseOf cs
    let n ← readDigits base 0 ds
    if isGrouped afterDigit ds then .ok n else .error .syntactic

def readInteger (s : String) : Except ValueFault Word := do
  let (minus, cs) := Text.splitSign s.toList
  let n ← readNatural cs
  match Word.ofInt? (Text.withSign minus n) with
  | some w => .ok w
  | none => .error .range

/-! ### Durations -/

/-- The nanoseconds of a unit. -/
def unit? (name : String) : Option Nat :=
  [("ns", 1), ("us", 1000), ("µs", 1000), ("μs", 1000), ("ms", 1000000), ("s", 1000000000),
    ("m", 60000000000), ("h", 3600000000000)].lookup name

/-- The largest sum of parts, one more than the largest duration. -/
def durationBound : Nat :=
  9223372036854775808

/-- The digits of a fraction that count and how many they are; those that would not fit a word are left out. -/
def fractionDigits (n count : Nat) : List Char → Nat × Nat
  | [] => (n, count)
  | c :: cs =>
    if 922337203685477580 < n ∨ durationBound < 10 * n + (c.toNat - 48) then (n, count)
    else fractionDigits (10 * n + (c.toNat - 48)) (count + 1) cs

/-- The nanoseconds of a fraction of a unit, computed in doubles and cut to a whole number. -/
def fractionOf (unit : Nat) (fraction : List Char) : Nat :=
  let (n, count) := fractionDigits 0 0 fraction
  let (a, b) := Text.roundedQuotient unit (Text.tenTo count)
  let (x, y) := Text.roundedQuotient n 1
  let (p, q) := Text.roundedQuotient (a * x) (b * y)
  p / q

/-- Adds up the parts of a duration. -/
def addParts : Nat → Nat → List Char → Option Nat
  | 0, _, _ => none
  | _ + 1, sum, [] => some sum
  | fuel + 1, sum, cs =>
    let whole := cs.takeWhile Text.isDigit
    let (fraction, rest) := Text.splitFraction (cs.dropWhile Text.isDigit)
    let name := rest.takeWhile fun c => c != '.' && !Text.isDigit c
    let rest := rest.drop name.length
    match unit? (String.ofList name) with
    | none => none
    | some unit =>
      let nanoseconds := Nat.ofDigitChars 10 whole 0 * unit +
        fractionOf unit fraction
      if (whole.isEmpty && fraction.isEmpty) || durationBound < sum + nanoseconds then none
      else addParts fuel (sum + nanoseconds) rest

/-- A duration in nanoseconds. -/
def readDuration (s : String) : Except ValueFault Word :=
  let (minus, cs) := Text.splitSign s.toList
  let total := if cs = ['0'] then some 0 else if cs.isEmpty then none else addParts (cs.length + 1) 0 cs
  match total.bind fun n => Word.ofInt? (Text.withSign minus n) with
  | some w => .ok w
  | none => .error .syntactic

end StackMachine.CommandLine
