import StackMachine.Text.Calendar
import StackMachine.Text.Digits
import StackMachine.Text.Scientific
import StackMachine.Toml.Statement

/-!
# TOML numbers, truth values and dates

What a run of letters, digits and number signs means as a value. Underscores stand between digits only,
decimal integers have no leading zeros, and only integers and floats in the 64-bit ranges are values.
-/

set_option autoImplicit false

namespace StackMachine.Toml

/-- Digits of a base with single underscores between them, as their values. -/
def digitsFrom (base : Nat) : List Char → Option (List Nat)
  | [] => some []
  | ['_'] => none
  | '_' :: c :: cs => do return (← Text.digitIn? base c) :: (← digitsFrom base cs)
  | c :: cs => do return (← Text.digitIn? base c) :: (← digitsFrom base cs)

/-- At least one digit, none of them before an underscore that opens the run. -/
def digits? (base : Nat) (cs : List Char) : Option (List Nat) :=
  match cs with
  | [] => none
  | '_' :: _ => none
  | cs => digitsFrom base cs

/-- Decimal digits without a leading zero. -/
def wholeDigits? (cs : List Char) : Option (List Nat) :=
  match cs with
  | ['0'] => some [0]
  | '0' :: _ => none
  | cs => digits? 10 cs

def integer? (cs : List Char) : Option Int :=
  match cs with
  | '0' :: 'x' :: ds => (digits? 16 ds).map fun ds => Text.valueIn 16 ds
  | '0' :: 'o' :: ds => (digits? 8 ds).map fun ds => Text.valueIn 8 ds
  | '0' :: 'b' :: ds => (digits? 2 ds).map fun ds => Text.valueIn 2 ds
  | cs =>
    let (minus, ds) := Text.splitSign cs
    (wholeDigits? ds).map fun ds => Text.withSign minus (Text.valueIn 10 ds)

def inRange (n : Int) : Bool :=
  -9223372036854775808 ≤ n && n ≤ 9223372036854775807

/-- A float: a whole part and a fraction, an exponent or both. -/
def isFloat (cs : List Char) : Bool :=
  let (_, body) := Text.splitSign cs
  if body = ['i', 'n', 'f'] ∨ body = ['n', 'a', 'n'] then true
  else
    let isMark (c : Char) : Bool := c == 'e' || c == 'E'
    let mantissa := body.takeWhile fun c => !isMark c
    let exponent? : Option Int :=
      match body.dropWhile fun c => !isMark c with
      | [] => some 0
      | _ :: e =>
        let (minus, ds) := Text.splitSign e
        (digits? 10 ds).map fun ds => Text.withSign minus (Text.valueIn 10 ds)
    let whole := mantissa.takeWhile (· != '.')
    let fraction? : Option (List Nat) :=
      match mantissa.dropWhile (· != '.') with
      | [] => some []
      | _ :: f => digits? 10 f
    match wholeDigits? whole, fraction?, exponent? with
    | some ws, some fs, some e =>
      (mantissa.contains '.' || body.any isMark) &&
        Text.Scientific.isFinite { digits := Text.valueIn 10 (ws ++ fs), exponent := e - fs.length }
    | _, _, _ => false

/-- A number of exactly `n` digits. -/
def fixed (n : Nat) (cs : List Char) : Option (Nat × List Char) :=
  if (cs.take n).length = n ∧ (cs.take n).all Text.isDigit then
    some (Nat.ofDigitChars 10 (cs.take n) 0, cs.drop n)
  else none

def expect (c : Char) : List Char → Option (List Char)
  | d :: cs => if d = c then some cs else none
  | [] => none

/-- Reads a calendar date. -/
def afterDate (cs : List Char) : Option (List Char) := do
  let (year, cs) ← fixed 4 cs
  let cs ← expect '-' cs
  let (month, cs) ← fixed 2 cs
  let cs ← expect '-' cs
  let (day, cs) ← fixed 2 cs
  if 1 ≤ month ∧ month ≤ 12 ∧ 1 ≤ day ∧ day ≤ Text.daysIn year month then some cs else none

/-- Reads a time of day; seconds and their fraction may be left out. -/
def afterTime (cs : List Char) : Option (List Char) := do
  let (hour, cs) ← fixed 2 cs
  let cs ← expect ':' cs
  let (minute, cs) ← fixed 2 cs
  if hour < 24 ∧ minute < 60 then
    match cs with
    | ':' :: cs =>
      let (second, cs) ← fixed 2 cs
      if second < 60 then
        match cs with
        | '.' :: fs =>
          if (fs.takeWhile Text.isDigit).isEmpty then none else some (fs.dropWhile Text.isDigit)
        | cs => some cs
      else none
    | cs => some cs
  else none

/-- Whether what follows a time is nothing or an offset from universal time. -/
def isOffset (cs : List Char) : Bool :=
  match cs with
  | [] => true
  | ['Z'] | ['z'] => true
  | c :: cs =>
    if c = '+' ∨ c = '-' then
      match (do
        let (hour, cs) ← fixed 2 cs
        let cs ← expect ':' cs
        let (minute, cs) ← fixed 2 cs
        if hour ≤ 24 ∧ minute ≤ 60 ∧ cs.isEmpty then some () else none : Option Unit) with
      | some _ => true
      | none => false
    else false

/-- A date, a time of day, or both with or without an offset. -/
def isMoment (cs : List Char) : Bool :=
  match afterDate cs with
  | some [] => true
  | some (sep :: rest) =>
    if sep = 'T' ∨ sep = 't' ∨ sep = ' ' then
      match afterTime rest with
      | some offset => isOffset offset
      | none => false
    else false
  | none => afterTime cs == some []

/-- The value a run of characters stands for. -/
def word? (cs : List Char) : Option Expr :=
  if cs = ['t', 'r', 'u', 'e'] then some (.boolean true)
  else if cs = ['f', 'a', 'l', 's', 'e'] then some (.boolean false)
  else
    match integer? cs with
    | some n => if inRange n then some (.integer n) else none
    | none =>
      if isFloat cs then some .float
      else if isMoment cs then some .moment
      else none

end StackMachine.Toml
