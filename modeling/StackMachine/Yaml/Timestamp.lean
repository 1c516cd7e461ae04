import StackMachine.Text.Calendar
import StackMachine.Text.Digits

/-!
# YAML timestamps

A date, or a date and a time of day. The time follows a `T` or `t` and ends with an offset from universal
time, or follows blanks and has none. Numbers after the year have one or two digits.
-/

set_option autoImplicit false

namespace StackMachine.Yaml
namespace Timestamp

/-- A number of one digit or two. -/
def short? : List Char → Option (Nat × List Char)
  | a :: b :: cs =>
    if !Text.isDigit a then none
    else if Text.isDigit b then some (10 * (a.toNat - 48) + (b.toNat - 48), cs)
    else some (a.toNat - 48, b :: cs)
  | [a] => if Text.isDigit a then some (a.toNat - 48, []) else none
  | [] => none

/-- A number of exactly two digits. -/
def pair? : List Char → Option (Nat × List Char)
  | a :: b :: cs =>
    if Text.isDigit a && Text.isDigit b then some (10 * (a.toNat - 48) + (b.toNat - 48), cs) else none
  | _ => none

def after? (c : Char) : List Char → Option (List Char)
  | d :: cs => if d = c then some cs else none
  | [] => none

def afterDate? (cs : List Char) : Option (List Char) := do
  let year := cs.takeWhile Text.isDigit
  if year.length ≠ 4 then none
  else
    let (month, cs) ← short? (← after? '-' (cs.drop 4))
    let (day, cs) ← short? (← after? '-' cs)
    if 1 ≤ month ∧ month ≤ 12 ∧ 1 ≤ day ∧ day ≤ Text.daysIn (Nat.ofDigitChars 10 year 0) month then some cs
    else none

/-- Digits after a point or comma are a fraction of a second. -/
def afterFraction (cs : List Char) : List Char :=
  match cs with
  | c :: d :: rest =>
    if (c == '.' || c == ',') && Text.isDigit d then (d :: rest).dropWhile Text.isDigit else cs
  | cs => cs

def afterTime? (cs : List Char) : Option (List Char) := do
  let (hour, cs) ← short? cs
  let (minute, cs) ← short? (← after? ':' cs)
  let (second, cs) ← short? (← after? ':' cs)
  if hour < 24 ∧ minute < 60 ∧ second < 60 then some (afterFraction cs) else none

def isOffset : List Char → Bool
  | ['Z'] => true
  | sign :: cs =>
    (sign == '+' || sign == '-') &&
      match (do
        let (hour, cs) ← pair? cs
        let (minute, cs) ← pair? (← after? ':' cs)
        if hour ≤ 24 ∧ minute ≤ 60 then some cs else none : Option (List Char)) with
      | some [] => true
      | _ => false
  | [] => false

end Timestamp

/-- Whether a text is a timestamp. -/
def isTimestamp (cs : List Char) : Bool :=
  match Timestamp.afterDate? cs with
  | none => false
  | some [] => true
  | some (c :: rest) =>
    if c = 'T' ∨ c = 't' then
      match Timestamp.afterTime? rest with
      | some offset => Timestamp.isOffset offset
      | none => false
    else if c = ' ' then Timestamp.afterTime? (rest.dropWhile (· == ' ')) == some []
    else false

end StackMachine.Yaml
