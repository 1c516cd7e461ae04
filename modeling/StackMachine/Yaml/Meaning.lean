import StackMachine.Text.Base64
import StackMachine.Text.Digits
import StackMachine.Text.Scientific
import StackMachine.Word
import StackMachine.Yaml.Tag
import StackMachine.Yaml.Timestamp

/-!
# What YAML scalars stand for

The text of a scalar may stand for nothing, a truth value, a number or a timestamp. Whole numbers are in base
ten, sixteen, eight or two. A tag on the scalar has to agree with its text.
-/

set_option autoImplicit false

namespace StackMachine.Yaml

/-- What a text stands for. Of a float, only the word that it is cut to is of interest. -/
inductive Meaning where
  | null
  | bool
  | integer (n : Int)
  | float (word : Option Word)
  | timestamp
  | text
  deriving DecidableEq

/-! ### Whole numbers -/

/-- A whole number without a sign: `0x`, `0o` and `0b` name a base, as does a leading zero. -/
def natural? (cs : List Char) : Option Nat :=
  match cs with
  | ['0'] => some 0
  | '0' :: c :: ds =>
    if c = 'x' ∨ c = 'X' then Text.natIn? 16 ds
    else if c = 'o' ∨ c = 'O' then Text.natIn? 8 ds
    else if c = 'b' ∨ c = 'B' then Text.natIn? 2 ds
    else Text.natIn? 8 (c :: ds)
  | ds => Text.natIn? 10 ds

/-- Numbers with a sign are in the range of signed words, those without in either range. -/
def integerBy? (natural : List Char → Option Nat) (cs : List Char) : Option Int := do
  let (minus, ds) := Text.splitSign cs
  let n ← natural ds
  let z := Text.withSign minus n
  let bound : Int := if ds.length = cs.length then 18446744073709551615 else 9223372036854775807
  if -9223372036854775808 ≤ z ∧ z ≤ bound then some z else none

/-- After `0b` and `0o` a sign may stand. -/
def basedInteger? : List Char → Option Int
  | '0' :: 'b' :: cs => integerBy? (Text.natIn? 2) cs
  | '0' :: 'o' :: cs => integerBy? (Text.natIn? 8) cs
  | _ => none

/-! ### Decimal numbers -/

/-- The exponent that ends a number, zero if there is none. -/
def exponent? : List Char → Option Int
  | [] => some 0
  | c :: cs =>
    if c = 'e' ∨ c = 'E' then
      (Text.natIn? 10 (Text.splitSign cs).2).map (Text.withSign (Text.splitSign cs).1)
    else none

/-- A decimal number: digits with a point before, between or after them, and an exponent. -/
def scientific? (cs : List Char) : Option Text.Scientific := do
  let (minus, body) := Text.splitSign cs
  let whole := body.takeWhile Text.isDigit
  let (fraction, rest) := Text.splitFraction (body.dropWhile Text.isDigit)
  let exponent ← exponent? rest
  if whole.isEmpty && fraction.isEmpty then none
  else
    return {
      minus := minus
      digits := Nat.ofDigitChars 10 (whole ++ fraction) 0
      exponent := exponent - fraction.length }

/-- A whole number in the range of doubles as a word. One that is too small, or too large by one, becomes the
least word. -/
def wordOfWhole? (n : Int) : Option Word :=
  if n < -9223372036854775808 ∨ n = 9223372036854775808 then some Int64.minValue else Word.ofInt? n

def floatMeaning (cs : List Char) : Option Meaning := do
  let x ← scientific? cs
  if x.isFinite then return .float (wordOfWhole? x.truncated) else none

/-- Whether underscores stand only between two digits; `digit` says whether one comes before. -/
def dividesDigits (digit : Bool) : List Char → Bool
  | [] => true
  | '_' :: cs =>
    digit && (match cs with
      | c :: _ => Text.isDigit c
      | [] => false) && dividesDigits false cs
  | c :: cs => dividesDigits (Text.isDigit c) cs

/-! ### Meanings -/

def numberMeaning (cs : List Char) : Meaning :=
  let plain := cs.filter (· != '_')
  match integerBy? natural? plain with
  | some n => .integer n
  | none =>
    match floatMeaning plain with
    | some m => m
    | none =>
      match basedInteger? plain with
      | some n => .integer n
      | none => .text

/-- Words with a meaning of their own. -/
def namedMeaning : List (String × Meaning) :=
  ["", "~", "null", "Null", "NULL"].map (·, .null) ++
    ["true", "True", "TRUE", "false", "False", "FALSE"].map (·, .bool) ++
    [".nan", ".NaN", ".NAN", ".inf", ".Inf", ".INF", "+.inf", "+.Inf", "+.INF"].map (·, .float none) ++
    ["-.inf", "-.Inf", "-.INF"].map (·, .float (some Int64.minValue))

/-- What a text stands for; without `dates`, a timestamp is text. -/
def meaningOf (dates : Bool) (text : String) : Meaning :=
  match namedMeaning.lookup text with
  | some m => m
  | none =>
    match text.toList with
    | [] => .null
    | c :: cs =>
      if c = '.' then
        if dividesDigits false cs then (floatMeaning ((c :: cs).filter (· != '_'))).getD .text else .text
      else if c = '+' ∨ c = '-' ∨ Text.isDigit c then
        if dates && isTimestamp (c :: cs) then .timestamp else numberMeaning (c :: cs)
      else .text

/-- What a scalar with a tag stands for, if its text agrees. A whole number is a float too. -/
def meaning? (tag : Tag) (text : String) : Option Meaning :=
  match tag with
  | .implicit => some (meaningOf true text)
  | .null => if meaningOf false text = .null then some .null else none
  | .bool => if meaningOf false text = .bool then some .bool else none
  | .timestamp => if meaningOf true text = .timestamp then some .timestamp else none
  | .int =>
    match meaningOf false text with
    | .integer n => some (.integer n)
    | _ => none
  | .float =>
    match meaningOf false text with
    | .float w => some (.float w)
    | .integer n => if n ≤ 9223372036854775807 then some (.float (wordOfWhole? (Text.nearestDouble n))) else none
    | _ => none
  | .str | .binary | .merge | .other => some .text

/-- What a field can take from a scalar: nothing, or a text that may be a number. -/
inductive Content where
  | nothing
  | text (s : String) (word : Option Word)

def content? (tag : Tag) (text : String) : Option Content := do
  match ← meaning? tag text with
  | .null => return .nothing
  | .integer n => return .text text (Word.ofInt? n)
  | .float w => return .text text w
  | .bool | .timestamp => return .text text none
  | .text =>
    if tag = .binary then return .text (← Text.Base64.decode? text).shownText none
    else return .text text none

end StackMachine.Yaml
