import StackMachine.Text.Digits
import StackMachine.Yaml.Encoding
import StackMachine.Yaml.Token

/-!
# YAML tags

A tag says what a node is. It is written in full between angle brackets, or as a handle and a suffix, and a
handle stands for the text that a directive gives it.
-/

set_option autoImplicit false

namespace StackMachine.Yaml

/-- What a scalar is said to be; `implicit` leaves it to its text. -/
inductive Tag where
  | implicit
  | null
  | bool
  | int
  | float
  | timestamp
  | str
  | binary
  | merge
  | other
  deriving DecidableEq, Repr

/-- The tag of a full text. -/
def Tag.ofText (text : List Char) : Tag :=
  let long := "tag:yaml.org,2002:".toList
  let short := if long.isPrefixOf text then '!' :: '!' :: text.drop long.length else text
  match String.ofList short with
  | "!" => .implicit
  | "!!null" => .null
  | "!!bool" => .bool
  | "!!int" => .int
  | "!!float" => .float
  | "!!timestamp" => .timestamp
  | "!!str" => .str
  | "!!binary" => .binary
  | "!!merge" => .merge
  | _ => .other

/-- What handles stand for without a directive. -/
def standardHandles : List (String × String) :=
  [("!", "!"), ("!!", "tag:yaml.org,2002:")]

/-- The tag of a handle and a suffix; without a handle the suffix is the full text. -/
def Tag.resolve? (handles : List (String × String)) (handle suffix : String) : Option Tag :=
  if handle = "" then some (.ofText suffix.toList)
  else ((handles ++ standardHandles).lookup handle).map fun lead => .ofText (lead.toList ++ suffix.toList)

/-! ### Text of tags -/

def isNameChar (c : Char) : Bool :=
  c.isAlphanum || c == '_' || c == '-'

def isTagChar (c : Char) : Bool :=
  isNameChar c || ";/?:@&=+$,.%!~*'()[]".toList.contains c

/-- The number of the byte that starts the text as a percent sign and two digits. -/
def octet? : List Char → Option Nat
  | '%' :: a :: b :: _ => do return 16 * (← Text.digitIn? 16 a) + (← Text.digitIn? 16 b)
  | _ => none

/-- Replaces bytes that are written as numbers. `more` is how many bytes still belong to the character;
those of a character outside of ASCII stand for themselves. -/
def unescaped : Nat → Nat → List Char → Option (List Char)
  | 0, _, _ => none
  | fuel + 1, more, cs =>
    match cs with
    | [] => if more = 0 then some [] else none
    | c :: rest =>
      if c = '%' ∨ more ≠ 0 then do
        let n ← octet? cs
        let width := if more ≠ 0 then (if 0x80 ≤ n ∧ n < 0xc0 then more else 0) else utf8Width n
        if width = 0 then none
        else return Char.ofNat n :: (← unescaped fuel (width - 1) (cs.drop 3))
      else (unescaped fuel 0 rest).map (c :: ·)

/-- The run of tag characters at the front, decoded, and its length. -/
def tagRun (cs : List Char) : Option (String × Nat) :=
  let run := cs.takeWhile isTagChar
  (unescaped (run.length + 1) 0 run).map fun text => (String.ofList text, run.length)

/-- A tag: its handle, its suffix and its length. -/
def readTagText (cs : List Char) : Option (String × String × Nat) :=
  match cs with
  | '!' :: '<' :: cs => do
    let (text, width) ← tagRun cs
    if width ≠ 0 ∧ (cs.drop width).head? = some '>' then return ("", text, width + 3) else none
  | '!' :: cs =>
    let name := cs.takeWhile isNameChar
    match cs.drop name.length with
    | '!' :: rest => do
      let (suffix, width) ← tagRun rest
      if width = 0 then none else return (String.ofList ('!' :: name ++ ['!']), suffix, name.length + width + 2)
    | _ => do
      let (suffix, width) ← tagRun cs
      if width = 0 then return ("", "!", 1) else return ("!", suffix, width + 1)
  | _ => none

/-! ### Directives -/

/-- A version number of one or two digits. -/
def versionNumber? (cs : List Char) : Option (Nat × List Char) :=
  let digits := cs.takeWhile Text.isDigit
  if digits.isEmpty || 2 < digits.length then none
  else some (Nat.ofDigitChars 10 digits 0, cs.drop digits.length)

/-- Whether nothing but a comment is left of a line. -/
def endsLine (cs : List Char) : Bool :=
  match cs.dropWhile isBlank with
  | [] => true
  | c :: _ => c == '#'

def versionDirective? (cs : List Char) : Option Token := do
  let (major, cs) ← versionNumber? (cs.dropWhile isBlank)
  match cs with
  | '.' :: cs =>
    let (minor, cs) ← versionNumber? cs
    if endsLine cs then return .version major minor else none
  | _ => none

def tagDirective? (cs : List Char) : Option Token :=
  match cs.dropWhile isBlank with
  | '!' :: cs =>
    let name := cs.takeWhile isNameChar
    let rest := cs.drop name.length
    let closed := rest.head? == some '!'
    let rest := if closed then rest.tail else rest
    if (closed || name.isEmpty) && !rest.isEmpty && atGap rest then do
      let cs := rest.dropWhile isBlank
      let (meaning, width) ← tagRun cs
      if width ≠ 0 ∧ atGap (cs.drop width) ∧ endsLine (cs.drop width) then
        return .tagHandle (String.ofList ('!' :: name ++ (if closed then ['!'] else []))) meaning
      else none
    else none
  | _ => none

/-- The directive on a line that starts with a percent sign. -/
def directive? (line : List Char) : Option Token :=
  let name := (line.drop 1).takeWhile isNameChar
  let rest := line.drop (name.length + 1)
  if !atGap rest then none
  else if name = ['Y', 'A', 'M', 'L'] then versionDirective? rest
  else if name = ['T', 'A', 'G'] then tagDirective? rest
  else none

end StackMachine.Yaml
