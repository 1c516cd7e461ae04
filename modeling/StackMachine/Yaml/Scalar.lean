import StackMachine.Text.Digits
import StackMachine.Yaml.Token

/-!
# YAML scalars

Plain, quoted and block scalars. A line break inside a plain or quoted scalar is folded to a blank; of
several, the first is dropped and the others stay.
-/

set_option autoImplicit false

namespace StackMachine.Yaml

/-- What blanks and line breaks between two words stand for. -/
def folded (gap : List Char) : List Char :=
  match gap.filter isBreak with
  | [] => gap
  | ['\n'] => [' ']
  | '\n' :: more => more
  | breaks => breaks

/-! ### Plain scalars -/

def isFlowMark (c : Char) : Bool :=
  c == ',' || c == '?' || c == '[' || c == ']' || c == '\x7b' || c == '\x7d'

/-- The characters of a plain scalar up to the next blank, line break or mark. -/
def plainRun (inFlow : Bool) : List Char → List Char
  | [] => []
  | c :: cs =>
    if isGap c || (c == ':' && atGap cs) || (inFlow && isFlowMark c) then []
    else c :: plainRun inFlow cs

/-- Whether a tab stands where the indentation of a line is expected. -/
def hasTabIndent (indent : Int) (column : Nat) (broken : Bool) : List Char → Bool
  | [] => false
  | c :: cs =>
    if isBreak c then hasTabIndent indent 0 true cs
    else (broken && column < indent && c == '\t') || hasTabIndent indent (column + 1) broken cs

/-- A scalar that was read: its text, the place after it, and whether it ended with a line break. -/
structure Scanned where
  text : List Char
  cursor : Cursor
  broken : Bool := false

/-- The rest of a plain scalar; `done` holds its characters so far, last first, and `gap` is what stands
between them and the cursor. A line that is not indented to `indent` ends the scalar. -/
def readPlain (inFlow : Bool) (indent : Int) : Nat → List Char → List Char → Cursor → Option Scanned
  | 0, _, _, _ => none
  | fuel + 1, done, gap, c =>
    let run := plainRun inFlow c.rest
    if c.atMark || c.rest.head? == some '#' || run.isEmpty then
      some { text := done.reverse, cursor := c, broken := gap.any isBreak }
    else
      let done := run.reverseAux ((folded gap).reverseAux done)
      let c := c.drop run.length
      let gap := c.takeWhile isGap
      let after := c.drop gap.length
      if gap.isEmpty then some { text := done.reverse, cursor := c }
      else if hasTabIndent indent c.column false gap then none
      else if !inFlow && after.column < indent then
        some { text := done.reverse, cursor := after, broken := gap.any isBreak }
      else readPlain inFlow indent fuel done gap after

/-! ### Quoted scalars -/

/-- The character an escape stands for and how many characters the escape has after its backslash. -/
def escape? (cs : List Char) : Option (Char × Nat) :=
  let numbered (width : Nat) (cs : List Char) : Option (Char × Nat) :=
    if (cs.take width).length = width then (Text.codePoint? (cs.take width)).map (·, width + 1) else none
  match cs with
  | '0' :: _ => some ('\x00', 1)
  | 'a' :: _ => some ('\x07', 1)
  | 'b' :: _ => some ('\x08', 1)
  | 't' :: _ => some ('\t', 1)
  | '\t' :: _ => some ('\t', 1)
  | 'n' :: _ => some ('\n', 1)
  | 'v' :: _ => some ('\x0b', 1)
  | 'f' :: _ => some ('\x0c', 1)
  | 'r' :: _ => some ('\r', 1)
  | 'e' :: _ => some ('\x1b', 1)
  | ' ' :: _ => some (' ', 1)
  | '"' :: _ => some ('"', 1)
  | '\'' :: _ => some ('\'', 1)
  | '\\' :: _ => some ('\\', 1)
  | 'N' :: _ => some ('\u0085', 1)
  | '_' :: _ => some ('\u00a0', 1)
  | 'L' :: _ => some ('\u2028', 1)
  | 'P' :: _ => some ('\u2029', 1)
  | 'x' :: cs => numbered 2 cs
  | 'u' :: cs => numbered 4 cs
  | 'U' :: cs => numbered 8 cs
  | _ => none

/-- The rest of a quoted scalar; `done` holds its characters so far, last first. A backslash before a line
break joins the lines without a blank. -/
def readQuoted (single : Bool) : Nat → List Char → Cursor → Option Scanned
  | 0, _, _ => none
  | fuel + 1, done, c =>
    if c.atMark then none
    else
      match c.rest with
      | [] => none
      | ch :: cs =>
        if isGap ch then
          let gap := c.takeWhile isGap
          readQuoted single fuel ((folded gap).reverseAux done) (c.drop gap.length)
        else if single && ch == '\'' then
          if cs.head? == some '\'' then readQuoted single fuel ('\'' :: done) (c.drop 2)
          else some { text := done.reverse, cursor := c.next }
        else if !single && ch == '"' then some { text := done.reverse, cursor := c.next }
        else if !single && ch == '\\' then
          if !cs.isEmpty && atLineEnd cs then
            let gap := (c.drop 2).takeWhile isGap
            readQuoted single fuel ((gap.filter isBreak).reverseAux done) (c.drop (2 + gap.length))
          else do
            let (e, width) ← escape? cs
            readQuoted single fuel (e :: done) (c.drop (1 + width))
        else readQuoted single fuel (ch :: done) c.next

/-! ### Block scalars -/

/-- What becomes of the line breaks at the end of a block scalar. -/
inductive Chomping where
  | strip
  | clip
  | keep
  deriving DecidableEq, Repr

structure BlockHeader where
  chomping : Chomping := .clip
  increment : Nat := 0

def chomping? : List Char → Option Chomping
  | '+' :: _ => some .keep
  | '-' :: _ => some .strip
  | _ => none

def increment? : List Char → Option Nat
  | c :: _ => if '0' ≤ c ∧ c ≤ '9' then some (c.toNat - 48) else none
  | [] => none

/-- The indicators after the mark of a block scalar, in either order, and how many there are. -/
def blockHeader (cs : List Char) : BlockHeader × Nat :=
  match chomping? cs, increment? cs with
  | some ch, _ =>
    match increment? (cs.drop 1) with
    | some n => ({ chomping := ch, increment := n }, 2)
    | none => ({ chomping := ch }, 1)
  | none, some n =>
    match chomping? (cs.drop 1) with
    | some ch => ({ chomping := ch, increment := n }, 2)
    | none => ({ increment := n }, 1)
  | none, none => ({}, 0)

/-- Skips indentation and empty lines: the line breaks, the widest indentation seen, and the place after
them. An `indent` of zero is not known yet. -/
def blockGap (indent : Nat) : Nat → List Char → Nat → Cursor → Option (List Char × Nat × Cursor)
  | 0, _, _, _ => none
  | fuel + 1, breaks, widest, c =>
    let blanks := (c.takeWhile (· == ' ')).length
    let c := c.drop (if indent = 0 then blanks else min blanks (indent - c.column))
    let widest := max widest c.column
    match c.rest with
    | [] => some (breaks, widest, c)
    | ch :: _ =>
      if (indent = 0 || c.column < indent) && ch == '\t' then none
      else if isBreak ch then blockGap indent fuel (breaks ++ [ch]) widest c.next
      else some (breaks, widest, c)

/-- The lines of a block scalar; `done` holds the characters so far, last first, `lead` is the break that
ended the line before, `breaks` those of empty lines after it, `spaced` whether that line began with a
blank. -/
def blockLines (literal : Bool) (chomping : Chomping) (indent : Nat) :
    Nat → List Char → List Char → List Char → Bool → Cursor → Option Scanned
  | 0, _, _, _, _, _ => none
  | fuel + 1, done, lead, breaks, spaced, c =>
    if c.column ≠ indent ∨ c.rest.isEmpty then
      some {
        text := done.reverse ++ (if chomping = .strip then [] else lead) ++
          (if chomping = .keep then breaks else [])
        cursor := c }
    else
      let blank := match c.rest with
        | ch :: _ => isBlank ch
        | [] => false
      let joint :=
        if !literal && !spaced && !blank && lead.head? == some '\n' then
          (if breaks.isEmpty then [' '] else [])
        else lead
      let line := c.takeWhile fun ch => !isBreak ch
      let c := c.drop line.length
      match blockGap indent fuel [] 0 c.next with
      | none => none
      | some (breaks', _, after) =>
        blockLines literal chomping indent fuel (line.reverseAux (breaks.reverseAux (joint.reverseAux done)))
          (c.rest.take 1) breaks' blank after

/-- A block scalar, the cursor after its mark; `parent` is the indentation around it and `fuel` exceeds the
length of the text. -/
def readBlock (literal : Bool) (parent : Int) (fuel : Nat) (c : Cursor) : Option Scanned := do
  let (header, width) := blockHeader c.rest
  if increment? c.rest = some 0 ∨ increment? (c.rest.drop 1) = some 0 ∧ width = 2 then none
  else
    let c := (c.drop width).dropWhile isBlank
    let c := if c.rest.head? == some '#' then c.dropWhile fun ch => !isBreak ch else c
    if atLineEnd c.rest then
      let c := c.next
      let fixed := if header.increment = 0 then 0 else (max parent 0).toNat + header.increment
      let (breaks, widest, c) ← blockGap fixed fuel [] 0 c
      let indent := if fixed = 0 then max (max widest (parent + 1).toNat) 1 else fixed
      blockLines literal header.chomping indent fuel [] [] breaks false c
    else none

end StackMachine.Yaml
