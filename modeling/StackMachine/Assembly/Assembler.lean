import StackMachine.Assembly.Line
import StackMachine.Emitter
import StackMachine.FunctionTable.Builder

/-!
# The assembler

Code is emitted in one pass. A branch to a label that is not known yet gets a placeholder, which is filled
in when the label turns up. Functions that calls name get their ids from a table builder; ids handed out
before an error stay handed out.
-/

set_option autoImplicit false

namespace StackMachine.Assembly

/-- A branch whose label has not been seen: the label, its placeholder and its line. -/
structure Pending where
  label : String
  placeholder : Nat
  line : Nat
  deriving DecidableEq, Repr

/-- The error if the label is never seen. -/
def Pending.error (p : Pending) : Error where
  line := p.line
  cause := .unknownLabel p.label

structure Assembler where
  emitter : Emitter := {}
  /-- Labels in order of definition. -/
  labels : List (String × Nat) := []
  /-- Unresolved branches in order of appearance. -/
  pending : List Pending := []
  builder : Option TableBuilder := none
  deriving DecidableEq, Repr

namespace Assembler

def address? (a : Assembler) (label : String) : Option Nat :=
  a.labels.lookup label

/-- Gives a new label the current offset and resolves the branches that wait for it. -/
def bind (a : Assembler) (label : String) : Assembler :=
  let here := Int64.ofNat a.emitter.offset
  let fill (code : Array Word) (p : Pending) : Array Word :=
    if p.label = label then code.setIfInBounds p.placeholder here else code
  { a with
    emitter := { code := a.pending.foldl fill a.emitter.code }
    labels := a.labels ++ [(label, a.emitter.offset)]
    pending := a.pending.filter fun p => p.label ≠ label }

def defineLabel (a : Assembler) (label : String) : Except Cause Assembler :=
  if !isLabel label then .error (.badLabel label)
  else if (a.address? label).isSome then .error (.duplicateLabel label)
  else .ok (a.bind label)

def emit (a : Assembler) (op : Opcode) (operands : List Word) : Assembler :=
  { a with emitter := (a.emitter.emit op.word operands).2 }

/-- Appends the words of a statement found on line `line`. -/
def append (a : Assembler) (line : Nat) : Statement → Assembler
  | .plain op => a.emit op []
  | .literal op w => a.emit op [w]
  | .branch op label =>
    match a.address? label with
    | some addr => a.emit op [Int64.ofNat addr]
    | none =>
      let (placeholder, emitter) := a.emitter.emitBranch op.word
      { a with
        emitter := emitter
        pending := a.pending ++ [{ label := label, placeholder := placeholder, line := line }] }
  | .callByName name =>
    match a.builder with
    | none => a
    | some b =>
      let (id, b) := b.idOf name
      { a.emit .call [Int64.ofNat id] with builder := some b }

def labelled (a : Assembler) : Option String → Except Cause Assembler
  | none => .ok a
  | some label => a.defineLabel label

def instruction (a : Assembler) (number : Nat) (fields : List String) : Except Cause Assembler :=
  match readStatement a.builder.isSome fields with
  | .error cause => .error cause
  | .ok none => .ok a
  | .ok (some s) => .ok (a.append number s)

def line (a : Assembler) (number : Nat) (l : Line) : Except Cause Assembler := do
  let a ← a.labelled l.label
  a.instruction number l.fields

/-- Assembles lines, the first of which has the given number, up to the first error. -/
def lines (a : Assembler) (number : Nat) : List Line → Assembler × Option Error
  | [] => (a, none)
  | l :: rest =>
    match a.line number l with
    | .error cause => (a, some { line := number, cause := cause })
    | .ok a => a.lines (number + 1) rest

/-- The branch on the smallest line; of several on one line the one that is met first. -/
def earliest (ps : List Pending) : Option Pending :=
  ps.foldl (fun first p =>
    match first with
    | none => some p
    | some q => some (if p.line < q.line then p else q)) none

/-- The error for the branches left without a label, which are looked through in some order. -/
def unresolved? (a : Assembler) (order : List Pending → List Pending) : Option Error :=
  (earliest (order a.pending)).map Pending.error

end Assembler

/-- Assembled code with the addresses of its labels. -/
structure Assembled where
  code : Array Word
  labels : List (String × Nat)
  deriving DecidableEq, Repr

def sourceLines (source : String) : List Line :=
  (Text.splitAt '\n' source.toList).map Line.ofChars

/-- Assembles source text, looking through the branches left at the end in the given order. The builder, if one is
given, comes back with the names that calls mentioned. -/
def assembleIn (order : List Pending → List Pending) (source : String) (builder : Option TableBuilder) :
    Except Error Assembled × Option TableBuilder :=
  let (a, error) := Assembler.lines { builder := builder } 1 (sourceLines source)
  match error.or (a.unresolved? order) with
  | some e => (.error e, a.builder)
  | none => (.ok { code := a.emitter.code, labels := a.labels }, a.builder)

/-- Assembles source text; the order of the branches left at the end is that of their appearance. -/
def assemble (source : String) (builder : Option TableBuilder) :
    Except Error Assembled × Option TableBuilder :=
  assembleIn id source builder

end StackMachine.Assembly
