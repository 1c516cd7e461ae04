import StackMachine.Opcode
import StackMachine.Text.Blank
import StackMachine.Text.LowerCase
import StackMachine.Text.Quoted

/-!
# Lines of assembler text

A line holds an optional label, closed by a colon, and an optional instruction; a semicolon or a hash
starts a comment. An operand that is not an integer names a label on a branch and a function on a call.
-/

set_option autoImplicit false

namespace StackMachine.Assembly

/-- What can be wrong with a line. -/
inductive Cause where
  | badLabel (label : String)
  | duplicateLabel (label : String)
  | unknownInstruction (word : String)
  | operandCount (op : Opcode) (given : Nat)
  | needsTable (name : String)
  | needsInteger (op : Opcode) (operand : String)
  | unknownLabel (label : String)
  deriving DecidableEq, Repr

def Cause.text : Cause → String
  | badLabel label => "bad label " ++ Text.quoted label
  | duplicateLabel label => "label " ++ Text.quoted label ++ " defined twice"
  | unknownInstruction word => "unknown instruction " ++ Text.quoted word
  | operandCount op given =>
    op.mnemonic ++ " takes " ++ Text.decimal op.operands ++ " operand(s), got " ++ Text.decimal given
  | needsTable name => "call by name " ++ Text.quoted name ++ " needs a function table"
  | needsInteger op operand =>
    op.mnemonic ++ " needs an integer operand, got " ++ Text.quoted operand
  | unknownLabel label => "unknown label " ++ Text.quoted label

/-- A cause with its line, counted from one. -/
structure Error where
  line : Nat
  cause : Cause
  deriving DecidableEq, Repr

def Error.message (e : Error) : String :=
  "asm line " ++ Text.decimal e.line ++ ": " ++ e.cause.text

/-- A line taken apart: the text before its colon, if it has one, and the fields of its instruction. -/
structure Line where
  label : Option String
  fields : List String
  deriving DecidableEq, Repr

def isCommentStart (c : Char) : Bool :=
  c == ';' || c == '#'

def fieldTexts (cs : List Char) : List String :=
  (Text.fields cs).map String.ofList

def Line.ofChars (raw : List Char) : Line :=
  let cs := Text.trim (raw.takeWhile fun c => !isCommentStart c)
  match cs.dropWhile (· != ':') with
  | [] => { label := none, fields := fieldTexts cs }
  | _ :: rest =>
    { label := some (String.ofList (Text.trim (cs.takeWhile (· != ':')))), fields := fieldTexts rest }

/-- A label is not empty and holds no blank and no tab. -/
def isLabel (s : String) : Bool :=
  s != "" && s.toList.all fun c => c != ' ' && c != '\t'

/-- An instruction whose names are not resolved yet. -/
inductive Statement where
  | plain (op : Opcode)
  | literal (op : Opcode) (operand : Word)
  | branch (op : Opcode) (label : String)
  | callByName (function : String)
  deriving DecidableEq, Repr

/-- The number of words a statement is assembled to. -/
def Statement.size : Statement → Nat
  | plain _ => 1
  | literal _ _ | branch _ _ | callByName _ => 2

/-- Reads the one operand of `op`. Calls by name are only possible if there is a table to name. -/
def readOperand (hasTable : Bool) (op : Opcode) (arg : String) : Except Cause Statement :=
  match Word.read? arg.toList with
  | some w => .ok (.literal op w)
  | none =>
    if op.isBranch then .ok (.branch op arg)
    else if op = .call then
      if hasTable then .ok (.callByName arg) else .error (.needsTable arg)
    else .error (.needsInteger op arg)

/-- The statement of a line, if the line has one. Mnemonics are matched in lower case. -/
def readStatement (hasTable : Bool) (fields : List String) : Except Cause (Option Statement) :=
  match fields with
  | [] => .ok none
  | word :: args =>
    match Opcode.ofMnemonic? (Text.lower word) with
    | none => .error (.unknownInstruction word)
    | some op =>
      if args.length ≠ op.operands then .error (.operandCount op args.length)
      else
        match args with
        | [] => .ok (some (.plain op))
        | arg :: _ => (readOperand hasTable op arg).map some

end StackMachine.Assembly
