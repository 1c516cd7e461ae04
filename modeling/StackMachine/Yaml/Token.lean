/-!
# YAML tokens

The marks and scalars a document is made of. Besides the marks that are written there are those that the
layout stands for: the start and end of a block collection, and the key mark in front of a key without one.
-/

set_option autoImplicit false

namespace StackMachine.Yaml

inductive Token where
  | version (major minor : Nat)
  | tagHandle (handle meaning : String)
  | documentStart
  | documentEnd
  | streamEnd
  | blockSequenceStart
  | blockMappingStart
  | blockEnd
  | flowSequenceStart
  | flowSequenceEnd
  | flowMappingStart
  | flowMappingEnd
  | blockEntry
  | flowEntry
  | key
  | value
  | alias (name : String)
  | anchor (name : String)
  | tag (handle suffix : String)
  | scalar (text : String) (plain : Bool)
  deriving DecidableEq, Repr

def isBlank (c : Char) : Bool :=
  c == ' ' || c == '\t'

def isBreak (c : Char) : Bool :=
  c == '\n' || c == '\u2028' || c == '\u2029'

def isGap (c : Char) : Bool :=
  isBlank c || isBreak c

/-- Whether the text has ended, or goes on with a blank or a line break. -/
def atGap : List Char → Bool
  | [] => true
  | c :: _ => isGap c

/-- Whether the text has ended or is at a line break. -/
def atLineEnd : List Char → Bool
  | [] => true
  | c :: _ => isBreak c

/-- Whether the text starts with a mark between documents. -/
def atDocumentMark : List Char → Bool
  | '-' :: '-' :: '-' :: cs => atGap cs
  | '.' :: '.' :: '.' :: cs => atGap cs
  | _ => false

/-- A place in the text: what follows it and where it is. -/
structure Cursor where
  rest : List Char
  line : Nat := 0
  column : Nat := 0
  index : Nat := 0

namespace Cursor

def next (c : Cursor) : Cursor :=
  match c.rest with
  | [] => c
  | ch :: rest =>
    if isBreak ch then { rest := rest, line := c.line + 1, column := 0, index := c.index + 1 }
    else { rest := rest, line := c.line, column := c.column + 1, index := c.index + 1 }

/-- Passes over a character without a look at what it is. -/
def pass (c : Cursor) : Cursor :=
  { c with rest := c.rest.tail, column := c.column + 1, index := c.index + 1 }

def drop : Nat → Cursor → Cursor
  | 0, c => c
  | n + 1, c => drop n c.next

/-- The end of the text counts as the start of a line. -/
def ended (c : Cursor) : Cursor :=
  if c.column = 0 then c else { c with column := 0, line := c.line + 1 }

def takeWhile (p : Char → Bool) (c : Cursor) : List Char :=
  c.rest.takeWhile p

def dropWhile (p : Char → Bool) (c : Cursor) : Cursor :=
  c.drop (c.rest.takeWhile p).length

def atMark (c : Cursor) : Bool :=
  c.column = 0 && atDocumentMark c.rest

end Cursor
end StackMachine.Yaml
