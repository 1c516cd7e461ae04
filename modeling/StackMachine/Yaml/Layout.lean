import StackMachine.Yaml.Scalar
import StackMachine.Yaml.Tag

/-!
# From text to YAML tokens

One state reads the text token by token into a queue. It keeps the columns of the open block collections,
and for every level of flow collections the token that may still turn out to be a key. When a colon follows
such a token on its line, the marks of the key are put in front of it. Tokens are read three ahead, and
further as long as the first of the queue may be a key; so marks of a key whose token has left the queue
come too late and go to its end.
-/

set_option autoImplicit false

namespace StackMachine.Yaml

/-- A token that may be a key, if `possible`: its number, its place, and whether its column allows nothing
else. Until a level has one, `number` is that of the mark that opened the level. While the token is
`watched`, the queue goes on past it. -/
structure Candidate where
  number : Nat
  possible : Bool := false
  required : Bool := false
  watched : Bool := false
  line : Nat := 0
  column : Nat := 0
  index : Nat := 0

/-- `queue` holds the tokens that were read and not `taken`. `columns` are the open block collections,
innermost first. `candidate` belongs to the innermost flow collection and `outer` to those around it. `size`
exceeds the length of the text. -/
structure Layout where
  cursor : Cursor
  complete : Bool
  marked : Nat
  size : Nat
  taken : Nat := 0
  queue : List Token := []
  columns : List Nat := []
  candidate : Candidate := { number := 0 }
  outer : List Candidate := []
  keyAllowed : Bool := true

/-- How many collections may be open at a time, of either kind. -/
def maxDepth : Nat :=
  10000

namespace Layout

def inFlow (l : Layout) : Bool :=
  !l.outer.isEmpty

/-- The column of the innermost block collection, `-1` outside of all. -/
def indent (l : Layout) : Int :=
  match l.columns with
  | [] => -1
  | column :: _ => column

/-- The number of the next token to be read. -/
def nextNumber (l : Layout) : Nat :=
  l.taken + l.queue.length

def push (l : Layout) (t : Token) : Layout :=
  { l with queue := l.queue ++ [t] }

/-- Puts a token in front of the one with the given number, or last if that one was taken. -/
def insert (l : Layout) (number : Nat) (t : Token) : Layout :=
  if number < l.taken then l.push t
  else
    let place := number - l.taken
    { l with queue := l.queue.take place ++ t :: l.queue.drop place }

/-- Reads a mark of `width` characters. -/
def mark (l : Layout) (t : Token) (width : Nat) : Layout :=
  { l.push t with cursor := l.cursor.drop width }

/-! ### Blanks and comments -/

/-- Skips a comment and the comments on the lines below it. -/
def skipComments : Nat → Cursor → Cursor
  | 0, c => c
  | fuel + 1, c =>
    let c := c.dropWhile fun ch => !isBreak ch
    let after := c.dropWhile isGap
    if after.rest.head? == some '#' then skipComments fuel after else c

/-- Skips blanks, comments and line breaks. A tab may not start a line where a key could stand. In a block
that starts with a mark of byte order, the first character of a line is passed over, whatever it is. -/
def skipGap : Nat → Layout → Layout
  | 0, l => l
  | fuel + 1, l =>
    let c := l.cursor
    let c := if c.column = 0 ∧ c.index < l.marked then c.pass else c
    let c := c.dropWhile fun ch => ch == ' ' || ((l.inFlow || !l.keyAllowed) && ch == '\t')
    let c := if c.rest.head? == some '#' then skipComments l.size c else c
    match c.rest with
    | [] => { l with cursor := c }
    | ch :: _ =>
      if isBreak ch then
        skipGap fuel { l with cursor := c.next, keyAllowed := l.keyAllowed || !l.inFlow }
      else { l with cursor := c }

/-- Skips a comment on the line of the token just read. -/
def skipLineComment (l : Layout) : Layout :=
  let c := l.cursor.dropWhile isBlank
  if c.rest.head? == some '#' then { l with cursor := c.dropWhile fun ch => !isBreak ch } else l

/-! ### Indentation -/

/-- The block collections to the right of a column and those that stay open. -/
def splitColumns (column : Int) (columns : List Nat) : List Nat × List Nat :=
  columns.span fun c => column < c

/-- Closes the block collections to the right of a column. -/
def unroll (l : Layout) (column : Int) : Layout :=
  if l.inFlow then l
  else
    let (closed, columns) := splitColumns column l.columns
    { l with columns := columns, queue := l.queue ++ closed.map fun _ => .blockEnd }

/-- Opens a block collection at a column, if it is the innermost one, in front of the token with the given
number. -/
def roll (l : Layout) (column number : Nat) (start : Token) : Option Layout :=
  if !l.inFlow && l.indent < column then
    if maxDepth ≤ l.columns.length then none
    else some { l.insert number start with columns := column :: l.columns }
  else some l

def rollHere (l : Layout) (start : Token) : Option Layout :=
  l.roll l.cursor.column l.nextNumber start

/-! ### Keys -/

/-- Gives up the candidate; a token that had to be a key is an error. -/
def dropCandidate (l : Layout) : Option Layout :=
  let k := l.candidate
  if !k.possible then some l
  else if k.required then none
  else some { l with candidate := { k with possible := false, watched := false } }

/-- The token at the cursor may be a key. -/
def noteCandidate (l : Layout) : Option Layout :=
  if l.keyAllowed then do
    let k : Candidate := {
      number := l.nextNumber
      possible := true
      required := !l.inFlow && l.indent = l.cursor.column
      watched := true
      line := l.cursor.line
      column := l.cursor.column
      index := l.cursor.index }
    let l ← l.dropCandidate
    return { l with candidate := k }
  else some l

/-- A key ends on its own line, at most 1024 characters after its start. -/
def isNear (l : Layout) (k : Candidate) : Bool :=
  l.cursor.line ≤ k.line && l.cursor.index ≤ k.index + 1024

/-! ### Tokens -/

def readValueMark (l : Layout) : Option Layout :=
  let k := l.candidate
  if k.possible && l.isNear k then do
    let l ← (l.insert k.number .key).roll k.column k.number .blockMappingStart
    return { l.mark .value 1 with
      candidate := { k with possible := false, watched := false }, keyAllowed := false }
  else if k.possible && k.required then none
  else if l.inFlow then
    some { l.mark .value 1 with candidate := { k with possible := false }, keyAllowed := false }
  else if l.keyAllowed then do
    let l ← l.rollHere .blockMappingStart
    return { l.mark .value 1 with candidate := { k with possible := false }, keyAllowed := true }
  else none

def readKeyMark (l : Layout) : Option Layout :=
  if l.inFlow then do
    let l ← l.dropCandidate
    return { l.mark .key 1 with keyAllowed := false }
  else if l.keyAllowed then do
    let l ← (← l.rollHere .blockMappingStart).dropCandidate
    return { l.mark .key 1 with keyAllowed := true }
  else none

def readEntryMark (l : Layout) : Option Layout :=
  if l.inFlow || l.keyAllowed then do
    let l ← (← l.rollHere .blockSequenceStart).dropCandidate
    return { l.mark .blockEntry 1 with keyAllowed := true }
  else none

def openFlow (l : Layout) (start : Token) : Option Layout := do
  let l ← l.noteCandidate
  if maxDepth ≤ l.outer.length then none
  else
    return { l.mark start 1 with
      candidate := { number := l.nextNumber }, outer := l.candidate :: l.outer, keyAllowed := true }

/-- Closes a flow collection. If it held no candidate, its opening mark is watched no more. -/
def closeFlow (l : Layout) (close : Token) : Option Layout := do
  let l ← l.dropCandidate
  let l := { l.mark close 1 with keyAllowed := false }
  match l.outer with
  | [] => return l
  | k :: outer =>
    return { l with
      candidate := if k.number = l.candidate.number then { k with watched := false } else k
      outer := outer }

def readFlowEntry (l : Layout) : Option Layout := do
  let l ← l.dropCandidate
  return { l.mark .flowEntry 1 with keyAllowed := true }

def readDocumentMark (l : Layout) (t : Token) : Option Layout := do
  let l ← (l.unroll (-1)).dropCandidate
  return { l.mark t 3 with keyAllowed := false }

/-- An anchor or an alias. -/
def readName (l : Layout) (token : String → Token) : Option Layout := do
  let l ← l.noteCandidate
  let c := l.cursor.next
  let name := c.takeWhile isNameChar
  let after := c.drop name.length
  let closed := match after.rest with
    | [] => true
    | ch :: _ => isGap ch || "?:,]\x7d%@`".toList.contains ch
  if name.isEmpty || !closed then none
  else return { l.push (token (String.ofList name)) with cursor := after, keyAllowed := false }

def readTag (l : Layout) : Option Layout := do
  let l ← l.noteCandidate
  let (handle, suffix, width) ← readTagText l.cursor.rest
  let l := { l.mark (.tag handle suffix) width with keyAllowed := false }
  if atGap l.cursor.rest then return l else none

/-- A directive takes its whole line. -/
def readDirective (l : Layout) : Option Layout := do
  let l ← (l.unroll (-1)).dropCandidate
  let line := l.cursor.takeWhile fun ch => !isBreak ch
  return { l.push (← directive? line) with
    cursor := (l.cursor.drop line.length).next, keyAllowed := false }

def readQuotedScalar (l : Layout) (single : Bool) : Option Layout := do
  let l ← l.noteCandidate
  let s ← readQuoted single l.size [] l.cursor.next
  return { l.push (.scalar (String.ofList s.text) false) with cursor := s.cursor, keyAllowed := false }

def readBlockScalar (l : Layout) (literal : Bool) : Option Layout := do
  let l ← l.dropCandidate
  let s ← readBlock literal l.indent l.size l.cursor.next
  return { l.push (.scalar (String.ofList s.text) false) with cursor := s.cursor, keyAllowed := true }

def readPlainScalar (l : Layout) : Option Layout := do
  let l ← l.noteCandidate
  let s ← readPlain l.inFlow (l.indent + 1) l.size [] [] l.cursor
  return { l.push (.scalar (String.ofList s.text) true) with cursor := s.cursor, keyAllowed := s.broken }

def isIndicator (c : Char) : Bool :=
  "-?:,[]\x7b\x7d#&*!|>'\"%@`".toList.contains c

/-- Reads the token at the cursor. -/
def readToken (l : Layout) : Option Layout :=
  match l.cursor.rest with
  | [] => none
  | c :: cs =>
    if c = '[' then l.openFlow .flowSequenceStart
    else if c = '\x7b' then l.openFlow .flowMappingStart
    else if c = ']' then l.closeFlow .flowSequenceEnd
    else if c = '\x7d' then l.closeFlow .flowMappingEnd
    else if c = ',' then l.readFlowEntry
    else if c = '-' ∧ atGap cs then l.readEntryMark
    else if c = '?' ∧ (l.inFlow ∨ atGap cs) then l.readKeyMark
    else if c = ':' ∧ (l.inFlow ∨ atGap cs) then l.readValueMark
    else if c = '*' then l.readName .alias
    else if c = '&' then l.readName .anchor
    else if c = '!' then l.readTag
    else if c = '|' ∧ !l.inFlow then l.readBlockScalar true
    else if c = '>' ∧ !l.inFlow then l.readBlockScalar false
    else if c = '\'' then l.readQuotedScalar true
    else if c = '"' then l.readQuotedScalar false
    else if !(isGap c || isIndicator c) || c = '-' || (!l.inFlow && (c = '?' || c = ':')) then
      l.readPlainScalar
    else none

/-- Whether so many characters can be looked at, or the text ends before them. -/
def canSee (l : Layout) (n : Nat) : Bool :=
  l.complete || !(l.cursor.rest.drop (n - 1)).isEmpty

/-- Reads the next token into the queue. At the end of the text there is always one more end mark. -/
def fetch (l : Layout) : Option Layout := do
  let l := skipGap l.size l
  let l := l.unroll l.cursor.column
  if !l.canSee 4 then none
  else if l.cursor.rest.isEmpty then
    let l ← (l.unroll (-1)).dropCandidate
    return { l.push .streamEnd with cursor := l.cursor.ended, keyAllowed := false }
  else if l.cursor.column = 0 ∧ l.cursor.rest.head? = some '%' then l.readDirective
  else if l.cursor.atMark then
    if l.cursor.rest.head? = some '-' then l.readDocumentMark .documentStart
    else l.readDocumentMark .documentEnd
  else
    let l ← l.readToken
    let l := if l.queue.getLast? = some .blockEntry then l else l.skipLineComment
    if l.canSee 2 then return l else none

/-- The candidate that is the first token of the queue. -/
def headCandidate (l : Layout) : Option Candidate :=
  (l.candidate :: l.outer).find? fun k => k.watched && k.number == l.taken

/-- Reads ahead as far as the first token of the queue needs. -/
def lookAhead : Nat → Layout → Option Layout
  | 0, _ => none
  | fuel + 1, l =>
    match l.queue with
    | _ :: _ :: _ :: _ =>
      match l.headCandidate with
      | none => some l
      | some k =>
        if k.possible && l.isNear k then l.fetch.bind (lookAhead fuel)
        else if k.possible && k.required then none
        else some l
    | _ => l.fetch.bind (lookAhead fuel)

/-- The first token that was not taken. -/
def peek (l : Layout) : Option (Token × Layout) := do
  let l ← lookAhead (l.size + 4) l
  return (← l.queue.head?, l)

def take (l : Layout) : Layout :=
  { l with taken := l.taken + 1, queue := l.queue.tail }

end Layout

def Stream.layout (s : Stream) : Layout :=
  { cursor := { rest := s.chars }, complete := s.complete, marked := s.marked, size := s.chars.length + 2 }

end StackMachine.Yaml
