import StackMachine.Cbor.Item

/-!
# Reading CBOR

A byte string is read as one item with nothing after it. Every form of a head and indefinite lengths are
taken. Containers nest at most thirty-two deep, a tag directly inside a tag counting as a level, and hold at
most 131072 elements or pairs.
-/

set_option autoImplicit false

namespace StackMachine.Cbor

def maxLevels : Nat := 32

def maxElements : Nat := 131072

/-- The first byte of an item in parts, and the argument; `argument = none` for an indefinite length. -/
structure Head where
  major : Nat
  info : Nat
  argument : Option Nat
  deriving DecidableEq, Repr

abbrev Reader (α : Type) := Bytes → Option (α × Bytes)

def takeBytes (n : Nat) : Reader Bytes := fun bs =>
  if n ≤ bs.length then some (bs.take n, bs.drop n) else none

def takeNumber (width : Nat) : Reader Nat := fun bs =>
  (takeBytes width bs).map fun (b, rest) => (b.number, rest)

/-- The argument of a head with the given additional information. -/
def readArgument (info : Nat) : Reader (Option Nat) := fun bs =>
  let wide (width : Nat) : Option (Option Nat × Bytes) :=
    (takeNumber width bs).map fun (n, rest) => (some n, rest)
  if info < 24 then some (some info, bs)
  else
    match info with
    | 24 => wide 1
    | 25 => wide 2
    | 26 => wide 4
    | 27 => wide 8
    | 31 => some (none, bs)
    | _ => none

/-- Only strings, arrays and maps have an indefinite length, and a simple value below 32 has no second byte. -/
def readHead : Reader Head := fun bs =>
  match bs with
  | [] => none
  | b :: rest =>
    let major := b.toNat / 32
    let info := b.toNat % 32
    match readArgument info rest with
    | none => none
    | some (none, rest) =>
      if major = 2 ∨ major = 3 ∨ major = 4 ∨ major = 5 then some (⟨major, info, none⟩, rest) else none
    | some (some n, rest) =>
      if major = 7 ∧ info = 24 ∧ n < 32 then none else some (⟨major, info, some n⟩, rest)

def breakByte : UInt8 := 0xff

/-- Definite strings of one major type up to a break. -/
def readChunks (major : Nat) : Nat → Reader (List Bytes)
  | 0, _ => none
  | fuel + 1, bs =>
    match bs with
    | [] => none
    | b :: rest =>
      if b = breakByte then some ([], rest)
      else do
        let (h, rest) ← readHead bs
        let n ← h.argument
        if h.major ≠ major then none
        else
          let (chunk, rest) ← takeBytes n rest
          let (chunks, rest) ← readChunks major fuel rest
          return (chunk :: chunks, rest)

/-- A string of one major type, in chunks. -/
def readString (h : Head) : Reader (List Bytes) := fun bs =>
  match h.argument with
  | some n => (takeBytes n bs).map fun (b, rest) => ([b], rest)
  | none => readChunks h.major (bs.length + 1) bs

/-- Exactly `n` items; `done` holds the earlier ones, last first. -/
def readMany (p : Reader Item) (done : List Item) : Nat → Reader (List Item)
  | 0, bs => some (done.reverse, bs)
  | n + 1, bs =>
    match p bs with
    | none => none
    | some (i, rest) => readMany p (i :: done) n rest

/-- Items up to a break, at most `limit` of them; `done` holds the earlier ones, last first. -/
def readUntilBreak (p : Reader Item) (done : List Item) : Nat → Reader (List Item)
  | 0, bs => if bs.head? = some breakByte then some (done.reverse, bs.tail) else none
  | limit + 1, bs =>
    if bs.head? = some breakByte then some (done.reverse, bs.tail)
    else
      match p bs with
      | none => none
      | some (i, rest) => readUntilBreak p (i :: done) limit rest

/-- A container of at most `limit` groups of `width` items. -/
def readGroups (p : Reader Item) (width limit : Nat) (h : Head) : Reader (List Item) := fun bs =>
  match h.argument with
  | some n => if n ≤ limit then readMany p [] (width * n) bs else none
  | none => readUntilBreak p [] (width * limit) bs

/-- Keys and values in turn as pairs; a key without a value is refused. -/
def pairUp : List Item → Option (List (Item × Item))
  | [] => some []
  | [_] => none
  | k :: v :: rest => (pairUp rest).map ((k, v) :: ·)

/-- An item that is no tag. `inner` reads what a container holds, if a container may stand here. -/
def readPlain (inner : Option (Reader Item)) : Reader Item := fun bs => do
  let (h, rest) ← readHead bs
  match h.major with
  | 0 =>
    let n ← h.argument
    return (.unsigned n, rest)
  | 1 =>
    let n ← h.argument
    return (.negative n, rest)
  | 2 =>
    let (chunks, rest) ← readString h rest
    return (.bytes chunks.flatten, rest)
  | 3 =>
    let (chunks, rest) ← readString h rest
    return (.text chunks, rest)
  | 4 =>
    let p ← inner
    let (items, rest) ← readGroups p 1 maxElements h rest
    return (.array items, rest)
  | 5 =>
    let p ← inner
    let (items, rest) ← readGroups p 2 maxElements h rest
    let entries ← pairUp items
    return (.map entries, rest)
  | 7 =>
    let n ← h.argument
    return (if 25 ≤ h.info then .float else .simple n, rest)
  | _ => none

def startsWithTag (bs : Bytes) : Bool :=
  match bs with
  | [] => false
  | b :: _ => b.toNat / 32 == 6

/-- An item. A tag does not use up a level, but a tag directly inside it does. -/
def readTagged (inner : Option (Reader Item)) : Reader Item := fun bs =>
  if startsWithTag bs then do
    let (h, rest) ← readHead bs
    let n ← h.argument
    let (content, rest) ←
      if startsWithTag rest then inner.bind fun p => p rest else readPlain inner rest
    return (.tag n content, rest)
  else readPlain inner bs

/-- An item with at most `levels` levels of nesting. -/
def readItem : Nat → Reader Item
  | 0 => readTagged none
  | levels + 1 => readTagged (some (readItem levels))

/-- The item that a byte string is. -/
def parse (bs : Bytes) : Option Item :=
  match readItem maxLevels bs with
  | some (i, []) => some i
  | _ => none

end StackMachine.Cbor
