import StackMachine.Cbor.Reader
import StackMachine.Word

/-!
# Typed values in CBOR

What a typed field accepts. Null and undefined leave a field at its zero value. Tags are looked through,
except that those with a fixed meaning have to stand directly before content of their kind; a big number
counts as an integer.
-/

set_option autoImplicit false

namespace StackMachine.Cbor

namespace Item

def isText : Item → Bool
  | text _ => true
  | _ => false

def isBytes : Item → Bool
  | bytes _ => true
  | _ => false

def isNumber : Item → Bool
  | unsigned _ | negative _ | float => true
  | _ => false

/-- What stands behind the tags. Big numbers keep theirs. -/
def untag : Item → Option Item
  | tag 0 c => if c.isText then c.untag else none
  | tag 1 c => if c.isNumber then c.untag else none
  | tag 2 c => if c.isBytes then some (tag 2 c) else none
  | tag 3 c => if c.isBytes then some (tag 3 c) else none
  | tag _ c => c.untag
  | i => some i

def isNull : Item → Bool
  | simple 22 | simple 23 => true
  | _ => false

/-- The integer an untagged item stands for; simple values other than the truth values are their number. -/
def integer? : Item → Option Int
  | unsigned n => some n
  | negative n => some (-1 - (n : Int))
  | tag 2 (bytes b) => some b.number
  | tag 3 (bytes b) => some (-1 - (b.number : Int))
  | simple n => if n = 20 ∨ n = 21 then none else some n
  | _ => none

/-- A text each of whose chunks is valid. -/
def text? : Item → Option String
  | text chunks => (chunks.mapM Bytes.text?).map String.join
  | _ => none

/-- Reads a field: null gives `zero`, anything else is up to `read`. -/
def field {α : Type} (zero : α) (read : Item → Option α) (i : Item) : Option α :=
  i.untag.bind fun i => if i.isNull then some zero else read i

def word (i : Item) : Option Word :=
  i.field 0 fun i => i.integer?.bind Word.ofInt?

def byte (i : Item) : Option UInt8 :=
  i.field 0 fun i => i.integer?.bind fun n =>
    if 0 ≤ n ∧ n ≤ 255 then some (UInt8.ofNat n.toNat) else none

def string (i : Item) : Option String :=
  i.field "" text?

/-- A list of values; null is no list, which differs from an empty one. -/
def list {α : Type} (element : Item → Option α) (i : Item) : Option (Option (List α)) :=
  i.field none fun i =>
    match i with
    | array items => (items.mapM element).map some
    | _ => none

/-- The number of a field in text, as in `"1"`. -/
def fieldOfText (s : String) : Option Nat :=
  (List.range 10).find? fun n => 0 < n && Text.decimal n == s

/-- The number of the field that a key selects, `some none` if it selects none. Only integers and valid text
are keys. -/
def key : Item → Option (Option Nat)
  | unsigned n => some (some n)
  | negative n => if n < 9223372036854775808 then some none else none
  | text chunks => (text chunks).text?.map fieldOfText
  | _ => none

/-- The fields of a map in order, those with other keys left out. -/
def fields (entries : List (Item × Item)) : Option (List (Nat × Item)) :=
  match entries with
  | [] => some []
  | (k, v) :: rest => do
    let n ← k.key
    let others ← fields rest
    return (n.map fun n => (n, v)).toList ++ others

/-- A field of a map: the first with its number counts, and a missing one is zero. -/
def get {α : Type} (fields : List (Nat × Item)) (n : Nat) (zero : α) (read : Item → Option α) : Option α :=
  match fields.lookup n with
  | none => some zero
  | some i => read i

/-- Reads a record from a map. -/
def record {α : Type} (zero : α) (read : List (Nat × Item) → Option α) (i : Item) : Option α :=
  i.field zero fun i =>
    match i with
    | map entries => (Item.fields entries).bind read
    | _ => none

end Item
end StackMachine.Cbor
