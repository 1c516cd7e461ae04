import StackMachine.Text.Bytes

/-!
# CBOR items

The data model of the binary format and its canonical writer: definite lengths and shortest heads. A text
that was written in chunks keeps them, since each chunk has to be valid text by itself.
-/

set_option autoImplicit false

namespace StackMachine.Cbor

inductive Item where
  | unsigned (n : Nat)
  /-- The number `-1 - n`. -/
  | negative (n : Nat)
  | bytes (content : Bytes)
  | text (chunks : List Bytes)
  | array (items : List Item)
  | map (entries : List (Item × Item))
  | tag (number : Nat) (content : Item)
  | simple (n : Nat)
  /-- A floating-point number; its value is never used. -/
  | float

namespace Item

def null : Item :=
  simple 22

def ofInt (n : Int) : Item :=
  if n < 0 then negative (-1 - n).toNat else unsigned n.toNat

def ofText (s : String) : Item :=
  text [Bytes.ofText s]

end Item

/-- The shortest head of a major type with an argument below 2^64. -/
def head (major n : Nat) : Bytes :=
  let first (info : Nat) : UInt8 := UInt8.ofNat (32 * major + info)
  if n < 24 then [first n]
  else if n < 256 then first 24 :: Bytes.bigEndian 1 n
  else if n < 65536 then first 25 :: Bytes.bigEndian 2 n
  else if n < 4294967296 then first 26 :: Bytes.bigEndian 4 n
  else first 27 :: Bytes.bigEndian 8 n

mutual

/-- A text is written whole, whatever its chunks, and a float as zero. -/
def Item.encode : Item → Bytes
  | .unsigned n => head 0 n
  | .negative n => head 1 n
  | .bytes b => head 2 b.length ++ b
  | .text chunks => head 3 chunks.flatten.length ++ chunks.flatten
  | .array items => head 4 items.length ++ encodeAll items
  | .map entries => head 5 entries.length ++ encodePairs entries
  | .tag n content => head 6 n ++ content.encode
  | .simple n => head 7 n
  | .float => [0xf9, 0, 0]

def encodeAll : List Item → Bytes
  | [] => []
  | i :: is => i.encode ++ encodeAll is

def encodePairs : List (Item × Item) → Bytes
  | [] => []
  | (k, v) :: rest => k.encode ++ v.encode ++ encodePairs rest

end

end StackMachine.Cbor
