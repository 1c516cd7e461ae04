import StackMachine.Text.Bytes

/-!
# YAML character streams

A file is UTF-8, or UTF-16 if a mark of byte order says so. It is read in blocks of 512 bytes. A block with
bytes that are no character, or with a character that a document may not hold, cannot be read; that matters
only to a reader who gets so far.
-/

set_option autoImplicit false

namespace StackMachine.Yaml

inductive Encoding where
  | utf8
  | utf16 (bigEndian : Bool)
  deriving DecidableEq, Repr

/-- The characters a document may hold. -/
def isAllowed (n : Nat) : Bool :=
  n == 0x09 || n == 0x0a || n == 0x0d || (0x20 ≤ n && n ≤ 0x7e) || n == 0x85 ||
    (0xa0 ≤ n && n ≤ 0xd7ff) || (0xe000 ≤ n && n ≤ 0xfffd) || (0x10000 ≤ n && n ≤ 0x10ffff)

/-- What stands at the front of some bytes. -/
inductive Front where
  | char (number width : Nat)
  | incomplete
  | invalid
  deriving DecidableEq, Repr

/-- The bytes of a UTF-8 character with the given first byte; zero if there is none. -/
def utf8Width (first : Nat) : Nat :=
  if first < 0x80 then 1
  else if first < 0xc0 then 0
  else if first < 0xe0 then 2
  else if first < 0xf0 then 3
  else if first < 0xf8 then 4
  else 0

def utf8Lead (width first : Nat) : Nat :=
  match width with
  | 1 => first
  | 2 => first % 0x20
  | 3 => first % 0x10
  | _ => first % 0x08

/-- The least number that needs so many bytes. -/
def utf8Least : Nat → Nat
  | 2 => 0x80
  | 3 => 0x800
  | 4 => 0x10000
  | _ => 0

def frontUtf8 : Bytes → Front
  | [] => .incomplete
  | b :: bs =>
    let width := utf8Width b.toNat
    if width = 0 then .invalid
    else
      let more := (bs.take (width - 1)).map UInt8.toNat
      if more.length + 1 < width then .incomplete
      else if more.all fun n => 0x80 ≤ n && n < 0xc0 then
        let n := more.foldl (fun n m => 64 * n + m % 64) (utf8Lead width b.toNat)
        if utf8Least width ≤ n ∧ isAllowed n then .char n width else .invalid
      else .invalid

def unit16 (bigEndian : Bool) (a b : UInt8) : Nat :=
  if bigEndian then 256 * a.toNat + b.toNat else 256 * b.toNat + a.toNat

def isHighSurrogate (n : Nat) : Bool :=
  0xd800 ≤ n && n < 0xdc00

def isLowSurrogate (n : Nat) : Bool :=
  0xdc00 ≤ n && n < 0xe000

def frontUtf16 (bigEndian : Bool) : Bytes → Front
  | a :: b :: bs =>
    let n := unit16 bigEndian a b
    if isLowSurrogate n then .invalid
    else if isHighSurrogate n then
      match bs with
      | c :: d :: _ =>
        let m := unit16 bigEndian c d
        if isLowSurrogate m then .char (0x10000 + 0x400 * (n % 0x400) + m % 0x400) 4 else .invalid
      | _ => .incomplete
    else if isAllowed n then .char n 2
    else .invalid
  | _ => .incomplete

def Encoding.front : Encoding → Bytes → Front
  | .utf8, bs => frontUtf8 bs
  | .utf16 bigEndian, bs => frontUtf16 bigEndian bs

/-- The encoding of a file and the bytes after the mark that told it, with the length of that mark. -/
def encodingOf : Bytes → Encoding × Nat × Bytes
  | 0xff :: 0xfe :: bs => (.utf16 false, 2, bs)
  | 0xfe :: 0xff :: bs => (.utf16 true, 2, bs)
  | 0xef :: 0xbb :: 0xbf :: bs => (.utf8, 3, bs)
  | bs => (.utf8, 0, bs)

/-- The characters of a block, and the bytes at its end that only start one. -/
def decodeBlock (e : Encoding) : Nat → List Char → Bytes → Option (List Char × Bytes)
  | 0, done, bs => some (done.reverse, bs)
  | fuel + 1, done, bs =>
    match bs with
    | [] => some (done.reverse, [])
    | bs =>
      match e.front bs with
      | .char n width => decodeBlock e fuel (Char.ofNat n :: done) (bs.drop width)
      | .incomplete => some (done.reverse, bs)
      | .invalid => none

/-- Line ends of every kind as line feeds. -/
def normalized : List Char → List Char → List Char
  | done, [] => done.reverse
  | done, '\r' :: '\n' :: cs => normalized ('\n' :: done) cs
  | done, c :: cs => normalized ((if c == '\r' || c == '\u0085' then '\n' else c) :: done) cs

/-- The characters that can be read, whether they are all there are, and how many of them are in a first
block that starts with a mark of byte order of its own. -/
structure Stream where
  chars : List Char
  complete : Bool
  marked : Nat

/-- The blocks that can be read, last first; the first one holds `size` bytes. -/
def decodeBlocks (e : Encoding) : Nat → Nat → List (List Char) → Bytes → List (List Char) × Bool
  | 0, _, done, _ => (done, false)
  | fuel + 1, size, done, bs =>
    if bs.isEmpty then (done, true)
    else
      match decodeBlock e size [] (bs.take size) with
      | none => (done, false)
      | some ([], _) => (done, false)
      | some (cs, left) => decodeBlocks e fuel 512 (cs :: done) (left ++ bs.drop size)

def streamOf (bs : Bytes) : Stream :=
  let (e, mark, bs) := encodingOf bs
  let (blocks, complete) := decodeBlocks e (bs.length + 1) (512 - mark) [] bs
  let blocks := blocks.reverse
  { chars := normalized [] blocks.flatten
    complete := complete
    marked :=
      match blocks with
      | ('\ufeff' :: cs) :: _ => (normalized [] cs).length + 1
      | _ => 0 }

end StackMachine.Yaml
