import StackMachine.Text.Quoted

/-!
# Bytes

Byte strings as lists, their hexadecimal text, and the UTF-8 form of text.
-/

set_option autoImplicit false

namespace StackMachine

abbrev Bytes := List UInt8

namespace Bytes

/-- Two lowercase hexadecimal digits a byte. -/
def hex (bs : Bytes) : String :=
  String.ofList (bs.flatMap fun b => Text.hexDigits 2 b.toNat)

/-- The last `width` bytes of `n`, most significant first. -/
def bigEndian : Nat → Nat → Bytes
  | 0, _ => []
  | width + 1, n => bigEndian width (n / 256) ++ [UInt8.ofNat n]

/-- The number that bytes spell, most significant first. -/
def number (bs : Bytes) : Nat :=
  bs.foldl (fun n b => 256 * n + b.toNat) 0

def ofText (s : String) : Bytes :=
  s.toUTF8.data.toList

/-- The text whose UTF-8 form the bytes are. -/
def text? (bs : Bytes) : Option String :=
  String.fromUTF8? ⟨bs.toArray⟩

/-- The characters of the bytes; a byte that is part of none becomes the replacement character. -/
def chars : Nat → Bytes → List Char
  | 0, _ => []
  | _, [] => []
  | fuel + 1, b :: bs =>
    match [1, 2, 3, 4].findSome? fun n => (text? ((b :: bs).take n)).map (·.toList) with
    | some [c] => c :: chars fuel (bs.drop (c.utf8Size - 1))
    | _ => '\ufffd' :: chars fuel bs

/-- The text of the bytes as far as they are UTF-8. -/
def shownText (bs : Bytes) : String :=
  String.ofList (chars bs.length bs)

end Bytes
end StackMachine
