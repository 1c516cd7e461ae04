import StackMachine.Cbor.Value
import StackMachine.Image.Basic
import StackMachine.Sha256

/-!
# Encoded images

An image is written as a map with small integer keys in ascending order; zero numbers and empty texts are
left out where the format says so, an absent list is null. An image's name among all images is the digest of
its encoding.
-/

set_option autoImplicit false

namespace StackMachine

open Cbor (Item)

namespace Descriptor

def toItem (d : Descriptor) : Item :=
  .map <|
    [(.unsigned 1, .ofText d.name)] ++
    (if d.args = 0 then [] else [(.unsigned 2, .ofInt d.args.toInt)]) ++
    (if d.locals = 0 then [] else [(.unsigned 3, .ofInt d.locals.toInt)]) ++
    [(.unsigned 4, .ofInt d.address.toInt)]

def ofFields (fs : List (Nat × Item)) : Option Descriptor := do
  return {
    name := ← Item.get fs 1 "" Item.string
    args := ← Item.get fs 2 0 Item.word
    locals := ← Item.get fs 3 0 Item.word
    address := ← Item.get fs 4 0 Item.word }

def ofItem (i : Item) : Option Descriptor :=
  i.record { name := "" } ofFields

end Descriptor

namespace Image

def listItem {α : Type} (f : α → Item) : Option (List α) → Item
  | none => .null
  | some xs => .array (xs.map f)

def toItem (img : Image) : Item :=
  .map <|
    [(.unsigned 1, .unsigned img.version.toNat)] ++
    (if img.name = "" then [] else [(.unsigned 2, .ofText img.name)]) ++
    (if img.globals = 0 then [] else [(.unsigned 3, .ofInt img.globals.toInt)]) ++
    (if img.entry = "" then [] else [(.unsigned 4, .ofText img.entry)]) ++
    [(.unsigned 5, listItem Descriptor.toItem img.functions),
      (.unsigned 6, listItem (fun w : Word => .ofInt w.toInt) img.code)] ++
    (if img.stackSize = 0 then [] else [(.unsigned 7, .ofInt img.stackSize.toInt)]) ++
    (if img.maxDepth = 0 then [] else [(.unsigned 8, .ofInt img.maxDepth.toInt)])

def ofFields (fs : List (Nat × Item)) : Option Image := do
  return {
    version := ← Item.get fs 1 0 Item.byte
    name := ← Item.get fs 2 "" Item.string
    globals := ← Item.get fs 3 0 Item.word
    entry := ← Item.get fs 4 "" Item.string
    functions := ← Item.get fs 5 none (Item.list Descriptor.ofItem)
    code := ← Item.get fs 6 none (Item.list Item.word)
    stackSize := ← Item.get fs 7 0 Item.word
    maxDepth := ← Item.get fs 8 0 Item.word }

def ofItem (i : Item) : Option Image :=
  i.record {} ofFields

def encode (img : Image) : Bytes :=
  img.toItem.encode

/-- The image that bytes encode; it need not be valid. -/
def decode (bs : Bytes) : Except ImageError Image :=
  match (Cbor.parse bs).bind ofItem with
  | some img => .ok img
  | none => .error .malformed

/-- The valid image that bytes encode. -/
def decodeValid (bs : Bytes) : Except ImageError Image := do
  let img ← decode bs
  img.validate
  return img

/-- The digest of the encoding in hexadecimal. -/
def hash (img : Image) : String :=
  (Sha256.digest img.encode).hex

end Image
end StackMachine
