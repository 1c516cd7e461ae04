import StackMachine.RunStore.Basic

/-!
# Stored run stores

A run store as bytes: an array of a mark, the images and the rows.
-/

set_option autoImplicit false

namespace StackMachine

open Cbor (Item)

namespace RunRow

def toItem (r : RunRow) : Item :=
  .array [.ofText r.id, .ofText r.imageHash, .unsigned r.halted.toNat, .ofText r.fault,
    .ofInt r.cycles.toInt, .ofText r.output, .ofInt r.startedAt.toInt, .ofInt r.duration.toInt]

def ofItem : Item → Option RunRow
  | .array [id, hash, halted, fault, cycles, output, startedAt, duration] => do
    return {
      id := ← id.string
      imageHash := ← hash.string
      halted := (← halted.word) ≠ 0
      fault := ← fault.string
      cycles := ← cycles.word
      output := ← output.string
      startedAt := ← startedAt.word
      duration := ← duration.word }
  | _ => none

end RunRow

namespace RunStore

def formatMark : String :=
  "run store 1"

def imageItem (e : String × Bytes) : Item :=
  .array [.ofText e.1, .bytes e.2]

def imageOfItem : Item → Option (String × Bytes)
  | .array [hash, .bytes encoded] => hash.string.map (·, encoded)
  | _ => none

def encode (s : RunStore) : Bytes :=
  (Item.array [.ofText formatMark, .array (s.images.map imageItem), .array (s.rows.map RunRow.toItem)]).encode

/-- The open store that bytes encode. -/
def decode? (bs : Bytes) : Option RunStore := do
  match ← Cbor.parse bs with
  | .array [mark, .array images, .array rows] =>
    if (← mark.string) = formatMark then
      return { images := ← images.mapM imageOfItem, rows := ← rows.mapM RunRow.ofItem }
    else none
  | _ => none

/-- The store that a file holds; an empty file is a new one. -/
def ofFile? (content : Bytes) : Option RunStore :=
  if content.isEmpty then some {} else decode? content

end RunStore
end StackMachine
