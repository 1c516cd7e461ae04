import StackMachine.Image.Codec
import StackMachine.Proofs.Cbor.Values

/-!
# Encoded images are decoded

An image is read from its encoding field by field as it was written, so different images have different encodings, and
what is refused of an encoding is refused for the image that was encoded.
-/

set_option autoImplicit false

namespace StackMachine

open Cbor (Item Readable)
open Cbor.Item (slot numbered ReadableFields)

/-! ## Descriptors -/

namespace Descriptor

def written (d : Descriptor) : List (Nat × Item) :=
  slot 1 False (.ofText d.name) ++ slot 2 (d.args = 0) (.ofInt d.args.toInt) ++
    slot 3 (d.locals = 0) (.ofInt d.locals.toInt) ++ slot 4 False (.ofInt d.address.toInt)

theorem toItem_eq (d : Descriptor) : d.toItem = .map (numbered d.written) := by
  simp [written, toItem]

theorem ofItem_toItem (d : Descriptor) : ofItem d.toItem = some d := by
  have hname : Item.get d.written 1 "" Item.string = some d.name := by
    refine Item.get_of_lookup ?_ (Item.string_ofText d.name)
    simp [written, List.lookup_append]
  have hargs : Item.get d.written 2 0 Item.word = some d.args := by
    refine Item.get_of_lookup_slot ?_ (Item.word_ofInt d.args)
    simp [written, List.lookup_append]
  have hlocals : Item.get d.written 3 0 Item.word = some d.locals := by
    refine Item.get_of_lookup_slot ?_ (Item.word_ofInt d.locals)
    simp [written, List.lookup_append]
  have haddress : Item.get d.written 4 0 Item.word = some d.address := by
    refine Item.get_of_lookup ?_ (Item.word_ofInt d.address)
    simp [written, List.lookup_append]
  rw [toItem_eq, ofItem, Item.record_numbered, ofFields, hname, hargs, hlocals, haddress]
  rfl

theorem readable_toItem {levels : Nat} {d : Descriptor} (h : d.name.utf8ByteSize < UInt64.size) :
    Readable (levels + 1) d.toItem := by
  have hname : ReadableFields levels 1 (slot 1 False (.ofText d.name)) := .slot (by decide) (Item.readable_ofText h)
  have hargs : ReadableFields levels 1 (slot 2 (d.args = 0) (.ofInt d.args.toInt)) :=
    .slot (by decide) (Item.readable_ofInt d.args)
  have hlocals : ReadableFields levels 1 (slot 3 (d.locals = 0) (.ofInt d.locals.toInt)) :=
    .slot (by decide) (Item.readable_ofInt d.locals)
  have haddress : ReadableFields levels 1 (slot 4 False (.ofInt d.address.toInt)) :=
    .slot (by decide) (Item.readable_ofInt d.address)
  rw [toItem_eq]
  exact (((hname.append hargs).append hlocals).append haddress).map (by decide)

end Descriptor

/-! ## Images -/

namespace Image

def written (img : Image) : List (Nat × Item) :=
  slot 1 False (.unsigned img.version.toNat) ++ slot 2 (img.name = "") (.ofText img.name) ++
    slot 3 (img.globals = 0) (.ofInt img.globals.toInt) ++ slot 4 (img.entry = "") (.ofText img.entry) ++
    slot 5 False (listItem Descriptor.toItem img.functions) ++
    slot 6 False (listItem (fun w : Word => .ofInt w.toInt) img.code) ++
    slot 7 (img.stackSize = 0) (.ofInt img.stackSize.toInt) ++
    slot 8 (img.maxDepth = 0) (.ofInt img.maxDepth.toInt)

theorem toItem_eq (img : Image) : img.toItem = .map (numbered img.written) := by
  simp [written, toItem]

theorem list_listItem {α : Type} {write : α → Item} {read : Item → Option α} (h : ∀ x, read (write x) = some x)
    (xs : Option (List α)) : Item.list read (listItem write xs) = some xs := by
  cases xs with
  | none => rfl
  | some xs => exact Item.list_array h xs

theorem ofItem_toItem (img : Image) : ofItem img.toItem = some img := by
  have hversion : Item.get img.written 1 0 Item.byte = some img.version := by
    refine Item.get_of_lookup ?_ (Item.byte_unsigned img.version)
    simp [written, List.lookup_append]
  have hname : Item.get img.written 2 "" Item.string = some img.name := by
    refine Item.get_of_lookup_slot ?_ (Item.string_ofText img.name)
    simp [written, List.lookup_append]
  have hglobals : Item.get img.written 3 0 Item.word = some img.globals := by
    refine Item.get_of_lookup_slot ?_ (Item.word_ofInt img.globals)
    simp [written, List.lookup_append]
  have hentry : Item.get img.written 4 "" Item.string = some img.entry := by
    refine Item.get_of_lookup_slot ?_ (Item.string_ofText img.entry)
    simp [written, List.lookup_append]
  have hfunctions : Item.get img.written 5 none (Item.list Descriptor.ofItem) = some img.functions := by
    refine Item.get_of_lookup ?_ (list_listItem Descriptor.ofItem_toItem img.functions)
    simp [written, List.lookup_append]
  have hcode : Item.get img.written 6 none (Item.list Item.word) = some img.code := by
    refine Item.get_of_lookup ?_ (list_listItem Item.word_ofInt img.code)
    simp [written, List.lookup_append]
  have hstackSize : Item.get img.written 7 0 Item.word = some img.stackSize := by
    refine Item.get_of_lookup_slot ?_ (Item.word_ofInt img.stackSize)
    simp [written, List.lookup_append]
  have hmaxDepth : Item.get img.written 8 0 Item.word = some img.maxDepth := by
    refine Item.get_of_lookup_slot ?_ (Item.word_ofInt img.maxDepth)
    simp [written, List.lookup_append]
  rw [toItem_eq, ofItem, Item.record_numbered, ofFields, hversion, hname, hglobals, hentry, hfunctions, hcode,
    hstackSize, hmaxDepth]
  rfl

/-! ## Encodings -/

/-- The format holds lists of so many elements and texts of so many bytes. -/
structure WithinLimits (img : Image) : Prop where
  name : img.name.utf8ByteSize < UInt64.size
  entry : img.entry.utf8ByteSize < UInt64.size
  functions : ∀ ds, img.functions = some ds → ds.length ≤ Cbor.maxElements
  functionNames : ∀ ds, img.functions = some ds → ∀ d ∈ ds, d.name.utf8ByteSize < UInt64.size
  code : ∀ ws, img.code = some ws → ws.length ≤ Cbor.maxElements

theorem readable_listItem {α : Type} {levels : Nat} {write : α → Item} {xs : Option (List α)}
    (hsize : ∀ ys, xs = some ys → ys.length ≤ Cbor.maxElements)
    (hitems : ∀ ys, xs = some ys → ∀ y ∈ ys, Readable levels (write y)) :
    Readable (levels + 1) (listItem write xs) := by
  cases xs with
  | none => exact .null
  | some ys =>
    refine .array ?_ ?_
    · rw [List.length_map]
      exact hsize ys rfl
    · intro i hi
      obtain ⟨y, hy, rfl⟩ := List.mem_map.mp hi
      exact hitems ys rfl y hy

theorem readable_toItem {img : Image} (h : img.WithinLimits) (levels : Nat) : Readable (levels + 3) img.toItem := by
  have hversion : ReadableFields (levels + 2) 1 (slot 1 False (.unsigned img.version.toNat)) :=
    .slot (by decide) (.unsigned (Nat.lt_trans img.version.toNat_lt (by decide)))
  have hname : ReadableFields (levels + 2) 1 (slot 2 (img.name = "") (.ofText img.name)) :=
    .slot (by decide) (Item.readable_ofText h.name)
  have hglobals : ReadableFields (levels + 2) 1 (slot 3 (img.globals = 0) (.ofInt img.globals.toInt)) :=
    .slot (by decide) (Item.readable_ofInt img.globals)
  have hentry : ReadableFields (levels + 2) 1 (slot 4 (img.entry = "") (.ofText img.entry)) :=
    .slot (by decide) (Item.readable_ofText h.entry)
  have hfunctions : ReadableFields (levels + 2) 1 (slot 5 False (listItem Descriptor.toItem img.functions)) :=
    .slot (by decide) (readable_listItem h.functions fun ds hds d hd =>
      Descriptor.readable_toItem (h.functionNames ds hds d hd))
  have hcode : ReadableFields (levels + 2) 1
      (slot 6 False (listItem (fun w : Word => .ofInt w.toInt) img.code)) :=
    .slot (by decide) (readable_listItem h.code fun _ _ w _ => Item.readable_ofInt w)
  have hstackSize : ReadableFields (levels + 2) 1 (slot 7 (img.stackSize = 0) (.ofInt img.stackSize.toInt)) :=
    .slot (by decide) (Item.readable_ofInt img.stackSize)
  have hmaxDepth : ReadableFields (levels + 2) 1 (slot 8 (img.maxDepth = 0) (.ofInt img.maxDepth.toInt)) :=
    .slot (by decide) (Item.readable_ofInt img.maxDepth)
  rw [toItem_eq]
  exact (((((((hversion.append hname).append hglobals).append hentry).append hfunctions).append hcode).append
    hstackSize).append hmaxDepth).map (by decide)

theorem decode_encode {img : Image} (h : img.WithinLimits) : decode img.encode = .ok img := by
  have hparse : Cbor.parse img.encode = some img.toItem := Cbor.parse_encode (readable_toItem h 29)
  rw [decode, hparse, Option.bind_some, ofItem_toItem]

theorem decodeValid_eq {bs : Bytes} {img : Image} (h : decode bs = .ok img) :
    decodeValid bs = img.validate.map fun _ => img := by
  rw [decodeValid, h]
  cases hvalid : img.validate <;> simp [bind, Except.bind, hvalid, Except.map, pure, Except.pure]

theorem of_decodeValid {bs : Bytes} {img : Image} (h : decodeValid bs = .ok img) :
    decode bs = .ok img ∧ img.validate = .ok () := by
  cases hdecode : decode bs with
  | error e =>
    rw [decodeValid, hdecode] at h
    cases h
  | ok decoded =>
    rw [decodeValid_eq hdecode] at h
    cases hvalid : decoded.validate with
    | error e =>
      rw [hvalid] at h
      cases h
    | ok _ =>
      rw [hvalid] at h
      cases h
      exact ⟨rfl, hvalid⟩

/-- An encoded image is decoded to itself and to no other image. Decoding checks the image that was encoded: it is
returned if it is valid, and the error is its own if not. -/
theorem image_of_encoding (img : Image) (h : img.WithinLimits) :
    decode img.encode = .ok img ∧
    (∀ other : Image, other.WithinLimits → other.encode = img.encode → other = img) ∧
    (decodeValid img.encode = .ok img ↔ img.validate = .ok ()) ∧
    ∀ e, img.validate = .error e → decodeValid img.encode = .error e := by
  have hdecode := decode_encode h
  refine ⟨hdecode, ?_, ?_, ?_⟩
  · intro other hother hsame
    have hboth := decode_encode hother
    rw [hsame, hdecode] at hboth
    cases hboth
    rfl
  · rw [decodeValid_eq hdecode]
    cases img.validate <;> simp [Except.map]
  · intro e he
    rw [decodeValid_eq hdecode, he]
    rfl

/-- Numbers of every width and both signs, and a list that is empty. -/
def extremes : Image where
  version := 255
  name := "größe"
  globals := Int64.minValue
  functions := some []
  code := some [0, 23, 24, -25, 256, 65536, -4294967297, Int64.maxValue]

theorem extremes_decoded :
    extremes.WithinLimits ∧ decode extremes.encode = .ok extremes ∧
    ({ extremes with functions := none } : Image).WithinLimits ∧
    ({ extremes with functions := none } : Image).encode ≠ extremes.encode ∧
    extremes.validate = .error (.version 255) ∧ decodeValid extremes.encode = .error (.version 255) := by
  have hlimits : extremes.WithinLimits := by
    refine ⟨by decide, by decide, ?_, ?_, ?_⟩
    · rintro ds ⟨⟩
      decide
    · rintro ds ⟨⟩
      decide
    · rintro ws ⟨⟩
      decide
  have hother : ({ extremes with functions := none } : Image).WithinLimits := by
    refine ⟨by decide, by decide, ?_, ?_, ?_⟩
    · rintro ds ⟨⟩
    · rintro ds ⟨⟩
    · rintro ws ⟨⟩
      decide
  obtain ⟨hdecode, hinjective, -, herror⟩ := image_of_encoding extremes hlimits
  refine ⟨hlimits, hdecode, hother, ?_, rfl, herror _ rfl⟩
  intro hsame
  cases congrArg Image.functions (hinjective _ hother hsame)

end Image
end StackMachine
