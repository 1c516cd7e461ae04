import StackMachine.Proofs.Manifest.Resolution

/-!
# Images described again

An image says where each function is and which words its code has. A manifest of the same program that says just this
yields the same image, however the image came about: functions that are given their addresses are left there, ids are
the places of declarations either way, and what makes an image valid does not depend on its description.
-/

set_option autoImplicit false

namespace StackMachine

/-- The function declared at its address, without a label. -/
def Descriptor.declaration (d : Descriptor) : Declaration where
  name := d.name
  args := d.args
  locals := d.locals
  address := d.address

namespace Manifest

/-- The same program with the functions of an image, and with the words of its code in the place of text. -/
def settled (m : Manifest) (img : Image) : Manifest :=
  { m with
    functions := (img.functions.getD []).map Descriptor.declaration
    words := img.code.getD []
    asm := "" }

/-! ## The phases succeed -/

theorem addressOf_eq_ok_iff {program : String} {labels : List (String × Nat)} {f : Declaration} {address : Word} :
    addressOf program labels f = .ok address ↔ Located labels f address := by
  refine ⟨located_of_addressOf, ?_⟩
  rintro (⟨hlabel, h⟩ | ⟨hlabel, h⟩ | ⟨hlabel, h⟩)
  · simp only [addressOf, labelOf, if_pos hlabel, h]
  · simp only [addressOf, labelOf, if_neg (not_not_intro hlabel), h, Option.isSome_some, if_true]
  · simp [addressOf, labelOf, hlabel, h]

section Phases

variable {m : Manifest} {b : TableBuilder} {labels : List (String × Nat)} {ds : List Descriptor}

theorem defineAll_of_resolved (program : String) {rs : List TableBuilder.Request} {fs : List Declaration}
    (hb : b.Describes rs) (hds : List.Forall₂ (Resolved labels) fs ds) (hnodup : (ds.map Descriptor.name).Nodup)
    (hnew : ∀ d ∈ ds, TableBuilder.definition? rs d.name = none) :
    ∃ b', defineAll program labels b fs = .ok b' ∧ b'.Describes (rs ++ ds.map .define) := by
  induction hds generalizing b rs with
  | nil => exact ⟨b, rfl, by simpa using hb⟩
  | @cons f d fs ds hd _ ih =>
    obtain ⟨hfirst, hnodup⟩ := List.nodup_cons.mp hnodup
    obtain ⟨hold, hnew⟩ := List.forall_mem_cons.mp hnew
    have hdefine := hb.define d
    rw [hb.define_of_none hold] at hdefine
    obtain ⟨b', hrest, hb'⟩ := ih hdefine hnodup fun e he => by
      rw [TableBuilder.definition?_snoc_define, hnew e he, Option.none_or, if_neg]
      exact fun heq => hfirst (heq ▸ List.mem_map_of_mem he)
    refine ⟨b', bind_eq_ok_iff.mpr ⟨d.address, addressOf_eq_ok_iff.mpr hd.address, ?_⟩, by simpa using hb'⟩
    rw [← hd.name, ← hd.args, ← hd.locals, hb.define_of_none hold]
    exact hrest

theorem build_of_resolved (hb : b.Describes (m.asked ++ ds.map .define))
    (hds : List.Forall₂ (Resolved labels) m.functions ds) (hnodup : (ds.map Descriptor.name).Nodup)
    (hcalled : ∀ name ∈ Assembly.called m.asm, name ∈ ds.map Descriptor.name) (hne : ds ≠ [])
    (hnonneg : ∀ d ∈ ds, d.Nonneg) : ∃ t, b.build = .ok t ∧ t.entries.toList = ds := by
  have hnumbering := numbering_defined hds hnodup hcalled
  obtain ⟨t, ht⟩ : ∃ t, b.build = .ok t := by
    rw [hb.exists_build_iff, hnumbering]
    refine ⟨mt List.map_eq_nil_iff.mp hne, fun name hname => ?_⟩
    obtain ⟨d, hd, rfl⟩ := List.mem_map.mp hname
    exact ⟨d, (definition?_defined m ds d.name).trans (find?_name_of_nodup hnodup hd), hnonneg d hd⟩
  exact ⟨t, ht, (entries_of_build hb hds hnodup ht).1⟩

end Phases

/-! ## Settled manifests -/

/-- Without labels, a declared address is the address. -/
theorem resolved_declaration (ds : List Descriptor) :
    List.Forall₂ (Resolved []) (ds.map Descriptor.declaration) ds := by
  rw [List.forall₂_map_left_iff, List.forall₂_same]
  exact fun d _ => ⟨rfl, rfl, rfl, .declared rfl rfl⟩

theorem assembled_settled (m : Manifest) (img : Image) :
    (m.settled img).hasAsm = false ∧
      (m.settled img).assembled = .ok ({ code := img.words, labels := [] }, (m.settled img).declared) := by
  have hasm : (m.settled img).hasAsm = false := rfl
  exact ⟨hasm, if_neg (by simp [hasm])⟩

/-- What is known of the functions of an image. -/
theorem functions_of_image {m : Manifest} {img : Image} (h : m.image = .ok img) :
    ∃ ds code, img = m.imageWith ds code ∧ img.validate = .ok () ∧ (ds.map Descriptor.name).Nodup ∧ ds ≠ [] ∧
      ∀ d ∈ ds, d.Nonneg := by
  obtain ⟨-, r, b, b', t, hassembled, hdefine, hbuild, himg, hvalid⟩ := image_eq_ok_iff.mp h
  obtain ⟨-, hb, -⟩ := assembled_eq_ok hassembled
  obtain ⟨ds, hds, hb', hnodup, -⟩ := defineAll_eq_ok hb hdefine
  obtain ⟨hentries, -⟩ := entries_of_build hb' hds hnodup hbuild
  refine ⟨t.entries.toList, _, himg, hvalid, hentries ▸ hnodup, ?_, ?_⟩
  · exact List.ne_nil_of_length_pos t.size_pos
  · exact fun d hd => t.nonneg d (Array.mem_toList_iff.mp hd)

/-- An image whose code is not empty is also the image of the manifest that has its functions at their addresses and its
code as words. -/
theorem image_of_settled {m : Manifest} {img : Image} (h : m.image = .ok img) (hcode : img.words ≠ #[]) :
    (m.settled img).image = .ok img := by
  obtain ⟨ds, code, rfl, hvalid, hnodup, hne, hnonneg⟩ := functions_of_image h
  obtain ⟨hasm, hassembled⟩ := m.assembled_settled (m.imageWith ds code)
  obtain ⟨-, hb, -⟩ := assembled_eq_ok hassembled
  have hds : List.Forall₂ (Resolved []) (m.settled (m.imageWith ds code)).functions ds := resolved_declaration ds
  obtain ⟨b, hdefine, hb⟩ := defineAll_of_resolved m.name hb hds hnodup fun d _ => by
    rw [TableBuilder.definition?, definitions_asked]
    rfl
  have hcalled : Assembly.called (m.settled (m.imageWith ds code)).asm = [] :=
    Assembly.called_blank (trim_of_hasAsm hasm)
  obtain ⟨t, hbuild, rfl⟩ := build_of_resolved hb hds hnodup (by simp [hcalled]) hne hnonneg
  have hwords : (m.settled (m.imageWith t.entries.toList code)).hasWords = true := by
    simpa [hasWords, settled, imageWith, Image.words] using hcode
  refine image_eq_ok_iff.mpr ⟨?_, _, _, b, t, hassembled, hdefine, hbuild, rfl, hvalid⟩
  rw [hwords, hasm]
  decide

/-- Three functions that are found by a name, by a label and by their address are declared at three addresses. -/
theorem relay_settled :
    relay.image = .ok relayed ∧ relayed.words ≠ #[] ∧
    (relay.settled relayed).functions = [{ name := "main" }, { name := "helper", args := 1, address := 5 },
      { name := "spare", locals := 2, address := 7 }] ∧
    (relay.settled relayed).image = .ok relayed := by
  have himage : relay.image = (relayed.validate.mapError .image).bind fun _ => .ok relayed := rfl
  rw [relayed_valid] at himage
  have hcode : relayed.words ≠ #[] := by decide
  exact ⟨himage, hcode, rfl, image_of_settled himage hcode⟩

end Manifest
end StackMachine
