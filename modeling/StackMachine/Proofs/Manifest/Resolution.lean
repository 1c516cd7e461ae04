import Mathlib.Data.List.Nodup
import StackMachine.Manifest.Basic
import StackMachine.Proofs.Assembly.Decodability

/-!
# Functions of a manifest

Ids are given to the declared functions, then to what the text calls, and only afterwards are functions defined. A
table can be built only if nothing was called that is not declared and nothing is declared twice. Then ids are the
places of declarations, the image has exactly the declared functions, each where its label, its name or else its
declaration puts it, and calls by name carry the place of the function they name.
-/

set_option autoImplicit false

namespace StackMachine

/-! ## Blank text -/

namespace Assembly

theorem ofChars_blank {cs : List Char} (h : ∀ c ∈ cs, Text.isBlank c = true) : Line.ofChars cs = blankLine := by
  have htrim : Text.trim (cs.takeWhile fun c => !isCommentStart c) = [] :=
    Text.trim_eq_nil_iff.mpr fun c hc => h c ((List.takeWhile_sublist _).subset hc)
  simp only [Line.ofChars, htrim]
  rfl

theorem sourceLines_blank {source : String} (h : Text.trim source.toList = []) :
    ∃ count, sourceLines source = List.replicate count blankLine := by
  refine ⟨_, List.eq_replicate_of_mem fun l hl => ?_⟩
  obtain ⟨piece, hpiece, rfl⟩ := List.mem_map.mp hl
  exact ofChars_blank fun c hc => Text.trim_eq_nil_iff.mp h c (Text.mem_of_mem_splitAt hpiece hc)

theorem survey_blank {source : String} (h : Text.trim source.toList = []) :
    Survey.lines true {} 1 (sourceLines source) = ({}, none) := by
  obtain ⟨count, hlines⟩ := sourceLines_blank h
  rw [hlines, ← List.append_nil (List.replicate _ _), lines_blanks]
  rfl

theorem called_blank {source : String} (h : Text.trim source.toList = []) : called source = [] := by
  rw [called, surveyed, survey_blank h]
  rfl

theorem written_blank {source : String} (h : Text.trim source.toList = []) : written true source = [] := by
  have hsurvey := survey_blank h
  obtain ⟨hprogram, -⟩ := @Survey.lines_eq_none true 1 (sourceLines source) {} nofun (congrArg Prod.snd hsurvey)
  rw [hsurvey] at hprogram
  exact hprogram.symm

end Assembly

theorem find?_name_of_nodup {ds : List Descriptor} {d : Descriptor} (h : (ds.map Descriptor.name).Nodup) (hd : d ∈ ds) :
    (ds.find? fun e => e.name == d.name) = some d := by
  have hsome : (ds.find? fun e => e.name == d.name).isSome := List.find?_isSome.mpr ⟨d, hd, by simp⟩
  obtain ⟨e, he⟩ := Option.isSome_iff_exists.mp hsome
  have hname : e.name = d.name := by simpa using List.find?_some he
  rw [he, List.inj_on_of_nodup_map h (List.mem_of_find?_eq_some he) hd hname]

namespace Manifest

/-! ## Where functions are -/

/-- The address of a declared function: that of its label if it has one, or else that of its name if the code has such a
label, or else the declared one. -/
inductive Located (labels : List (String × Nat)) (f : Declaration) : Word → Prop
  | labelled {addr : Nat} (hlabel : f.label ≠ "") (h : labels.lookup f.label = some addr) :
    Located labels f (Int64.ofNat addr)
  | named {addr : Nat} (hlabel : f.label = "") (h : labels.lookup f.name = some addr) :
    Located labels f (Int64.ofNat addr)
  | declared (hlabel : f.label = "") (h : labels.lookup f.name = none) : Located labels f f.address

/-- The entry of a declared function. -/
structure Resolved (labels : List (String × Nat)) (f : Declaration) (d : Descriptor) : Prop where
  name : d.name = f.name
  args : d.args = f.args
  locals : d.locals = f.locals
  address : Located labels f d.address

theorem located_of_addressOf {program : String} {labels : List (String × Nat)} {f : Declaration} {address : Word}
    (h : addressOf program labels f = .ok address) : Located labels f address := by
  unfold addressOf labelOf at h
  by_cases hlabel : f.label = ""
  · rw [if_neg (not_not_intro hlabel)] at h
    cases hname : labels.lookup f.name with
    | none =>
      simp only [hname] at h
      cases h
      exact .declared hlabel hname
    | some addr =>
      simp only [hname, Option.isSome_some, if_true] at h
      cases h
      exact .named hlabel hname
  · rw [if_pos hlabel] at h
    cases hown : labels.lookup f.label with
    | none =>
      simp only [hown] at h
      cases h
    | some addr =>
      simp only [hown] at h
      cases h
      exact .labelled hlabel hown

/-! ## The phases -/

/-- The code of a manifest and its labels, of which words have none. -/
inductive Coded (m : Manifest) : Assembly.Assembled → Prop
  | text {r : Assembly.Assembled} (hasm : m.hasAsm = true) (h : (Assembly.assemble m.asm (some m.declared)).1 = .ok r) :
    Coded m r
  | words (hasm : m.hasAsm = false) : Coded m { code := m.words.toArray, labels := [] }

/-- What the builder of a manifest is asked before functions are defined. -/
def asked (m : Manifest) : List TableBuilder.Request :=
  (m.functions.map Declaration.name).map .id ++ [.assemble m.asm]

theorem mentions_asked (m : Manifest) :
    m.asked.flatMap TableBuilder.Request.mentions = m.functions.map Declaration.name ++ Assembly.called m.asm := by
  rw [asked, List.flatMap_append, TableBuilder.mentions_id, List.flatMap_singleton]
  rfl

theorem definitions_asked (m : Manifest) : m.asked.filterMap TableBuilder.Request.definition? = [] := by
  rw [asked, List.filterMap_append, TableBuilder.definitions_id]
  rfl

section Phases

variable {m : Manifest} {r : Assembly.Assembled} {b : TableBuilder}

theorem declared_eq (m : Manifest) : m.declared = TableBuilder.empty.reserve (m.functions.map Declaration.name) := by
  rw [declared, TableBuilder.reserve, List.foldl_map]

theorem describes_declared (m : Manifest) :
    m.declared.Describes ((m.functions.map Declaration.name).map .id) := by
  have hfresh : TableBuilder.Describes .empty [] := rfl
  rw [declared_eq]
  exact hfresh.reserve _

theorem trim_of_hasAsm (h : m.hasAsm = false) : Text.trim m.asm.toList = [] := by
  simpa [hasAsm] using h

/-- Assembling yields code that the statements of the text describe, and gives ids to what they call. -/
theorem assembled_eq_ok (h : m.assembled = .ok (r, b)) :
    Coded m r ∧ b.Describes m.asked ∧
      (m.hasAsm = true → Assembly.Yields (Assembly.written true m.asm) r (some b)) := by
  have hdeclared := m.describes_declared
  unfold assembled at h
  by_cases hasm : m.hasAsm = true
  · rw [if_pos hasm] at h
    have hanswer := hdeclared.answer (.assemble m.asm)
    have hbuilder := Assembly.assemble_builder m.asm m.declared
    simp only [TableBuilder.answer, hbuilder, Option.getD_some] at hanswer
    cases hassemble : Assembly.assemble m.asm (some m.declared) with
    | mk result b' =>
      rw [hassemble] at h hbuilder
      cases hbuilder
      cases result with
      | error e => cases h
      | ok a =>
        cases h
        exact ⟨.text hasm (congrArg Prod.fst hassemble), hanswer, fun _ => Assembly.yields_of_assemble hassemble⟩
  · rw [if_neg hasm] at h
    cases h
    have hwords : m.hasAsm = false := Bool.not_eq_true _ ▸ hasm
    refine ⟨.words hwords, hdeclared.congr ?_ ?_, fun h => (hasm h).elim⟩
    · rw [mentions_asked, Assembly.called_blank (trim_of_hasAsm hwords), List.append_nil, TableBuilder.mentions_id]
    · rw [definitions_asked, TableBuilder.definitions_id]

/-- Functions can be defined in turn if their addresses are found and their names are new. -/
theorem defineAll_eq_ok {program : String} {labels : List (String × Nat)} {rs : List TableBuilder.Request}
    {fs : List Declaration} {b' : TableBuilder} (hb : b.Describes rs) (h : defineAll program labels b fs = .ok b') :
    ∃ ds, List.Forall₂ (Resolved labels) fs ds ∧ b'.Describes (rs ++ ds.map .define) ∧
      (ds.map Descriptor.name).Nodup ∧ ∀ d ∈ ds, TableBuilder.definition? rs d.name = none := by
  induction fs generalizing b rs with
  | nil =>
    cases h
    exact ⟨[], .nil, by simpa using hb, .nil, nofun⟩
  | cons f fs ih =>
    obtain ⟨address, haddress, h⟩ := bind_eq_ok_iff.mp h
    generalize hd : ({ name := f.name, args := f.args, locals := f.locals, address := address } : Descriptor) = d at h
    have hdefine := hb.define d
    cases hold : TableBuilder.definition? rs d.name with
    | some e =>
      rw [hb.define_of_some hold] at h
      cases h
    | none =>
      rw [hb.define_of_none hold] at h hdefine
      obtain ⟨ds, hds, hb', hnodup, hnew⟩ := ih hdefine h
      have hothers : ∀ e ∈ ds, TableBuilder.definition? rs e.name = none ∧ e.name ≠ d.name := by
        intro e he
        have hnone := hnew e he
        rw [TableBuilder.definition?_snoc_define, Option.or_eq_none_iff] at hnone
        refine ⟨hnone.1, fun heq => ?_⟩
        rw [if_pos heq.symm] at hnone
        cases hnone.2
      refine ⟨d :: ds, .cons ?_ hds, ?_, ?_, ?_⟩
      · subst hd
        exact ⟨rfl, rfl, rfl, located_of_addressOf haddress⟩
      · simpa using hb'
      · refine List.nodup_cons.mpr ⟨?_, hnodup⟩
        intro hmem
        obtain ⟨e, he, hname⟩ := List.mem_map.mp hmem
        exact (hothers e he).2 hname
      · exact List.forall_mem_cons.mpr ⟨hold, fun e he => (hothers e he).1⟩

theorem names_of_resolved {labels : List (String × Nat)} {fs : List Declaration} {ds : List Descriptor}
    (h : List.Forall₂ (Resolved labels) fs ds) : ds.map Descriptor.name = fs.map Declaration.name := by
  induction h with
  | nil => rfl
  | cons hd _ ih => rw [List.map_cons, List.map_cons, hd.name, ih]

theorem definition?_defined (m : Manifest) (ds : List Descriptor) (name : String) :
    TableBuilder.definition? (m.asked ++ ds.map .define) name = ds.find? fun d => d.name == name := by
  rw [TableBuilder.definition?, List.filterMap_append, definitions_asked, List.nil_append,
    TableBuilder.definitions_define]

theorem mentions_defined {labels : List (String × Nat)} {ds : List Descriptor}
    (hds : List.Forall₂ (Resolved labels) m.functions ds) :
    (m.asked ++ ds.map TableBuilder.Request.define).flatMap TableBuilder.Request.mentions =
      ds.map Descriptor.name ++ (Assembly.called m.asm ++ ds.map Descriptor.name) := by
  rw [List.flatMap_append, mentions_asked, TableBuilder.mentions_define, names_of_resolved hds, List.append_assoc]

/-- If nothing but declared functions is called, ids are the places of declarations. -/
theorem numbering_defined {labels : List (String × Nat)} {ds : List Descriptor}
    (hds : List.Forall₂ (Resolved labels) m.functions ds) (hnodup : (ds.map Descriptor.name).Nodup)
    (hcalled : ∀ name ∈ Assembly.called m.asm, name ∈ ds.map Descriptor.name) :
    TableBuilder.numbering (m.asked ++ ds.map .define) = ds.map Descriptor.name := by
  rw [TableBuilder.numbering, mentions_defined hds]
  refine eraseDups_append_of_subset hnodup fun name hname => ?_
  obtain hname | hname := List.mem_append.mp hname
  · exact hcalled name hname
  · exact hname

/-- A table can be built only if nothing but declared functions is called, and has them in the order of declaration. -/
theorem entries_of_build {labels : List (String × Nat)} {ds : List Descriptor} {t : FunctionTable}
    (hb : b.Describes (m.asked ++ ds.map .define)) (hds : List.Forall₂ (Resolved labels) m.functions ds)
    (hnodup : (ds.map Descriptor.name).Nodup) (ht : b.build = .ok t) :
    t.entries.toList = ds ∧ TableBuilder.numbering (m.asked ++ ds.map .define) = ds.map Descriptor.name := by
  have hdefined := (hb.exists_build_iff.mp ⟨t, ht⟩).2
  have hnumbering : TableBuilder.numbering (m.asked ++ ds.map .define) = ds.map Descriptor.name := by
    refine numbering_defined hds hnodup fun name hname => ?_
    have hmem : name ∈ TableBuilder.numbering (m.asked ++ ds.map .define) := by
      rw [TableBuilder.numbering, mentions_defined hds, List.mem_eraseDups]
      exact List.mem_append_right _ (List.mem_append_left _ hname)
    obtain ⟨d, hd, -⟩ := hdefined name hmem
    rw [← TableBuilder.name_of_definition? hd]
    rw [definition?_defined] at hd
    exact List.mem_map_of_mem (List.mem_of_find?_eq_some hd)
  refine ⟨List.ext_getElem? fun k => ?_, hnumbering⟩
  rw [Array.getElem?_toList, hb.entries_of_build ht, hnumbering, List.getElem?_map]
  cases hk : ds[k]? with
  | none => rfl
  | some d => exact (definition?_defined m ds d.name).trans <| find?_name_of_nodup hnodup (List.mem_of_getElem? hk)

theorem first_of_resolved {labels : List (String × Nat)} {fs : List Declaration} {ds : List Descriptor}
    (h : List.Forall₂ (Resolved labels) fs ds) (hne : ds ≠ []) :
    ∃ f d, fs.head? = some f ∧ ds.head? = some d ∧ Resolved labels f d := by
  cases h with
  | nil => exact (hne rfl).elim
  | cons hd _ => exact ⟨_, _, rfl, rfl, hd⟩

end Phases

/-! ## Images -/

/-- What the functions of an image and the calls in its code have to do with the declarations. -/
structure Links (m : Manifest) (r : Assembly.Assembled) (ds : List Descriptor) : Prop where
  distinct : (m.functions.map Declaration.name).Nodup
  resolved : List.Forall₂ (Resolved r.labels) m.functions ds
  first : ∃ f d, m.functions.head? = some f ∧ ds.head? = some d ∧ Resolved r.labels f d
  calls : ∀ pre number name post, Assembly.written true m.asm = pre ++ (number, .callByName name) :: post →
    ∃ k d, ds[k]? = some d ∧ d.name = name ∧
      (Assembly.Program.size pre, .instr (.call (Int64.ofNat k))) ∈ Verification.walk r.code

/-- What is made of a manifest once its functions and its code are settled. -/
def imageWith (m : Manifest) (functions : List Descriptor) (code : List Word) : Image where
  version := Image.currentVersion
  name := m.name
  globals := m.globals
  entry := m.entry
  functions := some functions
  code := some code
  stackSize := m.stackSize
  maxDepth := m.maxDepth

/-- There is an image exactly if each phase succeeds and what they come to is valid. -/
theorem image_eq_ok_iff {m : Manifest} {img : Image} :
    m.image = .ok img ↔ m.hasWords ≠ m.hasAsm ∧
      ∃ r b b' t, m.assembled = .ok (r, b) ∧ defineAll m.name r.labels b m.functions = .ok b' ∧ b'.build = .ok t ∧
        img = m.imageWith t.entries.toList r.code.toList ∧ img.validate = .ok () := by
  constructor
  · intro h
    unfold image at h
    split at h
    next => cases h
    next hone =>
      obtain ⟨⟨r, b⟩, hassembled, h⟩ := bind_eq_ok_iff.mp h
      obtain ⟨b', hdefine, h⟩ := bind_eq_ok_iff.mp h
      obtain ⟨t, hbuild, h⟩ := bind_eq_ok_iff.mp h
      obtain ⟨_, hvalid, h⟩ := bind_eq_ok_iff.mp h
      cases h
      exact ⟨hone, r, b, b', t, hassembled, hdefine, mapError_eq_ok_iff.mp hbuild, rfl,
        mapError_eq_ok_iff.mp hvalid⟩
  · rintro ⟨hone, r, b, b', t, hassembled, hdefine, hbuild, rfl, hvalid⟩
    unfold image
    rw [if_neg hone]
    refine bind_eq_ok_iff.mpr ⟨(r, b), hassembled, ?_⟩
    refine bind_eq_ok_iff.mpr ⟨b', hdefine, ?_⟩
    refine bind_eq_ok_iff.mpr ⟨t, mapError_eq_ok_iff.mpr hbuild, ?_⟩
    exact bind_eq_ok_iff.mpr ⟨(), mapError_eq_ok_iff.mpr hvalid, rfl⟩

/-- A call by name has the place of its function for an operand. -/
theorem call_of_describes {m : Manifest} {r : Assembly.Assembled} {b : TableBuilder} {ds : List Descriptor}
    (hyields : Assembly.Yields (Assembly.written true m.asm) r (some b)) (hb : b.Describes m.asked)
    (hnumbering : TableBuilder.numbering (m.asked ++ ds.map .define) = ds.map Descriptor.name)
    {pre post : Assembly.Program} {number : Nat} {name : String}
    (hsplit : Assembly.written true m.asm = pre ++ (number, .callByName name) :: post) :
    ∃ k d, ds[k]? = some d ∧ d.name = name ∧
      (pre.size, .instr (.call (Int64.ofNat k))) ∈ Verification.walk r.code := by
  obtain ⟨b', k, hb', hfind, hmet⟩ := hyields.call hsplit
  cases hb'
  have hplace : (ds.map Descriptor.name)[k]? = some name := by
    rw [← hnumbering]
    apply TableBuilder.getElem?_numbering_append
    rw [← hb.mentioned_eq]
    exact TableBuilder.getElem?_of_find? hfind
  rw [List.getElem?_map, Option.map_eq_some_iff] at hplace
  obtain ⟨d, hd, hname⟩ := hplace
  exact ⟨k, d, hd, hname, hmet⟩

theorem links_of_image {m : Manifest} {img : Image} (h : m.image = .ok img) :
    ∃ r ds, Coded m r ∧ img.code = some r.code.toList ∧ img.functions = some ds ∧ Links m r ds := by
  obtain ⟨-, r, b, b', t, hassembled, hdefine, hbuild, rfl, -⟩ := image_eq_ok_iff.mp h
  obtain ⟨hcoded, hb, hyields⟩ := assembled_eq_ok hassembled
  obtain ⟨ds, hds, hb', hnodup, -⟩ := defineAll_eq_ok hb hdefine
  obtain ⟨hentries, hnumbering⟩ := entries_of_build hb' hds hnodup hbuild
  refine ⟨r, ds, hcoded, rfl, congrArg some hentries, names_of_resolved hds ▸ hnodup, hds, ?_, ?_⟩
  · apply first_of_resolved hds
    rintro rfl
    have hpos := t.size_pos
    rw [← Array.length_toList, hentries] at hpos
    cases hpos
  · intro pre number name post hsplit
    by_cases hasm : m.hasAsm = true
    · exact call_of_describes (hyields hasm) hb hnumbering hsplit
    · rw [Assembly.written_blank (trim_of_hasAsm (Bool.not_eq_true _ ▸ hasm))] at hsplit
      simp at hsplit

/-- The functions of an image are the declared ones in the order of declaration, each at the address it is to have, and
every call by name in the text carries the place of the function it names. There is no image if a name is declared
twice, or if one is called that is not declared. -/
theorem image_links_functions (m : Manifest) :
    (∀ img, m.image = .ok img →
      ∃ r ds, Coded m r ∧ img.code = some r.code.toList ∧ img.functions = some ds ∧ Links m r ds) ∧
    (∀ number name, (number, .callByName name) ∈ Assembly.written true m.asm →
      (∀ f ∈ m.functions, f.name ≠ name) → ∃ e, m.image = .error e) ∧
    (¬ (m.functions.map Declaration.name).Nodup → ∃ e, m.image = .error e) := by
  refine ⟨fun img => links_of_image, ?_, ?_⟩
  · intro number name hcall hundeclared
    cases himage : m.image with
    | error e => exact ⟨e, rfl⟩
    | ok img =>
      obtain ⟨r, ds, -, -, -, hlinks⟩ := links_of_image himage
      obtain ⟨pre, post, hsplit⟩ := List.append_of_mem hcall
      obtain ⟨k, d, hd, hname, -⟩ := hlinks.calls pre number name post hsplit
      have hmem : name ∈ m.functions.map Declaration.name := by
        rw [← names_of_resolved hlinks.resolved, ← hname]
        exact List.mem_map_of_mem (List.mem_of_getElem? hd)
      obtain ⟨f, hf, hfname⟩ := List.mem_map.mp hmem
      exact (hundeclared f hf hfname).elim
  · intro hdup
    cases himage : m.image with
    | error e => exact ⟨e, rfl⟩
    | ok img =>
      obtain ⟨r, ds, -, -, -, hlinks⟩ := links_of_image himage
      exact (hdup hlinks.distinct).elim

/-- The second function has its own label, the first one that of its name, the third one none. -/
def relay : Manifest where
  name := "relay"
  functions := [{ name := "main", address := 4 }, { name := "helper", args := 1, label := "body" },
    { name := "spare", locals := 2, address := 7 }]
  asm := "main: iconst 7\ncall helper\nhalt\nbody: load 0\nret"

def relayed : Image where
  version := 1
  name := "relay"
  functions := some [{ name := "main" }, { name := "helper", args := 1, address := 5 },
    { name := "spare", locals := 2, address := 7 }]
  code := some [9, 7, 16, 1, 18, 10, 0, 17]

theorem relayed_valid : relayed.validate = .ok () := by
  have hwalk : Verification.walk relayed.words = [(0, .instr (.iconst 7)), (2, .instr (.call 1)), (4, .instr .halt),
      (5, .instr (.load 0)), (7, .instr .ret)] := by
    cbv
  unfold Image.validate
  simp only [Verification.findings_eq, hwalk]
  unfold Verification.meets Verification.starts
  rw [hwalk]
  rfl

theorem relay_linked :
    relay.image = .ok relayed ∧
    (∃ r ds, Coded relay r ∧ relayed.code = some r.code.toList ∧ relayed.functions = some ds ∧ Links relay r ds) ∧
    ∃ e, image { relay with asm := "call absent" } = .error e := by
  have himage : relay.image = (relayed.validate.mapError .image).bind fun _ => .ok relayed := rfl
  rw [relayed_valid] at himage
  refine ⟨himage, (image_links_functions relay).1 relayed himage, ?_⟩
  refine (image_links_functions { relay with asm := "call absent" }).2.1 1 "absent" ?_ ?_
  · decide +kernel
  · decide +kernel

end Manifest
end StackMachine
