import StackMachine.Proofs.Assembly.TwoPass
import StackMachine.Proofs.Session
import StackMachine.Proofs.Success
import StackMachine.Proofs.Text.ByteOrder

/-!
# Ids count first mentions

A builder is asked for ids, given definitions and lent to the assembler, in any order. Its state is always the list of
the names mentioned so far, each at its first mention, together with the first definition given for each of them. So an
id that has been handed out, or written into code, means the same function in the table that is built in the end.
-/

set_option autoImplicit false

namespace StackMachine

/-! ## Calls in assembled code -/

namespace Assembly

/-- What the first pass finds in a text whose calls may name functions. -/
def surveyed (source : String) : Survey :=
  (Survey.lines true {} 1 (sourceLines source)).1

/-- The functions that the calls of a text name, up to the first line that is wrong. -/
def called (source : String) : List String :=
  (surveyed source).program.mentioned

theorem assemble_eq_twoPass (source : String) (builder : Option TableBuilder) :
    assemble source builder = twoPass source builder :=
  assembleIn_eq List.Perm.refl source builder

theorem assemble_builder (source : String) (b : TableBuilder) :
    (assemble source (some b)).2 = some (b.reserve (called source)) := by
  rw [assemble_eq_twoPass, twoPass]
  dsimp only [Option.isSome_some, Option.map_some]
  rw [called, surveyed]
  split <;> rfl

theorem code_of_assemble {source : String} {b : TableBuilder} {r : Assembled}
    (h : (assemble source (some b)).1 = .ok r) :
    r.code.toList = (surveyed source).program.draft (surveyed source).labels (some (b.reserve (called source))) := by
  have hfound : ∀ name ∈ called source,
      ∃ id, (some (b.reserve (called source))).bind (·.find? name) = some id := by
    intro name hname
    rw [Option.bind_some]
    exact TableBuilder.find?_reserve_of_mem b hname
  rw [assemble_eq_twoPass, twoPass] at h
  dsimp only [Option.isSome_some, Option.map_some] at h
  split at h
  next => cases h
  next =>
    rw [called, surveyed] at hfound ⊢
    rw [Program.resolve_eq hfound 0, unlessWaiting] at h
    split at h
    next =>
      cases h
      rfl
    next => cases h

/-- A call by name is drafted with the function's id. -/
theorem Program.draft_call {labels : List (String × Nat)} {builder : Option TableBuilder} {pre post : Program}
    {number id : Nat} {name : String} (h : builder.bind (·.find? name) = some id) :
    (draft labels builder (pre ++ (number, .callByName name) :: post))[pre.size]? = some Opcode.call.word ∧
    (draft labels builder (pre ++ (number, .callByName name) :: post))[pre.size + 1]? = some (Int64.ofNat id) := by
  rw [draft_append, draft_cons, ← length_draft labels builder pre]
  simp [Statement.draft, h]

/-- The call by name of every statement of a text is in the code, with the id that the builder has for the name. -/
theorem call_of_assemble {source : String} {b : TableBuilder} {r : Assembled}
    (h : (assemble source (some b)).1 = .ok r) {pre post : Program} {number : Nat} {name : String}
    (hprogram : (surveyed source).program = pre ++ (number, .callByName name) :: post) :
    ∃ id, (b.reserve (called source)).find? name = some id ∧
      r.code[pre.size]? = some Opcode.call.word ∧ r.code[pre.size + 1]? = some (Int64.ofNat id) := by
  have hmem : name ∈ called source := by
    simp [called, hprogram, Program.mentioned, Statement.mentioned]
  obtain ⟨id, hid⟩ := TableBuilder.find?_reserve_of_mem b hmem
  have hbuilder : (some (b.reserve (called source))).bind (·.find? name) = some id := by
    rw [Option.bind_some, hid]
  have hcode := code_of_assemble h
  rw [hprogram] at hcode
  refine ⟨id, hid, ?_⟩
  rw [← Array.getElem?_toList, ← Array.getElem?_toList, hcode]
  exact Program.draft_call hbuilder

end Assembly

/-! ## Names at their first mention -/

section Distinct

theorem nodup_eraseDups (names : List String) : names.eraseDups.Nodup := by
  cases names with
  | nil => exact .nil
  | cons name names =>
    rw [List.eraseDups_cons, List.nodup_cons]
    constructor
    · simp [List.mem_eraseDups]
    · exact nodup_eraseDups _
termination_by names.length
decreasing_by exact Nat.lt_succ_of_le (List.length_filter_le _ _)

theorem eraseDups_snoc (names : List String) (name : String) :
    (names ++ [name]).eraseDups = if name ∈ names then names.eraseDups else names.eraseDups ++ [name] := by
  rw [List.eraseDups_append]
  split
  next h => simp [List.removeAll, h]
  next h => simp [List.removeAll, List.eraseDups_cons, h]

theorem eraseDups_of_nodup {names : List String} (h : names.Nodup) : names.eraseDups = names := by
  induction names with
  | nil => rfl
  | cons name names ih =>
    obtain ⟨hnew, hrest⟩ := List.nodup_cons.mp h
    have hfilter : names.filter (fun other => !other == name) = names := by
      rw [List.filter_eq_self]
      intro other hother
      have hne : other ≠ name := fun heq => hnew (heq ▸ hother)
      simpa using hne
    rw [List.eraseDups_cons, hfilter, ih hrest]

/-- Names that come again have their numbers. -/
theorem eraseDups_append_of_subset {names others : List String} (h : names.Nodup)
    (hothers : ∀ name ∈ others, name ∈ names) :
    (names ++ others).eraseDups = names := by
  have hnone : others.removeAll names = [] := by
    rw [List.removeAll, List.filter_eq_nil_iff]
    intro name hname
    simpa using hothers name hname
  rw [List.eraseDups_append, hnone, List.eraseDups_nil, List.append_nil, eraseDups_of_nodup h]

/-- Writing to the place of one of several distinct names. -/
theorem map_set_of_nodup {α : Type} {names : List String} {f g : String → α} {name : String} {i : Nat}
    (hnodup : names.Nodup) (hi : names[i]? = some name) (h : ∀ other, other ≠ name → f other = g other) :
    (names.map f).set i (g name) = names.map g := by
  obtain ⟨hlt, hname⟩ := List.getElem?_eq_some_iff.mp hi
  apply List.ext_getElem (by simp)
  intro j hj hj'
  rw [List.length_map] at hj'
  rw [List.getElem_set]
  split
  next heq =>
    subst heq
    rw [List.getElem_map, hname]
  next hne =>
    rw [List.getElem_map, List.getElem_map]
    apply h
    intro heq
    exact hne ((List.getElem_inj hnodup).mp (hname.trans heq.symm))

end Distinct

/-! ## What a builder is asked -/

namespace TableBuilder

/-- What a code generator does with a builder. -/
inductive Request where
  | id (name : String)
  | define (d : Descriptor)
  | assemble (source : String)
  deriving DecidableEq, Repr

inductive Reply where
  | id (id : Nat)
  | defined (id : Nat) (error : Option BuildError)
  | assembled (result : Except Assembly.Error Assembly.Assembled)

def answer (b : TableBuilder) : Request → Reply × TableBuilder
  | .id name => (.id (b.idOf name).1, (b.idOf name).2)
  | .define d => (.defined (b.define d).1 (b.define d).2.1, (b.define d).2.2)
  | .assemble source =>
    let (result, b') := Assembly.assemble source (some b)
    (.assembled result, b'.getD b)

/-- The builder that requests to a fresh one leave. -/
def left (rs : List Request) : TableBuilder :=
  Session.after answer .empty rs

def exchanges (rs : List Request) : List (Request × Reply) :=
  Session.exchanges answer .empty rs

/-- The names that a request mentions, in order. -/
def Request.mentions : Request → List String
  | id name => [name]
  | define d => [d.name]
  | assemble source => Assembly.called source

def Request.definition? : Request → Option Descriptor
  | define d => some d
  | _ => none

/-- All names that requests mention, each at its first mention. -/
def numbering (rs : List Request) : List String :=
  (rs.flatMap Request.mentions).eraseDups

/-- The first definition that requests give for a name. -/
def definition? (rs : List Request) (name : String) : Option Descriptor :=
  (rs.filterMap Request.definition?).find? fun d => d.name == name

theorem mentions_id (names : List String) : (names.map Request.id).flatMap Request.mentions = names := by
  rw [List.flatMap_map]
  exact List.flatMap_singleton' names

theorem definitions_id (names : List String) : (names.map Request.id).filterMap Request.definition? = [] := by
  simp [Request.definition?]

theorem mentions_define (ds : List Descriptor) :
    (ds.map Request.define).flatMap Request.mentions = ds.map Descriptor.name := by
  rw [List.flatMap_map, List.map_eq_flatMap]
  rfl

theorem definitions_define (ds : List Descriptor) : (ds.map Request.define).filterMap Request.definition? = ds := by
  rw [List.filterMap_map]
  exact List.filterMap_some

section Numbering

variable {rs : List Request} {name : String} {d : Descriptor} {k : Nat}

theorem nodup_numbering (rs : List Request) : (numbering rs).Nodup :=
  nodup_eraseDups _

theorem mem_numbering : name ∈ numbering rs ↔ ∃ r ∈ rs, name ∈ r.mentions := by
  simp [numbering, List.mem_eraseDups]

/-- Numbers that are given stay. -/
theorem getElem?_numbering_append (h : (numbering rs)[k]? = some name) (later : List Request) :
    (numbering (rs ++ later))[k]? = some name := by
  have hk : k < (numbering rs).length := (List.getElem?_eq_some_iff.mp h).1
  rw [numbering] at h hk ⊢
  rw [List.flatMap_append, List.eraseDups_append, List.getElem?_append_left hk, h]

theorem definition?_append (h : definition? rs name = some d) (later : List Request) :
    definition? (rs ++ later) name = some d := by
  rw [definition?, List.filterMap_append, List.find?_append]
  rw [definition?] at h
  rw [h]
  rfl

theorem name_of_definition? (h : definition? rs name = some d) : d.name = name := by
  simpa using List.find?_some h

/-- A name that is defined is mentioned. -/
theorem mem_numbering_of_definition? (h : definition? rs name = some d) : name ∈ numbering rs := by
  obtain ⟨r, hr, hd⟩ := List.mem_filterMap.mp (List.mem_of_find?_eq_some h)
  refine mem_numbering.mpr ⟨r, hr, ?_⟩
  cases r with
  | id | assemble => cases hd
  | define =>
    cases hd
    exact List.mem_singleton.mpr (name_of_definition? h).symm

theorem numbering_snoc_id (rs : List Request) (name : String) :
    numbering (rs ++ [.id name]) = if name ∈ numbering rs then numbering rs else numbering rs ++ [name] := by
  simp only [numbering, List.mem_eraseDups, List.flatMap_append, ← eraseDups_snoc]
  rfl

theorem numbering_snoc_define (rs : List Request) (d : Descriptor) :
    numbering (rs ++ [.define d]) = numbering (rs ++ [.id d.name]) := by
  simp [numbering, Request.mentions]

theorem definition?_snoc_id (rs : List Request) (other : String) :
    definition? (rs ++ [.id other]) name = definition? rs name := by
  simp [definition?, Request.definition?]

theorem definition?_snoc_define (rs : List Request) (d : Descriptor) :
    definition? (rs ++ [.define d]) name = (definition? rs name).or (if d.name = name then some d else none) := by
  simp only [definition?, List.filterMap_append, List.find?_append]
  congr 1
  by_cases hname : d.name = name <;> simp [Request.definition?, hname]

end Numbering

/-! ## The state of a builder -/

section State

variable {b : TableBuilder} {rs : List Request} {name : String} {d e : Descriptor} {id : Nat}

/-- The names in the order of their ids are the names in the order of first mention, and each has the definition that
was given first. -/
def Describes (b : TableBuilder) (rs : List Request) : Prop :=
  b.slots = (numbering rs).map fun name => (name, definition? rs name)

namespace Describes

theorem mentioned_eq (h : Describes b rs) : b.mentioned = numbering rs := by
  rw [mentioned_eq_slots, h, List.map_map]
  exact List.map_id _

/-- Only what requests mention and define matters. -/
theorem congr {rs' : List Request} (h : Describes b rs)
    (hmentions : rs.flatMap Request.mentions = rs'.flatMap Request.mentions)
    (hdefinitions : rs.filterMap Request.definition? = rs'.filterMap Request.definition?) : Describes b rs' := by
  unfold Describes numbering definition? at *
  rw [h, hmentions, hdefinitions]

theorem idOf (h : Describes b rs) (name : String) : Describes (b.idOf name).2 (rs ++ [.id name]) := by
  simp only [Describes, definition?_snoc_id, numbering_snoc_id]
  cases hfind : b.find? name with
  | some id =>
    have hmem : name ∈ numbering rs := h.mentioned_eq ▸ List.mem_of_getElem? (getElem?_of_find? hfind)
    rw [idOf_of_find? hfind, if_pos hmem]
    exact h
  | none =>
    have hnew : name ∉ numbering rs := h.mentioned_eq ▸ find?_eq_none_iff.mp hfind
    have hundefined : definition? rs name = none :=
      Option.eq_none_iff_forall_not_mem.mpr fun d hd => hnew (mem_numbering_of_definition? hd)
    rw [if_neg hnew, List.map_append, idOf_of_none hfind, slots_insert, ← h]
    simp [hundefined]

/-- The id of a name is its number. -/
theorem getElem?_idOf (h : Describes b rs) (name : String) :
    (numbering (rs ++ [.id name]))[(b.idOf name).1]? = some name := by
  rw [← (h.idOf name).mentioned_eq]
  exact getElem?_of_find? (find?_idOf_self b name)

theorem reserve (h : Describes b rs) (names : List String) : Describes (b.reserve names) (rs ++ names.map .id) := by
  induction names generalizing b rs with
  | nil => simpa [TableBuilder.reserve] using h
  | cons name names ih => simpa [TableBuilder.reserve] using ih (h.idOf name)

/-- The slot of a name that is asked for. -/
theorem slot_idOf (h : Describes b rs) (name : String) :
    (b.idOf name).2.slots[(b.idOf name).1]? = some (name, definition? rs name) := by
  rw [h.idOf name, List.getElem?_map, h.getElem?_idOf]
  simp only [Option.map_some, definition?_snoc_id]

/-- Asking for the id of a function that is defined changes nothing. -/
theorem idOf_of_some (h : Describes b rs) (hd : definition? rs name = some d) : (b.idOf name).2 = b := by
  have hmem : name ∈ b.mentioned := h.mentioned_eq ▸ mem_numbering_of_definition? hd
  obtain ⟨id, hid⟩ := Option.ne_none_iff_exists'.mp (mt find?_eq_none_iff.mp (not_not_intro hmem))
  rw [idOf_of_find? hid]

theorem define_of_some (h : Describes b rs) (he : definition? rs d.name = some e) :
    b.define d = ((b.idOf d.name).1, some (.definedTwice d.name), b) := by
  have hslot := h.slot_idOf d.name
  rw [h.idOf_of_some he, he] at hslot
  simp [TableBuilder.define, isDefined_eq, h.idOf_of_some he, hslot]

theorem define_of_none (h : Describes b rs) (hnone : definition? rs d.name = none) :
    b.define d = ((b.idOf d.name).1, none,
      (b.idOf d.name).2.place (b.idOf d.name).1 d (b.mentioned_idOf d.name)) := by
  have hslot := h.slot_idOf d.name
  simp [TableBuilder.define, isDefined_eq, hslot, hnone]

theorem define (h : Describes b rs) (d : Descriptor) : Describes (b.define d).2.2 (rs ++ [.define d]) := by
  have hasked : Describes (b.idOf d.name).2 (rs ++ [.id d.name]) := h.idOf d.name
  have hother {name : String} (hname : name ≠ d.name) :
      definition? (rs ++ [.id d.name]) name = definition? (rs ++ [.define d]) name := by
    rw [definition?_snoc_id, definition?_snoc_define, if_neg (Ne.symm hname), Option.or_none]
  rw [Describes, numbering_snoc_define]
  cases hd : definition? rs d.name with
  | some e =>
    rw [h.define_of_some hd, ← h.idOf_of_some hd, hasked]
    apply List.map_congr_left
    intro name _
    by_cases hname : name = d.name
    · rw [hname, definition?_snoc_id, definition?_snoc_define, hd, Option.some_or]
    · rw [hother hname]
  | none =>
    have hnew : definition? (rs ++ [.define d]) d.name = some d := by
      rw [definition?_snoc_define, hd, if_pos rfl, Option.none_or]
    rw [h.define_of_none hd, slots_place, hasked, ← hnew]
    refine map_set_of_nodup (g := fun name => (name, definition? (rs ++ [.define d]) name)) (nodup_numbering _)
      (h.getElem?_idOf d.name) ?_
    intro name hname
    rw [hother hname]

end Describes
end State

theorem Describes.answer {b : TableBuilder} {rs : List Request} (h : Describes b rs) (r : Request) :
    Describes (b.answer r).2 (rs ++ [r]) := by
  cases r with
  | id name => exact h.idOf name
  | define d => exact h.define d
  | assemble source =>
    have hreserve := h.reserve (Assembly.called source)
    simp only [TableBuilder.answer, Assembly.assemble_builder, Option.getD_some]
    have hmentions : (rs ++ (Assembly.called source).map Request.id).flatMap Request.mentions =
        (rs ++ [Request.assemble source]).flatMap Request.mentions := by
      rw [List.flatMap_append, List.flatMap_append, mentions_id, List.flatMap_singleton]
      rfl
    have hdefinitions : (rs ++ (Assembly.called source).map Request.id).filterMap Request.definition? =
        (rs ++ [Request.assemble source]).filterMap Request.definition? := by
      rw [List.filterMap_append, definitions_id, List.filterMap_append]
      rfl
    exact hreserve.congr hmentions hdefinitions

theorem length_answer (b : TableBuilder) (r : Request) : b.slots.length ≤ (b.answer r).2.slots.length := by
  cases r with
  | id name => exact length_idOf b name
  | define d =>
    have hasked := length_idOf b d.name
    simp only [answer, define]
    split
    · exact hasked
    · rw [slots_place, List.length_set]
      exact hasked
  | assemble source =>
    simp only [answer, Assembly.assemble_builder, Option.getD_some]
    exact length_reserve b _

theorem length_after (b : TableBuilder) (rs : List Request) :
    b.slots.length ≤ (Session.after answer b rs).slots.length := by
  induction rs generalizing b with
  | nil => exact Nat.le_refl _
  | cons r rs ih => exact Nat.le_trans (length_answer b r) (ih _)

/-! ## Answers -/

/-- A reply names functions by their numbers, and a definition that it accepts is the one that counts. -/
def Reply.Fits (rs : List Request) : Request → Reply → Prop
  | .id name, .id k => (numbering rs)[k]? = some name
  | .define d, .defined k none => (numbering rs)[k]? = some d.name ∧ definition? rs d.name = some d
  | .define d, .defined k (some e) => (numbering rs)[k]? = some d.name ∧ e = .definedTwice d.name
  | .assemble source, .assembled (.ok r) =>
    ∀ pre number name post, (Assembly.surveyed source).program = pre ++ (number, .callByName name) :: post →
      ∃ k, (numbering rs)[k]? = some name ∧
        r.code[Assembly.Program.size pre]? = some Opcode.call.word ∧
        r.code[Assembly.Program.size pre + 1]? = some (Int64.ofNat k)
  | .assemble _, .assembled (.error _) => True
  | _, _ => False

theorem Reply.Fits.append {rs : List Request} {r : Request} {a : Reply} (h : a.Fits rs r) (later : List Request) :
    a.Fits (rs ++ later) r := by
  unfold Reply.Fits at *
  split at h
  next => exact getElem?_numbering_append h later
  next => exact ⟨getElem?_numbering_append h.1 later, definition?_append h.2 later⟩
  next => exact ⟨getElem?_numbering_append h.1 later, h.2⟩
  next =>
    intro pre number name post hprogram
    obtain ⟨k, hk, hcode⟩ := h pre number name post hprogram
    exact ⟨k, getElem?_numbering_append hk later, hcode⟩
  next => exact True.intro
  next => exact h.elim

theorem Describes.fits {b : TableBuilder} {rs : List Request} (h : Describes b rs) (r : Request) :
    (b.answer r).1.Fits (rs ++ [r]) r := by
  cases r with
  | id name => exact h.getElem?_idOf name
  | define d =>
    have hnumber := h.getElem?_idOf d.name
    rw [← numbering_snoc_define] at hnumber
    cases hd : definition? rs d.name with
    | some e =>
      simp only [TableBuilder.answer, h.define_of_some hd, Reply.Fits]
      exact ⟨hnumber, trivial⟩
    | none =>
      simp only [TableBuilder.answer, h.define_of_none hd, Reply.Fits]
      refine ⟨hnumber, ?_⟩
      rw [definition?_snoc_define, hd, if_pos rfl, Option.none_or]
  | assemble source =>
    have hanswer := h.answer (.assemble source)
    simp only [TableBuilder.answer, Assembly.assemble_builder, Option.getD_some] at hanswer ⊢
    cases hresult : (Assembly.assemble source (some b)).1 with
    | error e => exact True.intro
    | ok r =>
      intro pre number name post hprogram
      obtain ⟨id, hid, hcode⟩ := Assembly.call_of_assemble hresult hprogram
      have hnumber := getElem?_of_find? hid
      rw [hanswer.mentioned_eq] at hnumber
      exact ⟨id, hnumber, hcode⟩

theorem describes_and_fits (rs : List Request) :
    Describes (left rs) rs ∧ ∀ x ∈ exchanges rs, x.2.Fits rs x.1 := by
  let I (log : List (Request × Reply)) (b : TableBuilder) : Prop :=
    Describes b (log.map Prod.fst) ∧ ∀ x ∈ log, x.2.Fits (log.map Prod.fst) x.1
  have hstep : ∀ log b r, I log b → I (log ++ [(r, (answer b r).1)]) (answer b r).2 := by
    rintro log b r ⟨hstate, hlog⟩
    dsimp only [I]
    rw [List.map_append]
    refine ⟨hstate.answer r, ?_⟩
    intro x hx
    obtain hx | hx := List.mem_append.mp hx
    · exact (hlog x hx).append _
    · obtain rfl := List.mem_singleton.mp hx
      exact hstate.fits r
  have hfresh : I [] .empty := ⟨rfl, by simp⟩
  have hrun := Session.invariant hstep hfresh rs
  dsimp only [I] at hrun
  rw [List.nil_append, Session.map_fst_exchanges] at hrun
  exact hrun

/-! ## Tables -/

theorem getElem?_filterMap_of_isSome {α β : Type} {f : α → Option β} {xs : List α} (h : ∀ x ∈ xs, (f x).isSome)
    (k : Nat) : (xs.filterMap f)[k]? = xs[k]?.bind f := by
  induction xs generalizing k with
  | nil => rfl
  | cons x xs ih =>
    obtain ⟨y, hy⟩ := Option.isSome_iff_exists.mp (h x List.mem_cons_self)
    rw [List.filterMap_cons_some hy]
    cases k with
    | zero => exact hy.symm
    | succ k => exact ih (fun x hx => h x (List.mem_cons_of_mem _ hx)) k

/-- The names without a definition. -/
def missing (rs : List Request) : List String :=
  (numbering rs).filter fun name => (definition? rs name).isNone

section Build

variable {b : TableBuilder} {rs : List Request} {t : FunctionTable}

theorem missing_eq_nil_iff : missing rs = [] ↔ ∀ name ∈ numbering rs, (definition? rs name).isSome := by
  simp [missing, List.filter_eq_nil_iff, Option.isSome_iff_ne_none]

theorem Describes.undefined_eq (h : Describes b rs) : b.undefined = missing rs := by
  rw [TableBuilder.undefined_eq, h, List.filterMap_map, missing, ← List.filterMap_eq_filter]
  rfl

theorem Describes.build_of_missing (h : Describes b rs) (hmissing : missing rs ≠ []) :
    b.build = .error (.unresolved ((missing rs).mergeSort fun x y => decide (x ≤ y))) := by
  rw [build, h.undefined_eq, if_neg (mt List.isEmpty_iff.mp hmissing)]

theorem Describes.build_eq_ok_iff (h : Describes b rs) (hmissing : missing rs = []) :
    b.build = .ok t ↔ FunctionTable.ofList ((numbering rs).filterMap (definition? rs)) = .ok t := by
  have hfunctions := functions_eq (h.undefined_eq.trans hmissing)
  rw [build, h.undefined_eq, if_pos (List.isEmpty_iff.mpr hmissing), hfunctions, h, List.filterMap_map,
    mapError_eq_ok_iff]
  rfl

theorem Describes.exists_build_iff (h : Describes b rs) :
    (∃ t, b.build = .ok t) ↔
      numbering rs ≠ [] ∧ ∀ name ∈ numbering rs, ∃ d, definition? rs name = some d ∧ d.Nonneg := by
  by_cases hmissing : missing rs = []
  · have hdefined := missing_eq_nil_iff.mp hmissing
    simp only [h.build_eq_ok_iff hmissing]
    rw [FunctionTable.exists_ofList_iff]
    constructor
    · rintro ⟨hne, hnonneg⟩
      refine ⟨fun hnil => hne (by rw [hnil]; rfl), ?_⟩
      intro name hname
      obtain ⟨d, hd⟩ := Option.isSome_iff_exists.mp (hdefined name hname)
      exact ⟨d, hd, hnonneg d (List.mem_filterMap.mpr ⟨name, hname, hd⟩)⟩
    · rintro ⟨hne, hall⟩
      constructor
      · intro hnil
        obtain ⟨name, hname⟩ := List.exists_mem_of_ne_nil _ hne
        have hnone := List.filterMap_eq_nil_iff.mp hnil name hname
        exact Option.isSome_iff_ne_none.mp (hdefined name hname) hnone
      · intro d hd
        obtain ⟨name, hname, hdef⟩ := List.mem_filterMap.mp hd
        obtain ⟨e, he, hnonneg⟩ := hall name hname
        rw [hdef] at he
        cases he
        exact hnonneg
  · rw [h.build_of_missing hmissing]
    constructor
    · rintro ⟨t, ht⟩
      cases ht
    · rintro ⟨-, hall⟩
      refine (hmissing (missing_eq_nil_iff.mpr ?_)).elim
      intro name hname
      obtain ⟨d, hd, -⟩ := hall name hname
      exact Option.isSome_iff_exists.mpr ⟨d, hd⟩

/-- The entries of a table are the definitions of the names in the order of their numbers. -/
theorem Describes.entries_of_build (h : Describes b rs) (ht : b.build = .ok t) (k : Nat) :
    t.entries[k]? = (numbering rs)[k]?.bind (definition? rs) := by
  by_cases hmissing : missing rs = []
  · rw [h.build_eq_ok_iff hmissing] at ht
    rw [← Array.getElem?_toList, FunctionTable.toList_entries_of_ofList ht,
      getElem?_filterMap_of_isSome (missing_eq_nil_iff.mp hmissing)]
  · rw [h.build_of_missing hmissing] at ht
    cases ht

theorem size_of_build (h : b.build = .ok t) : t.size = b.slots.length := by
  unfold build at h
  split at h
  next =>
    have hentries := FunctionTable.toList_entries_of_ofList (mapError_eq_ok_iff.mp h)
    rw [FunctionTable.size, ← Array.length_toList, hentries, length_slots]
  next => cases h

/-- Names are listed in the order of their bytes, none of them twice. -/
theorem pairwise_mergeSort_missing (rs : List Request) :
    ((missing rs).mergeSort fun x y => decide (x ≤ y)).Pairwise fun x y => Bytes.ofText x < Bytes.ofText y := by
  have hnodup : ((missing rs).mergeSort fun x y => decide (x ≤ y)).Nodup :=
    (List.mergeSort_perm _ _).nodup_iff.mpr ((nodup_numbering rs).filter _)
  have hsorted : ((missing rs).mergeSort fun x y => decide (x ≤ y)).Pairwise fun x y => decide (x ≤ y) = true := by
    apply List.pairwise_mergeSort
    · intro x y z hxy hyz
      exact decide_eq_true (String.le_trans (of_decide_eq_true hxy) (of_decide_eq_true hyz))
    · intro x y
      simpa using String.le_total x y
  refine (hsorted.and hnodup).imp ?_
  rintro x y ⟨hle, hne⟩
  rw [Bytes.ofText_lt_iff, ← String.not_le]
  exact fun hge => hne (String.le_antisymm (of_decide_eq_true hle) hge)

/-- The table gives every name its number and every number its name's definition. -/
structure Resolves (t : FunctionTable) (rs : List Request) : Prop where
  lookup : ∀ (w : Word) (d : Descriptor), t.lookup? w = some d ↔
    ∃ k : Nat, w.toInt = k ∧ ∃ name, (numbering rs)[k]? = some name ∧ definition? rs name = some d
  ids : ∀ (name : String) (k : Nat), t.idOf? name = some k ↔ (numbering rs)[k]? = some name
  size : t.size = (numbering rs).length
  entry : (numbering rs).head? = some t.entry.name

theorem Describes.resolves (h : Describes b rs) (ht : b.build = .ok t) : Resolves t rs := by
  have hentries := h.entries_of_build ht
  have hdefined := (h.exists_build_iff.mp ⟨t, ht⟩).2
  -- Every number that is given has an entry, and the entry has the name with that number.
  have hentry (k : Nat) (name : String) (hk : (numbering rs)[k]? = some name) :
      ∃ d, t.entries[k]? = some d ∧ d.name = name := by
    obtain ⟨d, hd, -⟩ := hdefined name (List.mem_of_getElem? hk)
    refine ⟨d, ?_, name_of_definition? hd⟩
    rw [hentries, hk]
    exact hd
  have hnames : t.entries.toList.map Descriptor.name = numbering rs := by
    apply List.ext_getElem?
    intro k
    rw [List.getElem?_map, Array.getElem?_toList]
    cases hk : (numbering rs)[k]? with
    | none =>
      rw [hentries, hk]
      rfl
    | some name =>
      obtain ⟨d, hd, hname⟩ := hentry k name hk
      rw [hd, ← hname]
      rfl
  have hsize : t.size = (numbering rs).length := by
    rw [← hnames, List.length_map, Array.length_toList, FunctionTable.size]
  refine ⟨?_, ?_, hsize, ?_⟩
  · intro w d
    rw [FunctionTable.lookup?, Option.bind_eq_some_iff]
    constructor
    · rintro ⟨k, hk, hd⟩
      rw [hentries, Option.bind_eq_some_iff] at hd
      exact ⟨k, (Word.index?_eq_some_iff.mp hk).1, hd⟩
    · rintro ⟨k, hk, name, hname, hd⟩
      have hlt : k < (numbering rs).length := (List.getElem?_eq_some_iff.mp hname).1
      refine ⟨k, Word.index?_eq_some_iff.mpr ⟨hk, hsize ▸ hlt⟩, ?_⟩
      rw [hentries, hname]
      exact hd
  · intro name k
    have hfind : t.idOf? name = b.find? name := by
      rw [find?_eq_idxOf?, h.mentioned_eq, ← hnames, List.idxOf?, List.findIdx?_map, FunctionTable.idOf?,
        ← t.entries.toArray_toList, List.findIdx?_toArray]
      rfl
    rw [hfind, ← h.mentioned_eq]
    exact ⟨getElem?_of_find?, find?_of_getElem? (h.mentioned_eq ▸ nodup_numbering rs)⟩
  · rw [← hnames, List.head?_map, List.head?_eq_getElem?, Array.getElem?_toList, FunctionTable.entry,
      Array.getElem?_eq_getElem t.size_pos]
    rfl

end Build

/-- Whatever a fresh builder is asked, names are numbered in the order of first mention, and every reply and all code
agree with the final numbering. A second definition is refused and changes nothing. A table can be built if there is a
name and every name has a definition without negative numbers, and it resolves all names; names that lack a definition
are reported in the order of their bytes. -/
theorem ids_count_first_mentions (rs : List Request) :
    (left rs).mentioned = numbering rs ∧ (numbering rs).Nodup ∧
    (∀ x ∈ exchanges rs, x.2.Fits rs x.1) ∧
    (∀ name, (numbering (rs ++ [.id name]))[((left rs).idOf name).1]? = some name) ∧
    (∀ d e, definition? rs d.name = some e →
      (left rs).define d = (((left rs).idOf d.name).1, some (.definedTwice d.name), left rs)) ∧
    (∀ d, definition? rs d.name = none → ∃ b, (left rs).define d = (((left rs).idOf d.name).1, none, b)) ∧
    ((∃ t, (left rs).build = .ok t) ↔
      numbering rs ≠ [] ∧ ∀ name ∈ numbering rs, ∃ d, definition? rs name = some d ∧ d.Nonneg) ∧
    (missing rs ≠ [] → ∃ names, (left rs).build = .error (.unresolved names) ∧ names.Perm (missing rs) ∧
      names.Pairwise (fun x y => Bytes.ofText x < Bytes.ofText y) ∧
      (BuildError.unresolved names).message = "vm: unresolved functions: " ++ String.intercalate ", " names) ∧
    (∀ t, (left rs).build = .ok t → Resolves t rs) := by
  obtain ⟨hstate, hfits⟩ := describes_and_fits rs
  refine ⟨hstate.mentioned_eq, nodup_numbering rs, hfits, hstate.getElem?_idOf, ?_, ?_, hstate.exists_build_iff, ?_, ?_⟩
  · intro d e he
    exact hstate.define_of_some he
  · intro d hd
    exact ⟨_, hstate.define_of_none hd⟩
  · intro hmissing
    exact ⟨_, hstate.build_of_missing hmissing, List.mergeSort_perm _ _, pairwise_mergeSort_missing rs, rfl⟩
  · intro t ht
    exact hstate.resolves ht

/-- A call before the definition of its function, and a second definition of the entry. -/
def forwardCall : List Request :=
  [.id "main", .assemble "call twice\nhalt", .define { name := "main" },
    .define { name := "twice", args := 1, address := 3 }, .define { name := "main", args := -1 }]

theorem forwardCall_resolved :
    numbering forwardCall = ["main", "twice"] ∧
    (∃ t, (left forwardCall).build = .ok t) ∧ ∀ t, (left forwardCall).build = .ok t → Resolves t forwardCall := by
  obtain ⟨-, -, -, -, -, -, hbuild, -, hresolves⟩ := ids_count_first_mentions forwardCall
  refine ⟨by decide +kernel, hbuild.mpr ?_, hresolves⟩
  have hnames : numbering forwardCall = ["main", "twice"] := by decide +kernel
  have hmain : definition? forwardCall "main" = some { name := "main" } := by decide +kernel
  have htwice : definition? forwardCall "twice" = some { name := "twice", args := 1, address := 3 } := by
    decide +kernel
  rw [hnames]
  refine ⟨List.cons_ne_nil _ _, ?_⟩
  simp only [List.forall_mem_cons]
  exact ⟨⟨_, hmain, by decide⟩, ⟨_, htwice, by decide⟩, by simp⟩

end TableBuilder
end StackMachine
