import StackMachine.FunctionTable.Builder

/-!
# Ids are handed out once

Since functions, marks and index are in step, a builder is a list of slots: the names in the order of their ids, each
with its definition if it has one. A name that has an id keeps it, whatever names are mentioned later.
-/

set_option autoImplicit false

namespace StackMachine.TableBuilder

variable {b : TableBuilder} {name other : String} {id : Nat} {d : Descriptor} {names : List String}

/-! ## Slots -/

/-- Every mentioned name in order of first mention, with its definition if it has one. -/
def slots (b : TableBuilder) : List (String × Option Descriptor) :=
  (b.functions.zip b.defined).map fun (d, done) => (d.name, if done then some d else none)

theorem map_fst_zip (b : TableBuilder) : (b.functions.zip b.defined).map Prod.fst = b.functions :=
  List.map_fst_zip (Nat.le_of_eq b.length_defined.symm)

theorem length_slots (b : TableBuilder) : b.slots.length = b.functions.length := by
  simp [slots, b.length_defined]

theorem mentioned_eq_slots (b : TableBuilder) : b.mentioned = b.slots.map Prod.fst := by
  rw [mentioned, ← map_fst_zip, slots, List.map_map, List.map_map]
  rfl

theorem length_mentioned (b : TableBuilder) : b.mentioned.length = b.slots.length := by
  rw [mentioned_eq_slots, List.length_map]

/-- The index finds the first slot with the name. -/
theorem find?_eq_idxOf? (b : TableBuilder) (name : String) : b.find? name = b.mentioned.idxOf? name :=
  b.lookup_byName name

theorem slots_insert (b : TableBuilder) (name : String) : (b.insert name).slots = b.slots ++ [(name, none)] := by
  rw [slots, insert, List.zip_append b.length_defined.symm, List.map_append]
  rfl

theorem zip_set {α β : Type} (xs : List α) (ys : List β) (i : Nat) (x : α) (y : β) :
    (xs.set i x).zip (ys.set i y) = (xs.zip ys).set i (x, y) := by
  induction xs generalizing ys i with
  | nil => simp
  | cons x' xs ih =>
    cases ys with
    | nil => simp
    | cons y' ys =>
      cases i with
      | zero => rfl
      | succ i => simp [ih]

theorem slots_place (h : b.mentioned[id]? = some d.name) :
    (b.place id d h).slots = b.slots.set id (d.name, some d) := by
  rw [slots, place, zip_set, List.map_set]
  rfl

theorem isDefined_eq (b : TableBuilder) (id : Nat) : b.isDefined id = (b.slots[id]?.bind Prod.snd).isSome := by
  have hdefined : b.defined = (b.functions.zip b.defined).map Prod.snd :=
    (List.map_snd_zip (Nat.le_of_eq b.length_defined)).symm
  rw [isDefined, hdefined, List.getD_eq_getElem?_getD, slots, List.getElem?_map, List.getElem?_map]
  cases (b.functions.zip b.defined)[id]? with
  | none => rfl
  | some p =>
    obtain ⟨d, done⟩ := p
    cases done <;> rfl

theorem undefined_eq (b : TableBuilder) :
    b.undefined = b.slots.filterMap fun s => if s.2.isNone then some s.1 else none := by
  rw [undefined, slots, List.filterMap_map]
  congr 1
  funext (d, done)
  cases done <;> rfl

/-- If nothing is undefined, the functions are the definitions. -/
theorem functions_eq (h : b.undefined = []) : b.functions = b.slots.filterMap Prod.snd := by
  have hslots : b.slots = (b.functions.zip b.defined).map fun p => (p.1.name, some p.1) := by
    refine List.map_congr_left ?_
    rintro ⟨d, done⟩ hmem
    have hdone := List.filterMap_eq_nil_iff.mp h _ hmem
    cases done with
    | true => rfl
    | false => cases hdone
  rw [hslots, List.filterMap_map]
  exact (map_fst_zip b).symm.trans (congrFun List.filterMap_eq_map _).symm

/-! ## Ids -/

/-- The builder after the names were mentioned in order. -/
def reserve (b : TableBuilder) (names : List String) : TableBuilder :=
  names.foldl (fun b name => (b.idOf name).2) b

theorem idOf_of_find? (h : b.find? name = some id) : b.idOf name = (id, b) := by
  rw [idOf, h]

theorem idOf_of_none (h : b.find? name = none) : b.idOf name = (b.slots.length, b.insert name) := by
  rw [idOf, h, length_slots]

/-- A new name gets the next id, and ids that are there stay. -/
theorem find?_idOf_of_none (h : b.find? name = none) (other : String) :
    (b.idOf name).2.find? other =
      (b.find? other).or (if name = other then some b.slots.length else none) := by
  rw [idOf_of_none h, find?, insert, lookup_concat, length_slots]
  simp only [eq_comm]
  rfl

theorem find?_idOf_self (b : TableBuilder) (name : String) :
    (b.idOf name).2.find? name = some (b.idOf name).1 := by
  cases h : b.find? name with
  | some id => rw [idOf_of_find? h, h]
  | none =>
    rw [find?_idOf_of_none h, h, if_pos rfl, idOf_of_none h]
    rfl

theorem find?_idOf_of_some (h : b.find? other = some id) (name : String) :
    (b.idOf name).2.find? other = some id := by
  cases hname : b.find? name with
  | some i => rw [idOf_of_find? hname, h]
  | none =>
    rw [find?_idOf_of_none hname, h]
    rfl

theorem reserve_append (b : TableBuilder) (names later : List String) :
    b.reserve (names ++ later) = (b.reserve names).reserve later :=
  List.foldl_append

theorem find?_reserve_of_some (h : b.find? other = some id) (names : List String) :
    (b.reserve names).find? other = some id := by
  induction names generalizing b with
  | nil => exact h
  | cons name names ih => exact ih (find?_idOf_of_some h name)

theorem find?_reserve_of_mem (b : TableBuilder) (h : name ∈ names) :
    ∃ id, (b.reserve names).find? name = some id := by
  induction names generalizing b with
  | nil => cases h
  | cons first names ih =>
    obtain rfl | h := List.mem_cons.mp h
    · exact ⟨_, find?_reserve_of_some (find?_idOf_self b name) names⟩
    · exact ih (b.idOf first).2 h

theorem getElem?_of_find? (h : b.find? name = some id) : b.mentioned[id]? = some name := by
  rw [find?_eq_idxOf?, List.idxOf?_eq_some_iff] at h
  obtain ⟨hid, hname, -⟩ := h
  exact List.getElem?_eq_some_iff.mpr ⟨hid, hname⟩

theorem find?_eq_none_iff : b.find? name = none ↔ name ∉ b.mentioned := by
  rw [find?_eq_idxOf?, List.idxOf?_eq_none_iff]

theorem lt_length_of_find? (h : b.find? name = some id) : id < b.slots.length := by
  obtain ⟨hid, -⟩ := List.getElem?_eq_some_iff.mp (getElem?_of_find? h)
  rw [length_mentioned] at hid
  exact hid

theorem length_idOf (b : TableBuilder) (name : String) : b.slots.length ≤ (b.idOf name).2.slots.length := by
  cases h : b.find? name with
  | some id => exact Nat.le_of_eq (congrArg (·.2.slots.length) (idOf_of_find? h)).symm
  | none =>
    rw [idOf_of_none h, slots_insert]
    simp

theorem length_reserve (b : TableBuilder) (names : List String) :
    b.slots.length ≤ (b.reserve names).slots.length := by
  induction names generalizing b with
  | nil => exact Nat.le_refl _
  | cons name names ih => exact Nat.le_trans (length_idOf b name) (ih _)

/-! ## Distinct names -/

theorem find?_of_getElem? (hnodup : b.mentioned.Nodup) (h : b.mentioned[id]? = some name) :
    b.find? name = some id := by
  obtain ⟨hid, hname⟩ := List.getElem?_eq_some_iff.mp h
  rw [find?_eq_idxOf?, List.idxOf?_eq_some_iff]
  refine ⟨hid, hname, ?_⟩
  intro j hj heq
  exact List.pairwise_iff_getElem.mp hnodup j id (by omega) hid hj (heq.trans hname.symm)

theorem mentioned_reserve (h : (b.mentioned ++ names).Nodup) : (b.reserve names).mentioned = b.mentioned ++ names := by
  induction names generalizing b with
  | nil => simp [reserve]
  | cons name names ih =>
    have hnew : b.find? name = none := by
      rw [find?_eq_none_iff]
      intro hmem
      exact (List.nodup_append.mp h).2.2 name hmem name List.mem_cons_self rfl
    have hnames : (b.idOf name).2.mentioned = b.mentioned ++ [name] := by
      simp [idOf_of_none hnew, mentioned, insert]
    calc
      (b.reserve (name :: names)).mentioned = ((b.idOf name).2.reserve names).mentioned := rfl
      _ = (b.idOf name).2.mentioned ++ names := ih (by simpa [hnames] using h)
      _ = b.mentioned ++ name :: names := by simp [hnames]

theorem reserve_of_found (h : ∀ name ∈ names, ∃ id, b.find? name = some id) : b.reserve names = b := by
  induction names with
  | nil => rfl
  | cons name names ih =>
    obtain ⟨id, hid⟩ := h name List.mem_cons_self
    calc
      b.reserve (name :: names) = (b.idOf name).2.reserve names := rfl
      _ = b.reserve names := by rw [idOf_of_find? hid]
      _ = b := ih fun name hname => h name (List.mem_cons_of_mem _ hname)

end StackMachine.TableBuilder
