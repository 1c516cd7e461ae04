import StackMachine.Text.Quoted
import StackMachine.Word

/-!
# Function tables

A function is described by its name, its numbers of arguments and locals, and the address of its code.
Calls name functions by their position in a table. A table has an entry descriptor at position zero and
holds no negative number.
-/

set_option autoImplicit false

namespace StackMachine

structure Descriptor where
  name : String
  args : Word := 0
  locals : Word := 0
  address : Word := 0
  deriving DecidableEq, Repr

namespace Descriptor

/-- Slots of a frame, computed in a machine word. -/
def frameSize (d : Descriptor) : Word :=
  d.args + d.locals

def Nonneg (d : Descriptor) : Prop :=
  0 ≤ d.args ∧ 0 ≤ d.locals ∧ 0 ≤ d.address

instance (d : Descriptor) : Decidable d.Nonneg :=
  inferInstanceAs (Decidable (_ ∧ _ ∧ _))

/-- A frame size that has not run over is the number of arguments and locals. -/
theorem toInt_frameSize {d : Descriptor} (h : d.Nonneg) (hsize : 0 ≤ d.frameSize.toInt) :
    d.frameSize.toInt = d.args.toInt + d.locals.toInt := by
  obtain ⟨hargs, hlocals, -⟩ := h
  rw [Int64.le_iff_toInt_le] at hargs hlocals
  have hzero : (0 : Word).toInt = 0 := rfl
  have hargs' := d.args.toInt_lt
  have hlocals' := d.locals.toInt_lt
  rw [frameSize, Int64.toInt_add] at *
  rw [Int.bmod_def] at *
  omega

theorem frameSize_nonneg {d : Descriptor} (h : d.Nonneg)
    (hsum : d.args.toInt + d.locals.toInt ≤ Int64.maxValue.toInt) : 0 ≤ d.frameSize.toInt := by
  obtain ⟨hargs, hlocals, -⟩ := h
  rw [Int64.le_iff_toInt_le] at hargs hlocals
  rw [Int64.toInt_maxValue] at hsum
  have hzero : (0 : Word).toInt = 0 := rfl
  rw [frameSize, Int64.toInt_add, Int.bmod_def]
  omega

def text (d : Descriptor) : String :=
  d.name ++ "(args=" ++ d.args.text ++ ", locals=" ++ d.locals.text ++ ") @" ++
    Text.zeroPadded 4 d.address.toInt

end Descriptor

inductive TableError where
  | noEntry
  | negativeCount (id : Nat) (name : String)
  | negativeAddress (id : Nat) (name : String) (address : Word)
  deriving DecidableEq, Repr

def TableError.message : TableError → String
  | noEntry => "vm: function table needs at least an entry descriptor"
  | negativeCount id name =>
    "vm: function " ++ Text.decimal id ++ " (" ++ name ++ "): negative arg or local count"
  | negativeAddress id name address =>
    "vm: function " ++ Text.decimal id ++ " (" ++ name ++ "): negative address " ++ address.text

structure FunctionTable where
  entries : Array Descriptor
  size_pos : 0 < entries.size
  nonneg : ∀ d ∈ entries, d.Nonneg

namespace FunctionTable

/-- What is wrong with a descriptor at position `id`. -/
def checkEntry (id : Nat) (d : Descriptor) : Option TableError :=
  if d.args < 0 ∨ d.locals < 0 then some (.negativeCount id d.name)
  else if d.address < 0 then some (.negativeAddress id d.name d.address)
  else none

/-- The first error of the descriptors, the first of which has position `id`. -/
def checkFrom (id : Nat) : List Descriptor → Option TableError
  | [] => none
  | d :: ds => (checkEntry id d).or (checkFrom (id + 1) ds)

theorem checkEntry_eq_none_iff {id : Nat} {d : Descriptor} : checkEntry id d = none ↔ d.Nonneg := by
  unfold checkEntry Descriptor.Nonneg
  simp only [Int64.lt_iff_toInt_lt, Int64.le_iff_toInt_le]
  split
  · simp only [reduceCtorEq, false_iff]
    omega
  · split
    · simp only [reduceCtorEq, false_iff]
      omega
    · simp only [true_iff]
      omega

theorem checkFrom_eq_none_iff {id : Nat} {ds : List Descriptor} :
    checkFrom id ds = none ↔ ∀ d ∈ ds, d.Nonneg := by
  induction ds generalizing id with
  | nil => simp [checkFrom]
  | cons d ds ih => simp [checkFrom, checkEntry_eq_none_iff, ih]

def ofList (ds : List Descriptor) : Except TableError FunctionTable :=
  if hne : ds = [] then .error .noEntry
  else
    match h : checkFrom 0 ds with
    | some e => .error e
    | none => .ok {
        entries := ds.toArray
        size_pos := by simpa using List.length_pos_iff.mpr hne
        nonneg := by simpa using checkFrom_eq_none_iff.mp h }

theorem exists_ofList_iff {ds : List Descriptor} : (∃ t, ofList ds = .ok t) ↔ ds ≠ [] ∧ ∀ d ∈ ds, d.Nonneg := by
  rw [← @checkFrom_eq_none_iff 0]
  unfold ofList
  split
  next hnil => simp [hnil]
  next hne =>
    split
    next h => simp [h]
    next h => simp [h, hne]

theorem toList_entries_of_ofList {ds : List Descriptor} {t : FunctionTable} (h : ofList ds = .ok t) :
    t.entries.toList = ds := by
  unfold ofList at h
  split at h
  next => cases h
  next =>
    split at h
    next => cases h
    next =>
      cases h
      rfl

def size (t : FunctionTable) : Nat :=
  t.entries.size

def entry (t : FunctionTable) : Descriptor :=
  have := t.size_pos
  t.entries[0]

def lookup? (t : FunctionTable) (id : Word) : Option Descriptor :=
  (id.index? t.size).bind fun i => t.entries[i]?

theorem mem_of_lookup? {t : FunctionTable} {id : Word} {d : Descriptor} (h : t.lookup? id = some d) :
    d ∈ t.entries := by
  obtain ⟨i, -, hd⟩ := Option.bind_eq_some_iff.mp h
  exact Array.mem_of_getElem? hd

theorem nonneg_of_lookup? {t : FunctionTable} {id : Word} {d : Descriptor} (h : t.lookup? id = some d) :
    d.Nonneg :=
  t.nonneg d (mem_of_lookup? h)

/-- The position of the first function with this name. -/
def idOf? (t : FunctionTable) (name : String) : Option Nat :=
  t.entries.findIdx? fun d => d.name == name

end FunctionTable
end StackMachine
