import StackMachine.FunctionTable

/-!
# Building a table from names

A builder hands out function ids before the functions are defined: a name gets the next free id when it is
first mentioned and keeps it. A table is built once every mentioned name has its one definition. Functions, the
marks of those that are defined and the index of names are kept apart, and every builder has them in step.
-/

set_option autoImplicit false

namespace StackMachine

structure TableBuilder where
  /-- Every mentioned function by its id; one that is not defined has just its name. -/
  functions : List Descriptor
  /-- Which of them are defined. -/
  defined : List Bool
  /-- Ids by name. -/
  byName : List (String × Nat)
  length_defined : defined.length = functions.length
  lookup_byName : ∀ name, byName.lookup name = (functions.map (·.name)).idxOf? name
  deriving DecidableEq, Repr

inductive BuildError where
  | definedTwice (name : String)
  | unresolved (names : List String)
  | table (e : TableError)
  deriving DecidableEq, Repr

def BuildError.message : BuildError → String
  | definedTwice name => "vm: function " ++ Text.quoted name ++ " defined twice"
  | unresolved names => "vm: unresolved functions: " ++ String.intercalate ", " names
  | table e => e.message

namespace TableBuilder

theorem idxOf?_concat (names : List String) (name other : String) :
    (names ++ [name]).idxOf? other =
      (names.idxOf? other).or (if other = name then some names.length else none) := by
  unfold List.idxOf?
  rw [List.findIdx?_append, List.findIdx?_singleton]
  by_cases h : other = name
  · simp [h]
  · simp [h, Ne.symm h]

theorem lookup_concat (ids : List (String × Nat)) (name other : String) (id : Nat) :
    (ids ++ [(name, id)]).lookup other = (ids.lookup other).or (if other = name then some id else none) := by
  rw [List.lookup_append, List.lookup_cons]
  by_cases h : other = name
  · simp [h]
  · rw [beq_false_of_ne h]
    simp [h]

def empty : TableBuilder where
  functions := []
  defined := []
  byName := []
  length_defined := rfl
  lookup_byName _ := rfl

/-- The names that have ids, in the order of their ids. -/
def mentioned (b : TableBuilder) : List String :=
  b.functions.map (·.name)

def find? (b : TableBuilder) (name : String) : Option Nat :=
  b.byName.lookup name

/-- Gives a name the next id. -/
def insert (b : TableBuilder) (name : String) : TableBuilder where
  functions := b.functions ++ [{ name := name }]
  defined := b.defined ++ [false]
  byName := b.byName ++ [(name, b.functions.length)]
  length_defined := by simp [b.length_defined]
  lookup_byName other := by
    rw [lookup_concat, b.lookup_byName, List.map_append, List.map_singleton, idxOf?_concat, List.length_map]

/-- The id of a name, and the builder in which the name has that id. -/
def idOf (b : TableBuilder) (name : String) : Nat × TableBuilder :=
  match b.find? name with
  | some id => (id, b)
  | none => (b.functions.length, b.insert name)

theorem mentioned_idOf (b : TableBuilder) (name : String) :
    (b.idOf name).2.mentioned[(b.idOf name).1]? = some name := by
  unfold idOf
  split
  next id h =>
    rw [find?, b.lookup_byName] at h
    obtain ⟨hid, hname, -⟩ := List.idxOf?_eq_some_iff.mp h
    exact List.getElem?_eq_some_iff.mpr ⟨hid, hname⟩
  next => simp [mentioned, insert]

def isDefined (b : TableBuilder) (id : Nat) : Bool :=
  b.defined.getD id false

/-- Defines the function that has the id and the name of `d`. -/
def place (b : TableBuilder) (id : Nat) (d : Descriptor) (h : b.mentioned[id]? = some d.name) : TableBuilder where
  functions := b.functions.set id d
  defined := b.defined.set id true
  byName := b.byName
  length_defined := by simp [b.length_defined]
  lookup_byName name := by
    obtain ⟨hid, hname⟩ := List.getElem?_eq_some_iff.mp h
    have hsame : (b.functions.set id d).map (·.name) = b.functions.map (·.name) := by
      rw [List.map_set, ← hname]
      exact List.set_getElem_self hid
    rw [hsame, b.lookup_byName]

/-- Defines the function under its name's id; a second definition is refused. -/
def define (b : TableBuilder) (d : Descriptor) : Nat × Option BuildError × TableBuilder :=
  let id := (b.idOf d.name).1
  let b' := (b.idOf d.name).2
  if b'.isDefined id then (id, some (.definedTwice d.name), b')
  else (id, none, b'.place id d (b.mentioned_idOf d.name))

/-- Mentioned names without a definition, in order of mention. -/
def undefined (b : TableBuilder) : List String :=
  (b.functions.zip b.defined).filterMap fun (d, done) => if done then none else some d.name

/-- Unresolved names are reported in the order of their UTF-8 bytes, which is that of their characters. -/
def build (b : TableBuilder) : Except BuildError FunctionTable :=
  if b.undefined.isEmpty then (FunctionTable.ofList b.functions).mapError .table
  else .error (.unresolved (b.undefined.mergeSort fun x y => decide (x ≤ y)))

end TableBuilder
end StackMachine
