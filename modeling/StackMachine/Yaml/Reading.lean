import StackMachine.Yaml.Meaning
import StackMachine.Yaml.Node

/-!
# Reading values off YAML nodes

A value is read off a node by its shape: text, a word, a list, or the fields of a mapping. A mapping may take
fields that it does not have itself from others, which its merge key names. Every look at a node is counted,
and a document of which almost all looks are owed to aliases is refused.
-/

set_option autoImplicit false

namespace StackMachine.Yaml

/-- How many looks were taken at nodes, and how many of them through an alias. -/
structure Looks where
  all : Nat := 0
  aliased : Nat := 0

/-- Up to 400000 looks, 99 of 100 may go through aliases; from there the share falls evenly to one in ten at
4000000. -/
def Looks.areExcessive (l : Looks) : Bool :=
  100 < l.aliased && 1000 < l.all &&
    if l.all ≤ 400000 then 99 * l.all < 100 * l.aliased
    else if 4000000 ≤ l.all then l.all < 10 * l.aliased
    else (99 * 3600000 - 89 * (l.all - 400000)) * l.all < 360000000 * l.aliased

abbrev Reading := StateT Looks Option

def look (aliased : Bool) : Reading Unit := fun l =>
  let l : Looks := { all := l.all + 1, aliased := if aliased then l.aliased + 1 else l.aliased }
  if l.areExcessive then none else some ((), l)

/-- A node and how it was reached: whether through an alias, and which numbered nodes it is inside of. -/
structure Place where
  node : Node
  aliased : Bool := false
  inside : List Nat := []

/-- Another node reached the same way. -/
def Place.at (p : Place) (n : Node) : Place :=
  { p with node := n }

/-- Looks at a node, and for an alias at the node it stands for. No node may be inside itself. -/
def Document.visit (d : Document) (p : Place) : Reading Place := do
  look p.aliased
  match p.node with
  | .alias _ target =>
    if p.inside.contains target then failure
    else
      match d.named.lookup target with
      | some n =>
        look true
        return { node := n, aliased := true, inside := target :: p.inside }
      | none => failure
  | _ => return p

/-- The content of a scalar. -/
def Document.scalar (d : Document) (p : Place) : Reading Content := do
  match (← d.visit p).node with
  | .scalar text tag => (content? tag text : Option Content)
  | _ => failure

/-- A text, unless there is nothing. -/
def Document.text (d : Document) (p : Place) : Reading (Option String) := do
  match ← d.scalar p with
  | .nothing => return none
  | .text s _ => return some s

def Document.word (d : Document) (p : Place) : Reading (Option Word) := do
  match ← d.scalar p with
  | .nothing => return none
  | .text _ (some w) => return some w
  | .text _ none => failure

/-- A list; items that are nothing are left out. -/
def Document.list {α : Type} (d : Document) (item : Place → Reading (Option α)) (p : Place) :
    Reading (List α) := do
  let p ← d.visit p
  match p.node with
  | .sequence items => return (← items.mapM fun n => item (p.at n)).reduceOption
  | .scalar text tag =>
    match ← (content? tag text : Option Content) with
    | .nothing => return []
    | .text _ _ => failure
  | _ => failure

/-! ### Fields of mappings -/

namespace Node

/-- Keys are the same if they are nodes of one kind with the same text; collections have none. -/
def sameKey : Node → Node → Bool
  | .scalar a _, .scalar b _ => a == b
  | .sequence _, .sequence _ => true
  | .mapping _, .mapping _ => true
  | .alias a _, .alias b _ => a == b
  | _, _ => false

def hasTwice : List (Node × Node) → Bool
  | [] => false
  | e :: es => es.any (fun f => sameKey e.1 f.1) || hasTwice es

def isMerge : Node → Bool
  | .scalar "<<" .merge => true
  | _ => false

end Node

/-- What a value does with the entry of a key; keys of no meaning are passed over. -/
abbrev Fields (α : Type) := String → Option (Place → α → Reading α)

/-- A value that may have been read off fields, and the keys whose fields are settled while merging. -/
structure Merged (α : Type) where
  value : α
  settled : Option (List String) := none

/-- Reads the entries of a mapping but for its merge key. No field is given twice. -/
def Document.entries {α : Type} (d : Document) (fields : Fields α) (p : Place) :
    List String → Merged α → List (Node × Node) → Reading (Merged α)
  | _, m, [] => return m
  | seen, m, (k, v) :: rest => do
    if k.isMerge then d.entries fields p seen m rest
    else
      match ← d.text (p.at k) with
      | none => d.entries fields p seen m rest
      | some key =>
        if (m.settled.getD []).contains key then d.entries fields p seen m rest
        else
          let settled := m.settled.map (key :: ·)
          match fields key with
          | none => d.entries fields p seen { m with settled := settled } rest
          | some read =>
            if seen.contains key then failure
            else
              let x ← read (p.at v) m.value
              d.entries fields p (key :: seen) { value := x, settled := settled } rest

/-- The keys of a mapping, looked at once more. -/
def Document.keys (d : Document) (p : Place) (entries : List (Node × Node)) : Reading (List String) := do
  return (← entries.mapM fun e => d.text (p.at e.1)).reduceOption

mutual

/-- Reads the fields of a mapping at `p`, then those it takes from others. -/
def Document.mapping {α : Type} (d : Document) (fields : Fields α) :
    Nat → Place → List (Node × Node) → Merged α → Reading (Merged α)
  | 0, _, _, _ => failure
  | fuel + 1, p, entries, m => do
    if Node.hasTwice entries then failure
    else
      let m ← d.entries fields p [] m entries
      match entries.find? fun e => e.1.isMerge with
      | none => return m
      | some (_, source) =>
        let settled ← match m.settled with
          | some keys => pure keys
          | none => d.keys p entries
        let merged ← match source with
          | .sequence items => d.mergeAll fields fuel p items { m with settled := some settled }
          | n => d.merge fields fuel (p.at n) { m with settled := some settled }
        return { merged with settled := m.settled.bind fun _ => merged.settled }

/-- Takes fields from a mapping. -/
def Document.merge {α : Type} (d : Document) (fields : Fields α) :
    Nat → Place → Merged α → Reading (Merged α)
  | 0, _, _ => failure
  | fuel + 1, p, m => do
    let p ← d.visit p
    match p.node with
    | .mapping entries => d.mapping fields fuel p entries m
    | _ => failure

/-- Takes fields from mappings, the first one first. -/
def Document.mergeAll {α : Type} (d : Document) (fields : Fields α) :
    Nat → Place → List Node → Merged α → Reading (Merged α)
  | 0, _, _, _ => failure
  | _, _, [], m => return m
  | fuel + 1, p, n :: ns, m => do
    let m ← d.merge fields fuel (p.at n) m
    d.mergeAll fields fuel p ns m

end

/-- Reads the fields of a mapping into a value, unless there is nothing. -/
def Document.fields {α : Type} (d : Document) (fields : Fields α) (p : Place) (x : α) :
    Reading (Option α) := do
  let p ← d.visit p
  match p.node with
  | .mapping entries =>
    let fuel := (d.size + 4) * (d.named.length + 4)
    return some (← d.mapping fields fuel p entries { value := x }).value
  | .scalar text tag =>
    match ← (content? tag text : Option Content) with
    | .nothing => return none
    | .text _ _ => failure
  | _ => failure

end StackMachine.Yaml
