import StackMachine.Manifest.Basic
import StackMachine.Yaml.Reading

/-!
# Manifests in YAML

The mappings `program` and `code` and the sequence `functions`. A field without a value keeps its zero, a
text field takes the text of any scalar, keys of no meaning are passed over, and no mapping that is read may
have two entries of one key.
-/

set_option autoImplicit false

namespace StackMachine.Yaml

/-- A field that is set unless there is nothing. -/
def setField {α β : Type} (read : Place → Reading (Option β)) (set : α → β → α) (p : Place) (x : α) :
    Reading α := do
  match ← read p with
  | some y => return set x y
  | none => return x

def programField (d : Document) : Fields Manifest
  | "name" => some (setField d.text fun m s => { m with name := s })
  | "globals" => some (setField d.word fun m w => { m with globals := w })
  | "entry" => some (setField d.text fun m s => { m with entry := s })
  | "stack-size" => some (setField d.word fun m w => { m with stackSize := w })
  | "max-depth" => some (setField d.word fun m w => { m with maxDepth := w })
  | _ => none

def functionField (d : Document) : Fields Declaration
  | "name" => some (setField d.text fun f s => { f with name := s })
  | "args" => some (setField d.word fun f w => { f with args := w })
  | "locals" => some (setField d.word fun f w => { f with locals := w })
  | "address" => some (setField d.word fun f w => { f with address := w })
  | "label" => some (setField d.text fun f s => { f with label := s })
  | _ => none

def codeField (d : Document) : Fields Manifest
  | "words" => some fun p m => do return { m with words := ← d.list d.word p }
  | "asm" => some (setField d.text fun m s => { m with asm := s })
  | _ => none

def manifestField (d : Document) : Fields Manifest
  | "program" => some fun p m => do return (← d.fields (programField d) p m).getD m
  | "functions" => some fun p m => do
    return { m with functions := ← d.list (fun p => d.fields (functionField d) p {}) p }
  | "code" => some fun p m => do return (← d.fields (codeField d) p m).getD m
  | _ => none

/-- Reads the document as a manifest; the document itself is looked at before its root. -/
def Document.manifest (d : Document) : Reading Manifest := do
  match d.root with
  | none => return {}
  | some root =>
    look false
    return (← d.fields (manifestField d) { node := root } {}).getD {}

/-- The manifest of a YAML file as it is written, without defaults. -/
def manifest? (bs : Bytes) : Option Manifest := do
  let d ← document? (streamOf bs)
  (d.manifest.run {}).map (·.1)

end StackMachine.Yaml
