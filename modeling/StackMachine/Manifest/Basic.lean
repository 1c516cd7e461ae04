import StackMachine.Assembly.Assembler
import StackMachine.Image.Basic

/-!
# Manifests

A manifest declares a program: its sizing, its functions, and its code either as words or as assembler
text. Making an image assembles the text, gives the functions ids in the order of declaration and finds
their addresses.
-/

set_option autoImplicit false

namespace StackMachine

/-- A declared function. A label, if it is not empty, gives the address instead of `address`. -/
structure Declaration where
  name : String := ""
  args : Word := 0
  locals : Word := 0
  address : Word := 0
  label : String := ""
  deriving DecidableEq, Repr

structure Manifest where
  name : String := ""
  globals : Word := 0
  entry : String := ""
  stackSize : Word := 0
  maxDepth : Word := 0
  functions : List Declaration := []
  words : List Word := []
  asm : String := ""
  deriving DecidableEq, Repr

inductive ManifestError where
  | oneCode (program : String)
  | assembly (program : String) (e : Assembly.Error)
  | unknownLabel (program function label : String)
  | functions (program : String) (e : BuildError)
  | image (e : ImageError)
  deriving DecidableEq, Repr

def ManifestError.message : ManifestError → String
  | oneCode program => "manifest " ++ program ++ ": set exactly one of code.words or code.asm"
  | assembly program e => "manifest " ++ program ++ ": " ++ e.message
  | unknownLabel program function label =>
    "manifest " ++ program ++ ": function " ++ function ++ ": unknown label " ++ Text.quoted label
  | functions program e => "manifest " ++ program ++ ": " ++ e.message
  | image e => e.message

namespace Manifest

def hasWords (m : Manifest) : Bool :=
  !m.words.isEmpty

def hasAsm (m : Manifest) : Bool :=
  !(Text.trim m.asm.toList).isEmpty

/-- A builder in which the declared functions have the first ids. -/
def declared (m : Manifest) : TableBuilder :=
  m.functions.foldl (fun b f => (b.idOf f.name).2) .empty

/-- The code, its labels, and the builder after the code's calls. -/
def assembled (m : Manifest) : Except ManifestError (Assembly.Assembled × TableBuilder) :=
  if m.hasAsm then
    match Assembly.assemble m.asm (some m.declared) with
    | (.error e, _) => .error (.assembly m.name e)
    | (.ok a, b) => .ok (a, b.getD m.declared)
  else .ok ({ code := m.words.toArray, labels := [] }, m.declared)

/-- A function's own label, or else its name if that is a label of the code; `none` if neither gives the
address. -/
def labelOf (labels : List (String × Nat)) (f : Declaration) : Option String :=
  if f.label ≠ "" then some f.label
  else if (labels.lookup f.name).isSome then some f.name
  else none

def addressOf (program : String) (labels : List (String × Nat)) (f : Declaration) :
    Except ManifestError Word :=
  match labelOf labels f with
  | none => .ok f.address
  | some label =>
    match labels.lookup label with
    | some addr => .ok (Int64.ofNat addr)
    | none => .error (.unknownLabel program f.name label)

/-- Defines the declared functions in order. -/
def defineAll (program : String) (labels : List (String × Nat)) (b : TableBuilder) :
    List Declaration → Except ManifestError TableBuilder
  | [] => .ok b
  | f :: fs => do
    let address ← addressOf program labels f
    match b.define { name := f.name, args := f.args, locals := f.locals, address := address } with
    | (_, some e, _) => .error (.functions program e)
    | (_, none, b) => defineAll program labels b fs

/-- The valid image of a manifest. -/
def image (m : Manifest) : Except ManifestError Image := do
  if m.hasWords = m.hasAsm then throw (.oneCode m.name)
  let (a, b) ← m.assembled
  let b ← defineAll m.name a.labels b m.functions
  let table ← b.build.mapError (.functions m.name)
  let img : Image := {
    version := Image.currentVersion
    name := m.name
    globals := m.globals
    entry := m.entry
    functions := some table.entries.toList
    code := some a.code.toList
    stackSize := m.stackSize
    maxDepth := m.maxDepth }
  img.validate.mapError .image
  return img

/-- Fills in what a program file may leave out; `name` is used for a program without a name. -/
def withDefaults (m : Manifest) (name : String) : Manifest :=
  { m with
    name := if m.name = "" then name else m.name
    stackSize := if m.stackSize = 0 then 1000 else m.stackSize
    maxDepth := if m.maxDepth = 0 then 1000 else m.maxDepth
    functions := if m.functions.isEmpty then [{ name := "main" }] else m.functions }

end Manifest
end StackMachine
