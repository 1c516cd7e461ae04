import StackMachine.Machine.Run
import StackMachine.Verification

/-!
# Program images

A program together with its function table, its sizing and the name of the function to start at. An image
is any such record; a valid one has the current version, no negative sizing, a proper table, an entry that
exists and code without findings.
-/

set_option autoImplicit false

namespace StackMachine

/-- Lists may be absent, which differs from empty; an empty `entry` stands for the entry descriptor. -/
structure Image where
  version : UInt8 := 0
  name : String := ""
  globals : Word := 0
  entry : String := ""
  functions : Option (List Descriptor) := none
  code : Option (List Word) := none
  stackSize : Word := 0
  maxDepth : Word := 0
  deriving DecidableEq, Repr

inductive ImageError where
  | malformed
  | version (v : UInt8)
  | negativeSizing (image : String)
  | table (image : String) (e : TableError)
  | noEntry (image entry : String)
  | code (image : String) (findings : List Finding)
  deriving DecidableEq, Repr

def ImageError.message : ImageError → String
  | malformed => "dist: unmarshal image"
  | version v => "dist: unsupported image version " ++ Text.decimal v.toNat
  | negativeSizing image => "dist: negative sizing in image " ++ Text.quoted image
  | table image e => "dist: image " ++ Text.quoted image ++ ": " ++ e.message
  | noEntry image entry =>
    "dist: image " ++ Text.quoted image ++ ": entry function " ++ Text.quoted entry ++ " not defined"
  | code image findings => "dist: image " ++ Text.quoted image ++ ": " ++ Verification.message findings

namespace Image

def currentVersion : UInt8 := 1

def words (img : Image) : Array Word :=
  (img.code.getD []).toArray

def table (img : Image) : Except TableError FunctionTable :=
  FunctionTable.ofList (img.functions.getD [])

def validate (img : Image) : Except ImageError Unit :=
  if img.version ≠ currentVersion then .error (.version img.version)
  else if img.globals < 0 ∨ img.stackSize < 0 ∨ img.maxDepth < 0 then .error (.negativeSizing img.name)
  else
    match img.table with
    | .error e => .error (.table img.name e)
    | .ok t =>
      if img.entry ≠ "" ∧ (t.idOf? img.entry).isNone then .error (.noEntry img.name img.entry)
      else
        match Verification.findings img.words img.globals (some t) with
        | [] => .ok ()
        | findings => .error (.code img.name findings)

/-- Why no machine could be made for an image. -/
inductive MachineError where
  | table (e : TableError)
  | setup (e : Machine.SetupError)
  deriving DecidableEq, Repr

def MachineError.message : MachineError → String
  | table e => e.message
  | setup e => e.message

def sizing (img : Image) : Sizing where
  stackSize := some img.stackSize
  maxDepth := some img.maxDepth

/-- A machine sized by the image, and then by the options. -/
def machine (img : Image) (o : Machine.Options) : Except MachineError Machine :=
  match img.table with
  | .error e => .error (.table e)
  | .ok t =>
    (Machine.make img.words img.globals (some t) (Limits.adjust {} img.sizing) o).mapError .setup

/-- Runs a machine from the image's entry point. -/
def execute (img : Image) (ctx : Context) (m : Machine) : Machine × Option Machine.Failure :=
  if img.entry = "" then m.executeEntry ctx else m.executeFunction ctx img.entry

end Image
end StackMachine
