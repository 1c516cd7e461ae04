import StackMachine.CommandLine.Run
import StackMachine.RunStore.Codec
import StackMachine.RunStore.Location

/-!
# The program

Finds out what the command needs from the system, runs it, and writes what it leaves behind.
-/

set_option autoImplicit false

namespace StackMachine.CommandLine

def fileError (path : String) (e : IO.Error) : FileError :=
  match e with
  | .noFileOrDirectory _ _ _ => { path := path, cause := .missing }
  | .inappropriateType _ _ _ => { action := "read", path := path, cause := .isDirectory }
  | e => { path := path, cause := .other (toString e) }

def readFile (path : String) : IO (Except FileError Bytes) := do
  try
    let content ← IO.FS.readBinFile path
    return .ok content.toList
  catch e => return .error (fileError path e)

def isDirectory (path : String) : IO Bool := do
  try
    let resolved ← IO.FS.realPath path
    resolved.isDir
  catch _ => return false

/-- The directory that a path is in. -/
def parentOf (path : String) : String :=
  match (pathParts path).dropLast with
  | [] => "."
  | [""] => "/"
  | parts => "/".intercalate parts

def refusal (path : String) : IO (Option FileError) := do
  if ← isDirectory path then return some { path := path, cause := .isDirectory }
  else if ← isDirectory (parentOf path) then return none
  else return some { path := path, cause := .missing }

def openStoreFile (name : String) : IO (Except OpenError RunStore) := do
  match StoreLocation.ofName name with
  | .memory => return .ok {}
  | .file path _ _ =>
    match ← readFile path with
    | .ok content =>
      match RunStore.ofFile? content with
      | some store => return .ok store
      | none => return .error .notStore
    | .error _ =>
      match ← refusal path with
      | some _ => return .error .unreachable
      | none => return .ok {}

/-- A random identifier in the usual form of 36 characters. -/
def freshId : IO String := do
  let bytes := (← IO.getRandomBytes 16).toList
  let marked := bytes.mapIdx fun i b =>
    if i = 6 then (b &&& 0x0f) ||| 0x40 else if i = 8 then (b &&& 0x3f) ||| 0x80 else b
  let digits := (Bytes.hex marked).toList
  let part (start count : Nat) : String := String.ofList ((digits.drop start).take count)
  return "-".intercalate [part 0 8, part 8 4, part 12 4, part 16 4, part 20 12]

/-- The host for one command: it looks up the files that the arguments name. -/
def systemHost (arguments : List String) : IO Host := do
  let occasion : Occasion := { runId := ← freshId, startedAt := Int64.ofNat (← IO.monoNanosNow) }
  match parse {} arguments with
  | .error _ =>
    return {
      read := fun path => .error { path := path, cause := .missing }
      refuses := fun _ => none
      openStore := fun _ => .error .unreachable
      occasion := occasion }
  | .ok (o, rest) =>
    let content ← readFile (rest.headD "")
    let refused ← refusal o.compile
    let store ← openStoreFile o.store
    return {
      read := fun _ => content
      refuses := fun _ => refused
      openStore := fun _ => store
      occasion := occasion }

def saveFile (path : String) (content : Bytes) : IO Unit :=
  IO.FS.writeBinFile path ⟨content.toArray⟩

def program (arguments : List String) : IO UInt32 := do
  let outcome := run (← systemHost arguments) arguments
  if let some (path, content) := outcome.written then saveFile path content
  if let some (name, store) := outcome.stored then
    if let .file path _ _ := StoreLocation.ofName name then saveFile path store.encode
  IO.print outcome.stdout
  IO.eprint outcome.stderr
  return UInt32.ofNat outcome.exit

end StackMachine.CommandLine

def main (arguments : List String) : IO UInt32 :=
  StackMachine.CommandLine.program arguments
