import StackMachine.CommandLine.Run
import StackMachine.RunStore.Codec
import StackMachine.RunStore.Location

/-!
# Commands in a directory

A directory of files in which one command runs after another. Files that a command leaves behind are there for
the next, and a run store is one of them.
-/

set_option autoImplicit false

namespace StackMachine.CommandLine

structure Workspace where
  files : FileTree := {}

namespace Workspace

/-- The store in a file, or a new one where there is none. Before a file is opened, every part of its path is
looked at, so that one below another file is out of reach. -/
def openStore (w : Workspace) (name : String) : Except OpenError RunStore :=
  match StoreLocation.ofName name with
  | .memory => .ok {}
  | .file _ true _ => .error .unreachable
  | .file _ false parts =>
    match w.files.walk [] parts with
    | .ok (.vacant _) => .ok {}
    | .ok (.file _ content) =>
      match RunStore.ofFile? content with
      | some store => .ok store
      | none => .error .notStore
    | _ => .error .unreachable

def host (w : Workspace) (o : Occasion) : Host where
  read := w.files.read
  refuses := fun path =>
    match w.files.write path [] with
    | .ok _ => none
    | .error e => some e
  openStore := w.openStore
  occasion := o

def keepFile (w : Workspace) (written : Option (String × Bytes)) : Workspace :=
  match written with
  | none => w
  | some (path, content) =>
    match w.files.write path content with
    | .ok files => { w with files := files }
    | .error _ => w

def keepStore (w : Workspace) (stored : Option (String × RunStore)) : Workspace :=
  match stored with
  | none => w
  | some (name, store) =>
    match StoreLocation.ofName name with
    | .memory => w
    | .file _ _ parts => { w with files := w.files.set parts store.encode }

/-- Runs the command and keeps what it leaves behind. -/
def run (w : Workspace) (o : Occasion) (arguments : List String) : Outcome × Workspace :=
  let outcome := CommandLine.run (w.host o) arguments
  (outcome, (w.keepStore outcome.stored).keepFile outcome.written)

end Workspace
end StackMachine.CommandLine
