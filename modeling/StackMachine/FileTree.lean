import StackMachine.Text.Blank
import StackMachine.Text.Bytes

/-!
# Files

A tree of files below a working directory. Directories are there as far as files are in them. Paths are
walked from the left, so every part of a path but the last has to be a directory, also one that `..` leaves
again.
-/

set_option autoImplicit false

namespace StackMachine

inductive FileCause where
  | missing
  | notDirectory
  | isDirectory
  | nameTooLong
  | other (text : String)
  deriving DecidableEq, Repr

def FileCause.text : FileCause → String
  | missing => "no such file or directory"
  | notDirectory => "not a directory"
  | isDirectory => "is a directory"
  | nameTooLong => "file name too long"
  | other text => text

/-- Why a file could not be used: what was tried, on which path, and the cause. -/
structure FileError where
  action : String := "open"
  path : String
  cause : FileCause
  deriving DecidableEq, Repr

def FileError.message (e : FileError) : String :=
  e.action ++ " " ++ e.path ++ ": " ++ e.cause.text

/-- The parts of a path; empty parts stand for repeated slashes. -/
def pathParts (path : String) : List String :=
  (Text.splitAt '/' path.toList).map String.ofList

/-- The last part of a path. -/
def baseName (path : String) : String :=
  (pathParts path).getLastD ""

/-- The text of a name from its last dot on, empty without a dot. -/
def extensionOf (path : String) : String :=
  let back := (baseName path).toList.reverse
  if back.contains '.' then
    String.ofList ('.' :: (back.takeWhile (· != '.')).reverse)
  else ""

/-- The last part of a path without its extension. -/
def stemOf (path : String) : String :=
  String.ofList ((baseName path).toList.take ((baseName path).length - (extensionOf path).length))

/-- Names have at most 255 bytes. -/
def isLongName (part : String) : Bool :=
  255 < part.utf8ByteSize

structure FileTree where
  files : List (List String × Bytes) := []

namespace FileTree

/-- What a path leads to. -/
inductive Place where
  | file (path : List String) (content : Bytes)
  | directory (path : List String)
  | vacant (path : List String)

def isDirectory (t : FileTree) (path : List String) : Bool :=
  path.isEmpty || t.files.any fun f => path.isPrefixOf f.1 && path.length < f.1.length

/-- Walks the parts of a path from a directory on. -/
def walk (t : FileTree) (directory : List String) : List String → Except FileCause Place
  | [] => .ok (.directory directory)
  | part :: rest =>
    if part = "" ∨ part = "." then t.walk directory rest
    else if part = ".." then
      if directory.isEmpty then .error .missing else t.walk directory.dropLast rest
    else if isLongName part then .error .nameTooLong
    else
      let path := directory ++ [part]
      match t.files.lookup path with
      | some content => if rest.isEmpty then .ok (.file path content) else .error .notDirectory
      | none =>
        if t.isDirectory path then t.walk path rest
        else if rest.isEmpty then .ok (.vacant path)
        else .error .missing

/-- What a path of less than 4096 bytes leads to. -/
def resolve (t : FileTree) (path : String) : Except FileCause Place :=
  if path.toList.contains '\x00' then .error (.other "invalid argument")
  else if 4096 ≤ path.utf8ByteSize then .error .nameTooLong
  else
    match path.toList with
    | [] => .error .missing
    | '/' :: _ => .error .missing
    | _ => t.walk [] (pathParts path)

def read (t : FileTree) (path : String) : Except FileError Bytes :=
  match t.resolve path with
  | .ok (.file _ content) => .ok content
  | .ok (.directory _) => .error { action := "read", path := path, cause := .isDirectory }
  | .ok (.vacant _) => .error { path := path, cause := .missing }
  | .error cause => .error { path := path, cause := cause }

/-- Sets the content of the file with the given parts. -/
def set (t : FileTree) (path : List String) (content : Bytes) : FileTree :=
  { files := (path, content) :: t.files.filter fun f => f.1 ≠ path }

/-- The parts of a path without the empty ones at its end. -/
def trimmedParts (path : String) : List String :=
  ((pathParts path).reverse.dropWhile (· == "")).reverse

/-- The place of a file to be written. A slash at the end of the path makes it one of a directory, whatever
is there. -/
def target (t : FileTree) (path : String) : Except FileCause Place :=
  if path.endsWith "/" then
    match t.resolve ("/".intercalate ((trimmedParts path).dropLast ++ ["."])) with
    | .ok _ => .ok (.directory [])
    | .error cause => .error cause
  else t.resolve path

def write (t : FileTree) (path : String) (content : Bytes) : Except FileError FileTree :=
  match t.target path with
  | .ok (.file parts _) => .ok (t.set parts content)
  | .ok (.vacant parts) => .ok (t.set parts content)
  | .ok (.directory _) => .error { path := path, cause := .isDirectory }
  | .error cause => .error { path := path, cause := cause }

/-- Adds a file together with the directories above it. -/
def add (t : FileTree) (path : String) (content : Bytes) : FileTree :=
  t.set ((pathParts path).filter fun part => part ≠ "" ∧ part ≠ ".") content

end FileTree
end StackMachine
