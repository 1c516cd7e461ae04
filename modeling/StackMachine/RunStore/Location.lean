import StackMachine.FileTree
import StackMachine.Text.Digits

/-!
# Locations of run stores

Where the name of a run store leads: to memory, or to a file. What follows a question mark does not belong to
the name. After `file:` the name is a URI, with characters given by their numbers and a fragment that does not
count. A file is named by its parts as they are written: a `..` takes back the part before it, also one that
is not there.
-/

set_option autoImplicit false

namespace StackMachine

inductive StoreLocation where
  | memory
  /-- A file whose path as it is given starts at the root of all files, or does not. -/
  | file (path : String) (rooted : Bool) (parts : List String)
  deriving DecidableEq, Repr

namespace StoreLocation

/-- Replaces bytes that are written as a percent sign and two digits. A byte of zero ends the text. -/
def unescapedUri : Nat → List Char → List Char
  | 0, _ => []
  | _, [] => []
  | fuel + 1, '%' :: a :: b :: cs =>
    match Text.digitIn? 16 a, Text.digitIn? 16 b with
    | some m, some n => if 16 * m + n = 0 then [] else Char.ofNat (16 * m + n) :: unescapedUri fuel cs
    | _, _ => '%' :: unescapedUri fuel (a :: b :: cs)
  | fuel + 1, c :: cs => c :: unescapedUri fuel cs

/-- The path of a name. -/
def pathOf (name : List Char) : List Char :=
  let lead := "file:".toList
  if lead.isPrefixOf name then
    let path := (name.drop lead.length).takeWhile fun c => c != '?' && c != '#'
    unescapedUri (path.length + 1) path
  else
    match name with
    | '?' :: _ => name
    | name => name.takeWhile (· != '?')

/-- The parts of a path below the working directory; `..` takes back the last one. -/
def lexicalParts (done : List String) : List String → List String
  | [] => done.reverse
  | part :: rest =>
    if part = "" ∨ part = "." then lexicalParts done rest
    else if part = ".." then lexicalParts done.tail rest
    else lexicalParts (part :: done) rest

def ofName (name : String) : StoreLocation :=
  let path := pathOf (name.toList.takeWhile (· != '\x00'))
  if path.isEmpty ∨ path = ":memory:".toList then .memory
  else .file (String.ofList path) (path.head? == some '/') (lexicalParts [] (pathParts (String.ofList path)))

end StoreLocation
end StackMachine
