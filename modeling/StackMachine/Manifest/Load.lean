import StackMachine.FileTree
import StackMachine.Image.Codec
import StackMachine.Manifest.Toml
import StackMachine.Manifest.Yaml

/-!
# Program files

A program file is a manifest in TOML or YAML, or an encoded image; the extension of its name says which.
-/

set_option autoImplicit false

namespace StackMachine

inductive LoadError where
  | unreadable (path : String) (e : FileError)
  | unparsable (path : String)
  | unsupported (extension : String)
  | manifest (e : ManifestError)
  | image (e : ImageError)
  deriving DecidableEq, Repr

def LoadError.message : LoadError → String
  | unreadable path e => "cannot read " ++ path ++ ": " ++ e.message
  | unparsable path => "parse error in " ++ path
  | unsupported extension => "unsupported program file extension " ++ Text.quoted extension
  | manifest e => e.message
  | image e => e.message

/-- How the content of a file is found by its path. -/
abbrev FileReader := String → Except FileError Bytes

/-- The manifest that the content of a file spells; the extension is in lower case. -/
def Manifest.parse (path extension : String) (content : Bytes) : Except LoadError Manifest :=
  let parsed (m : Option Manifest) : Except LoadError Manifest :=
    match m with
    | some m => .ok m
    | none => .error (.unparsable path)
  if extension = ".toml" then parsed (Toml.manifest? content)
  else if extension = ".yaml" ∨ extension = ".yml" then parsed (Yaml.manifest? content)
  else .error (.unsupported extension)

/-- Reads a manifest and fills in what it leaves out. -/
def Manifest.load (read : FileReader) (path : String) : Except LoadError Manifest := do
  let content ← (read path).mapError (.unreadable path)
  let m ← Manifest.parse path (Text.lower (extensionOf path)) content
  return m.withDefaults (stemOf path)

/-- Reads a program file as a valid image. -/
def Image.load (read : FileReader) (path : String) : Except LoadError Image := do
  if Text.lower (extensionOf path) = ".cbor" then
    let content ← (read path).mapError (.unreadable path)
    (Image.decodeValid content).mapError .image
  else
    let m ← Manifest.load read path
    m.image.mapError .manifest

end StackMachine
