import StackMachine.Manifest.Basic
import StackMachine.Text.Bytes
import StackMachine.Toml.Table

/-!
# Manifests in TOML

The tables `program` and `code` and the array of tables `function`. The case of keys does not matter, keys
of no meaning are passed over, and a value of another type than its field has is refused.
-/

set_option autoImplicit false

namespace StackMachine.Toml

/-- The small Latin letter that a character is a case of; the long s and the sign of the kelvin count. -/
def foldedChar (c : Char) : Char :=
  if c = '\u017f' then 's' else if c = '\u212a' then 'k' else c.toLower

/-- A key up to case. -/
def folded (key : String) : String :=
  String.ofList (key.toList.map foldedChar)

def Value.text? : Value → Option String
  | .string s => some s
  | _ => none

def Value.word? : Value → Option Word
  | .integer n => Word.ofInt? n
  | _ => none

def Value.words? : Value → Option (List Word)
  | .array items => items.mapM Value.word?
  | _ => none

def Value.entries? : Value → Option Entries
  | .table es => some es
  | _ => none

def Value.elements? : Value → Option (List Entries)
  | .array items => items.mapM Value.entries?
  | .tables elements => some elements
  | _ => none

/-- Reads an entry of a `program` table. -/
def programEntry (m : Manifest) (e : String × Value) : Option Manifest :=
  match folded e.1 with
  | "name" => e.2.text?.map fun s => { m with name := s }
  | "globals" => e.2.word?.map fun n => { m with globals := n }
  | "entry" => e.2.text?.map fun s => { m with entry := s }
  | "stack-size" => e.2.word?.map fun n => { m with stackSize := n }
  | "max-depth" => e.2.word?.map fun n => { m with maxDepth := n }
  | _ => some m

/-- Reads an entry of a `function` table. -/
def functionEntry (f : Declaration) (e : String × Value) : Option Declaration :=
  match folded e.1 with
  | "name" => e.2.text?.map fun s => { f with name := s }
  | "args" => e.2.word?.map fun n => { f with args := n }
  | "locals" => e.2.word?.map fun n => { f with locals := n }
  | "address" => e.2.word?.map fun n => { f with address := n }
  | "label" => e.2.text?.map fun s => { f with label := s }
  | _ => some f

/-- Reads an entry of a `code` table. -/
def codeEntry (m : Manifest) (e : String × Value) : Option Manifest :=
  match folded e.1 with
  | "words" => e.2.words?.map fun ws => { m with words := ws }
  | "asm" => e.2.text?.map fun s => { m with asm := s }
  | _ => some m

/-- Reads an entry of the document. -/
def manifestEntry (m : Manifest) (e : String × Value) : Option Manifest :=
  match folded e.1 with
  | "program" => e.2.entries?.bind (·.foldlM programEntry m)
  | "function" => do
    let elements ← e.2.elements?
    let fs ← elements.mapM (·.foldlM functionEntry {})
    return { m with functions := fs }
  | "code" => e.2.entries?.bind (·.foldlM codeEntry m)
  | _ => some m

/-- A mark of byte order in front of the text does not count. -/
def dropMark : Bytes → Bytes
  | 0xff :: 0xfe :: bs => bs
  | 0xfe :: 0xff :: bs => bs
  | 0xef :: 0xbb :: 0xbf :: bs => bs
  | bs => bs

/-- The manifest of a TOML file as it is written, without defaults. -/
def manifest? (bs : Bytes) : Option Manifest := do
  let text ← Bytes.text? (dropMark bs)
  let entries ← read text
  entries.foldlM manifestEntry {}

end StackMachine.Toml
