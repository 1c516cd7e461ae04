import StackMachine.Toml.Reader

/-!
# TOML tables

Statements build one tree of tables. A table that only a longer name has mentioned is *implied* and may
still be opened by a header of its own, once; every other name is given one time only. An array under an
implied name is replaced by the table.
-/

set_option autoImplicit false

namespace StackMachine.Toml

inductive Value where
  | string (s : String)
  | integer (n : Int)
  | float
  | boolean (b : Bool)
  | moment
  | array (items : List Value)
  | table (entries : List (String × Value))
  | tables (elements : List (List (String × Value)))

abbrev Entries := List (String × Value)

def Entries.set (es : Entries) (key : String) (v : Value) : Entries :=
  match es with
  | [] => [(key, v)]
  | (k, old) :: es => if k = key then (k, v) :: es else (k, old) :: Entries.set es key v

/-- Changes the entries of the table at a path; the last element stands for an array of tables. -/
def Entries.modifyAt (f : Entries → Option Entries) : Path → Entries → Option Entries
  | [], es => f es
  | key :: path, es =>
    match es.lookup key with
    | some (.table inner) => do
      let inner ← Entries.modifyAt f path inner
      return es.set key (.table inner)
    | some (.tables elements) => do
      let last ← elements.getLast?
      let last ← Entries.modifyAt f path last
      return es.set key (.tables (elements.dropLast ++ [last]))
    | _ => none

/-- The tree so far, the implied tables, and the names that hold arrays. -/
structure Tree where
  root : Entries := []
  implied : List Path := []
  arrays : List Path := []

namespace Tree

def imply (t : Tree) (path : Path) : Tree :=
  { t with implied := path :: t.implied }

def unimply (t : Tree) (path : Path) : Tree :=
  { t with implied := t.implied.filter (· ≠ path) }

/-- Notes whether a name holds an array. -/
def mark (t : Tree) (path : Path) (isArray : Bool) : Tree :=
  { t with arrays := if isArray then path :: t.arrays else t.arrays.filter (· ≠ path) }

/-- Notes whether `key` of the table at `context` holds an array. Of an empty key the note goes to the table
itself. -/
def markKey (t : Tree) (context : Path) (key : String) (isArray : Bool) : Tree :=
  if key = "" ∧ context ≠ [] then t.mark context isArray else t.mark (context ++ [key]) isArray

def entriesAt (path : Path) (es : Entries) : Option Entries :=
  match path with
  | [] => some es
  | key :: path =>
    match es.lookup key with
    | some (.table inner) => entriesAt path inner
    | some (.tables elements) => elements.getLast?.bind (entriesAt path)
    | _ => none

/-- Gives `key` of the table at `context` a value. -/
def put (t : Tree) (context : Path) (key : String) (v : Value) : Option Tree := do
  let path := context ++ [key]
  let es ← entriesAt context t.root
  let write : Option Tree := do
    let root ← Entries.modifyAt (fun es => some (es.set key v)) context t.root
    return { t with root := root }
  match es.lookup key with
  | none => write
  | some _ =>
    if t.implied.contains path then
      (if t.arrays.contains path then write else some t).map (·.unimply path)
    else none

/-- Makes sure that every table on the way to `path` is there, from the tables of `context` on. -/
def ensure (t : Tree) (context : Path) : Path → Option Tree
  | [] => some t
  | key :: path => do
    let es ← entriesAt context t.root
    match es.lookup key with
    | none =>
      let root ← Entries.modifyAt (fun es => some (es.set key (.table []))) context t.root
      ensure ({ t with root := root }.imply (context ++ [key])) (context ++ [key]) path
    | some (.table _) | some (.tables _) => ensure t (context ++ [key]) path
    | some _ => none

/-- Opens the table of a header. -/
def openTable (t : Tree) (path : Path) : Option Tree := do
  let t ← t.ensure [] path.dropLast
  t.put path.dropLast (path.getLastD "") (.table [])

/-- Appends an empty element to an array of tables. -/
def openElement (t : Tree) (path : Path) : Option Tree := do
  let t ← t.ensure [] path.dropLast
  let key := path.getLastD ""
  let root ← Entries.modifyAt (fun es =>
    match es.lookup key with
    | none => some (es.set key (.tables [[]]))
    | some (.tables elements) => some (es.set key (.tables (elements ++ [[]])))
    | some _ => none) path.dropLast t.root
  return { t with root := root }

/-- Opens the tables that the keys before the last one of a dotted name stand for. -/
def openDotted (t : Tree) (context : Path) : Path → Option (Tree × Path)
  | [] => some (t, context)
  | key :: path => do
    let t ← (t.imply (context ++ [key])).openTable (context ++ [key])
    openDotted t (context ++ [key]) path

end Tree

/-- Writes a value at a dotted name below a table value, making tables on the way. -/
def Entries.insertAt (v : Value) (last : String) : Path → Entries → Option Entries
  | [], es => some (es.set last v)
  | key :: path, es =>
    match es.lookup key with
    | none => do
      let inner ← Entries.insertAt v last path []
      return es.set key (.table inner)
    | some (.table inner) => do
      let inner ← Entries.insertAt v last path inner
      return es.set key (.table inner)
    | some _ => none

def Expr.isArray : Expr → Bool
  | .array _ => true
  | _ => false

mutual

/-- The value that `key` of the table at `context` is given, and the tree with the tables inside it. -/
def Expr.value (t : Tree) (context : Path) (key : String) (inArray : Bool) : Expr → Option (Value × Tree)
  | .string s => some (.string s, t)
  | .integer n => some (.integer n, t)
  | .float => some (.float, t)
  | .boolean b => some (.boolean b, t)
  | .moment => some (.moment, t)
  | .array items => do
    let (vs, t) ← Expr.values (t.markKey context key true) context key items
    return (.array vs, t)
  | .inline entries => do
    let path := context ++ [key]
    let t ← if inArray then (t.imply path).openElement path else (t.imply path).openTable path
    let (es, t) ← Expr.fields t path [] entries
    return (.table es, t)

def Expr.values (t : Tree) (context : Path) (key : String) : List Expr → Option (List Value × Tree)
  | [] => some ([], t)
  | e :: es => do
    let (v, t) ← e.value t context key true
    let (vs, t) ← Expr.values t context key es
    return (v :: vs, t)

def Expr.fields (t : Tree) (context : Path) (done : Entries) :
    List (Path × Expr) → Option (Entries × Tree)
  | [] => some (done, t)
  | (path, e) :: rest => do
    let key := path.getLastD ""
    let (t, inner) ← t.openDotted context path.dropLast
    let (v, t) ← e.value t inner key false
    let t ← t.put inner key v
    let done ← done.insertAt v key path.dropLast
    Expr.fields (t.markKey inner key e.isArray) context done rest

end

/-- Carries out one statement; `context` is the table that the last header opened. -/
def Statement.perform (t : Tree) (context : Path) : Statement → Option (Tree × Path)
  | .table path => do
    let t ← t.openTable path
    return (t.mark path false, path)
  | .element path => do
    let t ← t.openElement path
    return (t.mark path false, path)
  | .assign path e => do
    let key := path.getLastD ""
    let (t, inner) ← t.openDotted context path.dropLast
    let (v, t) ← e.value t inner key false
    let t ← t.put inner key v
    return (t.markKey inner key e.isArray, context)

def build (t : Tree) (context : Path) : List Statement → Option Entries
  | [] => some t.root
  | s :: rest => do
    let (t, context) ← s.perform t context
    build t context rest

/-- The tables of a document. -/
def read (text : String) : Option Entries := do
  build {} [] (← statements text)

end StackMachine.Toml
