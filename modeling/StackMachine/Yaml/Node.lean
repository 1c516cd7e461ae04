import StackMachine.Yaml.Layout

/-!
# YAML nodes

The tree that the tokens of a document spell. An alias refers to the node of an anchor before it, which may
be one that it is part of. Only the first document of a text is read, so what follows its root does not have
to make sense.
-/

set_option autoImplicit false

namespace StackMachine.Yaml

/-- An alias has the name of its anchor and the number of the node that the anchor belongs to. -/
inductive Node where
  | scalar (text : String) (tag : Tag)
  | sequence (items : List Node)
  | mapping (entries : List (Node × Node))
  | alias (name : String) (target : Nat)

/-- The node that stands where nothing is written. -/
def Node.empty : Node :=
  .scalar "" .implicit

/-- A scalar with the tag that is written with it. Quotes without a tag make text; two less-than signs without
either make the key of a merge. -/
def scalarNode (text : String) (plain : Bool) (tag : Tag) : Node :=
  if tag ≠ .implicit then .scalar text tag
  else if !plain then .scalar text .str
  else if text = "<<" then .scalar text .merge
  else .scalar text .implicit

/-- The tokens to come, the meaning of handles, the number of the node of each anchor, latest first, and the
numbered nodes that are complete. -/
structure Source where
  layout : Layout
  handles : List (String × String) := []
  anchors : List (String × Nat) := []
  named : List (Nat × Node) := []

namespace Source

def peek (s : Source) : Option (Token × Source) := do
  let (t, l) ← s.layout.peek
  return (t, { s with layout := l })

def skip (s : Source) : Source :=
  { s with layout := s.layout.take }

/-- Gives the node that is about to be read a number, if it has an anchor. -/
def register (s : Source) (anchor : Option String) : Source :=
  match anchor with
  | some a => { s with anchors := (a, s.anchors.length) :: s.anchors }
  | none => s

/-- Completes the node with the given number. -/
def complete (s : Source) (number : Option Nat) (n : Node) : Source :=
  match number with
  | some i => { s with named := (i, n) :: s.named }
  | none => s

def anchor? (s : Source) : Option (Option String × Source) := do
  match ← s.peek with
  | (.anchor a, s) => return (some a, s.skip)
  | (_, s) => return (none, s)

def tag? (s : Source) : Option (Option Tag × Source) := do
  match ← s.peek with
  | (.tag handle suffix, s) =>
    return (some (← Tag.resolve? s.handles handle suffix), s.skip)
  | (_, s) => return (none, s)

/-- An anchor and a tag in front of a node, in either order. -/
def properties (s : Source) : Option (Option String × Option Tag × Source) := do
  match ← s.anchor? with
  | (some a, s) =>
    let (tag, s) ← s.tag?
    return (some a, tag, s)
  | (none, s) =>
    match ← s.tag? with
    | (some tag, s) =>
      let (a, s) ← s.anchor?
      return (a, some tag, s)
    | (none, s) => return (none, none, s)

end Source

def Token.endsBlockItem : Token → Bool
  | .blockEntry | .blockEnd => true
  | _ => false

def Token.endsIndentlessItem : Token → Bool
  | .blockEntry | .key | .value | .blockEnd => true
  | _ => false

def Token.endsBlockField : Token → Bool
  | .key | .value | .blockEnd => true
  | _ => false

def Token.endsFlowItem : Token → Bool
  | .flowEntry | .flowSequenceEnd => true
  | _ => false

def Token.endsFlowField : Token → Bool
  | .flowEntry | .flowMappingEnd => true
  | _ => false

mutual

/-- Reads a node. Block collections start only where `block` allows, sequences without an indentation of
their own only where `indentless` does. -/
def readNode : Nat → Bool → Bool → Source → Option (Node × Source)
  | 0, _, _, _ => none
  | fuel + 1, block, indentless, s => do
    match ← s.peek with
    | (.alias a, s) => return (.alias a (← s.anchors.lookup a), s.skip)
    | (_, s) =>
      let (anchor, tag, s) ← s.properties
      let (t, s) ← s.peek
      let number := anchor.map fun _ => s.anchors.length
      let s := s.register anchor
      let done (n : Node) (s : Source) : Option (Node × Source) := some (n, s.complete number n)
      match t with
      | .scalar text plain => done (scalarNode text plain (tag.getD .implicit)) s.skip
      | .flowSequenceStart =>
        let (items, s) ← readFlowItems fuel true [] s.skip
        done (.sequence items) s
      | .flowMappingStart =>
        let (entries, s) ← readFlowFields fuel true [] s.skip
        done (.mapping entries) s
      | t =>
        if indentless && t = .blockEntry then
          let (items, s) ← readIndentlessItems fuel [] s
          done (.sequence items) s
        else if block && t = .blockSequenceStart then
          let (items, s) ← readBlockItems fuel [] s.skip
          done (.sequence items) s
        else if block && t = .blockMappingStart then
          let (entries, s) ← readBlockFields fuel [] s.skip
          done (.mapping entries) s
        else if anchor.isSome || tag.isSome then done (scalarNode "" true (tag.getD .implicit)) s
        else none

/-- Reads a node, or nothing where a token of `stops` comes first. -/
def readNodeUnless : Nat → (Token → Bool) → Bool → Bool → Source → Option (Node × Source)
  | 0, _, _, _, _ => none
  | fuel + 1, stops, block, indentless, s => do
    let (t, s) ← s.peek
    if stops t then return (.empty, s) else readNode fuel block indentless s

/-- The rest of a block sequence; here and below `done` holds what was read before, last first. -/
def readBlockItems : Nat → List Node → Source → Option (List Node × Source)
  | 0, _, _ => none
  | fuel + 1, done, s => do
    match ← s.peek with
    | (.blockEntry, s) =>
      let (n, s) ← readNodeUnless fuel Token.endsBlockItem true false s.skip
      readBlockItems fuel (n :: done) s
    | (.blockEnd, s) => return (done.reverse, s.skip)
    | _ => none

def readIndentlessItems : Nat → List Node → Source → Option (List Node × Source)
  | 0, _, _ => none
  | fuel + 1, done, s => do
    match ← s.peek with
    | (.blockEntry, s) =>
      let (n, s) ← readNodeUnless fuel Token.endsIndentlessItem true false s.skip
      readIndentlessItems fuel (n :: done) s
    | (_, s) => return (done.reverse, s)

def readBlockFields : Nat → List (Node × Node) → Source → Option (List (Node × Node) × Source)
  | 0, _, _ => none
  | fuel + 1, done, s => do
    match ← s.peek with
    | (.key, s) =>
      let (k, s) ← readNodeUnless fuel Token.endsBlockField true true s.skip
      match ← s.peek with
      | (.value, s) =>
        let (v, s) ← readNodeUnless fuel Token.endsBlockField true true s.skip
        readBlockFields fuel ((k, v) :: done) s
      | (_, s) => readBlockFields fuel ((k, .empty) :: done) s
    | (.blockEnd, s) => return (done.reverse, s.skip)
    | _ => none

/-- The items of a flow sequence; a key among them makes a mapping of one entry. -/
def readFlowItems : Nat → Bool → List Node → Source → Option (List Node × Source)
  | 0, _, _, _ => none
  | fuel + 1, first, done, s => do
    match ← s.peek with
    | (.flowSequenceEnd, s) => return (done.reverse, s.skip)
    | (t, s) =>
      if first || t = .flowEntry then
        match ← (if first then s else s.skip).peek with
        | (.flowSequenceEnd, s) => return (done.reverse, s.skip)
        | (.key, s) =>
          let (n, s) ← readPair fuel s.skip
          readFlowItems fuel false (n :: done) s
        | (_, s) =>
          let (n, s) ← readNode fuel false false s
          readFlowItems fuel false (n :: done) s
      else none

/-- The only entry of a mapping inside a flow sequence. -/
def readPair : Nat → Source → Option (Node × Source)
  | 0, _ => none
  | fuel + 1, s => do
    let (t, s) ← s.peek
    let (k, s) ←
      if t = .value ∨ t.endsFlowItem then some (Node.empty, s.skip)
      else readNode fuel false false s
    match ← s.peek with
    | (.value, s) =>
      let (v, s) ← readNodeUnless fuel Token.endsFlowItem false false s.skip
      return (.mapping [(k, v)], s)
    | (_, s) => return (.mapping [(k, .empty)], s)

def readFlowFields : Nat → Bool → List (Node × Node) → Source → Option (List (Node × Node) × Source)
  | 0, _, _, _ => none
  | fuel + 1, first, done, s => do
    match ← s.peek with
    | (.flowMappingEnd, s) => return (done.reverse, s.skip)
    | (t, s) =>
      if first || t = .flowEntry then
        match ← (if first then s else s.skip).peek with
        | (.flowMappingEnd, s) => return (done.reverse, s.skip)
        | (.key, s) =>
          let stops (t : Token) : Bool := t = .value || t.endsFlowField
          let (k, s) ← readNodeUnless fuel stops false false s.skip
          match ← s.peek with
          | (.value, s) =>
            let (v, s) ← readNodeUnless fuel Token.endsFlowField false false s.skip
            readFlowFields fuel false ((k, v) :: done) s
          | (_, s) => readFlowFields fuel false ((k, .empty) :: done) s
        | (_, s) =>
          let (k, s) ← readNode fuel false false s
          readFlowFields fuel false ((k, .empty) :: done) s
      else none

end

/-! ### Documents -/

/-- The directives in front of a document; the version has to be 1.1 and is given once, as is each handle. -/
def readDirectives : Nat → Bool → Source → Option Source
  | 0, _, _ => none
  | fuel + 1, hasVersion, s => do
    match ← s.peek with
    | (.version major minor, s) =>
      if hasVersion ∨ major ≠ 1 ∨ minor ≠ 1 then none else readDirectives fuel true s.skip
    | (.tagHandle handle meaning, s) =>
      if (s.handles.lookup handle).isSome then none
      else readDirectives fuel hasVersion { s.skip with handles := (handle, meaning) :: s.handles }
    | (_, s) => return s

/-- The first document: its root, if the text is not empty, and the nodes of its anchors. -/
structure Document where
  root : Option Node := none
  named : List (Nat × Node) := []
  size : Nat := 0

def Token.isDocumentEdge : Token → Bool
  | .version _ _ | .tagHandle _ _ | .documentStart | .documentEnd | .streamEnd => true
  | _ => false

/-- The root of a document. The token after it has to be there. -/
def readRoot (fuel : Nat) (s : Source) : Option Document := do
  let (n, s) ← readNode fuel true false s
  let (_, s) ← s.peek
  return { root := some n, named := s.named, size := s.layout.size }

def document? (stream : Stream) : Option Document := do
  let fuel := 8 * stream.chars.length + 64
  let (t, s) ← Source.peek { layout := stream.layout }
  match t with
  | .streamEnd => return {}
  | .version _ _ | .tagHandle _ _ | .documentStart =>
    let s ← readDirectives fuel false s
    match ← s.peek with
    | (.documentStart, s) =>
      let (t, s) ← s.skip.peek
      if t.isDocumentEdge then return { root := some .empty } else readRoot fuel s
    | _ => none
  | _ => readRoot fuel s

end StackMachine.Yaml
