import StackMachine.Machine.State

/-!
# Access to cells and frames

Reading and writing what a machine holds, position by position. A position is looked at only when it is used:
an access to one that does not exist is given up there, with whatever the computation had changed before.
-/

set_option autoImplicit false

namespace StackMachine.Machine

/-- A computation on states that may address what is not there. -/
abbrev Access := EStateM Abandoned State

namespace Access

def cell (i : Int) : Access Word := fun s =>
  if h : 0 ≤ i ∧ i.toNat < s.cells.size then .ok s.cells[i.toNat] s
  else .error (.index i s.cells.size) s

def setCell (i : Int) (w : Word) : Access Unit := fun s =>
  if 0 ≤ i ∧ i.toNat < s.cells.size then .ok () { s with cells := s.cells.setIfInBounds i.toNat w }
  else .error (.index i s.cells.size) s

/-- The operands from position `low` up to `high`, which is not included. -/
def cellsBetween (low high : Int) : Access (Array Word) := fun s =>
  if 0 ≤ low ∧ low ≤ high ∧ high ≤ s.cells.size then .ok (s.cells.extract low.toNat high.toNat) s
  else .error (.slice low high s.cells.size) s

def push (w : Word) : Access Unit := do
  modify fun s => { s with sp := s.sp + 1 }
  setCell (← get).sp w

def top : Access Word := do
  cell (← get).sp

def pop : Access Word := do
  let w ← top
  modify fun s => { s with sp := s.sp - 1 }
  return w

def global (i : Word) : Access Word := fun s =>
  match s.global? i with
  | some w => .ok w s
  | none => .error (.index i.toInt s.globals.size) s

def setGlobal (i w : Word) : Access Unit := fun s =>
  match i.index? s.globals.size with
  | some i => .ok () { s with globals := s.globals.setIfInBounds i w }
  | none => .error (.index i.toInt s.globals.size) s

/-- The innermost active frame. -/
def activeFrame : Access Frame := fun s =>
  if s.arena.depth = 0 then .error .noFrame s
  else
    match s.arena.frames[s.arena.depth - 1]? with
    | some f => .ok f s
    | none => .error (.index (s.arena.depth - 1) s.arena.frames.size) s

/-- The first frame that is not active. -/
def idleFrame : Access Frame := fun s =>
  match s.arena.frames[s.arena.depth]? with
  | some f => .ok f s
  | none => .error (.index s.arena.depth s.arena.frames.size) s

/-- Activates a frame with `size` zeroed slots. -/
def enter (d : Descriptor) (returnAddress : Int) (size : Word) : Access Unit := do
  modify fun s => { s with arena := s.arena.grow }
  let f ← idleFrame
  match f.resize size with
  | .error a => throw a
  | .ok f =>
    modify fun s => { s with
      arena := s.arena.activate { f with
        function := d
        returnAddress := returnAddress
        invoker := s.arena.depth - 1 } }

/-- Moves the topmost `n` operands into the low slots of the active frame. They keep the order they were
pushed in, the deepest one in slot zero. -/
def takeArguments (n : Word) : Access Unit := do
  let s ← get
  let values ← cellsBetween (s.sp - n.toInt + 1) (s.sp + 1)
  modify fun s => { s with arena := s.arena.modifyActive (·.fill values), sp := s.sp - n.toInt }

/-- Leaves the active frame and returns it. -/
def leave : Access Frame := do
  modify fun s => { s with arena := s.arena.leave }
  idleFrame

end Access
end StackMachine.Machine
