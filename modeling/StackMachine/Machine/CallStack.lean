import StackMachine.FunctionTable

/-!
# Call stacks

Frames are kept by depth. A frame that is left stays in its place, and the next call at that depth takes it
over with its storage; the slots of a frame are the low cells of that storage. The outermost frame has no
slots and nowhere to return.
-/

set_option autoImplicit false

namespace StackMachine

/-- Something was addressed that is not there, or more memory was asked for than is ever given out. What was asked
for is given up where it stands; the machine is not stopped by this. -/
inductive Abandoned where
  | index (i : Int) (size : Nat)
  | slice (low high : Int) (capacity : Nat)
  | frameSize (size : Word)
  | allocation
  | noFrame
  deriving DecidableEq, Repr

def Abandoned.message : Abandoned → String
  | index i size =>
    "runtime error: index out of range [" ++ Text.decimal i ++ "]" ++
      (if i < 0 then "" else " with length " ++ Text.decimal size)
  | slice low high capacity =>
    "runtime error: slice bounds out of range " ++
      (if high < 0 then "[:" ++ Text.decimal high ++ "]"
      else if capacity < high then "[:" ++ Text.decimal high ++ "] with capacity " ++ Text.decimal capacity
      else if low < 0 then "[" ++ Text.decimal low ++ ":]"
      else "[" ++ Text.decimal low ++ ":" ++ Text.decimal high ++ "]")
  | frameSize size => "runtime error: slice bounds out of range [:" ++ size.text ++ "]"
  | allocation => "runtime error: makeslice: len out of range"
  | noFrame => "runtime error: invalid memory address or nil pointer dereference"

/-- The most words that one block of memory can have; they take 2^48 bytes. -/
def largestBlock : Nat := 35184372088832

/-- A block of zeroed words; one that is too large is refused. -/
def allocate (size : Nat) : Except Abandoned (Array Word) :=
  if size ≤ largestBlock then .ok (Array.replicate size 0) else .error .allocation

/-- One activation of a function; arguments occupy the low slots. -/
structure Frame where
  function : Descriptor := { name := "" }
  returnAddress : Int := 0
  /-- Position of the calling frame counted from the outermost one, −1 for the outermost frame itself. -/
  invoker : Int := 0
  storage : Array Word := #[]
  /-- How many cells of the storage are slots. -/
  size : Nat := 0
  deriving DecidableEq, Repr

namespace Frame

def slots (f : Frame) : Array Word :=
  f.storage.take f.size

def slot? (f : Frame) (i : Word) : Option Word :=
  (i.index? f.size).bind fun i => f.storage[i]?

def setCell (f : Frame) (i : Nat) (v : Word) : Frame :=
  { f with storage := f.storage.setIfInBounds i v }

/-- A frame with `size` zeroed slots, in the same storage if that is large enough and else in a new block. -/
def resize (f : Frame) (size : Word) : Except Abandoned Frame :=
  if size.toInt ≤ f.storage.size then
    match size.index? (f.storage.size + 1) with
    | some n => .ok { f with storage := Array.replicate n 0 ++ f.storage.drop n, size := n }
    | none => .error (.frameSize size)
  else
    match allocate size.toInt.toNat with
    | .ok block => .ok { f with storage := block, size := size.toInt.toNat }
    | .error a => .error a

/-- Copies values into the low slots, as far as there are slots. -/
def fill (f : Frame) (values : Array Word) : Frame :=
  let n := min f.size values.size
  { f with storage := values.take n ++ f.storage.drop n }

end Frame

structure CallStack where
  /-- All frames ever used, by depth. -/
  frames : Array Frame := #[]
  /-- How many of them are active. -/
  depth : Nat := 0
  deriving DecidableEq, Repr

theorem reverse_take_succ {α : Type} {l : List α} {n : Nat} {a : α} (h : l[n]? = some a) :
    (l.take (n + 1)).reverse = a :: (l.take n).reverse := by
  rw [List.take_add_one, h]
  simp

namespace CallStack

def reset (c : CallStack) : CallStack :=
  { c with depth := 0 }

/-- Makes a place for a frame at the current depth. -/
def grow (c : CallStack) : CallStack :=
  if c.depth = c.frames.size then { c with frames := c.frames.push {} } else c

/-- Puts a frame at the current depth and activates it. -/
def activate (c : CallStack) (f : Frame) : CallStack :=
  { c with frames := c.frames.setIfInBounds c.depth f, depth := c.depth + 1 }

/-- Gives up the innermost active frame, which stays in its place. -/
def leave (c : CallStack) : CallStack :=
  { c with depth := c.depth - 1 }

def active? (c : CallStack) : Option Frame :=
  if c.depth = 0 then none else c.frames[c.depth - 1]?

def modifyActive (c : CallStack) (f : Frame → Frame) : CallStack :=
  { c with frames := c.frames.modify (c.depth - 1) f }

/-- The active frames, innermost first. -/
def toList (c : CallStack) : List Frame :=
  (c.frames.toList.take c.depth).reverse

theorem depth_grow (c : CallStack) : c.grow.depth = c.depth := by
  unfold grow
  split <;> rfl

theorem grow_lt {c : CallStack} (h : c.depth ≤ c.frames.size) : c.depth < c.grow.frames.size := by
  unfold grow
  split
  · simp only [Array.size_push]
    omega
  · omega

theorem length_toList {c : CallStack} (h : c.depth ≤ c.frames.size) : c.toList.length = c.depth := by
  simp [toList, h]

theorem toList_grow {c : CallStack} (h : c.depth ≤ c.frames.size) : c.grow.toList = c.toList := by
  unfold grow
  split
  · simp [toList, List.take_append_of_le_length, h]
  · rfl

theorem toList_activate {c : CallStack} (f : Frame) (h : c.depth < c.frames.size) :
    (c.activate f).toList = f :: c.toList := by
  have hf : (c.frames.toList.set c.depth f)[c.depth]? = some f := by simp [h]
  change ((c.frames.setIfInBounds c.depth f).toList.take (c.depth + 1)).reverse = _
  rw [Array.toList_setIfInBounds, reverse_take_succ hf, List.take_set_of_le (Nat.le_refl _)]
  rfl

theorem active?_eq_some_iff {c : CallStack} {f : Frame} :
    c.active? = some f ↔ ∃ n, c.depth = n + 1 ∧ c.frames[n]? = some f := by
  unfold active?
  split
  next h0 =>
    simp only [reduceCtorEq, false_iff]
    rintro ⟨n, hn, -⟩
    omega
  next h0 =>
    constructor
    · intro hf
      exact ⟨c.depth - 1, by omega, hf⟩
    · rintro ⟨n, hn, hf⟩
      rw [hn]
      exact hf

theorem toList_of_active {c : CallStack} {f : Frame} (hf : c.active? = some f) :
    c.toList = f :: c.leave.toList := by
  obtain ⟨n, hn, hf⟩ := active?_eq_some_iff.mp hf
  rw [← Array.getElem?_toList] at hf
  simp only [toList, leave, hn, Nat.add_sub_cancel]
  exact reverse_take_succ hf

theorem active?_activate {c : CallStack} (f : Frame) (h : c.depth < c.frames.size) :
    (c.activate f).active? = some f :=
  active?_eq_some_iff.mpr ⟨c.depth, rfl, by simp [activate, h]⟩

theorem toList_leave_activate {c : CallStack} (f : Frame) (h : c.depth < c.frames.size) :
    (c.activate f).leave.toList = c.toList :=
  (List.cons.inj ((toList_of_active (active?_activate f h)).symm.trans (toList_activate f h))).2

theorem toList_modifyActive {c : CallStack} {f : Frame} (g : Frame → Frame) (hf : c.active? = some f) :
    (c.modifyActive g).toList = g f :: c.leave.toList := by
  obtain ⟨n, hn, hf⟩ := active?_eq_some_iff.mp hf
  have hg : (c.frames.modify n g)[n]? = some (g f) := by
    rw [Array.getElem?_modify, if_pos rfl, hf]
    rfl
  have htake : (c.frames.modify n g).toList.take n = c.frames.toList.take n := by
    rw [Array.toList_modify, List.take_modify, List.modify_eq_self (List.length_take_le n _)]
  rw [← Array.getElem?_toList] at hg
  simp only [toList, modifyActive, leave, hn, Nat.add_sub_cancel]
  rw [reverse_take_succ hg, htake]

end CallStack
end StackMachine
