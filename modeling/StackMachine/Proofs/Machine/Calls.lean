import StackMachine.Proofs.Machine.Configuration

/-!
# What a call comes to

If there are enough operands, the depth is not used up and the function starts within the code, a call of a function is
made, or abandoned because no frame of its size can be made. Otherwise it is a fault.
-/

set_option autoImplicit false

namespace StackMachine.Machine

/-- Everything that a call of `d` checks. -/
structure Callable (c : Setup) (d : Descriptor) (x : Configuration) : Prop where
  arguments : d.args.toInt ≤ x.stack.length
  depth : x.frames.length < c.limits.maxDepth
  address : d.address.target? c.code.size ≠ none

namespace Configuration

/-- What is left by a call of `d` that goes on at `next` when it returns. -/
def entered (d : Descriptor) (next : Nat) (x : Configuration) : Configuration :=
  { x with
    stack := x.stack.drop d.args.toInt.toNat
    frames := x.activation d next :: x.frames
    stats := x.stats.countCall }

inductive CallResult (c : Setup) (next : Nat) (id : Word) (x : Configuration) :
    Except Stop (Int × Configuration) → Prop
  | unknown (hd : c.table.lookup? id = none) :
    CallResult c next id x (.error (.fault (.unknownFunction id c.table.size)))
  | faulty {d : Descriptor} {reason : Reason} (hd : c.table.lookup? id = some d) (h : ¬ Callable c d x) :
    CallResult c next id x (.error (.fault reason))
  | refused {d : Descriptor} {a : Abandoned} (hd : c.table.lookup? id = some d) (h : Callable c d x)
    (hsize : Frame.refusal? d.frameSize = some a) : CallResult c next id x (.error (.abandoned a))
  | made {d : Descriptor} (hd : c.table.lookup? id = some d) (h : Callable c d x)
    (hsize : Frame.refusal? d.frameSize = none) : CallResult c next id x (.ok (d.address.toInt, x.entered d next))

theorem call_cases (c : Setup) (next : Nat) (id : Word) (x : Configuration) :
    CallResult c next id x (call c next id x) := by
  unfold call
  split
  next hd => exact .unknown hd
  next d hd =>
    split
    next hargs =>
      refine .faulty hd fun h => ?_
      have hle := h.arguments
      omega
    next hargs =>
      split
      next hdepth =>
        refine .faulty hd fun h => ?_
        have hlt := h.depth
        omega
      next hdepth =>
        split
        next haddress => exact .faulty hd fun h => h.address haddress
        next haddress =>
          have hcallable : Callable c d x := ⟨by omega, by omega, haddress⟩
          split
          next hsize => exact .refused hd hcallable hsize
          next hsize => exact .made hd hcallable hsize

end Configuration
end StackMachine.Machine
