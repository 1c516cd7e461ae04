import StackMachine.Image.Basic

/-!
# Footprints

The most words a machine for an image can hold: globals, operand stack, and a full call stack of the largest
frame with one word of overhead each. Sums and products stop at the largest word; they are meant for
numbers that are not negative.
-/

set_option autoImplicit false

namespace StackMachine

namespace Word

def largest : Word := 9223372036854775807

def addCapped (a b : Word) : Word :=
  if a > largest - b then largest else a + b

def mulCapped (a b : Word) : Word :=
  if a ≠ 0 ∧ b > largest / a then largest else a * b

end Word

namespace Image

/-- The size asked for, or the default if none is. -/
def sizeOr (default size : Word) : Word :=
  if size ≤ 0 then default else size

/-- The slots of the largest frame. -/
def largestFrame (functions : List Descriptor) : Word :=
  functions.foldl (fun most d => if d.args.addCapped d.locals > most then d.args.addCapped d.locals else most) 0

def footprint (img : Image) : Word :=
  let stack := sizeOr 1000 img.stackSize
  let depth := sizeOr 1000 img.maxDepth
  let frame := largestFrame (img.functions.getD [])
  (img.globals.addCapped stack).addCapped (depth.mulCapped (frame.addCapped 1))

end Image
end StackMachine
