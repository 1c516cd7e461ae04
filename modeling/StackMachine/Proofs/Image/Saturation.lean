import StackMachine.Proofs.Image.Footprint

/-!
# Footprints are exact

The footprint once more, in operations that fail where the exact result is not a word. For sizes that are not negative
none of them fails, so nothing runs over on the way: neither in what a sum or a product is compared with before it is
made, nor in the sum or product itself.
-/

set_option autoImplicit false

namespace StackMachine

namespace Word

def add? (a b : Word) : Option Word :=
  ofInt? (a.toInt + b.toInt)

def sub? (a b : Word) : Option Word :=
  ofInt? (a.toInt - b.toInt)

def mul? (a b : Word) : Option Word :=
  ofInt? (a.toInt * b.toInt)

def div? (a b : Word) : Option Word :=
  if b = 0 then none else ofInt? (a.toInt.tdiv b.toInt)

def addCapped? (a b : Word) : Option Word :=
  (largest.sub? b).bind fun room => if a > room then some largest else a.add? b

def mulCapped? (a b : Word) : Option Word :=
  if a = 0 then a.mul? b
  else (largest.div? a).bind fun most => if b > most then some largest else a.mul? b

section Capped

variable {a b : Word}

theorem ofInt?_of_toInt {w : Word} {n : Int} (h : w.toInt = n) : ofInt? n = some w :=
  h ▸ ofInt?_toInt w

theorem addCapped?_eq (ha : 0 ≤ a.toInt) (hb : 0 ≤ b.toInt) : a.addCapped? b = some (a.addCapped b) := by
  have hroom : largest.sub? b = some (largest - b) := ofInt?_of_toInt (toInt_room hb)
  rw [addCapped?, hroom, Option.bind_some, addCapped]
  split
  next => rfl
  next h => exact ofInt?_of_toInt (toInt_add_of_room ha hb h)

theorem mulCapped?_eq (ha : 0 ≤ a.toInt) (hb : 0 ≤ b.toInt) : a.mulCapped? b = some (a.mulCapped b) := by
  rw [mulCapped?, mulCapped]
  split
  next hzero =>
    subst hzero
    rw [if_neg fun h => h.1 rfl]
    exact ofInt?_of_toInt (by rw [Int64.zero_mul, Int64.toInt_zero, Int.zero_mul])
  next hne =>
    have hpos := toInt_pos_of_ne_zero ha hne
    have hquotient : largest.div? a = some (largest / a) := by
      rw [div?, if_neg hne, toInt_largest, Int.tdiv_eq_ediv_of_nonneg (by decide)]
      exact ofInt?_of_toInt (toInt_quotient hpos)
    rw [hquotient, Option.bind_some]
    by_cases h : b > largest / a
    · rw [if_pos h, if_pos ⟨hne, h⟩]
    · rw [if_neg h, if_neg fun hboth => h hboth.2]
      exact ofInt?_of_toInt (toInt_mul_of_quotient hpos hb h)

theorem addCapped_nonneg (ha : 0 ≤ a.toInt) (hb : 0 ≤ b.toInt) : 0 ≤ (a.addCapped b).toInt := by
  rw [toInt_addCapped ha hb]
  omega

theorem mulCapped_nonneg (ha : 0 ≤ a.toInt) (hb : 0 ≤ b.toInt) : 0 ≤ (a.mulCapped b).toInt := by
  have hproduct := Int.mul_nonneg ha hb
  rw [toInt_mulCapped ha hb]
  omega

end Capped

end Word

namespace Image

def largestFrame? (functions : List Descriptor) : Option Word :=
  functions.foldlM (fun most d => (d.args.addCapped? d.locals).map fun size => if size > most then size else most) 0

/-- The footprint, if every result on the way is the exact one. -/
def footprint? (img : Image) : Option Word := do
  let stack := sizeOr 1000 img.stackSize
  let depth := sizeOr 1000 img.maxDepth
  let frame ← largestFrame? (img.functions.getD [])
  let cells ← img.globals.addCapped? stack
  let height ← frame.addCapped? 1
  let frames ← depth.mulCapped? height
  cells.addCapped? frames

theorem largestFrame?_eq {functions : List Descriptor} (h : ∀ d ∈ functions, 0 ≤ d.args ∧ 0 ≤ d.locals) :
    largestFrame? functions = some (largestFrame functions) := by
  unfold largestFrame? largestFrame
  -- The fold starts from the largest frame so far.
  generalize (0 : Word) = most
  induction functions generalizing most with
  | nil => rfl
  | cons d functions ih =>
    obtain ⟨⟨hargs, hlocals⟩, hrest⟩ := List.forall_mem_cons.mp h
    have hsum := Word.addCapped?_eq (Int64.le_iff_toInt_le.mp hargs) (Int64.le_iff_toInt_le.mp hlocals)
    rw [List.foldlM_cons, List.foldl_cons, hsum]
    exact ih hrest _

theorem footprint?_eq {img : Image} (hglobals : 0 ≤ img.globals)
    (hfunctions : ∀ d ∈ img.functions.getD [], 0 ≤ d.args ∧ 0 ≤ d.locals) : img.footprint? = some img.footprint := by
  have hglobals : 0 ≤ img.globals.toInt := Int64.le_iff_toInt_le.mp hglobals
  have hstack := Int.le_of_lt (sizeOr_pos img.stackSize)
  have hdepth := Int.le_of_lt (sizeOr_pos img.maxDepth)
  have hone : 0 ≤ (1 : Word).toInt := by decide
  have hframe : 0 ≤ (largestFrame (img.functions.getD [])).toInt := by
    have hcells := frameCells_nonneg (img.functions.getD [])
    rw [toInt_largestFrame hfunctions]
    omega
  have hheight := Word.addCapped_nonneg hframe hone
  have hframes := Word.mulCapped_nonneg hdepth hheight
  simp only [footprint?, footprint, largestFrame?_eq hfunctions, Word.addCapped?_eq hglobals hstack,
    Word.addCapped?_eq hframe hone, Word.mulCapped?_eq hdepth hheight, Option.bind_eq_bind, Option.bind_some]
  exact Word.addCapped?_eq (Word.addCapped_nonneg hglobals hstack) hframes

theorem toInt_sizeOr {size : Word} (h : 0 ≤ size) :
    (sizeOr 1000 size).toInt = if size = 0 then 1000 else size.toInt := by
  unfold sizeOr
  by_cases hzero : size = 0
  · rw [if_pos hzero, if_pos (hzero ▸ Int64.le_refl 0)]
    rfl
  · rw [if_neg hzero, if_neg fun hle => hzero (Int64.le_antisymm hle h)]

/-- A footprint is the exact number of words, cut off once at the largest word, and no operation on the way to it runs
over. -/
theorem footprint_exact (img : Image) (hglobals : 0 ≤ img.globals) (hstack : 0 ≤ img.stackSize)
    (hdepth : 0 ≤ img.maxDepth) (hfunctions : ∀ d ∈ img.functions.getD [], 0 ≤ d.args ∧ 0 ≤ d.locals) :
    img.footprint.toInt = min 9223372036854775807
      (img.globals.toInt + (if img.stackSize = 0 then 1000 else img.stackSize.toInt) +
        (if img.maxDepth = 0 then 1000 else img.maxDepth.toInt) * (frameCells (img.functions.getD []) + 1)) ∧
    img.footprint? = some img.footprint := by
  refine ⟨?_, footprint?_eq hglobals hfunctions⟩
  rw [toInt_footprint hglobals hfunctions, toInt_sizeOr hstack, toInt_sizeOr hdepth]

/-- Three frames of a third of the largest word, less one word for the stack. -/
def brimful : Image where
  functions := some [{ name := "main" }, { name := "f", args := 3074457345618258600, locals := 1 }]
  stackSize := 1
  maxDepth := 3

/-- The words come to the largest word without being cut off; with one global they are one more, and are cut off. -/
theorem brimful_exact :
    frameCells (brimful.functions.getD []) = 3074457345618258601 ∧
    brimful.footprint.toInt = min 9223372036854775807 (0 + 1 + 3 * (3074457345618258601 + 1)) ∧
    brimful.footprint? = some brimful.footprint ∧
    { brimful with globals := 1 }.footprint.toInt = min 9223372036854775807 (1 + 1 + 3 * (3074457345618258601 + 1)) ∧
    { brimful with globals := 1 }.footprint? = some 9223372036854775807 := by
  have hfunctions : ∀ d ∈ brimful.functions.getD [], 0 ≤ d.args ∧ 0 ≤ d.locals := by decide
  obtain ⟨hwords, hsame⟩ := footprint_exact brimful (by decide) (by decide) (by decide) hfunctions
  obtain ⟨hwords', hsame'⟩ :=
    footprint_exact { brimful with globals := 1 } (by decide) (by decide) (by decide) hfunctions
  exact ⟨by decide, hwords, hsame, hwords', hsame'⟩

end Image
end StackMachine
