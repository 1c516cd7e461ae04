import StackMachine.Image.Footprint
import StackMachine.Proofs.Image.RoundTrip
import StackMachine.Proofs.Image.Soundness
import StackMachine.Proofs.Machine.Capacity
import StackMachine.Service

/-!
# Footprints bound machines

Sums and products that stop at the largest word come to the exact number, or to the largest word if that is smaller.
So a footprint below the largest word is what its machine may hold at most: no frame size has run over on the way, and
the machine has the limits that the footprint was computed with.
-/

set_option autoImplicit false

namespace StackMachine

namespace Word

theorem toInt_largest : largest.toInt = 9223372036854775807 := rfl

variable {a b : Word}

/-- What can be added to `b` is a word. -/
theorem toInt_room (hb : 0 ≤ b.toInt) : (largest - b).toInt = 9223372036854775807 - b.toInt := by
  have hlt := b.toInt_lt
  rw [Int64.toInt_sub, toInt_largest, Int.bmod_eq_of_le (by omega) (by omega)]

theorem toInt_add_of_room (ha : 0 ≤ a.toInt) (hb : 0 ≤ b.toInt) (h : ¬ a > largest - b) :
    (a + b).toInt = a.toInt + b.toInt := by
  have hle := Int64.le_iff_toInt_le.mp (Int64.not_lt.mp h)
  rw [toInt_room hb] at hle
  rw [Int64.toInt_add, Int.bmod_eq_of_le (by omega) (by omega)]

theorem toInt_addCapped (ha : 0 ≤ a.toInt) (hb : 0 ≤ b.toInt) :
    (a.addCapped b).toInt = min 9223372036854775807 (a.toInt + b.toInt) := by
  unfold addCapped
  split
  next h =>
    have hlt := Int64.lt_iff_toInt_lt.mp h
    rw [toInt_room hb] at hlt
    rw [toInt_largest]
    omega
  next h =>
    have hsum := toInt_add_of_room ha hb h
    have hlt := (a + b).toInt_lt
    omega

/-- What `a` can be multiplied with is a word. -/
theorem toInt_quotient (ha : 0 < a.toInt) : (largest / a).toInt = 9223372036854775807 / a.toInt := by
  have hnonneg : 0 ≤ 9223372036854775807 / a.toInt := Int.ediv_nonneg (by decide) (Int.le_of_lt ha)
  have hle : 9223372036854775807 / a.toInt ≤ 9223372036854775807 := Int.ediv_le_self _ (by decide)
  rw [Int64.toInt_div, toInt_largest, Int.tdiv_eq_ediv_of_nonneg (by decide),
    Int.bmod_eq_of_le (by omega) (by omega)]

theorem toInt_mul_of_quotient (ha : 0 < a.toInt) (hb : 0 ≤ b.toInt) (h : ¬ b > largest / a) :
    (a * b).toInt = a.toInt * b.toInt := by
  have hle := Int64.le_iff_toInt_le.mp (Int64.not_lt.mp h)
  rw [toInt_quotient ha, Int.le_ediv_iff_mul_le ha, Int.mul_comm] at hle
  have hnonneg := Int.mul_nonneg (Int.le_of_lt ha) hb
  rw [Int64.toInt_mul, Int.bmod_eq_of_le (by omega) (by omega)]

theorem toInt_pos_of_ne_zero (ha : 0 ≤ a.toInt) (hne : a ≠ 0) : 0 < a.toInt := by
  have hne : a.toInt ≠ 0 := fun h => hne (Int64.toInt_inj.mp h)
  omega

theorem toInt_mulCapped (ha : 0 ≤ a.toInt) (hb : 0 ≤ b.toInt) :
    (a.mulCapped b).toInt = min 9223372036854775807 (a.toInt * b.toInt) := by
  unfold mulCapped
  by_cases hzero : a = 0
  · subst hzero
    simp only [ne_eq, not_true_eq_false, false_and, if_false, Int64.zero_mul, Int64.toInt_zero, Int.zero_mul]
    omega
  have hpos := toInt_pos_of_ne_zero ha hzero
  split
  next h =>
    have hlt := Int64.lt_iff_toInt_lt.mp h.2
    rw [toInt_quotient hpos, Int.ediv_lt_iff_lt_mul hpos, Int.mul_comm] at hlt
    rw [toInt_largest]
    omega
  next h =>
    have hproduct := toInt_mul_of_quotient hpos hb fun hlt => h ⟨hzero, hlt⟩
    have hlt := (a * b).toInt_lt
    omega

end Word

namespace Service

theorem accept_of_decoded {s : Service} {request : Bytes} {img : Image} (h : Image.decodeValid request = .ok img) :
    s.accept request =
      if s.maxMemory < img.footprint then .error (.oversized img.name img.footprint s.maxMemory) else .ok img := by
  rw [accept, h]
  change (if s.maxMemory < img.footprint then _ else _) = _
  split <;> rfl

theorem accept_of_undecoded {s : Service} {request : Bytes} {e : ImageError}
    (h : Image.decodeValid request = .error e) : s.accept request = .error (.image e) := by
  rw [accept, h]
  rfl

theorem accept_eq_ok_iff {s : Service} {request : Bytes} {img : Image} :
    s.accept request = .ok img ↔ Image.decodeValid request = .ok img ∧ img.footprint ≤ s.maxMemory := by
  cases hdecode : Image.decodeValid request with
  | error e => simp [accept_of_undecoded hdecode]
  | ok decoded =>
    rw [accept_of_decoded hdecode]
    constructor
    · intro h
      split at h
      next => cases h
      next hle =>
        cases h
        exact ⟨rfl, Int64.not_lt.mp hle⟩
    · rintro ⟨h, hle⟩
      cases h
      rw [if_neg (Int64.not_lt.mpr hle)]

end Service

namespace Image

/-- The slots of the largest frame, however large. -/
def frameCells : List Descriptor → Int
  | [] => 0
  | d :: rest => max (d.args.toInt + d.locals.toInt) (frameCells rest)

theorem le_frameCells {functions : List Descriptor} {d : Descriptor} (hd : d ∈ functions) :
    d.args.toInt + d.locals.toInt ≤ frameCells functions := by
  induction functions with
  | nil => cases hd
  | cons e rest ih =>
    rw [frameCells]
    obtain rfl | hd := List.mem_cons.mp hd
    · exact Int.le_max_left _ _
    · exact Int.le_trans (ih hd) (Int.le_max_right _ _)

theorem frameCells_nonneg (functions : List Descriptor) : 0 ≤ frameCells functions := by
  induction functions with
  | nil => exact Int.le_refl 0
  | cons d rest ih => exact Int.le_trans ih (Int.le_max_right _ _)

theorem toInt_largestFrame {functions : List Descriptor} (h : ∀ d ∈ functions, 0 ≤ d.args ∧ 0 ≤ d.locals) :
    (largestFrame functions).toInt = min 9223372036854775807 (frameCells functions) := by
  -- The fold starts from the largest frame so far.
  suffices hfold : ∀ most : Word, 0 ≤ most.toInt →
      (functions.foldl (fun most d => if d.args.addCapped d.locals > most then d.args.addCapped d.locals else most)
        most).toInt = max most.toInt (min 9223372036854775807 (frameCells functions)) by
    have hnonneg := frameCells_nonneg functions
    have hzero := hfold 0 (by decide)
    rw [Int64.toInt_zero] at hzero
    rw [largestFrame, hzero]
    omega
  induction functions with
  | nil =>
    intro most hmost
    simp only [List.foldl_nil, frameCells]
    omega
  | cons d rest ih =>
    intro most hmost
    obtain ⟨⟨hargs, hlocals⟩, hrest⟩ := List.forall_mem_cons.mp h
    have hsum := Word.toInt_addCapped (Int64.le_iff_toInt_le.mp hargs) (Int64.le_iff_toInt_le.mp hlocals)
    have hstep : (if d.args.addCapped d.locals > most then d.args.addCapped d.locals else most).toInt =
        max most.toInt (min 9223372036854775807 (d.args.toInt + d.locals.toInt)) := by
      rw [← hsum]
      split
      next hgt =>
        have hlt := Int64.lt_iff_toInt_lt.mp hgt
        omega
      next hle =>
        have hle := Int64.le_iff_toInt_le.mp (Int64.not_lt.mp hle)
        omega
    rw [List.foldl_cons, ih hrest _ (by omega), hstep, frameCells]
    omega

theorem sizeOr_pos (size : Word) : 0 < (sizeOr 1000 size).toInt := by
  unfold sizeOr
  split
  next => decide
  next h =>
    have hlt := Int64.lt_iff_toInt_lt.mp (Int64.not_le.mp h)
    exact hlt

/-- Stopping a factor early makes no difference to a product that stops at the same number. -/
theorem min_mul_min {m n d : Int} (hm : 0 ≤ m) (hd : 0 < d) : min m (d * min m n) = min m (d * n) := by
  by_cases hn : n ≤ m
  · rw [Int.min_eq_right hn]
  · have hdm := Int.mul_le_mul_of_nonneg_right (show 1 ≤ d from hd) hm
    have hdn := Int.mul_le_mul_of_nonneg_left (show m ≤ n by omega) (Int.le_of_lt hd)
    rw [Int.min_eq_left (show m ≤ n by omega)]
    omega

/-- A footprint is the exact number of words, or the largest word if that is smaller. -/
theorem toInt_footprint {img : Image} (hglobals : 0 ≤ img.globals)
    (hfunctions : ∀ d ∈ img.functions.getD [], 0 ≤ d.args ∧ 0 ≤ d.locals) :
    img.footprint.toInt = min 9223372036854775807
      (img.globals.toInt + (sizeOr 1000 img.stackSize).toInt +
        (sizeOr 1000 img.maxDepth).toInt * (frameCells (img.functions.getD []) + 1)) := by
  have hglobals : 0 ≤ img.globals.toInt := Int64.le_iff_toInt_le.mp hglobals
  have hstack := sizeOr_pos img.stackSize
  have hdepth := sizeOr_pos img.maxDepth
  have hcells := frameCells_nonneg (img.functions.getD [])
  have hframe : ((largestFrame (img.functions.getD [])).addCapped 1).toInt =
      min 9223372036854775807 (frameCells (img.functions.getD []) + 1) := by
    have hlargest := toInt_largestFrame hfunctions
    rw [Word.toInt_addCapped (by omega) (by decide), hlargest, Int64.toInt_one]
    omega
  have hframes : ((sizeOr 1000 img.maxDepth).mulCapped ((largestFrame (img.functions.getD [])).addCapped 1)).toInt =
      min 9223372036854775807 ((sizeOr 1000 img.maxDepth).toInt * (frameCells (img.functions.getD []) + 1)) := by
    rw [Word.toInt_mulCapped (by omega) (by omega), hframe, min_mul_min (by decide) hdepth]
  have hproduct : 0 ≤ (sizeOr 1000 img.maxDepth).toInt * (frameCells (img.functions.getD []) + 1) :=
    Int.mul_nonneg (by omega) (by omega)
  have hrest := Word.toInt_addCapped hglobals (Int.le_of_lt hstack)
  rw [footprint, Word.toInt_addCapped (by omega) (by omega), hframes, hrest]
  omega

/-! ## Machines -/

theorem entries_of_table {img : Image} {t : FunctionTable} (h : img.table = .ok t) :
    t.entries.toList = img.functions.getD [] :=
  FunctionTable.toList_entries_of_ofList h

theorem request_sizeOr (size : Word) : (Limits.request 1000 (some size) : Int) = (sizeOr 1000 size).toInt := by
  simp only [Limits.request, sizeOr, Int64.le_iff_toInt_le, Int64.toInt_zero]
  split
  next hpos =>
    rw [if_neg (by omega)]
    omega
  next hpos =>
    rw [if_pos (by omega)]
    rfl

open Machine Verification

section Admissible

variable {img : Image} {t : FunctionTable}

/-- `m` was made for the image, and nothing was asked of it yet. -/
structure Made (img : Image) (o : Options) (t : FunctionTable) (m : Machine) : Prop where
  table : m.setup.table = t
  limits : m.setup.limits = (Limits.adjust {} img.sizing).adjust o.sizing
  globals : m.state.globals.size = img.globals.toInt.toNat
  arena : m.state.arena = {}
  stands : Stands m.setup none m.state

theorem machine_eq_ok (htable : img.table = .ok t) (hglobals : 0 ≤ img.globals) {o : Options}
    (hallocates : img.Allocates o) : ∃ m, img.machine o = .ok m ∧ Made img o t m := by
  refine ⟨_, machine_eq_ok_iff.mpr ⟨t, htable, hglobals, hallocates, rfl⟩, rfl, rfl, Array.size_replicate, rfl,
    sound_fresh img.words img.globals t _ o, ?_⟩
  intro h
  cases h

theorem Made.invariant {o : Options} {m : Machine} (h : Made img o t m) : Invariant m.setup (Stands m.setup) :=
  stands_invariant (h.limits ▸ Limits.adjust_maxDepth_pos _ (Limits.adjust_maxDepth_pos _ (by decide)))

theorem nonneg_of_table (htable : img.table = .ok t) : ∀ d ∈ img.functions.getD [], 0 ≤ d.args ∧ 0 ≤ d.locals := by
  intro d hd
  rw [← entries_of_table htable] at hd
  obtain ⟨hargs, hlocals, -⟩ := t.nonneg d (Array.mem_toList_iff.mp hd)
  exact ⟨hargs, hlocals⟩

/-- Below the largest word nothing was cut off. -/
theorem footprint_eq (htable : img.table = .ok t) (hglobals : 0 ≤ img.globals)
    (hlarge : img.footprint < Word.largest) :
    img.footprint.toInt = img.globals.toInt + (sizeOr 1000 img.stackSize).toInt +
      (sizeOr 1000 img.maxDepth).toInt * (frameCells (img.functions.getD []) + 1) := by
  have hexact := toInt_footprint hglobals (nonneg_of_table htable)
  have hlt := Int64.lt_iff_toInt_lt.mp hlarge
  rw [Word.toInt_largest] at hlt
  omega

/-- Globals, operands and the cells of a frame are parts of the footprint. -/
theorem parts_le_footprint (htable : img.table = .ok t) (hglobals : 0 ≤ img.globals)
    (hlarge : img.footprint < Word.largest) :
    img.globals.toInt ≤ img.footprint.toInt ∧ (sizeOr 1000 img.stackSize).toInt ≤ img.footprint.toInt ∧
      frameCells (img.functions.getD []) ≤ img.footprint.toInt := by
  have hexact := footprint_eq htable hglobals hlarge
  have hnonneg : 0 ≤ img.globals.toInt := Int64.le_iff_toInt_le.mp hglobals
  have hstack := sizeOr_pos img.stackSize
  have hcells := frameCells_nonneg (img.functions.getD [])
  have hframes := Int.mul_le_mul_of_nonneg_right
    (show 1 ≤ (sizeOr 1000 img.maxDepth).toInt from sizeOr_pos img.maxDepth)
    (show 0 ≤ frameCells (img.functions.getD []) + 1 by omega)
  refine ⟨?_, ?_, ?_⟩ <;> omega

theorem frameCells_lt (htable : img.table = .ok t) (hglobals : 0 ≤ img.globals)
    (hlarge : img.footprint < Word.largest) : frameCells (img.functions.getD []) < 9223372036854775807 := by
  obtain ⟨-, -, hcells⟩ := parts_le_footprint htable hglobals hlarge
  have hlt := Int64.lt_iff_toInt_lt.mp hlarge
  rw [Word.toInt_largest] at hlt
  omega

/-- No frame size of the image runs over. -/
theorem frameSize_eq (htable : img.table = .ok t) (hglobals : 0 ≤ img.globals)
    (hlarge : img.footprint < Word.largest) {d : Descriptor} (hd : d ∈ t.entries) :
    d.frameSize.toInt = d.args.toInt + d.locals.toInt ∧
      d.args.toInt + d.locals.toInt ≤ frameCells (img.functions.getD []) := by
  have hle : d.args.toInt + d.locals.toInt ≤ frameCells (img.functions.getD []) := by
    apply le_frameCells
    rw [← entries_of_table htable]
    exact Array.mem_toList_iff.mpr hd
  have hlt := frameCells_lt htable hglobals hlarge
  have hnonneg := t.nonneg d hd
  refine ⟨Descriptor.toInt_frameSize hnonneg (Descriptor.frameSize_nonneg hnonneg ?_), hle⟩
  rw [Int64.toInt_maxValue]
  omega

/-- What a machine of the image and each of its calls need can be allocated. -/
structure Allocatable (img : Image) : Prop where
  machine : img.Allocates {}
  frames : ∀ d ∈ img.functions.getD [], d.args.toInt + d.locals.toInt ≤ largestBlock

/-- An image whose footprint is no larger than one block asks for no block that is. -/
theorem allocatable_of_footprint (hvalid : img.validate = .ok ()) (h : img.footprint.toInt ≤ largestBlock) :
    img.Allocatable := by
  obtain ⟨t, htable, hglobals, -, -⟩ := verified_of_validate hvalid
  have hlarge : img.footprint < Word.largest := by
    rw [Int64.lt_iff_toInt_lt, Word.toInt_largest]
    simp only [largestBlock] at h
    omega
  obtain ⟨hmemory, hstack, hcells⟩ := parts_le_footprint htable hglobals hlarge
  refine ⟨⟨Int.le_trans hmemory h, ?_⟩, ?_⟩
  · have hsize : ((Limits.adjust {} img.sizing).stackSize : Int) = (sizeOr 1000 img.stackSize).toInt :=
      request_sizeOr img.stackSize
    change (Limits.adjust {} img.sizing).stackSize ≤ largestBlock
    omega
  · intro d hd
    have hle := le_frameCells hd
    omega

theorem Made.holding {o : Options} {m : Machine} (h : Made img o t m) (htable : img.table = .ok t)
    (hglobals : 0 ≤ img.globals) (hlarge : img.footprint < Word.largest) (history : List Request) :
    Holding img.globals.toInt.toNat (frameCells (img.functions.getD [])).toNat (m.serve history).state := by
  refine (holding_invariant ?_).serve ⟨h.globals, ?_⟩ history
  · intro d hd
    rw [h.table] at hd
    obtain ⟨hexact, hle⟩ := frameSize_eq htable hglobals hlarge hd
    have hcells := frameCells_nonneg (img.functions.getD [])
    omega
  · rw [h.arena]
    exact fun f hf => absurd hf (Array.not_mem_empty f)

end Admissible

/-- Whatever is asked of the machine of a valid image whose footprint was not cut off, the machine holds no more words
than the footprint says. So it holds no more than the memory limit of a service that accepts the image. -/
theorem machine_within_footprint (img : Image) (hvalid : img.validate = .ok ())
    (hlarge : img.footprint < Word.largest) (o : Options) (hstack : o.sizing.stackSize = none)
    (hdepth : o.sizing.maxDepth = none) (hallocates : img.Allocates o) :
    ∃ m, img.machine o = .ok m ∧ ∀ history : List Request,
      (m.serve history).state.words ≤ (m.serve history).state.reserved ∧
      ((m.serve history).state.reserved : Int) ≤ img.footprint.toInt ∧
      ∀ (service : Service) (request : Bytes), service.accept request = .ok img →
        ((m.serve history).state.reserved : Int) ≤ service.maxMemory.toInt := by
  obtain ⟨t, htable, hglobals, -, -⟩ := verified_of_validate hvalid
  obtain ⟨m, hm, hmade⟩ := machine_eq_ok htable hglobals hallocates
  refine ⟨m, hm, ?_⟩
  intro history
  have hsound := (hmade.invariant.serve hmade.stands history).sound
  have hheld := (hmade.holding htable hglobals hlarge history).reserved_le hsound
  have hfootprint : ((m.serve history).state.reserved : Int) ≤ img.footprint.toInt := by
    have hstackSize : (m.setup.limits.stackSize : Int) = (sizeOr 1000 img.stackSize).toInt := by
      simp only [hmade.limits, Limits.adjust, hstack]
      exact request_sizeOr img.stackSize
    have hmaxDepth : (m.setup.limits.maxDepth : Int) = (sizeOr 1000 img.maxDepth).toInt := by
      simp only [hmade.limits, Limits.adjust, hdepth]
      exact request_sizeOr img.maxDepth
    have hglobals' : 0 ≤ img.globals.toInt := Int64.le_iff_toInt_le.mp hglobals
    have hcells := frameCells_nonneg (img.functions.getD [])
    have hle := Int.ofNat_le.mpr hheld
    rw [footprint_eq htable hglobals hlarge, ← hstackSize, ← hmaxDepth]
    simp only [Int.natCast_add, Int.natCast_mul, Int.toNat_of_nonneg hcells, Int.toNat_of_nonneg hglobals'] at hle
    exact hle
  refine ⟨hsound.words_le, hfootprint, ?_⟩
  intro service request haccept
  exact Int.le_trans hfootprint (Int64.le_iff_toInt_le.mp (Service.accept_eq_ok_iff.mp haccept).2)

/-- A call of a function with an argument and two locals, sized for three frames. -/
def nested : Image where
  version := 1
  globals := 1
  functions := some [{ name := "main" }, { name := "f", args := 1, locals := 2, address := 5 }]
  code := some [9, 7, 16, 1, 18, 17]
  stackSize := 4
  maxDepth := 3

theorem nested_valid : nested.validate = .ok () := by
  have hwalk : walk nested.words = [(0, .instr (.iconst 7)), (2, .instr (.call 1)), (4, .instr .halt),
      (5, .instr .ret)] := by
    cbv
  unfold validate
  simp only [findings_eq, hwalk]
  unfold meets starts
  rw [hwalk]
  rfl

theorem nested_allocatable : nested.Allocatable :=
  allocatable_of_footprint nested_valid (by decide)

theorem nested_decoded : decodeValid nested.encode = .ok nested := by
  have hlimits : nested.WithinLimits := by
    refine ⟨by decide, by decide, ?_, ?_, ?_⟩
    · rintro ds ⟨⟩
      decide
    · rintro ds ⟨⟩
      decide
    · rintro ws ⟨⟩
      decide
  rw [decodeValid_eq (decode_encode hlimits), nested_valid]
  rfl

/-- Within the call, and for a service with just as much memory as the image may need. -/
theorem nested_within_footprint :
    nested.validate = .ok () ∧ nested.footprint < Word.largest ∧ nested.Allocates {} ∧
    ∃ m, nested.machine {} = .ok m ∧ (m.serve [.start 0, .step, .step]).state.words = 10 ∧
      nested.footprint.toInt = 17 ∧
      ((m.serve [.start 0, .step, .step]).state.reserved : Int) ≤ nested.footprint.toInt ∧
      ((m.serve [.start 0, .step, .step]).state.reserved : Int) ≤ (Service.make 1 0 0 17 none).maxMemory.toInt := by
  have hlarge : nested.footprint < Word.largest := by decide
  obtain ⟨m, hm, h⟩ := machine_within_footprint nested nested_valid hlarge {} rfl rfl (by decide)
  obtain ⟨-, hfootprint, hservice⟩ := h [.start 0, .step, .step]
  refine ⟨nested_valid, hlarge, by decide, m, hm, ?_, by decide, hfootprint, hservice _ nested.encode ?_⟩
  · cases hm
    rfl
  · rw [Service.accept_of_decoded nested_decoded]
    rfl

end Image
end StackMachine
