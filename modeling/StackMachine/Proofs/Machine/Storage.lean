import StackMachine.Proofs.Machine.Configuration
import StackMachine.Proofs.Success

/-!
# How configurations are stored

The configuration that a state stands for, and what has to hold of a state for it to stand for one: the stack
pointer stays within the cells, active frames have their places and slots have their cells. No storage is larger
than a block can be, so whether a frame can be made depends on its size alone.
-/

set_option autoImplicit false

namespace StackMachine

theorem allocate_eq_ok_iff {size : Nat} {block : Array Word} :
    allocate size = .ok block ↔ size ≤ largestBlock ∧ block = Array.replicate size 0 := by
  unfold allocate
  split
  next h => simp [h, eq_comm]
  next h => simp [h]

theorem allocate_eq_error {size : Nat} (h : ¬ size ≤ largestBlock) : allocate size = .error .allocation :=
  if_neg h

namespace Frame

variable {f g : Frame} {size : Word}

/-- The slots have their cells, of which there are at most `n`. -/
structure Within (n : Nat) (f : Frame) : Prop where
  size_le : f.size ≤ f.storage.size
  storage_le : f.storage.size ≤ n

/-- The storage is one that can have been allocated. -/
abbrev Fits (f : Frame) : Prop :=
  f.Within largestBlock

variable {n : Nat}

theorem within_new : Within n {} :=
  ⟨Nat.le_refl 0, Nat.zero_le n⟩

theorem length_slots (h : f.Fits) : f.slots.toList.length = f.size := by
  simp [slots, h.size_le]

theorem slots_setCell (f : Frame) (i : Nat) (v : Word) :
    (f.setCell i v).slots.toList = f.slots.toList.set i v := by
  simp [slots, setCell, List.take_set]

theorem Within.setCell (h : f.Within n) (i : Nat) (v : Word) : (f.setCell i v).Within n := by
  constructor
  · simpa [Frame.setCell] using h.size_le
  · simpa [Frame.setCell] using h.storage_le

theorem slot?_eq (h : f.Fits) (i : Word) :
    f.slot? i = (i.index? f.slots.toList.length).bind (f.slots.toList[·]?) := by
  rw [length_slots h, slot?]
  cases hi : i.index? f.size with
  | none => rfl
  | some n =>
    obtain ⟨-, hn⟩ := Word.index?_eq_some_iff.mp hi
    simp [slots, List.getElem?_take, hn]

theorem resize_refused {a : Abandoned} (h : f.Fits) (hsize : refusal? size = some a) : f.resize size = .error a := by
  have hle := h.storage_le
  obtain ⟨hneg, rfl⟩ | ⟨-, hlarge, rfl⟩ := refusal?_eq_some_iff.mp hsize
  · have hindex : size.index? (f.storage.size + 1) = none := Word.index?_eq_none_iff.mpr (by omega)
    rw [resize, if_pos (by omega), hindex]
  · rw [resize, if_neg (by omega), allocate_eq_error (by omega)]

theorem Within.resize (h : f.Within n) (hsize : size.toInt ≤ n) (hg : f.resize size = .ok g) : g.Within n := by
  have hle := h.storage_le
  unfold Frame.resize at hg
  split at hg
  · split at hg
    next i hi =>
      cases hg
      obtain ⟨-, hlt⟩ := Word.index?_eq_some_iff.mp hi
      constructor <;>
        simp only [Array.size_append, Array.size_replicate, Array.drop_eq_extract, Array.size_extract] <;> omega
    next => cases hg
  · split at hg
    next block hblock =>
      obtain ⟨-, rfl⟩ := allocate_eq_ok_iff.mp hblock
      cases hg
      constructor <;> simp only [Array.size_replicate] <;> omega
    next => cases hg

theorem resize_made (h : f.Fits) (hsize : refusal? size = none) :
    ∃ g, f.resize size = .ok g ∧ g.slots.toList = List.replicate size.toInt.toNat 0 ∧ g.Fits := by
  obtain ⟨hnonneg, hlarge⟩ := refusal?_eq_none_iff.mp hsize
  obtain ⟨n, hn⟩ : ∃ n : Nat, size.toInt = n := ⟨size.toInt.toNat, by omega⟩
  have hmade : ∃ g, f.resize size = .ok g ∧ g.slots.toList = List.replicate n 0 := by
    rw [Frame.resize, hn, Int.toNat_natCast]
    by_cases hfits : n ≤ f.storage.size
    · have hindex : size.index? (f.storage.size + 1) = some n := Word.index?_eq_some_iff.mpr ⟨hn, by omega⟩
      rw [if_pos (by omega), hindex]
      exact ⟨_, rfl, by simp [slots]⟩
    · rw [if_neg (by omega), allocate_eq_ok_iff.mpr ⟨by omega, rfl⟩]
      exact ⟨_, rfl, by simp [slots]⟩
  obtain ⟨g, hg, hslots⟩ := hmade
  refine ⟨g, hg, ?_, h.resize hlarge hg⟩
  rw [hslots, hn, Int.toNat_natCast]

theorem slots_fill {values : Array Word} (hv : values.size ≤ f.size) :
    (f.fill values).slots.toList = values.toList ++ f.slots.toList.drop values.size := by
  have hmin : min f.size values.size = values.size := by omega
  simp only [slots, fill, hmin]
  simp [List.drop_take, List.take_of_length_le, hv]
  omega

theorem Within.fill (h : f.Within n) (values : Array Word) : (f.fill values).Within n := by
  have hsize := h.size_le
  have hstorage := h.storage_le
  constructor <;>
    simp only [Frame.fill, Array.size_append, Array.take_eq_extract, Array.size_extract, Array.drop_eq_extract] <;>
    omega

end Frame

/-! ## What holds of every frame -/

namespace CallStack

variable {c : CallStack} {P : Frame → Prop}

theorem forall_grow (h : ∀ f ∈ c.frames, P f) (hnew : P {}) : ∀ f ∈ c.grow.frames, P f := by
  intro f hf
  unfold grow at hf
  split at hf
  · obtain hf | rfl := Array.mem_push.mp hf
    · exact h f hf
    · exact hnew
  · exact h f hf

theorem forall_activate {f : Frame} (h : ∀ f ∈ c.frames, P f) (hf : P f) : ∀ g ∈ (c.activate f).frames, P g := by
  intro g hg
  obtain ⟨i, hi⟩ := Array.mem_iff_getElem?.mp hg
  simp only [activate, Array.getElem?_setIfInBounds] at hi
  split at hi
  · split at hi
    · cases hi
      exact hf
    · cases hi
  · exact h g (Array.mem_of_getElem? hi)

theorem forall_modify {g : Frame → Frame} (h : ∀ f ∈ c.frames, P f) (hg : ∀ f, P f → P (g f)) (d : Nat) :
    ∀ f ∈ c.frames.modify d g, P f := by
  intro f hf
  obtain ⟨i, hi⟩ := Array.mem_iff_getElem?.mp hf
  rw [Array.getElem?_modify] at hi
  split at hi
  · obtain ⟨f', hf', rfl⟩ := Option.map_eq_some_iff.mp hi
    exact hg f' (h f' (Array.mem_of_getElem? hf'))
  · exact h f (Array.mem_of_getElem? hi)

end CallStack

namespace Machine

def Activation.of (f : Frame) : Activation where
  function := f.function
  returnAddress := f.returnAddress
  invoker := f.invoker
  slots := f.slots.toList

theorem Activation.of_setCell (f : Frame) (i : Nat) (v : Word) :
    of (f.setCell i v) = { of f with slots := (of f).slots.set i v } := by
  simp only [of, Frame.slots_setCell]
  rfl

/-- The configuration that a state stands for. -/
def State.view (s : State) : Configuration where
  stack := s.stack
  globals := s.globals
  frames := s.frames.map .of
  stats := s.stats
  sink := s.sink

theorem stack_eq_cons {s : State} (h0 : 0 ≤ s.sp) (hlt : s.sp.toNat < s.cells.size) :
    s.stack = s.cells[s.sp.toNat] :: State.stack { s with sp := s.sp - 1 } := by
  have hheld : s.held = s.sp.toNat + 1 := by
    unfold State.held
    omega
  have hheld' : State.held { s with sp := s.sp - 1 } = s.sp.toNat := by
    unfold State.held
    simp
  have hcell : s.cells.toList[s.sp.toNat]? = some s.cells[s.sp.toNat] := by
    simp
  unfold State.stack
  rw [hheld, hheld', reverse_take_succ hcell]

theorem view_modifyActive {s : State} {f : Frame} (g : Frame → Frame) (hf : s.arena.active? = some f) :
    State.view { s with arena := s.arena.modifyActive g } =
      { s.view with frames := .of (g f) :: s.arena.leave.toList.map .of } := by
  simp only [State.view, State.frames, CallStack.toList_modifyActive g hf, List.map_cons]
  rfl

/-- Everything that a state addresses is there, within the limits. -/
structure Sound (c : Setup) (s : State) : Prop where
  cells_size : s.cells.size = c.limits.stackSize
  sp_ge : -1 ≤ s.sp
  sp_lt : s.sp < s.cells.size
  depth_le : s.arena.depth ≤ s.arena.frames.size
  frames_le : s.arena.frames.size ≤ c.limits.maxDepth
  fits : ∀ f ∈ s.arena.frames, f.Fits

namespace Sound

variable {c : Setup} {s : State}

theorem length_stack (h : Sound c s) : (s.stack.length : Int) = s.sp + 1 := by
  have hge := h.sp_ge
  have hlt := h.sp_lt
  simp [State.stack, State.held]
  omega

theorem held_eq (h : Sound c s) : s.held = s.stack.length := by
  have hlen := h.length_stack
  unfold State.held
  omega

theorem length_frames (h : Sound c s) : s.frames.length = s.depth :=
  CallStack.length_toList h.depth_le

theorem depth_eq (h : Sound c s) : s.depth = s.view.frames.length := by
  rw [State.view, List.length_map, h.length_frames]

/-- The topmost `n` operands, the deepest one first. -/
theorem extract_arguments {n : Word} (h : Sound c s) (h0 : 0 ≤ n.toInt) (hn : n.toInt ≤ s.sp + 1) :
    (s.cells.extract (s.sp - n.toInt + 1).toNat (s.sp + 1).toNat).toList =
      (s.stack.take n.toInt.toNat).reverse := by
  have hlt := h.sp_lt
  have hlen : (s.cells.toList.take (s.sp + 1).toNat).length = (s.sp + 1).toNat := by
    simp
    omega
  have hlow : (s.sp - n.toInt + 1).toNat = (s.sp + 1).toNat - n.toInt.toNat := by omega
  simp only [State.stack, State.held, List.take_reverse, List.reverse_reverse, hlen, Array.toList_extract,
    List.extract_eq_take_drop, List.drop_take, hlow]

theorem stack_drop {n : Word} (h : Sound c s) (h0 : 0 ≤ n.toInt) (hn : n.toInt ≤ s.sp + 1) :
    State.stack { s with sp := s.sp - n.toInt } = s.stack.drop n.toInt.toNat := by
  have hlt := h.sp_lt
  have hlen : (s.cells.toList.take (s.sp + 1).toNat).length = (s.sp + 1).toNat := by
    simp
    omega
  have hheld : (s.sp - n.toInt + 1).toNat = (s.sp + 1).toNat - n.toInt.toNat := by omega
  simp only [State.stack, State.held, List.drop_reverse, hlen, List.take_take, hheld]
  rw [Nat.min_eq_left (Nat.sub_le _ _)]

theorem modifyFrame {g : Frame → Frame} (h : Sound c s) (d : Nat) (hg : ∀ f, f.Fits → (g f).Fits) :
    Sound c { s with arena := { s.arena with frames := s.arena.frames.modify d g } } := by
  refine { h with depth_le := ?_, frames_le := ?_, fits := CallStack.forall_modify h.fits hg d }
  · simpa using h.depth_le
  · simpa using h.frames_le

theorem grow (h : Sound c s) (hdepth : s.depth < c.limits.maxDepth) :
    Sound c { s with arena := s.arena.grow } := by
  have hlt := CallStack.grow_lt h.depth_le
  refine { h with depth_le := ?_, frames_le := ?_, fits := CallStack.forall_grow h.fits Frame.within_new }
  · rw [CallStack.depth_grow]
    exact Nat.le_of_lt hlt
  · have hle := h.frames_le
    unfold State.depth at hdepth
    unfold CallStack.grow
    split
    · simp only [Array.size_push]
      omega
    · exact hle

theorem activate {f : Frame} (h : Sound c s) (hlt : s.arena.depth < s.arena.frames.size) (hf : f.Fits) :
    Sound c { s with arena := s.arena.activate f } := by
  refine { h with depth_le := ?_, frames_le := ?_, fits := CallStack.forall_activate h.fits hf }
  · simpa [CallStack.activate, Nat.succ_le_iff] using hlt
  · simpa [CallStack.activate] using h.frames_le

theorem leave (h : Sound c s) : Sound c { s with arena := s.arena.leave } := by
  refine { h with depth_le := ?_ }
  have hle := h.depth_le
  change s.arena.depth - 1 ≤ _
  exact Nat.le_trans (Nat.sub_le _ _) hle

theorem view_grow (h : Sound c s) : State.view { s with arena := s.arena.grow } = s.view := by
  simp only [State.view, State.frames, CallStack.toList_grow h.depth_le]
  rfl

end Sound

/-! ## Machines that are made -/

/-- Globals and operands of a machine can be allocated. -/
structure Allocates (globals : Word) (limits : Limits) : Prop where
  globals_le : globals.toInt ≤ largestBlock
  stack_le : limits.stackSize ≤ largestBlock

instance (globals : Word) (limits : Limits) : Decidable (Allocates globals limits) :=
  decidable_of_iff (globals.toInt ≤ largestBlock ∧ limits.stackSize ≤ largestBlock)
    ⟨fun h => ⟨h.1, h.2⟩, fun h => ⟨h.globals_le, h.stack_le⟩⟩

/-- A machine that was never started. -/
def fresh (code : Array Word) (globals : Word) (table : FunctionTable) (limits : Limits) (o : Options) : Machine where
  setup := { code := code, table := table, limits := limits, tracing := o.tracing }
  state := {
    cells := Array.replicate limits.stackSize 0
    globals := Array.replicate globals.toInt.toNat 0
    sink := o.sink }

section Make

variable {code : Array Word} {globals : Word} {base : Limits} {o : Options}

/-- Sink and tracing have no part in whether there is a machine. -/
theorem make_some (table : FunctionTable) : make code globals (some table) base o =
    if globals < 0 then .error (.negativeGlobals globals)
    else if Allocates globals (base.adjust o.sizing) then .ok (fresh code globals table (base.adjust o.sizing) o)
    else .error (.abandoned .allocation) := by
  by_cases hneg : globals < 0
  · rw [make, if_pos hneg, if_pos hneg]
  · rw [make, if_neg hneg, if_neg hneg]
    by_cases hmemory : globals.toInt.toNat ≤ largestBlock
    · have hmemory' : globals.toInt ≤ largestBlock := by omega
      by_cases hstack : (base.adjust o.sizing).stackSize ≤ largestBlock
      · simp only [if_pos (Allocates.mk hmemory' hstack), allocate_eq_ok_iff.mpr ⟨hmemory, rfl⟩,
          allocate_eq_ok_iff.mpr ⟨hstack, rfl⟩]
        rfl
      · have hrefused : ¬ Allocates globals (base.adjust o.sizing) := fun h => hstack h.stack_le
        simp only [if_neg hrefused, allocate_eq_ok_iff.mpr ⟨hmemory, rfl⟩, allocate_eq_error hstack]
        rfl
    · have hrefused : ¬ Allocates globals (base.adjust o.sizing) := fun h => by
        have hle := h.globals_le
        omega
      simp only [if_neg hrefused, allocate_eq_error hmemory]
      rfl

theorem make_of_allocates (table : FunctionTable) (hglobals : 0 ≤ globals)
    (h : Allocates globals (base.adjust o.sizing)) :
    make code globals (some table) base o = .ok (fresh code globals table (base.adjust o.sizing) o) := by
  rw [make_some, if_neg (Int64.not_lt.mpr hglobals), if_pos h]

theorem make_refused (table : FunctionTable) (hglobals : 0 ≤ globals)
    (h : ¬ Allocates globals (base.adjust o.sizing)) :
    make code globals (some table) base o = .error (.abandoned .allocation) := by
  rw [make_some, if_neg (Int64.not_lt.mpr hglobals), if_neg h]

theorem make_eq_ok_iff {table : Option FunctionTable} {m : Machine} :
    make code globals table base o = .ok m ↔ ∃ t, table = some t ∧ 0 ≤ globals ∧
      Allocates globals (base.adjust o.sizing) ∧ m = fresh code globals t (base.adjust o.sizing) o := by
  constructor
  · intro h
    cases table with
    | none => cases h
    | some t =>
      rw [make_some] at h
      split at h
      next => cases h
      next hneg =>
        split at h
        next hallocates => exact ⟨t, rfl, Int64.not_lt.mp hneg, hallocates, (Except.ok.inj h).symm⟩
        next => cases h
  · rintro ⟨t, rfl, hglobals, hallocates, rfl⟩
    exact make_of_allocates t hglobals hallocates

theorem sound_fresh (code : Array Word) (globals : Word) (table : FunctionTable) (limits : Limits) (o : Options) :
    Sound (fresh code globals table limits o).setup (fresh code globals table limits o).state := by
  refine ⟨Array.size_replicate, Int.le_refl _, ?_, Nat.le_refl 0, Nat.zero_le _, ?_⟩
  · simp only [fresh]
    omega
  · intro f hf
    cases Array.not_mem_empty f hf

end Make
end Machine
end StackMachine
