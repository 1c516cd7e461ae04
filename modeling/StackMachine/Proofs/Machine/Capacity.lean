import StackMachine.Proofs.Machine.Representation

/-!
# How much a machine holds

Frames stay in place when they are left, and their storage with them. Storage grows only when a function with a
larger frame is entered, so no frame ever has more cells than the largest frame needs, and a machine holds no more
than its globals, its operand cells and as many such frames as the limit allows.
-/

set_option autoImplicit false

namespace StackMachine

namespace Machine

/-- What the frames come to if each counts as `weight` says. -/
def total (weight : Frame → Nat) : List Frame → Nat
  | [] => 0
  | f :: rest => weight f + total weight rest

theorem total_le {weight : Frame → Nat} {n : Nat} {frames : List Frame} (h : ∀ f ∈ frames, weight f ≤ n) :
    total weight frames ≤ frames.length * n := by
  induction frames with
  | nil => exact Nat.zero_le _
  | cons f rest ih =>
    obtain ⟨hf, hrest⟩ := List.forall_mem_cons.mp h
    have hle := ih hrest
    rw [total, List.length_cons, Nat.succ_mul]
    omega

theorem total_mono {weight weight' : Frame → Nat} {frames : List Frame}
    (h : ∀ f ∈ frames, weight f ≤ weight' f) : total weight frames ≤ total weight' frames := by
  induction frames with
  | nil => exact Nat.le_refl 0
  | cons f rest ih =>
    obtain ⟨hf, hrest⟩ := List.forall_mem_cons.mp h
    exact Nat.add_le_add hf (ih hrest)

/-- Globals, operand cells, and for each frame, active or not, one word and its slots. -/
def State.words (s : State) : Nat :=
  s.globals.size + s.cells.size + total (fun f => 1 + f.size) s.arena.frames.toList

/-- As `words`, with all the cells that frames keep for later calls. -/
def State.reserved (s : State) : Nat :=
  s.globals.size + s.cells.size + total (fun f => 1 + f.storage.size) s.arena.frames.toList

/-- There are `g` globals, and no frame has more than `n` cells. -/
structure Holding (g n : Nat) (s : State) : Prop where
  globals : s.globals.size = g
  frames : ∀ f ∈ s.arena.frames, f.Within n

section Holding

variable {c : Setup} {g n : Nat} {s : State}

theorem Sound.words_le (h : Sound c s) : s.words ≤ s.reserved := by
  apply Nat.add_le_add_left
  apply total_mono
  intro f hf
  exact Nat.add_le_add_left (h.fits f (Array.mem_toList_iff.mp hf)).size_le 1

theorem Holding.reserved_le (h : Holding g n s) (hsound : Sound c s) :
    s.reserved ≤ g + c.limits.stackSize + c.limits.maxDepth * (n + 1) := by
  have htotal : total (fun f => 1 + f.storage.size) s.arena.frames.toList ≤
      s.arena.frames.toList.length * (n + 1) := by
    apply total_le
    intro f hf
    have hle := (h.frames f (Array.mem_toList_iff.mp hf)).storage_le
    omega
  have hframes := Nat.mul_le_mul_right (n + 1) hsound.frames_le
  rw [Array.length_toList] at htotal
  unfold State.reserved
  rw [h.globals, hsound.cells_size]
  omega

theorem lasting_holding (hsize : ∀ d ∈ c.table.entries, d.frameSize.toInt ≤ n) : Lasting c (Holding g n) where
  operands _ _ _ h := { h with }
  globals _ _ hglobals h := { h with globals := hglobals.trans h.globals }
  sink _ _ h := { h with }
  called _ h := { h with }
  returned _ h := { h with }
  store _ i v h := { h with frames := CallStack.forall_modify h.frames (fun _ hf => hf.setCell i v) _ }
  fill _ values h := { h with frames := CallStack.forall_modify h.frames (fun _ hf => hf.fill values) _ }
  grow _ h := { h with frames := CallStack.forall_grow h.frames Frame.within_new }
  leave _ h := { h with }
  enter s _ d f _ _ hd hf hg h := by
    -- The storage of `f` is taken over, or made anew if the function needs more.
    have hwithin := (h.frames f (Array.mem_of_getElem? hf)).resize
      (hsize d (FunctionTable.mem_of_lookup? hd)) hg
    exact { h with frames := CallStack.forall_activate h.frames { hwithin with } }

theorem holding_cycle (hsize : ∀ d ∈ c.table.entries, d.frameSize.toInt ≤ n) (h : Holding g n s) :
    Holding g n (leftBy (cycle c s)) := by
  have hcases := cycle_cases c s
  generalize cycle c s = r at hcases
  have hlasting := lasting_holding (g := g) hsize
  cases hcases with
  | halts =>
    obtain ⟨text, hhalt⟩ := halt_eq c s
    rw [leftBy, hhalt]
    exact { h with }
  | stuck => exact { h with }
  | proceeds _ happly =>
    have ht := (hlasting.preserves_apply _ _).of_ok h happly
    obtain ⟨text, hproceed⟩ := proceed_eq c s.ip.toNat _ _ _
    rw [leftBy, hproceed]
    exact { ht with }
  | faults _ happly | refused _ happly =>
    have ht := (hlasting.preserves_apply _ _).of_error h happly
    exact { ht with }
  | abandoned _ happly => exact (hlasting.preserves_apply _ _).of_error h happly

theorem holding_begin (address : Word) (h : Holding g n s) : Holding g n (leftBy (begin c address s)) := by
  obtain ⟨f, hf, hbegin⟩ := begin_eq c address s
  have hgrown := CallStack.forall_grow (c := s.arena.reset) h.frames Frame.within_new
  have hwithin := hgrown f (Array.mem_of_getElem? hf)
  rw [hbegin]
  exact { h with
    frames := CallStack.forall_activate hgrown { hwithin with size_le := Nat.zero_le _ } }

/-- What a machine holds stays within its bounds whatever is asked of it. -/
theorem holding_invariant (hsize : ∀ d ∈ c.table.entries, d.frameSize.toInt ≤ n) :
    Invariant c fun _ s => Holding g n s where
  start _ _ address h := holding_begin address h
  cycle _ _ h _ := holding_cycle hsize h
  cancel _ _ _ h _ := { h with }
  overwrite _ _ d i v h :=
    { h with frames := CallStack.forall_modify h.frames (fun _ hf => hf.setCell i v) d }

end Holding

end Machine
end StackMachine
