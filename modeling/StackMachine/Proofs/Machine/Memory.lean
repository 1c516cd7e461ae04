import StackMachine.Proofs.Machine.Effects

/-!
# Accesses that succeed

What an access gives and changes when the position it uses exists.
-/

set_option autoImplicit false

namespace StackMachine.Machine.Access

variable {s : State}

theorem top_eq (h0 : 0 ≤ s.sp) (h : s.sp.toNat < s.cells.size) : top s = .ok s.cells[s.sp.toNat] s := by
  change cell s.sp s = _
  rw [cell, dif_pos ⟨h0, h⟩]

theorem pop_eq (h0 : 0 ≤ s.sp) (h : s.sp.toNat < s.cells.size) :
    pop s = .ok s.cells[s.sp.toNat] { s with sp := s.sp - 1 } := by
  rw [pop, bind_ok (top_eq h0 h)]
  rfl

theorem push_eq {w : Word} (h0 : -1 ≤ s.sp) (h : (s.sp + 1).toNat < s.cells.size) :
    push w s = .ok () { s with
      sp := s.sp + 1
      cells := s.cells.setIfInBounds (s.sp + 1).toNat w } := by
  change setCell (s.sp + 1) w { s with sp := s.sp + 1 } = _
  rw [setCell, if_pos ⟨by omega, h⟩]

theorem cellsBetween_eq {low high : Int} (h0 : 0 ≤ low) (h1 : low ≤ high) (h2 : high ≤ s.cells.size) :
    cellsBetween low high s = .ok (s.cells.extract low.toNat high.toNat) s := by
  rw [cellsBetween, if_pos ⟨h0, h1, h2⟩]

theorem global_eq {i w : Word} (h : s.global? i = some w) : global i s = .ok w s := by
  simp only [global, h]

theorem setGlobal_eq {i w : Word} {n : Nat} (h : i.index? s.globals.size = some n) :
    setGlobal i w s = .ok () { s with globals := s.globals.setIfInBounds n w } := by
  simp only [setGlobal, h]

theorem activeFrame_eq {f : Frame} (h : s.arena.active? = some f) : activeFrame s = .ok f s := by
  unfold CallStack.active? at h
  split at h
  · cases h
  next hdepth => simp only [activeFrame, if_neg hdepth, h]

theorem idleFrame_eq {f : Frame} (h : s.arena.frames[s.arena.depth]? = some f) : idleFrame s = .ok f s := by
  simp only [idleFrame, h]

theorem enter_eq {d : Descriptor} {returnAddress : Int} {size : Word} {f g : Frame}
    (hf : s.arena.grow.frames[s.arena.grow.depth]? = some f) (hg : f.resize size = .ok g) :
    enter d returnAddress size s = .ok () { s with
      arena := s.arena.grow.activate { g with
        function := d
        returnAddress := returnAddress
        invoker := s.arena.grow.depth - 1 } } := by
  rw [enter, modify_bind]
  refine (bind_ok (idleFrame_eq hf)).trans ?_
  rw [hg]
  rfl

theorem enter_error {d : Descriptor} {returnAddress : Int} {size : Word} {f : Frame} {a : Abandoned}
    (hf : s.arena.grow.frames[s.arena.grow.depth]? = some f) (hg : f.resize size = .error a) :
    enter d returnAddress size s = .error a { s with arena := s.arena.grow } := by
  rw [enter, modify_bind]
  refine (bind_ok (idleFrame_eq hf)).trans ?_
  rw [hg]
  rfl

theorem takeArguments_eq {n : Word} (h0 : 0 ≤ n.toInt) (h1 : n.toInt ≤ s.sp + 1)
    (h2 : s.sp < s.cells.size) :
    takeArguments n s = .ok () { s with
      arena := s.arena.modifyActive
        (·.fill (s.cells.extract (s.sp - n.toInt + 1).toNat (s.sp + 1).toNat))
      sp := s.sp - n.toInt } := by
  rw [takeArguments, get_bind, bind_ok (cellsBetween_eq (by omega) (by omega) (by omega))]
  rfl

theorem leave_eq {f : Frame} (h : s.arena.leave.frames[s.arena.leave.depth]? = some f) :
    leave s = .ok f { s with arena := s.arena.leave } := by
  rw [leave, modify_bind]
  exact idleFrame_eq h

theorem resize_zero (f : Frame) : f.resize 0 = .ok { f with size := 0 } := by
  have h0 : (0 : Word).toInt = 0 := rfl
  have hindex : (0 : Word).index? (f.storage.size + 1) = some 0 :=
    Word.index?_eq_some_iff.mpr ⟨rfl, by omega⟩
  rw [Frame.resize, if_pos (by omega), hindex]
  simp

/-- Dropping all active frames leaves a place for the outermost one. -/
theorem reset_grow_frame (a : CallStack) : ∃ f, a.reset.grow.frames[0]? = some f := by
  unfold CallStack.grow
  split
  next h =>
    have hsize : 0 = a.reset.frames.size := h
    exact ⟨{}, hsize ▸ Array.getElem?_push_size⟩
  next h =>
    have hsize : 0 < a.reset.frames.size := Nat.pos_of_ne_zero (Ne.symm h)
    exact ⟨a.reset.frames[0], Array.getElem?_eq_getElem hsize⟩

end StackMachine.Machine.Access

namespace StackMachine.Machine

theorem begin_eq (c : Setup) (address : Word) (s : State) :
    ∃ f, s.arena.reset.grow.frames[0]? = some f ∧
      begin c address s = .ok () { s with
        ip := address.toInt
        sp := -1
        arena := s.arena.reset.grow.activate { f with
          function := c.table.entry
          returnAddress := -1
          invoker := -1
          size := 0 }
        stats := { maxDepth := 1 }
        status := .running } := by
  obtain ⟨f, hf⟩ := Access.reset_grow_frame s.arena
  have hdepth : s.arena.reset.grow.depth = 0 := by
    unfold CallStack.grow
    split <;> rfl
  refine ⟨f, hf, ?_⟩
  rw [begin, modify_bind]
  refine (bind_ok (Access.enter_eq (f := f) ?_ (Access.resize_zero f))).trans ?_
  · change s.arena.reset.grow.frames[s.arena.reset.grow.depth]? = some f
    rw [hdepth]
    exact hf
  · change EStateM.Result.ok () _ = _
    simp only [hdepth]
    rfl

end StackMachine.Machine
