import StackMachine.Proofs.Machine.Storage

/-!
# Instructions are transitions of configurations

On a state whose storage is sound, applying an instruction gives what the transition of the configuration gives,
and the storage stays sound. A transition that is not made leaves the configuration as it was, whatever happened
to the storage. So the only thing that is ever abandoned is the entry into a function whose frame cannot be made,
and what is beyond the active frames or above the topmost operand never matters.
-/

set_option autoImplicit false

namespace StackMachine.Machine

variable {c : Setup} {s : State} {α : Type}

/-- What was computed from `s` is what the configuration of `s` gives. -/
inductive Agrees (c : Setup) (s : State) :
    EStateM.Result Stop State α → Except Stop (α × Configuration) → Prop
  | ok {a : α} {t : State} (sound : Sound c t) : Agrees c s (.ok a t) (.ok (a, t.view))
  | error {e : Stop} {t : State} (sound : Sound c t) (same : t.view = s.view) : Agrees c s (.error e t) (.error e)

theorem Agrees.ok_of_view {r : EStateM.Result Stop State α} {a : α} {t : State} {y : Configuration}
    (hr : r = .ok a t) (sound : Sound c t) (view : t.view = y) : Agrees c s r (.ok (a, y)) := by
  rw [hr, ← view]
  exact .ok sound

theorem Agrees.unchanged {r : EStateM.Result Stop State α} {e : Stop} (hr : r = .error e s)
    (sound : Sound c s) : Agrees c s r (.error e) := by
  rw [hr]
  exact .error sound rfl

/-! ## Operands -/

theorem top_view {v : Word} {rest : List Word} (h : Sound c s) (hs : s.stack = v :: rest) :
    Access.top s = .ok v s := by
  have hlen := h.length_stack
  have hlt := h.sp_lt
  rw [hs, List.length_cons] at hlen
  have h0 : 0 ≤ s.sp := by omega
  have hcell : s.sp.toNat < s.cells.size := by omega
  rw [stack_eq_cons h0 hcell] at hs
  rw [Access.top_eq h0 hcell, (List.cons.inj hs).1]

theorem pop_view {v : Word} {rest : List Word} (h : Sound c s) (hs : s.stack = v :: rest) :
    Access.pop s = .ok v { s with sp := s.sp - 1 } ∧ Sound c { s with sp := s.sp - 1 } ∧
      State.view { s with sp := s.sp - 1 } = { s.view with stack := rest } := by
  have hlen := h.length_stack
  have hlt := h.sp_lt
  rw [hs, List.length_cons] at hlen
  have h0 : 0 ≤ s.sp := by omega
  have hcell : s.sp.toNat < s.cells.size := by omega
  rw [stack_eq_cons h0 hcell] at hs
  obtain ⟨hv, hrest⟩ := List.cons.inj hs
  refine ⟨?_, ?_, ?_⟩
  · rw [Access.pop_eq h0 hcell, hv]
  · exact { h with sp_ge := by simp only; omega, sp_lt := by simp only; omega }
  · rw [← hrest]
    rfl

theorem push_view (w : Word) (h : Sound c s) (hroom : s.stack.length < c.limits.stackSize) :
    ∃ t, Access.push w s = .ok () t ∧ Sound c t ∧ t.view = { s.view with stack := w :: s.stack } := by
  have hlen := h.length_stack
  have hge := h.sp_ge
  have hsize := h.cells_size
  have hcell : (s.sp + 1).toNat < s.cells.size := by omega
  refine ⟨_, Access.push_eq hge hcell, ?_, ?_⟩
  · refine { h with cells_size := ?_, sp_ge := by simp only; omega, sp_lt := ?_ }
    · rw [Array.size_setIfInBounds]
      exact hsize
    · rw [Array.size_setIfInBounds]
      change s.sp + 1 < _
      omega
  · have hw : (s.cells.toList.set (s.sp + 1).toNat w)[(s.sp + 1).toNat]? = some w := by
      simp [hcell]
    have hheld : (s.sp + 1 + 1).toNat = (s.sp + 1).toNat + 1 := by omega
    simp only [State.view, State.stack, State.held, Array.toList_setIfInBounds, hheld]
    rw [reverse_take_succ hw, List.take_set_of_le (Nat.le_refl _)]
    rfl

namespace Attempt

theorem require_ok {p : Prop} [Decidable p] {reason : Reason} (h : p) : require p reason s = .ok () s := by
  rw [require, if_pos h]
  rfl

theorem require_error {p : Prop} [Decidable p] {reason : Reason} (h : ¬ p) :
    require p reason s = .error (.fault reason) s := by
  rw [require, if_neg h]
  rfl

theorem need_ok {n : Nat} (h : Sound c s) (hn : n ≤ s.stack.length) : need n s = .ok () s := by
  have hlen := h.length_stack
  rw [need, get_bind]
  exact require_ok (by omega)

theorem need_error {n : Nat} (h : Sound c s) (hn : s.stack.length < n) :
    need n s = .error (.fault (.underflow n s.stack.length)) s := by
  have hlen := h.length_stack
  rw [need, get_bind, ← h.held_eq]
  exact require_error (by omega)

theorem room_ok (h : Sound c s) (hroom : s.stack.length < c.limits.stackSize) : room s = .ok () s := by
  have hlen := h.length_stack
  have hsize := h.cells_size
  rw [room, get_bind]
  exact require_ok (by omega)

theorem room_error (h : Sound c s) (hroom : ¬ s.stack.length < c.limits.stackSize) :
    room s = .error (.fault (.overflow c.limits.stackSize)) s := by
  have hlen := h.length_stack
  have hsize := h.cells_size
  rw [room, get_bind, ← hsize]
  exact require_error (by omega)

theorem agrees_constant (w : Word) (h : Sound c s) :
    Agrees c s (constant w s) (Configuration.push c w s.view) := by
  unfold Configuration.push
  split
  next hroom =>
    obtain ⟨t, hpush, ht, hview⟩ := push_view w h hroom
    refine .ok_of_view ?_ ht hview
    rw [constant, bind_ok (room_ok h hroom), lift_ok hpush]
  next hroom =>
    refine .unchanged ?_ h
    rw [constant, bind_error (room_error h hroom)]

theorem agrees_binary (f : Word → Word → Word) (h : Sound c s) :
    Agrees c s (binary f s) (Configuration.binary f s.view) := by
  have hlen := h.length_stack
  have hlt := h.sp_lt
  have hsize := h.cells_size
  match hs : s.stack with
  | [] | [_] =>
    have hview : s.view.stack = _ := hs
    simp only [Configuration.binary, hview]
    refine .unchanged ?_ h
    rw [binary, bind_error (need_error h (by simp [hs])), hs]
  | b :: a :: rest =>
    have hview : s.view.stack = b :: a :: rest := hs
    obtain ⟨hpop, ht, htview⟩ := pop_view h hs
    have hts : State.stack { s with sp := s.sp - 1 } = a :: rest := congrArg (·.stack) htview
    obtain ⟨hpop', hu, huview⟩ := pop_view ht hts
    have hus : State.stack { s with sp := s.sp - 1 - 1 } = rest := congrArg (·.stack) huview
    rw [hs] at hlen
    simp only [List.length_cons] at hlen
    obtain ⟨v, hpush, hv, hvview⟩ := push_view (f a b) hu (by rw [hus]; omega)
    simp only [Configuration.binary, hview]
    refine .ok_of_view ?_ hv ?_
    · rw [binary, bind_ok (need_ok h (by simp [hs])), bind_ok (lift_ok hpop), bind_ok (lift_ok hpop'),
        lift_ok hpush]
    · rw [hvview, hus, huview, htview]

theorem withTop_nil {f : Word → Configuration.Transition α} (hs : s.stack = []) :
    s.view.withTop f = .error (.fault (.underflow 1 0)) := by
  have hview : s.view.stack = [] := hs
  simp only [Configuration.withTop, hview]

theorem withTop_cons {f : Word → Configuration.Transition α} {v : Word} {rest : List Word}
    (hs : s.stack = v :: rest) : s.view.withTop f = f v { s.view with stack := rest } := by
  have hview : s.view.stack = v :: rest := hs
  simp only [Configuration.withTop, hview]

theorem need_one_nil (h : Sound c s) (hs : s.stack = []) :
    need 1 s = .error (.fault (.underflow 1 0)) s := by
  rw [need_error h (by simp [hs]), hs]
  rfl

theorem need_one_cons {v : Word} {rest : List Word} (h : Sound c s) (hs : s.stack = v :: rest) :
    need 1 s = .ok () s :=
  need_ok h (by simp [hs])

theorem target_some {w : Word} {addr : Nat} (hw : w.target? c.code.size = some addr) :
    target c w s = .ok (addr : Int) s := by
  unfold target
  rw [hw]
  rfl

theorem target_none {w : Word} (hw : w.target? c.code.size = none) :
    target c w s = .error (.fault (.branchOutside w)) s := by
  unfold target
  rw [hw]
  rfl

theorem agrees_target (w : Word) (h : Sound c s) :
    Agrees c s (target c w s) (Configuration.target c w s.view) := by
  unfold Configuration.target
  cases hw : w.target? c.code.size with
  | some addr => exact .ok_of_view (target_some hw) h rfl
  | none => exact .unchanged (target_none hw) h

theorem agrees_branchOn (next : Nat) (taken w : Word) (h : Sound c s) :
    Agrees c s (branchOn c next taken w s) (Configuration.branchOn c next taken w s.view) := by
  unfold Configuration.branchOn
  cases hs : s.stack with
  | nil =>
    rw [withTop_nil hs]
    refine .unchanged ?_ h
    rw [branchOn, bind_error (need_one_nil h hs)]
  | cons v rest =>
    obtain ⟨hpop, ht, htview⟩ := pop_view h hs
    rw [withTop_cons hs, branchOn, bind_ok (need_one_cons h hs), bind_ok (lift_ok (top_view h hs))]
    split
    · unfold Configuration.target
      cases hw : w.target? c.code.size with
      | some addr =>
        refine .ok_of_view ?_ ht htview
        rw [bind_ok (target_some hw), bind_ok (lift_ok hpop)]
        rfl
      | none => exact .unchanged (bind_error (target_none hw)) h
    · refine .ok_of_view ?_ ht htview
      exact bind_ok (lift_ok hpop)

theorem agrees_drop (h : Sound c s) : Agrees c s (drop s) (Configuration.drop s.view) := by
  unfold Configuration.drop
  cases hs : s.stack with
  | nil =>
    rw [withTop_nil hs]
    refine .unchanged ?_ h
    rw [drop, bind_error (need_one_nil h hs)]
  | cons v rest =>
    obtain ⟨hpop, ht, htview⟩ := pop_view h hs
    rw [withTop_cons hs]
    refine .ok_of_view ?_ ht htview
    rw [drop, bind_ok (need_one_cons h hs), bind_ok (lift_ok hpop)]
    rfl

theorem agrees_print (h : Sound c s) : Agrees c s (print s) (Configuration.print s.view) := by
  unfold Configuration.print
  cases hs : s.stack with
  | nil =>
    rw [withTop_nil hs]
    refine .unchanged ?_ h
    rw [print, bind_error (need_one_nil h hs)]
  | cons v rest =>
    rw [withTop_cons hs, print, bind_ok (need_one_cons h hs), bind_ok (lift_ok (top_view h hs))]
    have hview : s.view.sink = s.sink := rfl
    cases hw : s.sink.write (v.text ++ "\n") with
    | error refusal =>
      have hwrite : write (v.text ++ "\n") s = .error (.refused refusal) s := by
        simp only [write, hw]
      simp only [hview, hw]
      exact .unchanged (bind_error hwrite) h
    | ok sink =>
      have hwrite : write (v.text ++ "\n") s = .ok () { s with sink := sink } := by
        simp only [write, hw]
      -- What the sink takes does not touch the operands.
      have hsink : Sound c { s with sink := sink } := { h with }
      obtain ⟨hpop, ht, htview⟩ := pop_view hsink hs
      simp only [hview, hw]
      refine .ok_of_view ?_ ht htview
      rw [bind_ok hwrite, bind_ok (lift_ok hpop)]
      rfl

/-! ## Globals -/

theorem needGlobal_ok {index : Word} {i : Nat} (hi : index.index? s.globals.size = some i) :
    needGlobal index s = .ok () s := by
  rw [needGlobal, get_bind]
  exact require_ok (by simp [hi])

theorem needGlobal_error {index : Word} (hi : index.index? s.globals.size = none) :
    needGlobal index s = .error (.fault (.globalOutside index s.globals.size)) s := by
  rw [needGlobal, get_bind]
  exact require_error (by simp [hi])

theorem agrees_loadGlobal (index : Word) (h : Sound c s) :
    Agrees c s (loadGlobal index s) (Configuration.loadGlobal c index s.view) := by
  unfold Configuration.loadGlobal
  cases hi : index.index? s.globals.size with
  | none =>
    have hview : index.index? s.view.globals.size = none := hi
    simp only [hview, Option.bind_none]
    exact .unchanged (bind_error (needGlobal_error hi)) h
  | some i =>
    obtain ⟨-, hlt⟩ := Word.index?_eq_some_iff.mp hi
    have hview : index.index? s.view.globals.size = some i := hi
    have hcell : s.view.globals[i]? = some s.globals[i] := Array.getElem?_eq_getElem hlt
    have hglobal : s.global? index = some s.globals[i] := by
      rw [State.global?, hi]
      exact hcell
    simp only [hview, Option.bind_some, hcell]
    unfold Configuration.push
    split
    next hroom =>
      obtain ⟨t, hpush, ht, htview⟩ := push_view s.globals[i] h hroom
      refine .ok_of_view ?_ ht htview
      rw [loadGlobal, bind_ok (needGlobal_ok hi), bind_ok (room_ok h hroom),
        bind_ok (lift_ok (Access.global_eq hglobal)), lift_ok hpush]
    next hroom =>
      refine .unchanged ?_ h
      rw [loadGlobal, bind_ok (needGlobal_ok hi), bind_error (room_error h hroom)]

theorem agrees_storeGlobal (index : Word) (h : Sound c s) :
    Agrees c s (storeGlobal index s) (Configuration.storeGlobal index s.view) := by
  unfold Configuration.storeGlobal
  cases hi : index.index? s.globals.size with
  | none =>
    have hview : index.index? s.view.globals.size = none := hi
    simp only [hview]
    exact .unchanged (bind_error (needGlobal_error hi)) h
  | some i =>
    have hview : index.index? s.view.globals.size = some i := hi
    simp only [hview]
    cases hs : s.stack with
    | nil =>
      rw [withTop_nil hs]
      refine .unchanged ?_ h
      rw [storeGlobal, bind_ok (needGlobal_ok hi), bind_error (need_one_nil h hs)]
    | cons v rest =>
      obtain ⟨hpop, ht, htview⟩ := pop_view h hs
      have hset := Access.setGlobal_eq (s := { s with sp := s.sp - 1 }) (w := v) hi
      rw [withTop_cons hs, ← htview]
      refine .ok_of_view (t := { s with sp := s.sp - 1, globals := s.globals.setIfInBounds i v }) ?_ { ht with } rfl
      rw [storeGlobal, bind_ok (needGlobal_ok hi), bind_ok (need_one_cons h hs), bind_ok (lift_ok hpop),
        lift_ok hset]

/-! ## Locals -/

end Attempt

theorem activeFrame_view (h : Sound c s) :
    (s.frames = [] ∧ Access.activeFrame s = .error .noFrame s) ∨
    ∃ f, Access.activeFrame s = .ok f s ∧ s.arena.active? = some f ∧ f.Fits ∧
      s.frames = f :: s.arena.leave.toList := by
  have hle := h.depth_le
  by_cases h0 : s.arena.depth = 0
  · refine .inl ⟨?_, ?_⟩
    · exact List.length_eq_zero_iff.mp (h.length_frames.trans h0)
    · rw [Access.activeFrame, if_pos h0]
  · have hlt : s.arena.depth - 1 < s.arena.frames.size := by omega
    have hactive : s.arena.active? = some s.arena.frames[s.arena.depth - 1] := by
      rw [CallStack.active?, if_neg h0, Array.getElem?_eq_getElem hlt]
    exact .inr ⟨_, Access.activeFrame_eq hactive, hactive, h.fits _ (Array.getElem_mem hlt),
      CallStack.toList_of_active hactive⟩

namespace Attempt

theorem agrees_load (slot : Word) (h : Sound c s) :
    Agrees c s (load slot s) (Configuration.load c slot s.view) := by
  unfold Configuration.load
  obtain ⟨hnil, herror⟩ | ⟨f, hframe, hactive, hfits, hcons⟩ := activeFrame_view h
  · have hview : s.view.frames = [] := congrArg (List.map _) hnil
    simp only [hview]
    exact .unchanged (bind_error (lift_error herror)) h
  · have hview : s.view.frames = .of f :: s.arena.leave.toList.map .of := congrArg (List.map _) hcons
    have hslot : f.slot? slot =
        (slot.index? (Activation.of f).slots.length).bind ((Activation.of f).slots[·]?) := f.slot?_eq hfits slot
    simp only [hview, load]
    rw [bind_ok (lift_ok hframe), ← hslot]
    cases hv : f.slot? slot with
    | none =>
      refine .unchanged ?_ h
      have hlen : (Activation.of f).slots.length = f.size := Frame.length_slots hfits
      rw [hlen]
      rfl
    | some v => exact agrees_constant v h

theorem agrees_store (slot : Word) (h : Sound c s) :
    Agrees c s (store slot s) (Configuration.store slot s.view) := by
  unfold Configuration.store
  obtain ⟨hnil, herror⟩ | ⟨f, hframe, hactive, hfits, hcons⟩ := activeFrame_view h
  · have hview : s.view.frames = [] := congrArg (List.map _) hnil
    simp only [hview]
    exact .unchanged (bind_error (lift_error herror)) h
  · have hview : s.view.frames = .of f :: s.arena.leave.toList.map .of := congrArg (List.map _) hcons
    have hlen : (Activation.of f).slots.length = f.size := Frame.length_slots hfits
    simp only [hview, store, hlen]
    rw [bind_ok (lift_ok hframe)]
    cases hi : slot.index? f.size with
    | none => exact .unchanged rfl h
    | some i =>
      cases hs : s.stack with
      | nil =>
        simp only [withTop_nil hs]
        exact .unchanged (bind_error (need_one_nil h hs)) h
      | cons v rest =>
        obtain ⟨hpop, ht, htview⟩ := pop_view h hs
        simp only [withTop_cons hs]
        refine .ok_of_view ?_ (ht.modifyFrame (s.arena.depth - 1) fun _ hf => hf.setCell i v) ?_
        · rw [bind_ok (need_one_cons h hs), bind_ok (lift_ok hpop)]
          rfl
        · refine (view_modifyActive (s := { s with sp := s.sp - 1 }) (·.setCell i v) hactive).trans ?_
          rw [htview, Activation.of_setCell]

end Attempt

/-! ## Calls -/

theorem grow_frame (h : Sound c s) : ∃ f, s.arena.grow.frames[s.arena.grow.depth]? = some f ∧ f.Fits := by
  have hlt := CallStack.grow_lt h.depth_le
  rw [CallStack.depth_grow]
  exact ⟨_, Array.getElem?_eq_getElem hlt, CallStack.forall_grow h.fits Frame.within_new _ (Array.getElem_mem hlt)⟩

theorem enter_view (d : Descriptor) (returnAddress : Int) {size : Word} (h : Sound c s)
    (hsize : Frame.refusal? size = none) :
    ∃ f, Access.enter d returnAddress size s = .ok () { s with arena := s.arena.grow.activate f } ∧ f.Fits ∧
      Activation.of f = {
        function := d
        returnAddress := returnAddress
        invoker := s.frames.length - 1
        slots := List.replicate size.toInt.toNat 0 } := by
  obtain ⟨f, hf, hfits⟩ := grow_frame h
  obtain ⟨g, hg, hslots, hfits⟩ := Frame.resize_made hfits hsize
  refine ⟨_, Access.enter_eq hf hg, ⟨hfits.size_le, hfits.storage_le⟩, ?_⟩
  have hlen : s.frames.length = s.arena.depth := h.length_frames
  rw [CallStack.depth_grow, hlen, ← hslots]
  rfl

theorem enter_refused {d : Descriptor} {returnAddress : Int} {size : Word} {a : Abandoned} (h : Sound c s)
    (hsize : Frame.refusal? size = some a) :
    Access.enter d returnAddress size s = .error a { s with arena := s.arena.grow } := by
  obtain ⟨f, hf, hfits⟩ := grow_frame h
  exact Access.enter_error hf (Frame.resize_refused hfits hsize)

theorem takeArguments_view {n : Word} {f : Frame} (h : Sound c s) (hf : s.arena.active? = some f)
    (h0 : 0 ≤ n.toInt) (hn : n.toInt ≤ s.stack.length) (hsize : n.toInt.toNat ≤ f.size) :
    ∃ t, Access.takeArguments n s = .ok () t ∧ Sound c t ∧ t.view = { s.view with
      stack := s.stack.drop n.toInt.toNat
      frames := { Activation.of f with
        slots := (s.stack.take n.toInt.toNat).reverse ++ (Activation.of f).slots.drop n.toInt.toNat } ::
          s.arena.leave.toList.map .of } := by
  have hlen := h.length_stack
  have hlt := h.sp_lt
  have harguments := h.extract_arguments h0 (by omega)
  have hcount : (s.cells.extract (s.sp - n.toInt + 1).toNat (s.sp + 1).toNat).size = n.toInt.toNat := by
    rw [Array.size_extract]
    omega
  have hsound : Sound c { s with sp := s.sp - n.toInt } :=
    { h with sp_ge := by simp only; omega, sp_lt := by simp only; omega }
  have hslots := Frame.slots_fill (hcount ▸ hsize)
  rw [harguments, hcount] at hslots
  refine ⟨_, Access.takeArguments_eq h0 (by omega) hlt, ?_, ?_⟩
  · exact hsound.modifyFrame (s.arena.depth - 1) fun _ hg => hg.fill _
  · refine (view_modifyActive (s := { s with sp := s.sp - n.toInt }) _ hf).trans ?_
    simp only [State.view, h.stack_drop h0 (by omega)]
    congr 2
    simp only [Activation.of, hslots]
    rfl

namespace Attempt

section NeedCallable

variable {d : Descriptor}

theorem needCallable_missing (h : Sound c s) (hargs : s.stack.length < d.args.toInt) :
    needCallable c d s = .error (.fault (.missingArguments d.name d.args s.stack.length)) s := by
  have hlen := h.length_stack
  rw [needCallable, get_bind, ← h.held_eq]
  exact bind_error (require_error (by omega))

theorem needCallable_deep (h : Sound c s) (hargs : ¬ s.stack.length < d.args.toInt)
    (hdepth : c.limits.maxDepth ≤ s.depth) :
    needCallable c d s = .error (.fault (.depthExceeded d.name c.limits.maxDepth)) s := by
  have hlen := h.length_stack
  rw [needCallable, get_bind, bind_ok (require_ok (by omega))]
  exact bind_error (require_error (by omega))

theorem needCallable_outside (h : Sound c s) (hargs : ¬ s.stack.length < d.args.toInt)
    (hdepth : ¬ c.limits.maxDepth ≤ s.depth) (haddr : d.address.target? c.code.size = none) :
    needCallable c d s = .error (.fault (.entryOutside d.name d.address)) s := by
  have hlen := h.length_stack
  rw [needCallable, get_bind, bind_ok (require_ok (by omega)), bind_ok (require_ok (by omega))]
  exact require_error (by simp [haddr])

theorem needCallable_ok (h : Sound c s) (hargs : ¬ s.stack.length < d.args.toInt)
    (hdepth : ¬ c.limits.maxDepth ≤ s.depth) (haddr : ¬ d.address.target? c.code.size = none) :
    needCallable c d s = .ok () s := by
  have hlen := h.length_stack
  rw [needCallable, get_bind, bind_ok (require_ok (by omega)), bind_ok (require_ok (by omega))]
  exact require_ok (Option.isSome_iff_ne_none.mpr haddr)

end NeedCallable

end Attempt

/-- Entering a function and handing it its arguments puts its activation on top. -/
theorem enter_takeArguments {d : Descriptor} (next : Nat) (h : Sound c s) (hd : d.Nonneg)
    (hsize : Frame.refusal? d.frameSize = none) (hargs : ¬ s.stack.length < d.args.toInt)
    (hdepth : s.depth < c.limits.maxDepth) :
    ∃ t u, Access.enter d next d.frameSize s = .ok () t ∧ Access.takeArguments d.args t = .ok () u ∧ Sound c u ∧
      u.view = { s.view with
        stack := s.stack.drop d.args.toInt.toNat
        frames := s.view.activation d next :: s.view.frames } := by
  have hargs0 : 0 ≤ d.args.toInt := Int64.le_iff_toInt_le.mp hd.1
  have hlocals0 : 0 ≤ d.locals.toInt := Int64.le_iff_toInt_le.mp hd.2.1
  have hsum := Descriptor.toInt_frameSize hd (Frame.refusal?_eq_none_iff.mp hsize).1
  obtain ⟨f, henter, hfits, hf⟩ := enter_view d next h hsize
  have hslots : f.slots.toList = List.replicate d.frameSize.toInt.toNat 0 := congrArg (·.slots) hf
  have hfsize : f.size = d.frameSize.toInt.toNat := by
    rw [← Frame.length_slots hfits, hslots, List.length_replicate]
  have hlt : s.arena.grow.depth < s.arena.grow.frames.size := by
    rw [CallStack.depth_grow]
    exact CallStack.grow_lt h.depth_le
  have hsound : Sound c { s with arena := s.arena.grow.activate f } := (h.grow hdepth).activate hlt hfits
  obtain ⟨u, htake, hu, hview⟩ := takeArguments_view hsound (CallStack.active?_activate f hlt) hargs0
    (Int.not_lt.mp hargs) (by omega)
  refine ⟨_, u, henter, htake, hu, ?_⟩
  have hdrop : d.frameSize.toInt.toNat - d.args.toInt.toNat = d.locals.toInt.toNat := by omega
  have hlength : s.view.frames.length = s.frames.length := List.length_map _
  rw [hview, CallStack.toList_leave_activate f hlt, CallStack.toList_grow h.depth_le, hf,
    List.drop_replicate, hdrop]
  simp only [Configuration.activation, hlength]
  rfl

namespace Attempt

theorem agrees_call (next : Nat) (id : Word) (h : Sound c s) :
    Agrees c s (call c next id s) (Configuration.call c next id s.view) := by
  have hframes : s.view.frames.length = s.depth := (List.length_map _).trans h.length_frames
  unfold call Configuration.call
  cases hd : c.table.lookup? id with
  | none => exact .unchanged rfl h
  | some d =>
    simp only [hframes]
    split
    next hargs => exact .unchanged (bind_error (needCallable_missing h hargs)) h
    next hargs =>
      split
      next hdepth => exact .unchanged (bind_error (needCallable_deep h hargs hdepth)) h
      next hdepth =>
        split
        next haddr => exact .unchanged (bind_error (needCallable_outside h hargs hdepth haddr)) h
        next haddr =>
          rw [bind_ok (needCallable_ok h hargs hdepth haddr)]
          split
          next hsize =>
            rw [bind_error (lift_error (enter_refused h hsize))]
            exact .error (h.grow (by omega)) h.view_grow
          next hsize =>
            obtain ⟨t, u, henter, htake, hu, hview⟩ := enter_takeArguments next h
              (FunctionTable.nonneg_of_lookup? hd) hsize hargs (by omega)
            refine .ok_of_view (t := { u with stats := u.stats.countCall }) ?_ { hu with } ?_
            · rw [bind_ok (lift_ok henter), bind_ok (lift_ok htake)]
              rfl
            · have hstats : u.stats = s.stats := congrArg (·.stats) hview
              change { u.view with stats := u.stats.countCall } = _
              rw [hview, hstats]
              rfl

theorem agrees_ret (h : Sound c s) : Agrees c s (ret s) (Configuration.ret s.view) := by
  have hframes : s.view.frames.length = s.depth := (List.length_map _).trans h.length_frames
  unfold Configuration.ret
  rw [ret, get_bind]
  match hview : s.view.frames with
  | [] | [_] =>
    rw [hview] at hframes
    refine .unchanged (bind_error (require_error ?_)) h
    simp only [List.length_nil, List.length_singleton] at hframes
    omega
  | a :: b :: rest =>
    rw [hview] at hframes
    simp only [List.length_cons] at hframes
    rw [bind_ok (require_ok (by omega))]
    obtain ⟨hnil, -⟩ | ⟨f, -, hactive, -, hcons⟩ := activeFrame_view h
    · rw [State.view, hnil] at hview
      cases hview
    · obtain ⟨n, hn, hf⟩ := CallStack.active?_eq_some_iff.mp hactive
      have hleave : s.arena.leave.frames[s.arena.leave.depth]? = some f := by
        rw [CallStack.leave, hn]
        exact hf
      have hmap : .of f :: s.arena.leave.toList.map .of = a :: b :: rest := by
        rw [← hview, State.view, hcons]
        rfl
      obtain ⟨rfl, hrest⟩ := List.cons.inj hmap
      refine .ok_of_view (t := { s with arena := s.arena.leave, stats := s.stats.countReturn }) ?_
        { h.leave with } ?_
      · rw [bind_ok (lift_ok (Access.leave_eq hleave))]
        rfl
      · rw [← hrest]
        rfl

theorem agrees_then {x : Attempt Unit} {t : Configuration.Transition Unit} (next : Nat)
    (h : Agrees c s (x s) (t s.view)) :
    Agrees c s ((do x; return (next : Int) : Attempt Int) s) (Configuration.andThen next t s.view) := by
  unfold Configuration.andThen
  generalize ht : t s.view = r at h
  generalize hx : x s = y at h
  cases h with
  | ok sound =>
    rw [bind_ok hx]
    exact .ok sound
  | error sound same =>
    rw [bind_error hx]
    exact .error sound same

theorem agrees_apply (next : Nat) (i : Instr) (h : Sound c s) :
    Agrees c s (apply c next i s) (Configuration.apply c next i s.view) := by
  cases i with
  | iadd | isub | imul | ilt | ieq => exact agrees_then next (agrees_binary _ h)
  | br t => exact agrees_target t h
  | brt t | brf t => exact agrees_branchOn next _ t h
  | iconst w => exact agrees_then next (agrees_constant _ h)
  | load slot => exact agrees_then next (agrees_load slot h)
  | gload i => exact agrees_then next (agrees_loadGlobal i h)
  | store slot => exact agrees_then next (agrees_store slot h)
  | gstore i => exact agrees_then next (agrees_storeGlobal i h)
  | print => exact agrees_then next (agrees_print h)
  | pop => exact agrees_then next (agrees_drop h)
  | call id => exact agrees_call next id h
  | ret => exact agrees_ret h
  | halt => exact .ok h

end Attempt

/-! ## Starts -/

/-- A start forgets everything about earlier runs but the globals. -/
theorem begin_view (address : Word) (h : Sound c s) (hdepth : 1 ≤ c.limits.maxDepth) :
    ∃ t, begin c address s = .ok () t ∧ Sound c t ∧
      t.view.frames = [{ function := c.table.entry, returnAddress := -1, invoker := -1, slots := [] }] ∧
      t.ip = address.toInt ∧ t.status = .running ∧ t.globals = s.globals := by
  obtain ⟨f, hf, hbegin⟩ := begin_eq c address s
  have hreset : Sound c { s with sp := -1, arena := s.arena.reset } :=
    { h with sp_ge := by simp only; omega, sp_lt := by simp only; omega, depth_le := Nat.zero_le _ }
  have hlt : s.arena.reset.grow.depth < s.arena.reset.grow.frames.size := by
    rw [CallStack.depth_grow]
    exact CallStack.grow_lt (Nat.zero_le _)
  have hnil : s.arena.reset.grow.toList = [] := (CallStack.toList_grow (Nat.zero_le _)).trans rfl
  refine ⟨_, hbegin, ?_, ?_, rfl, rfl, rfl⟩
  · have hfits : f.Fits := CallStack.forall_grow hreset.fits Frame.within_new f (Array.mem_of_getElem? hf)
    have houtermost : Frame.Fits { f with
        function := c.table.entry
        returnAddress := -1
        invoker := -1
        size := 0 } := ⟨Nat.zero_le _, hfits.storage_le⟩
    exact { (hreset.grow (by change 0 < _; omega)).activate hlt houtermost with }
  · simp [State.view, State.frames, CallStack.toList_activate _ hlt, hnil, Activation.of, Frame.slots]

end StackMachine.Machine
