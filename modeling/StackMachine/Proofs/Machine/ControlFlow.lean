import StackMachine.Proofs.Machine.Refinement

/-!
# Where an instruction leads

What applying an instruction can come to, as far as the way through the code and the frames are concerned: it
goes on at the next address, at a branch target, at the start of a function with a new frame, or where the frame
it leaves returns to. If it is not applied, either the operands, the frames or the limits did not allow it, or
its operand names something that is not there.
-/

set_option autoImplicit false

namespace StackMachine

/-- Whether a fault depends on operands, frames and limits, and not on the code alone. -/
def Reason.isDynamic : Reason → Bool
  | underflow _ _ | overflow _ | localOutside _ _ | missingArguments _ _ _ | depthExceeded _ _
  | outermostReturn => true
  | _ => false

namespace Machine

/-- Applying `i` to `x` can come to this; `next` is the address after the instruction. -/
inductive Flow (c : Setup) (next : Nat) (i : Instr) (x : Configuration) :
    Except Stop (Int × Configuration) → Prop
  | advance {y : Configuration} (h : y.frames = x.frames) : Flow c next i x (.ok (next, y))
  | branch {w : Word} {addr : Nat} {y : Configuration} (hi : i = .br w ∨ i = .brt w ∨ i = .brf w)
    (hw : w.target? c.code.size = some addr) (h : y.frames = x.frames) : Flow c next i x (.ok (addr, y))
  | store {f : Activation} {rest : List Activation} {n : Nat} {v : Word} {y : Configuration}
    (hf : x.frames = f :: rest) (h : y.frames = { f with slots := f.slots.set n v } :: rest) :
    Flow c next i x (.ok (next, y))
  | call {id : Word} {d : Descriptor} {y : Configuration} (hi : i = .call id)
    (hd : c.table.lookup? id = some d) (hargs : d.args.toInt ≤ x.stack.length)
    (hdepth : x.frames.length < c.limits.maxDepth) (haddr : d.address.target? c.code.size ≠ none)
    (h : y.frames = x.activation d next :: x.frames) : Flow c next i x (.ok (d.address.toInt, y))
  | ret {f g : Activation} {rest : List Activation} {y : Configuration} (hi : i = .ret)
    (hf : x.frames = f :: g :: rest) (h : y.frames = g :: rest) : Flow c next i x (.ok (f.returnAddress, y))
  | dynamic {reason : Reason} (h : reason.isDynamic = true) : Flow c next i x (.error (.fault reason))
  | badBranch {w : Word} (hi : i = .br w ∨ i = .brt w ∨ i = .brf w) (hw : w.target? c.code.size = none) :
    Flow c next i x (.error (.fault (.branchOutside w)))
  | badGlobal {w : Word} (hi : i = .gload w ∨ i = .gstore w) (hw : w.index? x.globals.size = none) :
    Flow c next i x (.error (.fault (.globalOutside w x.globals.size)))
  | badCall {id : Word} (hi : i = .call id) (hd : c.table.lookup? id = none) :
    Flow c next i x (.error (.fault (.unknownFunction id c.table.size)))
  | badEntry {id : Word} {d : Descriptor} (hi : i = .call id) (hd : c.table.lookup? id = some d)
    (haddr : d.address.target? c.code.size = none) :
    Flow c next i x (.error (.fault (.entryOutside d.name d.address)))
  | refused {text : String} : Flow c next i x (.error (.refused text))
  | frameless (h : x.frames = []) : Flow c next i x (.error (.abandoned .noFrame))
  | frameRefused {id : Word} {d : Descriptor} {a : Abandoned} (hi : i = .call id) (hd : c.table.lookup? id = some d)
    (h : Frame.refusal? d.frameSize = some a) : Flow c next i x (.error (.abandoned a))

namespace Configuration

variable {c : Setup} {next : Nat} {i : Instr} {x : Configuration}

theorem flow_push (w : Word) : Flow c next i x (andThen next (push c w) x) := by
  by_cases h : x.stack.length < c.limits.stackSize
  · simp only [andThen, push, h, if_true]
    exact .advance rfl
  · simp only [andThen, push, h, if_false]
    exact .dynamic rfl

theorem flow_binary (f : Word → Word → Word) : Flow c next i x (andThen next (binary f) x) := by
  match hs : x.stack with
  | [] | [_] =>
    simp only [andThen, binary, hs]
    exact .dynamic rfl
  | b :: a :: rest =>
    simp only [andThen, binary, hs]
    exact .advance rfl

theorem flow_target {w : Word} (hi : i = .br w ∨ i = .brt w ∨ i = .brf w) {y : Configuration}
    (hy : y.frames = x.frames) : Flow c next i x (target c w y) := by
  unfold target
  split
  next hw => exact .branch hi hw hy
  next hw => exact .badBranch hi hw

theorem flow_branchOn {taken w : Word} (hi : i = .br w ∨ i = .brt w ∨ i = .brf w) :
    Flow c next i x (branchOn c next taken w x) := by
  unfold branchOn withTop
  split
  · exact .dynamic rfl
  · dsimp only
    split
    · exact flow_target hi rfl
    · exact .advance rfl

theorem flow_load (slot : Word) : Flow c next i x (andThen next (load c slot) x) := by
  cases hf : x.frames with
  | nil =>
    simp only [andThen, load, hf]
    exact .frameless hf
  | cons f rest =>
    cases hv : (slot.index? f.slots.length).bind (f.slots[·]?) with
    | none =>
      simp only [andThen, load, hf, hv]
      exact .dynamic rfl
    | some v =>
      have hpush : Flow c next i x (andThen next (push c v) x) := flow_push v
      simp only [andThen, load, hf, hv]
      exact hpush

theorem flow_store (slot : Word) : Flow c next i x (andThen next (store slot) x) := by
  cases hf : x.frames with
  | nil =>
    simp only [andThen, store, hf]
    exact .frameless hf
  | cons f rest =>
    cases hn : slot.index? f.slots.length with
    | none =>
      simp only [andThen, store, hf, hn]
      exact .dynamic rfl
    | some n =>
      cases hs : x.stack with
      | nil =>
        simp only [andThen, store, hf, hn, withTop, hs]
        exact .dynamic rfl
      | cons v ws =>
        simp only [andThen, store, hf, hn, withTop, hs]
        exact .store hf rfl

theorem flow_loadGlobal {w : Word} (hi : i = .gload w ∨ i = .gstore w) :
    Flow c next i x (andThen next (loadGlobal c w) x) := by
  cases hw : w.index? x.globals.size with
  | none =>
    simp only [andThen, loadGlobal, hw, Option.bind_none]
    exact .badGlobal hi hw
  | some n =>
    obtain ⟨-, hlt⟩ := Word.index?_eq_some_iff.mp hw
    have hpush : Flow c next i x (andThen next (push c x.globals[n]) x) := flow_push _
    simp only [andThen, loadGlobal, hw, Option.bind_some, Array.getElem?_eq_getElem hlt]
    exact hpush

theorem flow_storeGlobal {w : Word} (hi : i = .gload w ∨ i = .gstore w) :
    Flow c next i x (andThen next (storeGlobal w) x) := by
  cases hw : w.index? x.globals.size with
  | none =>
    simp only [andThen, storeGlobal, hw]
    exact .badGlobal hi hw
  | some n =>
    cases hs : x.stack with
    | nil =>
      simp only [andThen, storeGlobal, hw, withTop, hs]
      exact .dynamic rfl
    | cons v rest =>
      simp only [andThen, storeGlobal, hw, withTop, hs]
      exact .advance rfl

theorem flow_print : Flow c next i x (andThen next print x) := by
  cases hs : x.stack with
  | nil =>
    simp only [andThen, print, withTop, hs]
    exact .dynamic rfl
  | cons v rest =>
    cases hw : x.sink.write (v.text ++ "\n") with
    | ok sink =>
      simp only [andThen, print, withTop, hs, hw]
      exact .advance rfl
    | error text =>
      simp only [andThen, print, withTop, hs, hw]
      exact .refused

theorem flow_drop : Flow c next i x (andThen next drop x) := by
  cases hs : x.stack with
  | nil =>
    simp only [andThen, drop, withTop, hs]
    exact .dynamic rfl
  | cons v rest =>
    simp only [andThen, drop, withTop, hs]
    exact .advance rfl

theorem flow_call {id : Word} (hi : i = .call id) : Flow c next i x (call c next id x) := by
  unfold call
  split
  next hd => exact .badCall hi hd
  next d hd =>
    split
    · exact .dynamic rfl
    · split
      · exact .dynamic rfl
      · split
        next haddr => exact .badEntry hi hd haddr
        next haddr =>
          split
          next hsize => exact .frameRefused hi hd hsize
          next => exact .call hi hd (by omega) (by omega) haddr rfl

theorem flow_ret (hi : i = .ret) : Flow c next i x (ret x) := by
  unfold ret
  split
  next f g rest hf => exact .ret hi hf rfl
  next => exact .dynamic rfl

theorem flow_apply (c : Setup) (next : Nat) (i : Instr) (x : Configuration) :
    Flow c next i x (apply c next i x) := by
  cases i with
  | iadd | isub | imul | ilt | ieq => exact flow_binary _
  | br w => exact flow_target (.inl rfl) rfl
  | brt w => exact flow_branchOn (.inr (.inl rfl))
  | brf w => exact flow_branchOn (.inr (.inr rfl))
  | iconst w => exact flow_push _
  | load slot => exact flow_load slot
  | gload w => exact flow_loadGlobal (.inl rfl)
  | store slot => exact flow_store slot
  | gstore w => exact flow_storeGlobal (.inr rfl)
  | print => exact flow_print
  | pop => exact flow_drop
  | call id => exact flow_call rfl
  | ret => exact flow_ret rfl
  | halt => exact .advance rfl

end Configuration

section Flow

variable {c : Setup} {s t : State} {next : Nat} {i : Instr}

theorem flow_of_ok {ip : Int} (h : Sound c s) (happly : Attempt.apply c next i s = .ok ip t) :
    Sound c t ∧ Flow c next i s.view (.ok (ip, t.view)) := by
  have hagrees := Attempt.agrees_apply next i h
  have hflow := Configuration.flow_apply c next i s.view
  rw [happly] at hagrees
  generalize Configuration.apply c next i s.view = r at hagrees hflow
  cases hagrees with
  | ok sound => exact ⟨sound, hflow⟩

theorem flow_of_error {e : Stop} (h : Sound c s) (happly : Attempt.apply c next i s = .error e t) :
    Sound c t ∧ t.view = s.view ∧ Flow c next i s.view (.error e) := by
  have hagrees := Attempt.agrees_apply next i h
  have hflow := Configuration.flow_apply c next i s.view
  rw [happly] at hagrees
  generalize Configuration.apply c next i s.view = r at hagrees hflow
  cases hagrees with
  | error sound same => exact ⟨sound, same, hflow⟩

end Flow

/-! ## Cycles -/

/-- The status after a cycle that applies no instruction. -/
inductive Ending (c : Setup) (s : State) : Status → Prop
  | halted : Ending c s .halted
  | stuck {f : Fault} (h : Unfetched c s f.opcode f.reason) : Ending c s (.faulted (.fault f))
  | fault {f : Fault} {i : Instr} (hi : Fetches c s i)
    (h : Flow c (s.ip.toNat + i.size) i s.view (.error (.fault f.reason))) :
    Ending c s (.faulted (.fault f))
  | print {addr : Nat} {text : String} : Ending c s (.faulted (.print addr text))
  | abandoned : Ending c s s.status

/-- A cycle leads from `s` to `t`: it applies an instruction, or it stays where it is. -/
inductive Cycled (c : Setup) (s t : State) : Prop
  | moved {i : Instr} {y : Configuration} (hi : Fetches c s i)
    (h : Flow c (s.ip.toNat + i.size) i s.view (.ok (t.ip, y))) (hframes : t.view.frames = y.frames)
    (hstatus : t.status = s.status)
  | stayed (hip : t.ip = s.ip) (hframes : t.view.frames = s.view.frames) (hstatus : Ending c s t.status)

/-- What a cycle does to a state whose storage is sound. -/
theorem cycle_flow {c : Setup} {s : State} (h : Sound c s) :
    Sound c (leftBy (cycle c s)) ∧ (leftBy (cycle c s)).globals.size = s.globals.size ∧
      Cycled c s (leftBy (cycle c s)) := by
  have hcases := cycle_cases c s
  generalize cycle c s = r at hcases
  cases hcases with
  | halts =>
    obtain ⟨text, htext⟩ := halt_eq c s
    rw [htext]
    exact ⟨{ h with }, rfl, .stayed rfl rfl .halted⟩
  | stuck hstuck => exact ⟨{ h with }, rfl, .stayed rfl rfl (.stuck hstuck)⟩
  | @proceeds i ip t hi happly =>
    obtain ⟨ht, hflow⟩ := flow_of_ok h happly
    obtain ⟨text, htext⟩ := proceed_eq c s.ip.toNat i.opcode ip t
    have hcontrol := keeps_of_ok (Attempt.keeps_control_apply c _ _) happly
    rw [htext]
    exact ⟨{ ht with }, congrArg (·.2.2.2.2.2.2) hcontrol, .moved hi hflow rfl (congrArg (·.2.1) hcontrol)⟩
  | faults hi happly =>
    obtain ⟨ht, hview, hflow⟩ := flow_of_error h happly
    have hcontrol := keeps_of_error (Attempt.keeps_control_apply c _ _) happly
    exact ⟨{ ht with }, congrArg (·.2.2.2.2.2.2) hcontrol,
      .stayed (congrArg (·.1) hcontrol) (congrArg (·.frames) hview) (.fault hi hflow)⟩
  | refused hi happly =>
    obtain ⟨ht, hview, -⟩ := flow_of_error h happly
    have hcontrol := keeps_of_error (Attempt.keeps_control_apply c _ _) happly
    exact ⟨{ ht with }, congrArg (·.2.2.2.2.2.2) hcontrol,
      .stayed (congrArg (·.1) hcontrol) (congrArg (·.frames) hview) .print⟩
  | @abandoned i a t hi happly =>
    obtain ⟨ht, hview, -⟩ := flow_of_error h happly
    have hcontrol := keeps_of_error (Attempt.keeps_control_apply c _ _) happly
    have hstatus : t.status = s.status := congrArg (·.2.1) hcontrol
    refine ⟨ht, congrArg (·.2.2.2.2.2.2) hcontrol,
      .stayed (congrArg (·.1) hcontrol) (congrArg (·.frames) hview) ?_⟩
    exact hstatus ▸ .abandoned

end Machine
end StackMachine
