import StackMachine.Proofs.Machine.Calls
import StackMachine.Proofs.Machine.Observation
import StackMachine.Proofs.Machine.Representation

/-!
# Computed words are narrow

Constants and results are cut to 32 bits where they are made, and everything else that instructions do with words
is to move them about. So operands, globals and the slots of active frames are 32-bit values at all times, as long
as no host writes to frames.
-/

set_option autoImplicit false

namespace StackMachine

namespace Word

/-- The word is a 32-bit value in two's complement. -/
def IsNarrow (w : Word) : Prop :=
  -2147483648 ≤ w.toInt ∧ w.toInt < 2147483648

instance (w : Word) : Decidable w.IsNarrow :=
  inferInstanceAs (Decidable (_ ∧ _))

theorem isNarrow_narrow (w : Word) : w.narrow.IsNarrow := by
  have hle := w.toInt32.le_toInt
  have hlt := w.toInt32.toInt_lt
  unfold IsNarrow narrow
  rw [Int32.toInt_toInt64]
  exact ⟨hle, hlt⟩

theorem isNarrow_ofBool (b : Bool) : (ofBool b).IsNarrow := by
  cases b <;> decide

theorem isNarrow_zero : (0 : Word).IsNarrow := by
  decide

end Word

namespace Machine.Configuration

structure Narrow (x : Configuration) : Prop where
  stack : ∀ w ∈ x.stack, w.IsNarrow
  globals : ∀ w ∈ x.globals, w.IsNarrow
  frames : ∀ f ∈ x.frames, ∀ w ∈ f.slots, w.IsNarrow

section Narrow

variable {c : Setup} {next : Nat} {x y : Configuration} {ip : Int}

theorem narrow_push {w : Word} (hx : x.Narrow) (hw : w.IsNarrow) (h : push c w x = .ok ((), y)) : y.Narrow := by
  unfold push at h
  split at h
  · cases h
    exact { hx with stack := List.forall_mem_cons.mpr ⟨hw, hx.stack⟩ }
  · cases h

theorem narrow_binary {f : Word → Word → Word} (hf : ∀ a b, (f a b).IsNarrow) (hx : x.Narrow)
    (h : binary f x = .ok ((), y)) : y.Narrow := by
  unfold binary at h
  split at h
  next b a rest hs =>
    have hstack := hx.stack
    rw [hs] at hstack
    cases h
    refine { hx with stack := List.forall_mem_cons.mpr ⟨hf a b, ?_⟩ }
    exact fun w hw => hstack w (List.mem_cons_of_mem _ (List.mem_cons_of_mem _ hw))
  next => cases h

/-- What goes on with the topmost operand gets a narrow word and a narrow configuration. -/
theorem narrow_withTop {α : Type} {f : Word → Transition α} {a : α}
    (hf : ∀ v z, v.IsNarrow → z.Narrow → f v z = .ok (a, y) → y.Narrow) (hx : x.Narrow)
    (h : withTop f x = .ok (a, y)) : y.Narrow := by
  unfold withTop at h
  split at h
  next => cases h
  next v rest hs =>
    have hstack := hx.stack
    rw [hs] at hstack
    obtain ⟨hv, hrest⟩ := List.forall_mem_cons.mp hstack
    exact hf v { x with stack := rest } hv { hx with stack := hrest } h

theorem narrow_target {w : Word} (hx : x.Narrow) (h : target c w x = .ok (ip, y)) : y.Narrow := by
  unfold target at h
  split at h
  · cases h
    exact hx
  · cases h

theorem narrow_branchOn {taken w : Word} (hx : x.Narrow) (h : branchOn c next taken w x = .ok (ip, y)) :
    y.Narrow := by
  refine narrow_withTop ?_ hx h
  intro v z _ hz hgoes
  split at hgoes
  · exact narrow_target hz hgoes
  · cases hgoes
    exact hz

theorem narrow_load {slot : Word} (hx : x.Narrow) (h : load c slot x = .ok ((), y)) : y.Narrow := by
  unfold load at h
  split at h
  next => cases h
  next f rest hf =>
    split at h
    next => cases h
    next v hv =>
      obtain ⟨n, -, hn⟩ := Option.bind_eq_some_iff.mp hv
      have hslots := hx.frames f (hf ▸ List.mem_cons_self)
      exact narrow_push hx (hslots v (List.mem_of_getElem? hn)) h

theorem narrow_store {slot : Word} (hx : x.Narrow) (h : store slot x = .ok ((), y)) : y.Narrow := by
  unfold store at h
  split at h
  next => cases h
  next f rest hf =>
    split at h
    next => cases h
    next n _ =>
      have hframes := hx.frames
      rw [hf] at hframes
      obtain ⟨hslots, hrest⟩ := List.forall_mem_cons.mp hframes
      refine narrow_withTop ?_ hx h
      intro v z hv hz hstored
      cases hstored
      refine { hz with frames := List.forall_mem_cons.mpr ⟨?_, hrest⟩ }
      -- A word of the frame stood there before, or it is the operand that was stored.
      intro w hw
      obtain hw | rfl := List.mem_or_eq_of_mem_set hw
      · exact hslots w hw
      · exact hv

theorem narrow_loadGlobal {index : Word} (hx : x.Narrow) (h : loadGlobal c index x = .ok ((), y)) : y.Narrow := by
  unfold loadGlobal at h
  split at h
  next => cases h
  next v hv =>
    obtain ⟨n, -, hn⟩ := Option.bind_eq_some_iff.mp hv
    exact narrow_push hx (hx.globals v (Array.mem_of_getElem? hn)) h

theorem narrow_storeGlobal {index : Word} (hx : x.Narrow) (h : storeGlobal index x = .ok ((), y)) : y.Narrow := by
  unfold storeGlobal at h
  split at h
  next => cases h
  next n _ =>
    refine narrow_withTop ?_ hx h
    intro v z hv hz hstored
    cases hstored
    refine { hz with globals := ?_ }
    intro w hw
    obtain hw | rfl := Array.mem_or_eq_of_mem_setIfInBounds hw
    · exact hz.globals w hw
    · exact hv

theorem narrow_print (hx : x.Narrow) (h : print x = .ok ((), y)) : y.Narrow := by
  refine narrow_withTop ?_ hx h
  intro v z _ hz hprinted
  split at hprinted
  · cases hprinted
    exact { hz with }
  · cases hprinted

theorem narrow_drop (hx : x.Narrow) (h : drop x = .ok ((), y)) : y.Narrow := by
  refine narrow_withTop ?_ hx h
  intro v z _ hz hdropped
  cases hdropped
  exact hz

theorem narrow_activation (hx : x.Narrow) (d : Descriptor) : ∀ w ∈ (x.activation d next).slots, w.IsNarrow := by
  intro w hw
  obtain hw | hw := List.mem_append.mp hw
  · exact hx.stack w (List.mem_of_mem_take (List.mem_reverse.mp hw))
  · rw [List.eq_of_mem_replicate hw]
    exact Word.isNarrow_zero

theorem narrow_call {id : Word} (hx : x.Narrow) (h : call c next id x = .ok (ip, y)) : y.Narrow := by
  have hcases := call_cases c next id x
  rw [h] at hcases
  cases hcases with
  | @made d =>
    refine { hx with stack := ?_, frames := List.forall_mem_cons.mpr ⟨narrow_activation hx d, hx.frames⟩ }
    exact fun w hw => hx.stack w (List.mem_of_mem_drop hw)

theorem narrow_ret (hx : x.Narrow) (h : ret x = .ok (ip, y)) : y.Narrow := by
  unfold ret at h
  split at h
  next f g rest hf =>
    have hframes := hx.frames
    rw [hf] at hframes
    cases h
    exact { hx with frames := (List.forall_mem_cons.mp hframes).2 }
  next => cases h

theorem narrow_andThen {t : Transition Unit} (ht : ∀ z, t x = .ok ((), z) → z.Narrow)
    (h : andThen next t x = .ok (ip, y)) : y.Narrow := by
  unfold andThen at h
  split at h
  next =>
    cases h
    exact ht _ ‹_›
  next => cases h

theorem narrow_apply {i : Instr} (hx : x.Narrow) (h : apply c next i x = .ok (ip, y)) : y.Narrow := by
  cases i with
  | iadd | isub | imul => exact narrow_andThen (fun _ => narrow_binary (fun _ _ => Word.isNarrow_narrow _) hx) h
  | ilt | ieq => exact narrow_andThen (fun _ => narrow_binary (fun _ _ => Word.isNarrow_ofBool _) hx) h
  | br t => exact narrow_target hx h
  | brt t | brf t => exact narrow_branchOn hx h
  | iconst w => exact narrow_andThen (fun _ => narrow_push hx (Word.isNarrow_narrow w)) h
  | load slot => exact narrow_andThen (fun _ => narrow_load hx) h
  | gload i => exact narrow_andThen (fun _ => narrow_loadGlobal hx) h
  | store slot => exact narrow_andThen (fun _ => narrow_store hx) h
  | gstore i => exact narrow_andThen (fun _ => narrow_storeGlobal hx) h
  | print => exact narrow_andThen (fun _ => narrow_print hx) h
  | pop => exact narrow_andThen (fun _ => narrow_drop hx) h
  | call id => exact narrow_call hx h
  | ret => exact narrow_ret hx h
  | halt =>
    cases h
    exact hx

end Narrow

end Machine.Configuration

namespace Machine

theorem narrow_invariant {c : Setup} (hdepth : 1 ≤ c.limits.maxDepth) :
    RunInvariant c fun _ s => Sound c s ∧ s.view.Narrow := by
  apply configuration_invariant hdepth
  · exact fun _ _ h => { h with }
  · intro x address h
    refine { h with stack := ?_, frames := ?_ }
    · exact fun w hw => absurd hw List.not_mem_nil
    · intro f hf w hw
      rw [List.mem_singleton.mp hf] at hw
      cases hw
  · exact fun _ _ _ _ _ => Configuration.narrow_apply

/-- Whatever the code of a machine is, and whatever operands stand in it, as long as the machine is only started,
stepped and run, everything it computes with is a 32-bit value. -/
theorem computed_words_narrow (code : Array Word) (globals : Word) (table : FunctionTable) (o : Options)
    (hglobals : 0 ≤ globals) (hallocates : Allocates globals (Limits.adjust {} o.sizing)) :
    ∃ m, make code globals (some table) {} o = .ok m ∧
      ∀ history : List Request, (∀ r ∈ history, r.writes = false) →
        (∀ w ∈ (m.serve history).state.stack, w.IsNarrow) ∧
        (∀ w ∈ (m.serve history).state.globals, w.IsNarrow) ∧
        (∀ f ∈ (m.serve history).state.frames, ∀ w ∈ f.slots, w.IsNarrow) := by
  obtain ⟨m, hm, -, -, hlimits, -, -, hsound⟩ := make_eq_ok code table {} o hglobals hallocates
  have hdepth : 1 ≤ m.setup.limits.maxDepth := hlimits ▸ Limits.adjust_maxDepth_pos _ (by decide)
  have hview := congrArg (·.toConfiguration) (observation_of_make hm)
  have hinitial : m.state.view.Narrow := by
    change m.state.observation.toConfiguration.Narrow
    rw [hview]
    refine ⟨fun w hw => absurd hw List.not_mem_nil, ?_, fun f hf => absurd hf List.not_mem_nil⟩
    intro w hw
    rw [Array.eq_of_mem_replicate hw]
    exact Word.isNarrow_zero
  refine ⟨m, hm, ?_⟩
  intro history hhistory
  obtain ⟨-, hstack, hglobals, hframes⟩ := (narrow_invariant hdepth).serve ⟨hsound, hinitial⟩ hhistory
  refine ⟨hstack, hglobals, ?_⟩
  intro f hf w hw
  exact hframes (.of f) (List.mem_map_of_mem hf) w (Array.mem_toList_iff.mpr hw)

/-- The largest constant and one more, added and stored. -/
theorem overrun_stored_narrow :
    0 ≤ (1 : Word) ∧ Allocates 1 (Limits.adjust {} { stackSize := some 2 }) ∧
    (∀ r ∈ ([.start 0, .step, .step, .step, .step] : List Request), r.writes = false) ∧
    ∃ m, make #[9, 2147483647, 9, 1, 1, 13, 0] 1 (some pairTable) {} { sizing := { stackSize := some 2 } } = .ok m ∧
      (m.serve [.start 0, .step, .step, .step, .step]).state.globals = #[-2147483648] ∧
      ∀ w ∈ (m.serve [.start 0, .step, .step, .step, .step]).state.globals, w.IsNarrow := by
  have hhistory : ∀ r ∈ ([.start 0, .step, .step, .step, .step] : List Request), r.writes = false := by
    simp [Request.writes]
  obtain ⟨m, hm, h⟩ := computed_words_narrow #[9, 2147483647, 9, 1, 1, 13, 0] 1 pairTable
    { sizing := { stackSize := some 2 } } (by decide) (by decide)
  refine ⟨by decide, by decide, hhistory, m, hm, ?_, (h _ hhistory).2.1⟩
  cases hm
  rfl

end Machine
end StackMachine
