import StackMachine.Image.Basic
import StackMachine.Proofs.Machine.Nesting
import StackMachine.Proofs.Machine.Observation
import StackMachine.Proofs.Verification.Boundaries

/-!
# Sizes of frames

The size of a frame is computed in a machine word. A table holds no negative number, so the sum of arguments and
locals runs over at most once, and then the size is negative. A call that passes its checks makes a frame for all
arguments and locals if a block of that size can be allocated. If it cannot, or if the sum does not fit a word, the call
is abandoned, and the machine neither goes on nor has a fault to show for it.
-/

set_option autoImplicit false

namespace StackMachine

theorem Descriptor.frameSize_neg_iff {d : Descriptor} (h : d.Nonneg) :
    d.frameSize.toInt < 0 ↔ Int64.maxValue.toInt < d.args.toInt + d.locals.toInt := by
  constructor
  · intro hneg
    have hfits := mt (frameSize_nonneg h) (Int.not_le.mpr hneg)
    exact Int.not_le.mp hfits
  · intro hvast
    apply Int.not_le.mp
    intro hnonneg
    have hsum := toInt_frameSize h hnonneg
    have hle : d.frameSize.toInt ≤ Int64.maxValue.toInt := d.frameSize.toInt_le
    omega

namespace Machine

/-- What the cycle comes to in which `s` calls the function `id`. -/
inductive CallCycle (c : Setup) (id : Word) (s : State) : EStateM.Result Abandoned State Unit → Prop
  | enters {d : Descriptor} {f : Activation} {t : State} (hd : c.table.lookup? id = some d)
    (hcallable : Callable c d s.view) (hsize : d.frameSize.toInt = d.args.toInt + d.locals.toInt)
    (hblock : d.args.toInt + d.locals.toInt ≤ largestBlock)
    (hentered : Entered d s t) (hframes : t.view.frames = f :: s.view.frames)
    (hslots : f.slots.length = d.args.toInt + d.locals.toInt) (hrun : t.status = .running) :
    CallCycle c id s (.ok () t)
  | faults {reason : Reason} (h : ∀ d, c.table.lookup? id = some d → ¬ Callable c d s.view) :
    CallCycle c id s (.ok () (s.fault s.ip Opcode.call.word reason))
  | refused {d : Descriptor} {t : State} (hd : c.table.lookup? id = some d) (hcallable : Callable c d s.view)
    (hsize : d.frameSize.toInt = d.args.toInt + d.locals.toInt)
    (hlarge : largestBlock < d.args.toInt + d.locals.toInt)
    (hsame : t.observation = s.observation) : CallCycle c id s (.error .allocation t)
  | overruns {d : Descriptor} {t : State} (hd : c.table.lookup? id = some d) (hcallable : Callable c d s.view)
    (hvast : Int64.maxValue.toInt < d.args.toInt + d.locals.toInt) (hsize : d.frameSize.toInt < 0)
    (hsame : t.observation = s.observation) : CallCycle c id s (.error (.frameSize d.frameSize) t)

section CallCycle

variable {c : Setup} {s t : State} {d : Descriptor}

theorem Entered.length_slots (h : Entered d s t) (hd : d.Nonneg) :
    ∃ f, t.view.frames = f :: s.view.frames ∧ f.slots.length = d.args.toInt + d.locals.toInt := by
  obtain ⟨f, hframes, -, -, hslots⟩ := h.frames
  have hargs : 0 ≤ d.args.toInt := Int64.le_iff_toInt_le.mp hd.1
  have hlocals : 0 ≤ d.locals.toInt := Int64.le_iff_toInt_le.mp hd.2.1
  have henough := h.arguments
  refine ⟨f, hframes, ?_⟩
  rw [hslots, List.length_append, List.length_reverse, List.length_take, List.length_replicate]
  omega

theorem callCycle_of_fetches {id : Word} (hs : Sound c s) (hrun : s.status = .running) (h : Fetches c s (.call id)) :
    CallCycle c id s (cycle c s) := by
  have hcases := Configuration.call_cases c (s.ip.toNat + (Instr.call id).size) id s.view
  generalize hresult : Configuration.call c _ id s.view = r at hcases
  cases hcases with
  | unknown hd =>
    rw [cycle_of_fault hs h hresult]
    refine .faults fun d hd' => ?_
    rw [hd] at hd'
    cases hd'
  | faulty hd hcallable =>
    rw [cycle_of_fault hs h hresult]
    refine .faults fun d hd' => ?_
    rw [hd] at hd'
    cases hd'
    exact hcallable
  | refused hd hcallable hrefused =>
    obtain ⟨t, hcycle, hsame⟩ := cycle_of_abandoned hs h hresult
    have hnonneg := FunctionTable.nonneg_of_lookup? hd
    rw [hcycle]
    obtain ⟨hneg, rfl⟩ | ⟨hsize, hlarge, rfl⟩ := Frame.refusal?_eq_some_iff.mp hrefused
    · exact .overruns hd hcallable ((Descriptor.frameSize_neg_iff hnonneg).mp hneg) hneg hsame
    · have hsum := Descriptor.toInt_frameSize hnonneg hsize
      exact .refused hd hcallable hsum (hsum ▸ hlarge) hsame
  | made hd hcallable hmade =>
    obtain ⟨hsize, hblock⟩ := Frame.refusal?_eq_none_iff.mp hmade
    obtain ⟨t, hcycle, -, -, hstatus, -⟩ := cycle_of_applied hs h hresult
    have ht : t.status = .running := hstatus.trans hrun
    obtain ⟨d', hd', hentered⟩ := entered_of_cycle hs h hcycle ht
    rw [hd] at hd'
    cases hd'
    have hnonneg := FunctionTable.nonneg_of_lookup? hd
    obtain ⟨f, hframes, hslots⟩ := hentered.length_slots hnonneg
    have hsum := Descriptor.toInt_frameSize hnonneg hsize
    rw [hcycle]
    exact .enters hd hcallable hsum (hsum ▸ hblock) hentered hframes hslots ht

end CallCycle

/-- Whatever a machine runs, a call makes a frame with exactly as many slots as the callee has arguments and locals, or it
is a fault that is recorded. The only exceptions are functions whose arguments and locals are more than can be
allocated, or do not even fit a word. -/
theorem calls_make_whole_frames {m : Machine} {code : Array Word} {globals : Word} {table : Option FunctionTable}
    {base : Limits} {o : Options} (hbase : 1 ≤ base.maxDepth) (hmake : make code globals table base o = .ok m)
    (history : List Request) (hrun : (m.serve history).state.status = .running) (id : Word)
    (hcall : Fetches m.setup (m.serve history).state (.call id)) :
    CallCycle m.setup id (m.serve history).state (cycle m.setup (m.serve history).state) := by
  obtain ⟨-, -, -, address, hstanding⟩ := standing_of_make hbase hmake hrun
  exact callCycle_of_fetches hstanding.sound hrun hcall

/-- The third step of the chain calls `f`. -/
theorem chain_makes_frame :
    ∃ m, make chainCode 0 (some chainTable) {} { sizing := { stackSize := some 4 } } = .ok m ∧
      1 ≤ ({} : Limits).maxDepth ∧ (m.serve (.start 0 :: List.replicate 2 .step)).state.status = .running ∧
      Fetches m.setup (m.serve (.start 0 :: List.replicate 2 .step)).state (.call 1) ∧
      CallCycle m.setup 1 (m.serve (.start 0 :: List.replicate 2 .step)).state
        (cycle m.setup (m.serve (.start 0 :: List.replicate 2 .step)).state) := by
  have hglobals : (0 : Word) ≤ 0 := by decide
  obtain ⟨m, hm, -⟩ := make_eq_ok chainCode chainTable {} { sizing := { stackSize := some 4 } } hglobals
    (by decide)
  have hrun : (m.serve (.start 0 :: List.replicate 2 .step)).state.status = .running := by
    cases hm
    rfl
  have hcall : Fetches m.setup (m.serve (.start 0 :: List.replicate 2 .step)).state (.call 1) := by
    cases hm
    exact ⟨by decide, rfl, by decide⟩
  exact ⟨m, hm, by decide, hrun, hcall, calls_make_whole_frames (by decide) hm _ hrun 1 hcall⟩

/-- A valid image that calls a function whose one argument and greatest number of locals do not fit a word. -/
def vastImage : Image where
  version := 1
  name := "vast"
  functions := some [{ name := "main" }, { name := "f", args := 1, locals := Int64.maxValue, address := 4 }]
  code := some [9, 7, 16, 1, 18]
  stackSize := 2
  maxDepth := 2

theorem vastImage_valid : vastImage.validate = .ok () := by
  have hwalk : Verification.walk vastImage.words =
      [(0, .instr (.iconst 7)), (2, .instr (.call 1)), (4, .instr .halt)] := by
    cbv
  unfold Image.validate
  simp only [Verification.findings_eq, hwalk]
  unfold Verification.meets Verification.starts
  rw [hwalk]
  rfl

/-- The call is neither made nor recorded as a fault. -/
theorem vastImage_call_abandoned :
    vastImage.validate = .ok () ∧
    ∃ m, vastImage.machine {} = .ok m ∧ (m.serve [.start 0, .step]).state.status = .running ∧
      Fetches m.setup (m.serve [.start 0, .step]).state (.call 1) ∧
      ∀ t, cycle m.setup (m.serve [.start 0, .step]).state ≠ .ok () t := by
  refine ⟨vastImage_valid, _, rfl, rfl, ⟨by decide, rfl, by decide⟩, ?_⟩
  intro t ht
  cases ht

end Machine
end StackMachine
