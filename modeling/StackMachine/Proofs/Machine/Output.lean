import StackMachine.Proofs.Machine.Observation

/-!
# What a machine prints

Only a print has to do with the sink. Every other instruction does the same whatever the sink is, and leaves it alone;
a print hands it one line, and what follows depends on whether the line is taken.
-/

set_option autoImplicit false

namespace StackMachine

namespace Sink

def Open (k : Sink) : Prop :=
  ∀ taken piece, k.refuses taken piece = none

theorem write_open {k : Sink} (h : k.Open) (piece : String) :
    k.write piece = .ok { k with taken := k.taken ++ piece } := by
  simp only [write, h k.taken piece]

end Sink

/-- What is printed for a word. -/
def Word.line (w : Word) : String :=
  w.text ++ "\n"

namespace Machine

/-! ## Instructions -/

namespace Configuration

def withSink (x : Configuration) (k : Sink) : Configuration :=
  { x with sink := k }

/-- The transition has nothing to do with the sink. -/
def Aloof {α : Type} (t : Transition α) : Prop :=
  ∀ x k, t (x.withSink k) = (t x).map fun r => (r.1, r.2.withSink k)

section Aloof

variable {c : Setup} {next : Nat}

theorem aloof_push (w : Word) : Aloof (push c w) := by
  intro x k
  have hstack : (x.withSink k).stack = x.stack := rfl
  unfold push
  rw [hstack]
  split <;> rfl

theorem aloof_binary (f : Word → Word → Word) : Aloof (binary f) := by
  intro x k
  have hstack : (x.withSink k).stack = x.stack := rfl
  unfold binary
  rw [hstack]
  split <;> rfl

theorem aloof_target (w : Word) : Aloof (target c w) := by
  intro x k
  unfold target
  split <;> rfl

theorem aloof_withTop {α : Type} {f : Word → Transition α} (hf : ∀ v, Aloof (f v)) : Aloof (withTop f) := by
  intro x k
  have hstack : (x.withSink k).stack = x.stack := rfl
  unfold withTop
  rw [hstack]
  split
  next => rfl
  next v rest _ => exact hf v { x with stack := rest } k

theorem aloof_branchOn (taken w : Word) : Aloof (branchOn c next taken w) := by
  apply aloof_withTop
  intro v x k
  by_cases hv : v = taken
  · simp only [if_pos hv]
    exact aloof_target w x k
  · simp only [if_neg hv]
    rfl

theorem aloof_load (slot : Word) : Aloof (load c slot) := by
  intro x k
  have hframes : (x.withSink k).frames = x.frames := rfl
  unfold load
  rw [hframes]
  split
  next => rfl
  next =>
    split
    next => rfl
    next v _ => exact aloof_push v x k

theorem aloof_store (slot : Word) : Aloof (store slot) := by
  intro x k
  have hframes : (x.withSink k).frames = x.frames := rfl
  unfold store
  rw [hframes]
  split
  next => rfl
  next =>
    split
    next => rfl
    next =>
      refine aloof_withTop ?_ x k
      exact fun _ _ _ => rfl

theorem aloof_loadGlobal (index : Word) : Aloof (loadGlobal c index) := by
  intro x k
  have hglobals : (x.withSink k).globals = x.globals := rfl
  unfold loadGlobal
  rw [hglobals]
  split
  next => rfl
  next v _ => exact aloof_push v x k

theorem aloof_storeGlobal (index : Word) : Aloof (storeGlobal index) := by
  intro x k
  have hglobals : (x.withSink k).globals = x.globals := rfl
  unfold storeGlobal
  rw [hglobals]
  split
  next => rfl
  next =>
    refine aloof_withTop ?_ x k
    exact fun _ _ _ => rfl

theorem aloof_drop : Aloof drop :=
  aloof_withTop fun _ _ _ => rfl

theorem aloof_call (id : Word) : Aloof (call c next id) := by
  intro x k
  have hstack : (x.withSink k).stack = x.stack := rfl
  have hframes : (x.withSink k).frames = x.frames := rfl
  unfold call
  rw [hstack, hframes]
  split
  next => rfl
  next =>
    split
    next => rfl
    next =>
      split
      next => rfl
      next =>
        split
        next => rfl
        next => split <;> rfl

theorem aloof_ret : Aloof ret := by
  intro x k
  have hframes : (x.withSink k).frames = x.frames := rfl
  unfold ret
  rw [hframes]
  split <;> rfl

theorem aloof_andThen {t : Transition Unit} (ht : Aloof t) : Aloof (andThen next t) := by
  intro x k
  unfold andThen
  rw [ht x k]
  cases t x <;> rfl

theorem aloof_apply (c : Setup) (next : Nat) {i : Instr} (hi : i ≠ .print) : Aloof (apply c next i) := by
  cases i with
  | iadd | isub | imul | ilt | ieq => exact aloof_andThen (aloof_binary _)
  | br t => exact aloof_target t
  | brt t | brf t => exact aloof_branchOn _ t
  | iconst w => exact aloof_andThen (aloof_push _)
  | load slot => exact aloof_andThen (aloof_load slot)
  | gload i => exact aloof_andThen (aloof_loadGlobal i)
  | store slot => exact aloof_andThen (aloof_store slot)
  | gstore i => exact aloof_andThen (aloof_storeGlobal i)
  | print => exact (hi rfl).elim
  | pop => exact aloof_andThen aloof_drop
  | call id => exact aloof_call id
  | ret => exact aloof_ret
  | halt => exact fun _ _ => rfl

theorem sink_of_aloof {α : Type} {t : Transition α} (ht : Aloof t) {x y : Configuration} {a : α}
    (h : t x = .ok (a, y)) : y.sink = x.sink := by
  -- Putting the sink in that is there already changes nothing.
  have hsame : t x = (t x).map fun r => (r.1, r.2.withSink x.sink) := ht x x.sink
  rw [h] at hsame
  have hy : y = y.withSink x.sink := congrArg Prod.snd (Except.ok.inj hsame)
  rw [hy]
  rfl

end Aloof

section Print

variable {c : Setup} {next : Nat} {x : Configuration} {v : Word} {rest : List Word}

theorem apply_print_empty (hs : x.stack = []) :
    apply c next .print x = .error (.fault (.underflow 1 0)) := by
  simp only [apply, andThen, print, withTop, hs]

theorem apply_print_taken {k : Sink} (hs : x.stack = v :: rest) (hw : x.sink.write v.line = .ok k) :
    apply c next .print x = .ok (next, { x with stack := rest, sink := k }) := by
  unfold Word.line at hw
  simp only [apply, andThen, print, withTop, hs, hw]

theorem apply_print_refused {text : String} (hs : x.stack = v :: rest) (hw : x.sink.write v.line = .error text) :
    apply c next .print x = .error (.refused text) := by
  unfold Word.line at hw
  simp only [apply, andThen, print, withTop, hs, hw]

end Print

end Configuration

/-! ## Cycles -/

theorem upcoming_instr {code : Array Word} {ip : Int} {i : Instr} (h : upcoming code ip = .instr i) : 0 ≤ ip := by
  unfold upcoming at h
  split at h
  next => cases h
  next =>
    split at h
    next => cases h
    next hneg => omega

namespace Observation

variable {c : Setup} {x y : Observation} {v : Word}

def withSink (x : Observation) (k : Sink) : Observation :=
  { x with toConfiguration := x.toConfiguration.withSink k }

theorem traced_withSink (x : Observation) (line : String) (k : Sink) :
    (x.withSink k).traced c line = (x.traced c line).withSink k := by
  unfold traced
  split <;> rfl

theorem halt_withSink (c : Setup) (x : Observation) (k : Sink) : (x.withSink k).halt c = (x.halt c).withSink k := by
  unfold halt
  rw [traced_withSink]
  rfl

theorem proceed_withSink (c : Setup) (addr : Nat) (op : Opcode) (ip : Int) (x : Observation) (k : Sink) :
    (x.withSink k).proceed c addr op ip = (x.proceed c addr op ip).withSink k := by
  unfold proceed
  rw [← traced_withSink]
  rfl

theorem conclude_withSink (c : Setup) (addr : Nat) (op : Opcode) (x : Observation) (k : Sink)
    (r : Except Stop (Int × Configuration)) :
    (x.withSink k).conclude c addr op (r.map fun r => (r.1, r.2.withSink k)) =
      (x.conclude c addr op r).map (·.withSink k) := by
  cases r with
  | ok z => exact congrArg Except.ok (proceed_withSink c addr op z.1 { x with toConfiguration := z.2 } k)
  | error e => cases e <;> rfl

/-- The word whose line the next cycle hands to the sink, if it is a cycle that prints. -/
def printing? (c : Setup) (x : Observation) : Option Word :=
  match upcoming c.code x.ip with
  | .instr .print => x.stack.head?
  | _ => none

theorem printing?_eq_some (h : x.printing? c = some v) :
    upcoming c.code x.ip = .instr .print ∧ ∃ rest, x.stack = v :: rest := by
  unfold printing? at h
  split at h
  next hnext => exact ⟨hnext, List.head?_eq_some_iff.mp h⟩
  next => cases h

/-- Where nothing is printed, the sink makes no difference. -/
theorem cycle_withSink (h : x.printing? c = none) (k : Sink) :
    (x.withSink k).cycle c = (x.cycle c).map (·.withSink k) := by
  have hip : (x.withSink k).ip = x.ip := rfl
  rw [cycle_eq, cycle_eq, hip]
  cases hnext : upcoming c.code x.ip with
  | halt => exact congrArg Except.ok (halt_withSink c x k)
  | stuck => rfl
  | instr i =>
    dsimp only [meet, perform]
    by_cases hi : i = .print
    · subst hi
      simp only [printing?, hnext, List.head?_eq_none_iff] at h
      have hempty : (x.withSink k).stack = [] := h
      rw [Configuration.apply_print_empty h, Configuration.apply_print_empty hempty]
      rfl
    · have haloof := Configuration.aloof_apply c (x.ip.toNat + i.size) hi x.toConfiguration k
      exact (congrArg _ haloof).trans (conclude_withSink c _ _ x k _)

theorem sink_of_cycle (h : x.printing? c = none) (hy : x.cycle c = .ok y) : y.sink = x.sink := by
  have hsame : x.cycle c = (x.cycle c).map (·.withSink x.sink) := cycle_withSink h x.sink
  rw [hy] at hsame
  have hsink : y = y.withSink x.sink := Except.ok.inj hsame
  rw [hsink]
  rfl

theorem cycle_of_taken {k : Sink} (h : x.printing? c = some v) (hw : x.sink.write v.line = .ok k) :
    x.cycle c = .ok (proceed c x.ip.toNat .print ↑(x.ip.toNat + 1)
      { x with stack := x.stack.tail, sink := k }) := by
  obtain ⟨hnext, rest, hstack⟩ := printing?_eq_some h
  rw [cycle_eq, hnext, hstack]
  dsimp only [meet, perform]
  rw [Configuration.apply_print_taken hstack hw]
  rfl

/-- A line that is refused ends the run, and nothing but the status has changed. -/
theorem cycle_of_refusal {text : String} (h : x.printing? c = some v) (hw : x.sink.write v.line = .error text) :
    x.cycle c = .ok (x.fail (.print x.ip.toNat text)) := by
  obtain ⟨hnext, rest, hstack⟩ := printing?_eq_some h
  rw [cycle_eq, hnext]
  dsimp only [meet, perform]
  rw [Configuration.apply_print_refused hstack hw]
  rfl

theorem output_cycle (hopen : x.sink.Open) (hy : x.cycle c = .ok y) :
    y.sink.Open ∧ y.sink.taken = x.sink.taken ++ String.join ((x.printing? c).toList.map Word.line) := by
  cases h : x.printing? c with
  | none =>
    rw [sink_of_cycle h hy]
    exact ⟨hopen, String.append_empty.symm⟩
  | some v =>
    rw [cycle_of_taken h (Sink.write_open hopen v.line)] at hy
    cases hy
    rw [toConfiguration_proceed]
    refine ⟨hopen, congrArg (x.sink.taken ++ ·) ?_⟩
    simp

/-- A print to an open sink is made. -/
theorem printing?_of_abandoned {a : Abandoned} (hopen : x.sink.Open) (h : x.cycle c = .error a) :
    x.printing? c = none := by
  cases hv : x.printing? c with
  | none => rfl
  | some v =>
    rw [cycle_of_taken hv (Sink.write_open hopen v.line)] at h
    cases h

end Observation

end Machine
end StackMachine
