import StackMachine.Proofs.Machine.Atomicity
import StackMachine.Proofs.Machine.Refinement
import StackMachine.Proofs.Machine.Requests

/-!
# What can be observed of a machine

A configuration together with the instruction pointer, the status and the trace. Cycles and starts are functions
of what is observed: neither the cells above the topmost operand nor frames that were left take part in them, and
a cycle that is abandoned cannot be told from one that was not begun.
-/

set_option autoImplicit false

namespace StackMachine.Machine

structure Observation extends Configuration where
  ip : Int
  status : Status
  trace : String

namespace Observation

def functionName (x : Observation) : String :=
  match x.frames with
  | [] => ""
  | f :: _ => f.function.name

def calls (x : Observation) : List String :=
  (x.frames.map (·.function.name)).reverse

def fail (x : Observation) (e : RunError) : Observation :=
  { x with status := .faulted e }

def fault (x : Observation) (addr : Int) (opcode : Word) (reason : Reason) : Observation :=
  x.fail (.fault {
    ip := addr
    opcode := opcode
    function := x.functionName
    depth := x.frames.length
    reason := reason })

def traced (x : Observation) (c : Setup) (line : String) : Observation :=
  if c.tracing then { x with trace := x.trace ++ line } else x

def halt (c : Setup) (x : Observation) : Observation :=
  { x.traced c (haltLines c x.ip x.stack x.globals) with status := .halted }

def proceed (c : Setup) (addr : Nat) (op : Opcode) (ip : Int) (x : Observation) : Observation :=
  { x with ip := ip, stats := x.stats.record op x.frames.length }.traced c (cycleLine c addr x.stack x.calls)

/-- What is observed once the instruction at `addr` has come to the given result. -/
def conclude (c : Setup) (addr : Nat) (op : Opcode) (x : Observation) :
    Except Stop (Int × Configuration) → Except Abandoned Observation
  | .ok (ip, y) => .ok (proceed c addr op ip { x with toConfiguration := y })
  | .error (.fault r) => .ok (x.fault addr op.word r)
  | .error (.refused text) => .ok (x.fail (.print addr text))
  | .error (.abandoned a) => .error a

def perform (c : Setup) (addr : Nat) (i : Instr) (x : Observation) : Except Abandoned Observation :=
  conclude c addr i.opcode x (Configuration.apply c (addr + i.size) i x.toConfiguration)

/-- One cycle, or why it is abandoned. -/
def cycle (c : Setup) (x : Observation) : Except Abandoned Observation :=
  if x.ip = c.code.size then .ok (halt c x)
  else if x.ip < 0 then .ok (x.fault x.ip 0 (.pointerOutside x.ip c.code.size))
  else
    match fetch? c.code x.ip.toNat with
    | none => .ok (x.fault x.ip 0 (.pointerOutside x.ip c.code.size))
    | some (.invalid w) => .ok (x.fault x.ip w (.invalidOpcode w))
    | some (.truncated op) => .ok (x.fault x.ip op.word (.truncated op))
    | some (.instr .halt) => .ok (halt c x)
    | some (.instr i) => perform c x.ip.toNat i x

end Observation

/-- What an instruction pointer leads to. -/
inductive Upcoming where
  | halt
  | stuck (opcode : Word) (reason : Reason)
  | instr (i : Instr)

def upcoming (code : Array Word) (ip : Int) : Upcoming :=
  if ip = code.size then .halt
  else if ip < 0 then .stuck 0 (.pointerOutside ip code.size)
  else
    match fetch? code ip.toNat with
    | none => .stuck 0 (.pointerOutside ip code.size)
    | some (.invalid w) => .stuck w (.invalidOpcode w)
    | some (.truncated op) => .stuck op.word (.truncated op)
    | some (.instr .halt) => .halt
    | some (.instr i) => .instr i

namespace Observation

def meet (c : Setup) (x : Observation) : Upcoming → Except Abandoned Observation
  | .halt => .ok (halt c x)
  | .stuck opcode reason => .ok (x.fault x.ip opcode reason)
  | .instr i => perform c x.ip.toNat i x

/-- What a cycle does follows from the code and the instruction pointer alone, up to the instruction it performs. -/
theorem cycle_eq (c : Setup) (x : Observation) : x.cycle c = x.meet c (upcoming c.code x.ip) := by
  unfold cycle upcoming
  split
  · rfl
  · split
    · rfl
    · cases fetch? c.code x.ip.toNat with
      | none => rfl
      | some f =>
        cases f with
        | invalid w => rfl
        | truncated op => rfl
        | instr i => cases i <;> rfl

/-- What is observed after a start; of what was there before, globals, sink and trace are left. -/
def started (c : Setup) (address : Word) (x : Observation) : Observation where
  stack := []
  globals := x.globals
  frames := [{ function := c.table.entry, returnAddress := -1, invoker := -1, slots := [] }]
  stats := { maxDepth := 1 }
  sink := x.sink
  ip := address.toInt
  status := .running
  trace := x.trace

end Observation

def State.observation (s : State) : Observation :=
  { s.view with ip := s.ip, status := s.status, trace := s.trace }

section Observation

variable {c : Setup} {s t : State}

theorem observation_functionName (h : Sound c s) : s.functionName = s.observation.functionName := by
  obtain ⟨hnil, hnone⟩ | ⟨f, -, hactive, -, hcons⟩ := activeFrame_view h
  · have hview : s.observation.frames = [] := congrArg (List.map _) hnil
    have hdepth : s.arena.depth = 0 := h.length_frames.symm.trans (congrArg List.length hnil)
    simp only [Observation.functionName, hview, State.functionName, CallStack.active?, hdepth, if_true]
  · have hview : s.observation.frames = .of f :: s.arena.leave.toList.map .of := congrArg (List.map _) hcons
    simp only [Observation.functionName, hview, State.functionName, hactive]
    rfl

theorem observation_calls (s : State) : s.calls = s.observation.calls := by
  simp only [State.calls, Observation.calls, State.observation, State.view, List.map_map]
  rfl

theorem observation_fault (h : Sound c s) (addr : Int) (opcode : Word) (reason : Reason) :
    (s.fault addr opcode reason).observation = s.observation.fault addr opcode reason := by
  have hdepth : s.depth = s.observation.frames.length := h.depth_eq
  simp only [State.fault, Observation.fault, ← observation_functionName h, ← hdepth]
  rfl

theorem observation_traced (s : State) (c : Setup) (line : Unit → String) :
    (s.traced c line).observation = s.observation.traced c (line ()) := by
  unfold State.traced Observation.traced
  split <;> rfl

theorem observation_halt (c : Setup) (s : State) : (halt c s).observation = s.observation.halt c := by
  have htraced := observation_traced s c fun _ => haltLines c s.ip s.stack s.globals
  change { (s.traced c _).observation with status := .halted } = _
  rw [htraced]
  rfl

theorem observation_proceed (h : Sound c s) (addr : Nat) (op : Opcode) (ip : Int) :
    (proceed c addr op ip s).observation = s.observation.proceed c addr op ip := by
  have hdepth : s.depth = s.observation.frames.length := h.depth_eq
  rw [proceed, observation_traced, Observation.proceed, ← hdepth, ← observation_calls]
  rfl

/-- Whatever an instruction does to the configuration, the rest of what is observed stays. -/
theorem observation_of_control (h : t.control = s.control) :
    t.observation = { s.observation with toConfiguration := t.view } := by
  have hip : t.ip = s.ip := congrArg (·.1) h
  have hstatus : t.status = s.status := congrArg (·.2.1) h
  have htrace : t.trace = s.trace := congrArg (·.2.2.1) h
  simp only [State.observation, hip, hstatus, htrace]

/-- What a computation from `s` came to is what is observed of it; if it was abandoned, that is what it set out
from. -/
inductive Seen (c : Setup) (s : State) : EStateM.Result Abandoned State Unit → Except Abandoned Observation → Prop
  | ok {t : State} (sound : Sound c t) : Seen c s (.ok () t) (.ok t.observation)
  | error {a : Abandoned} {t : State} (sound : Sound c t) (same : t.observation = s.observation) :
    Seen c s (.error a t) (.error a)

theorem seen_of_observation {t : State} {x : Observation} (sound : Sound c t) (h : t.observation = x) :
    Seen c s (.ok () t) (.ok x) := by
  rw [← h]
  exact .ok sound

theorem Seen.of_ok {r : EStateM.Result Abandoned State Unit} {x : Observation} (h : Seen c s r (.ok x)) :
    ∃ t, r = .ok () t ∧ Sound c t ∧ t.observation = x := by
  generalize hx : Except.ok x = e at h
  cases h with
  | ok sound =>
    cases hx
    exact ⟨_, rfl, sound, rfl⟩
  | error => cases hx

theorem Seen.of_error {r : EStateM.Result Abandoned State Unit} {a : Abandoned} (h : Seen c s r (.error a)) :
    ∃ t, r = .error a t ∧ Sound c t ∧ t.observation = s.observation := by
  cases h with
  | error sound same => exact ⟨_, rfl, sound, same⟩

theorem seen_perform (h : Sound c s) (addr : Nat) (i : Instr) :
    Seen c s (perform c addr i s) (s.observation.perform c addr i) := by
  have hagrees := Attempt.agrees_apply (addr + i.size) i h
  have hkeeps := Attempt.keeps_control_apply c (addr + i.size) i
  change Seen c s _ (s.observation.conclude c addr i.opcode (Configuration.apply c (addr + i.size) i s.view))
  unfold perform
  generalize happly : Attempt.apply c (addr + i.size) i s = r at hagrees
  generalize Configuration.apply c (addr + i.size) i s.view = r' at hagrees
  cases hagrees with
  | @ok ip t sound =>
    have hobservation := observation_of_control (keeps_of_ok hkeeps happly)
    obtain ⟨text, htext⟩ := proceed_eq c addr i.opcode ip t
    refine seen_of_observation ?_ ((observation_proceed sound addr i.opcode ip).trans ?_)
    · rw [htext]
      exact { sound with }
    · rw [hobservation]
  | @error e t sound same =>
    -- The checks come first, so nothing that is observed has changed.
    have hobservation : t.observation = s.observation := by
      rw [observation_of_control (keeps_of_error hkeeps happly), same]
      rfl
    cases e with
    | fault reason =>
      refine seen_of_observation { sound with } ?_
      rw [observation_fault sound, hobservation]
    | refused text =>
      refine seen_of_observation { sound with } ?_
      change t.observation.fail _ = _
      rw [hobservation]
    | abandoned a => exact .error sound hobservation

theorem seen_halt (h : Sound c s) : Seen c s (.ok () (halt c s)) (.ok (s.observation.halt c)) := by
  obtain ⟨text, htext⟩ := halt_eq c s
  refine seen_of_observation ?_ (observation_halt c s)
  rw [htext]
  exact { h with }

theorem seen_fault (h : Sound c s) (opcode : Word) (reason : Reason) :
    Seen c s (.ok () (s.fault s.ip opcode reason)) (.ok (s.observation.fault s.ip opcode reason)) :=
  seen_of_observation { h with } (observation_fault h s.ip opcode reason)

/-- A cycle of a machine is a cycle of what is observed of it. -/
theorem seen_cycle (h : Sound c s) : Seen c s (cycle c s) (s.observation.cycle c) := by
  have hip : s.observation.ip = s.ip := rfl
  unfold cycle Observation.cycle
  rw [hip]
  split
  · exact seen_halt h
  · split
    · exact seen_fault h _ _
    · cases fetch? c.code s.ip.toNat with
      | none => exact seen_fault h _ _
      | some f =>
        cases f with
        | invalid w => exact seen_fault h _ _
        | truncated op => exact seen_fault h _ _
        | instr i =>
          cases i with
          | halt => exact seen_halt h
          | _ => exact seen_perform h _ _

theorem cycle_of_fault {i : Instr} {reason : Reason} (hsound : Sound c s) (h : Fetches c s i)
    (happly : Configuration.apply c (s.ip.toNat + i.size) i s.view = .error (.fault reason)) :
    cycle c s = .ok () (s.fault s.ip i.opcode.word reason) := by
  have hagrees := Attempt.agrees_apply (s.ip.toNat + i.size) i hsound
  rw [happly] at hagrees
  generalize hresult : Attempt.apply c (s.ip.toNat + i.size) i s = r at hagrees
  cases hagrees with
  | @error _ t _ _ =>
    obtain ⟨a, ha⟩ | hsame := Attempt.atomic_apply c _ i s _ t hresult
    · cases ha
    · subst hsame
      rw [cycle_of_fetches h, perform, hresult, Int.toNat_of_nonneg h.nonneg]

theorem cycle_of_abandoned {i : Instr} {a : Abandoned} (hsound : Sound c s) (h : Fetches c s i)
    (happly : Configuration.apply c (s.ip.toNat + i.size) i s.view = .error (.abandoned a)) :
    ∃ t, cycle c s = .error a t ∧ t.observation = s.observation := by
  have hperform : s.observation.perform c s.ip.toNat i = .error a := by
    change s.observation.conclude c s.ip.toNat i.opcode (Configuration.apply c _ i s.view) = _
    rw [happly]
    rfl
  have hseen := seen_perform hsound s.ip.toNat i
  rw [hperform, ← cycle_of_fetches h] at hseen
  obtain ⟨t, hcycle, -, hsame⟩ := hseen.of_error
  exact ⟨t, hcycle, hsame⟩

/-- An instruction that is applied is counted, and the machine goes on. -/
theorem cycle_of_applied {i : Instr} {ip : Int} {y : Configuration} (hsound : Sound c s) (h : Fetches c s i)
    (happly : Configuration.apply c (s.ip.toNat + i.size) i s.view = .ok (ip, y)) :
    ∃ t, cycle c s = .ok () t ∧ Sound c t ∧ t.ip = ip ∧ t.status = s.status ∧
      t.view = { y with stats := y.stats.record i.opcode y.frames.length } := by
  have hagrees := Attempt.agrees_apply (s.ip.toNat + i.size) i hsound
  rw [happly] at hagrees
  generalize hresult : Attempt.apply c (s.ip.toNat + i.size) i s = r at hagrees
  cases hagrees with
  | @ok _ t sound =>
    obtain ⟨text, hproceed⟩ := proceed_eq c s.ip.toNat i.opcode ip t
    have hstatus : t.status = s.status :=
      congrArg (·.2.1) (keeps_of_ok (Attempt.keeps_control_apply c _ _) hresult)
    refine ⟨proceed c s.ip.toNat i.opcode ip t, ?_, ?_⟩
    · rw [cycle_of_fetches h, perform, hresult]
    · rw [hproceed, ← sound.depth_eq]
      exact ⟨{ sound with }, rfl, hstatus, rfl⟩

theorem observation_begin (address : Word) (h : Sound c s) (hdepth : 1 ≤ c.limits.maxDepth) :
    ∃ t, begin c address s = .ok () t ∧ Sound c t ∧ t.observation = s.observation.started c address := by
  obtain ⟨t, hbegin, ht, hframes, -⟩ := begin_view address h hdepth
  obtain ⟨f, -, hbegin'⟩ := begin_eq c address s
  refine ⟨t, hbegin, ht, ?_⟩
  rw [hbegin] at hbegin'
  obtain rfl := (EStateM.Result.ok.inj hbegin').2
  simp only [State.observation, Observation.started, ← hframes]
  rfl

end Observation

theorem observation_of_make {code : Array Word} {globals : Word} {table : Option FunctionTable} {base : Limits}
    {o : Options} {m : Machine} (h : make code globals table base o = .ok m) :
    m.state.observation = {
      stack := []
      globals := Array.replicate globals.toInt.toNat 0
      frames := []
      stats := {}
      sink := o.sink
      ip := 0
      status := .ready
      trace := "" } := by
  obtain ⟨t, -, -, -, rfl⟩ := make_eq_ok_iff.mp h
  rfl

/-! ## What instructions preserve -/

namespace Observation

variable {c : Setup} {x y : Observation}

theorem toConfiguration_traced (x : Observation) (c : Setup) (line : String) :
    (x.traced c line).toConfiguration = x.toConfiguration := by
  unfold traced
  split <;> rfl

theorem toConfiguration_halt (c : Setup) (x : Observation) : (x.halt c).toConfiguration = x.toConfiguration :=
  toConfiguration_traced x c _

theorem toConfiguration_proceed (c : Setup) (addr : Nat) (op : Opcode) (ip : Int) (x : Observation) :
    (x.proceed c addr op ip).toConfiguration =
      { x.toConfiguration with stats := x.stats.record op x.frames.length } :=
  toConfiguration_traced _ c _

theorem configuration_of_perform {addr : Nat} {i : Instr} (h : x.perform c addr i = .ok y) :
    y.toConfiguration = x.toConfiguration ∨
      ∃ ip z, Configuration.apply c (addr + i.size) i x.toConfiguration = .ok (ip, z) ∧
        y.toConfiguration = { z with stats := z.stats.record i.opcode z.frames.length } := by
  unfold perform conclude at h
  split at h
  next ip z happly =>
    cases h
    exact .inr ⟨ip, z, happly, toConfiguration_proceed ..⟩
  next =>
    cases h
    exact .inl rfl
  next =>
    cases h
    exact .inl rfl
  next => cases h

/-- A cycle leaves the configuration alone, or it applies an instruction to it and counts that. -/
theorem configuration_of_cycle (h : x.cycle c = .ok y) :
    y.toConfiguration = x.toConfiguration ∨
      ∃ i ip z, Configuration.apply c (x.ip.toNat + i.size) i x.toConfiguration = .ok (ip, z) ∧
        y.toConfiguration = { z with stats := z.stats.record i.opcode z.frames.length } := by
  rw [cycle_eq] at h
  cases hnext : upcoming c.code x.ip with
  | halt =>
    rw [hnext] at h
    cases h
    exact .inl (toConfiguration_halt c x)
  | stuck =>
    rw [hnext] at h
    cases h
    exact .inl rfl
  | instr i =>
    rw [hnext] at h
    obtain hsame | hmoved := configuration_of_perform h
    · exact .inl hsame
    · exact .inr ⟨i, hmoved⟩

end Observation

/-- What starts and instructions preserve in configurations holds however the machine is started and run; the
counters do not count. -/
theorem configuration_invariant {c : Setup} {P : Configuration → Prop} (hdepth : 1 ≤ c.limits.maxDepth)
    (hstats : ∀ x stats, P x → P { x with stats := stats })
    (hstart : ∀ (x : Observation) address, P x.toConfiguration → P (x.started c address).toConfiguration)
    (happly : ∀ next i x ip y, P x → Configuration.apply c next i x = .ok (ip, y) → P y) :
    RunInvariant c fun _ s => Sound c s ∧ P s.view where
  start _ s address h := by
    obtain ⟨t, hbegin, ht, hobservation⟩ := observation_begin address h.1 hdepth
    have hview : t.view = (s.observation.started c address).toConfiguration := congrArg (·.toConfiguration) hobservation
    rw [hbegin]
    exact ⟨ht, hview ▸ hstart s.observation address h.2⟩
  cycle _ s h _ := by
    have hseen := seen_cycle h.1
    generalize hcycle : s.observation.cycle c = r at hseen
    generalize cycle c s = r' at hseen
    cases hseen with
    | @ok t sound =>
      refine ⟨sound, ?_⟩
      change P t.observation.toConfiguration
      obtain hsame | ⟨i, ip, z, hz, hmoved⟩ := Observation.configuration_of_cycle hcycle
      · rw [hsame]
        exact h.2
      · rw [hmoved]
        exact hstats _ _ (happly _ i _ ip z h.2 hz)
    | @error a t sound same =>
      have hview : t.view = s.view := congrArg (·.toConfiguration) same
      exact ⟨sound, hview ▸ h.2⟩
  cancel _ _ _ h _ := ⟨{ h.1 with }, h.2⟩

end StackMachine.Machine
