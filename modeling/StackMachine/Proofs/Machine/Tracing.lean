import StackMachine.Proofs.Machine.ControlFlow
import StackMachine.Proofs.Machine.Lockstep
import StackMachine.Proofs.Machine.Observation

/-!
# Machines that trace

A trace is written and never read, so a machine that traces is in lockstep with one that does not. Runs that their
contexts do not cut short come to what unlimited runs come to; two such runs, one of them traced, end alike whatever
their contexts are.
-/

set_option autoImplicit false

namespace StackMachine.Machine

def Setup.withTracing (c : Setup) (b : Bool) : Setup :=
  { c with tracing := b }

def withTracing (m : Machine) (b : Bool) : Machine :=
  { m with setup := m.setup.withTracing b }

/-! ## What is observed besides the trace -/

theorem join_dumpOf (globals : Array Word) : ∃ text, String.join (dumpOf globals) = text ++ "\n" := by
  have hlast : String.join ["\n"] = "\n" := by decide
  rw [dumpOf, String.join_append, hlast]
  exact ⟨_, rfl⟩

theorem haltLines_closed (c : Setup) (addr : Int) (stack : List Word) (globals : Array Word) :
    ∃ text, haltLines c addr stack globals = text ++ "\n" := by
  obtain ⟨text, htext⟩ := join_dumpOf globals
  rw [haltLines, htext, ← String.append_assoc]
  exact ⟨_, rfl⟩

theorem Configuration.apply_withTracing (c : Setup) (b : Bool) (next : Nat) (i : Instr) :
    apply (c.withTracing b) next i = apply c next i := by
  cases i <;> rfl

namespace Observation

variable {c : Setup} {x y : Observation}

def untraced (x : Observation) : Observation :=
  { x with trace := "" }

theorem untraced_traced (x : Observation) (c : Setup) (line : String) : (x.traced c line).untraced = x.untraced := by
  unfold traced
  split <;> rfl

theorem untraced_halt (c : Setup) (x : Observation) :
    (x.halt c).untraced = x.untraced.halt (c.withTracing false) := by
  have htraced := untraced_traced x c (haltLines c x.ip x.stack x.globals)
  change { (x.traced c _).untraced with status := .halted } = _
  rw [htraced]
  rfl

theorem untraced_proceed (c : Setup) (addr : Nat) (op : Opcode) (ip : Int) (x : Observation) :
    (x.proceed c addr op ip).untraced = x.untraced.proceed (c.withTracing false) addr op ip :=
  untraced_traced _ c _

theorem untraced_conclude (c : Setup) (addr : Nat) (op : Opcode) (x : Observation)
    (r : Except Stop (Int × Configuration)) :
    (x.conclude c addr op r).map untraced = x.untraced.conclude (c.withTracing false) addr op r := by
  cases r with
  | ok z => exact congrArg Except.ok (untraced_proceed c addr op z.1 { x with toConfiguration := z.2 })
  | error e => cases e <;> rfl

/-- Without the trace a cycle is a cycle of a machine that does not trace. -/
theorem untraced_cycle (c : Setup) (x : Observation) :
    (x.cycle c).map untraced = x.untraced.cycle (c.withTracing false) := by
  have hip : x.untraced.ip = x.ip := rfl
  have hcode : (c.withTracing false).code = c.code := rfl
  rw [cycle_eq, cycle_eq, hip, hcode]
  cases upcoming c.code x.ip with
  | halt => exact congrArg Except.ok (untraced_halt c x)
  | stuck => rfl
  | instr i =>
    dsimp only [meet, perform]
    rw [Configuration.apply_withTracing]
    exact untraced_conclude c _ _ x _

/-- A trace stays as it is, or a machine that traces adds lines to it, the last of which is closed. -/
def Extends (c : Setup) (before later : String) : Prop :=
  later = before ∨ c.tracing = true ∧ ∃ text, later = text ++ "\n"

theorem extends_traced (x : Observation) (c : Setup) (text : String) :
    Extends c x.trace (x.traced c (text ++ "\n")).trace := by
  unfold traced
  split
  next h => exact .inr ⟨h, x.trace ++ text, String.append_assoc.symm⟩
  next => exact .inl rfl

theorem extends_halt (c : Setup) (x : Observation) : Extends c x.trace (x.halt c).trace := by
  obtain ⟨text, htext⟩ := haltLines_closed c x.ip x.stack x.globals
  rw [halt, htext]
  exact extends_traced x c text

theorem extends_conclude {addr : Nat} {op : Opcode} {r : Except Stop (Int × Configuration)}
    (h : x.conclude c addr op r = .ok y) : Extends c x.trace y.trace := by
  cases r with
  | ok z =>
    cases h
    exact extends_traced _ c _
  | error e =>
    cases e with
    | fault | refused =>
      cases h
      exact .inl rfl
    | abandoned => cases h

theorem extends_cycle (h : x.cycle c = .ok y) : Extends c x.trace y.trace := by
  rw [cycle_eq] at h
  cases hnext : upcoming c.code x.ip with
  | halt =>
    rw [hnext] at h
    cases h
    exact extends_halt c x
  | stuck =>
    rw [hnext] at h
    cases h
    exact .inl rfl
  | instr =>
    rw [hnext] at h
    exact extends_conclude h

end Observation

/-! ## Lockstep -/

/-- The states differ in their traces and in what lies idle in their storage, and in nothing else. -/
structure Matching (c : Setup) (b : Bool) (s t : State) : Prop where
  left : Sound c s
  right : Sound (c.withTracing b) t
  same : s.observation.untraced = t.observation.untraced

section Matching

variable {c : Setup} {b : Bool} {s t : State}

theorem Matching.cycle (h : Matching c b s t) : Paired (Matching c b) (cycle c s) (cycle (c.withTracing b) t) := by
  have heq : (s.observation.cycle c).map Observation.untraced =
      (t.observation.cycle (c.withTracing b)).map Observation.untraced := by
    rw [Observation.untraced_cycle, Observation.untraced_cycle, h.same]
    rfl
  have hlevel : Level c (c.withTracing b) (fun x y => x.untraced = y.untraced) s t := ⟨h.left, h.right, h.same⟩
  exact (hlevel.cycle (coupled_of_map heq)).mono fun _ _ h => ⟨h.left, h.right, h.same⟩

theorem matching_lockstep (b : Bool) (hdepth : 1 ≤ c.limits.maxDepth) :
    Lockstep c (c.withTracing b) (Matching c b) where
  table := rfl
  interval := rfl
  status s t h := congrArg (·.status) h.same
  cycles s t h := congrArg (·.stats.cycles) h.same
  start s t address h := by
    obtain ⟨s', hbegin, hs', hsx⟩ := observation_begin address h.left hdepth
    obtain ⟨t', hbegin', ht', htx⟩ := observation_begin address h.right hdepth
    rw [hbegin, hbegin']
    refine ⟨hs', ht', ?_⟩
    change s'.observation.untraced = t'.observation.untraced
    rw [hsx, htx]
    exact congrArg (Observation.started c address) h.same
  cycle s t h := h.cycle
  cancel s t why h := by
    have hip : s.ip = t.ip := congrArg (·.ip) h.same
    refine ⟨{ h.left with }, { h.right with }, ?_⟩
    rw [observation_fault h.left, observation_fault h.right, hip]
    exact congrArg (Observation.fault · t.ip 0 (.cancelled why)) h.same

end Matching

/-- The lines of a trace are closed, and there are none where nothing is traced. -/
def Closed (c : Setup) (trace : String) : Prop :=
  Observation.Extends c "" trace

theorem closed_invariant {c : Setup} (hdepth : 1 ≤ c.limits.maxDepth) :
    RunInvariant c fun _ s => Sound c s ∧ Closed c s.trace where
  start _ s address h := by
    obtain ⟨t, hbegin, ht, hobservation⟩ := observation_begin address h.1 hdepth
    have htrace : t.trace = s.trace := congrArg (·.trace) hobservation
    rw [hbegin]
    exact ⟨ht, htrace ▸ h.2⟩
  cycle _ s h _ := by
    have hseen := seen_cycle h.1
    generalize hcycle : s.observation.cycle c = r at hseen
    generalize cycle c s = r' at hseen
    cases hseen with
    | @ok t sound =>
      obtain hsame | hmore := Observation.extends_cycle hcycle
      · have htrace : t.trace = s.trace := hsame
        exact ⟨sound, htrace ▸ h.2⟩
      · exact ⟨sound, .inr hmore⟩
    | @error a t sound same =>
      have htrace : t.trace = s.trace := congrArg (·.trace) same
      exact ⟨sound, htrace ▸ h.2⟩
  cancel _ _ _ h _ := ⟨{ h.1 with }, h.2⟩

theorem closed_of_execute? {m : Machine} {ctx : Context} {address : Word} {r : Machine × Option Failure}
    (hdepth : 1 ≤ m.setup.limits.maxDepth) (hsound : Sound m.setup m.state) (htrace : Closed m.setup m.state.trace)
    (h : m.execute? ctx address = some r) : Closed m.setup r.1.state.trace := by
  have hexecute := (closed_invariant hdepth).execute (o := none) rfl ⟨hsound, htrace⟩ ctx address
  rw [execute, h] at hexecute
  exact hexecute.2

/-! ## Runs that are not cut short -/

/-- The failure is that of a run whose context gave in. -/
def CutShort (failure : Option Failure) : Prop :=
  ∃ f why, failure = some (.run (.fault f)) ∧ f.reason = .cancelled why

theorem run_unlimited_of_uncut {c : Setup} {ctx : Context} {s : State} {r : State × Option Abandoned}
    (hrun : c.run ctx s = some r) (huncut : ¬ CutShort (outcome r.1 r.2)) : c.run .unlimited s = some r := by
  refine Setup.run.partial_correctness c
    (fun _ s r => ¬ CutShort (outcome r.1 r.2) → c.run .unlimited s = some r) ?_ ctx s r hrun huncut
  intro run' ih ctx s r hr huncut
  by_cases hs : s.status = .running
  · rw [if_pos (isRunning_eq_true_iff.mpr hs)] at hr
    cases hconsult : consult c s ctx with
    | error why =>
      rw [pass_cancelled hconsult] at hr
      have hstopped := ih _ _ r hr huncut
      rw [run_stopped fun h => by cases h] at hstopped
      cases hstopped
      exact (huncut ⟨_, why, rfl, rfl⟩).elim
    | ok ctx' =>
      cases hcycle : Machine.cycle c s with
      | ok _ t =>
        rw [pass_cycled hconsult hcycle] at hr
        rw [run_passed hs (pass_cycled (consult_unlimited c s) hcycle)]
        exact ih _ _ r hr huncut
      | error a t =>
        rw [pass_abandoned hconsult hcycle] at hr
        cases hr
        exact run_abandoned hs (pass_abandoned (consult_unlimited c s) hcycle)
  · rw [isRunning_eq_false hs] at hr
    cases hr
    exact run_stopped hs

def Uncancelled (status : Status) : Prop :=
  ∀ f why, status = .faulted (.fault f) → f.reason ≠ .cancelled why

theorem uncut_of_uncancelled {s : State} (h : Uncancelled s.status) : ¬ CutShort (outcome s none) := by
  rintro ⟨f, why, hf, hreason⟩
  obtain ⟨e, he, herror⟩ := Option.map_eq_some_iff.mp hf
  cases herror
  cases hs : s.status with
  | ready | running | halted =>
    rw [hs] at he
    cases he
  | faulted =>
    rw [hs] at he
    cases he
    exact h f why hs hreason

/-- No cycle makes a fault look like a cancellation. -/
theorem uncancelled_cycle {c : Setup} {s : State} (hsound : Sound c s) (hs : s.status = .running) :
    Uncancelled (leftBy (cycle c s)).status := by
  intro f why hf hreason
  obtain ⟨-, -, hcycled⟩ := cycle_flow hsound
  cases hcycled with
  | moved _ _ _ hstatus =>
    rw [hf, hs] at hstatus
    cases hstatus
  | stayed _ _ hstatus =>
    rw [hf] at hstatus
    generalize hstopped : Status.faulted (.fault f) = status at hstatus
    cases hstatus with
    | halted | print => cases hstopped
    | abandoned =>
      rw [hs] at hstopped
      cases hstopped
    | stuck h =>
      cases hstopped
      rw [hreason] at h
      generalize f.opcode = opcode at h
      cases h
    | fault _ h =>
      cases hstopped
      rw [hreason] at h
      cases h with
      | dynamic h => cases h

theorem uncut_of_unlimited {c : Setup} {s : State} {r : State × Option Abandoned} (hsound : Sound c s)
    (hstatus : Uncancelled s.status) (hrun : c.run .unlimited s = some r) : ¬ CutShort (outcome r.1 r.2) := by
  refine Setup.run.partial_correctness c (fun ctx s r => ctx = .unlimited → Sound c s → Uncancelled s.status →
    ¬ CutShort (outcome r.1 r.2)) ?_ _ s r hrun rfl hsound hstatus
  rintro run' ih _ s r hr rfl hsound hstatus
  by_cases hs : s.status = .running
  · rw [if_pos (isRunning_eq_true_iff.mpr hs)] at hr
    obtain ⟨hsound', -, -⟩ := cycle_flow hsound
    have hstatus' := uncancelled_cycle hsound hs
    cases hcycle : Machine.cycle c s with
    | ok _ t =>
      rw [pass_cycled (consult_unlimited c s) hcycle] at hr
      rw [hcycle] at hsound' hstatus'
      exact ih _ _ r hr rfl hsound' hstatus'
    | error a t =>
      rw [pass_abandoned (consult_unlimited c s) hcycle] at hr
      cases hr
      rintro ⟨f, why, hf, -⟩
      cases hf
  · rw [isRunning_eq_false hs] at hr
    cases hr
    exact uncut_of_uncancelled hstatus

theorem uncut_of_execute? {m : Machine} {address : Word} {r : Machine × Option Failure}
    (hdepth : 1 ≤ m.setup.limits.maxDepth) (hsound : Sound m.setup m.state)
    (h : m.execute? .unlimited address = some r) : ¬ CutShort r.2 := by
  obtain ⟨t, hbegin, ht, -⟩ := observation_begin address hsound hdepth
  have hstart : (m.start address).state = t := by
    rw [start_eq, hbegin]
    rfl
  have hrunning := (begin_start m address).2.1
  rw [execute?_eq_run] at h
  obtain ⟨r', hrun, rfl⟩ := Option.map_eq_some_iff.mp h
  rw [hstart] at hrun hrunning
  refine uncut_of_unlimited ht ?_ hrun
  intro f why hf
  rw [hrunning] at hf
  cases hf

/-- A run that ends under no limit ends under any context, the same way unless it is cut short. -/
theorem run_of_unlimited {c : Setup} {s : State} {r : State × Option Abandoned} (hrun : c.run .unlimited s = some r)
    (ctx : Context) (huncut : ∀ r', c.run ctx s = some r' → ¬ CutShort (outcome r'.1 r'.2)) :
    c.run ctx s = some r := by
  cases ctx with
  | unlimited => exact hrun
  | expiring n why =>
    obtain ⟨r', hr'⟩ := run_expiring_ends c n why s
    rw [hr', ← run_unlimited_of_uncut hr' (huncut r' hr'), hrun]

/-- A run that was not cut short ends the same way with a trace, unless it is cut short then. -/
theorem execute?_withTracing {m n : Machine} {ctx ctx' : Context} {address : Word} {failure : Option Failure}
    (hdepth : 1 ≤ m.setup.limits.maxDepth) (hsound : Sound m.setup m.state)
    (hrun : m.execute? ctx address = some (n, failure)) (huncut : ¬ CutShort failure) (b : Bool)
    (huncut' : ∀ r, (m.withTracing b).execute? ctx' address = some r → ¬ CutShort r.2) :
    ∃ n', (m.withTracing b).execute? ctx' address = some (n', failure) ∧ Matching m.setup b n.state n'.state := by
  have hlockstep := matching_lockstep (c := m.setup) b hdepth
  have hstart : Matching m.setup b (m.start address).state ((m.withTracing b).start address).state :=
    hlockstep.start_state (n := m.withTracing b) rfl rfl ⟨hsound, { hsound with }, rfl⟩ address
  rw [execute?_eq_run] at hrun
  obtain ⟨⟨t, a⟩, ht, heq⟩ := Option.map_eq_some_iff.mp hrun
  cases heq
  obtain ⟨⟨t', a'⟩, ht', hmatching, rfl⟩ := hlockstep.run_some hstart (run_unlimited_of_uncut ht huncut)
  have hrun' := run_of_unlimited ht' ctx' fun r hr => huncut' (reply ((m.withTracing b).start address) r) (by
    rw [execute?_eq_run]
    exact congrArg (Option.map _) hr)
  refine ⟨{ (m.withTracing b).start address with state := t' }, ?_, hmatching⟩
  rw [execute?_eq_run]
  refine (congrArg (Option.map _) hrun').trans ?_
  rw [Option.map_some, reply, hlockstep.outcome_eq hmatching a']

end StackMachine.Machine
