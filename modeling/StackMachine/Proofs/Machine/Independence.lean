import StackMachine.Proofs.Machine.Lockstep
import StackMachine.Proofs.Machine.Output
import StackMachine.Proofs.Machine.Representation

/-!
# The past of a run

A start leaves globals, sink and trace of what was there before. What a sink took earlier makes no difference to one
that takes everything, and a trace is never read, so two machines of one setup with the same globals are in lockstep
from the start on, whatever each of them did before.
-/

set_option autoImplicit false

namespace StackMachine

namespace Sink

/-- The sink with a text taken before everything else. -/
def after (k : Sink) (text : String) : Sink :=
  { k with taken := text ++ k.taken }

theorem eq_unlimited_after {k : Sink} (h : k.Open) : k = unlimited.after k.taken := by
  obtain ⟨refuses, taken⟩ := k
  obtain rfl : refuses = fun _ _ => none := funext fun taken => funext fun piece => h taken piece
  simp [after, unlimited]

end Sink

namespace Machine

/-! ## Instructions -/

namespace Configuration

def after (x : Configuration) (text : String) : Configuration :=
  { x with sink := x.sink.after text }

theorem stack_after (x : Configuration) (text : String) : (x.after text).stack = x.stack := rfl

/-- The results are the same, but for a text that the sink of the second one had taken before. -/
inductive Echoes {α : Type} (text : String) : Except Stop (α × Configuration) → Except Stop (α × Configuration) → Prop
  | ok {a : α} {y : Configuration} (h : y.sink.Open) : Echoes text (.ok (a, y)) (.ok (a, y.after text))
  | error {e : Stop} : Echoes text (.error e) (.error e)

/-- What an open sink took earlier has no part in the transition. -/
def Blind {α : Type} (t : Transition α) : Prop :=
  ∀ x text, x.sink.Open → Echoes text (t x) (t (x.after text))

section Blind

variable {c : Setup} {next : Nat}

theorem blind_of_aloof {α : Type} {t : Transition α} (ht : Aloof t) : Blind t := by
  intro x text hx
  have hafter : t (x.after text) = (t x).map fun r => (r.1, r.2.withSink (x.sink.after text)) := ht x (x.sink.after text)
  rw [hafter]
  cases h : t x with
  | ok r =>
    have hsink : r.2.sink = x.sink := sink_of_aloof ht h
    have hopen : r.2.sink.Open := hsink ▸ hx
    rw [← hsink]
    exact .ok hopen
  | error e => exact .error

theorem blind_withTop {α : Type} {f : Word → Transition α} (hf : ∀ v, Blind (f v)) : Blind (withTop f) := by
  intro x text hx
  unfold withTop
  rw [stack_after]
  split
  · exact .error
  next v rest _ => exact hf v { x with stack := rest } text hx

theorem blind_print : Blind print := by
  apply blind_withTop
  intro v x text hx
  have hopen : (x.after text).sink.Open := hx
  have htaken : text ++ x.sink.taken ++ (v.text ++ "\n") = text ++ (x.sink.taken ++ (v.text ++ "\n")) :=
    String.append_assoc
  -- The only use of the sink: both take the line, one of them after the text.
  simp only [Sink.write_open hx, Sink.write_open hopen]
  change Echoes text _ (.ok ((), { x with sink := { x.sink with taken := text ++ x.sink.taken ++ (v.text ++ "\n") } }))
  rw [htaken]
  exact .ok (y := { x with sink := { x.sink with taken := x.sink.taken ++ (v.text ++ "\n") } }) hx

theorem blind_andThen {t : Transition Unit} (ht : Blind t) : Blind (andThen next t) := by
  intro x text hx
  have hechoes := ht x text hx
  unfold andThen
  generalize t x = r at hechoes
  generalize t (x.after text) = r' at hechoes
  cases hechoes with
  | ok h => exact .ok h
  | error => exact .error

theorem blind_apply (c : Setup) (next : Nat) (i : Instr) : Blind (apply c next i) := by
  by_cases hi : i = .print
  · subst hi
    exact blind_andThen blind_print
  · exact blind_of_aloof (aloof_apply c next hi)

theorem open_apply {i : Instr} {x y : Configuration} {ip : Int} (hx : x.sink.Open)
    (h : apply c next i x = .ok (ip, y)) : y.sink.Open := by
  -- Any text would do, since only the first of the two results is looked at.
  have hechoes := blind_apply c next i x "" hx
  rw [h] at hechoes
  generalize apply c next i (x.after "") = r at hechoes
  cases hechoes with
  | ok h => exact h

end Blind

end Configuration

/-! ## Cycles -/

/-- What a machine has printed and traced. -/
structure Past where
  output : String := ""
  trace : String := ""

def State.past (s : State) : Past :=
  ⟨s.sink.taken, s.trace⟩

namespace Observation

variable {c : Setup} {p : Past}

/-- The observation with texts printed and traced before everything else. -/
def after (x : Observation) (p : Past) : Observation :=
  { x with toConfiguration := x.toConfiguration.after p.output, trace := p.trace ++ x.trace }

inductive Echoes (p : Past) : Except Abandoned Observation → Except Abandoned Observation → Prop
  | ok {y : Observation} (h : y.sink.Open) : Echoes p (.ok y) (.ok (y.after p))
  | error {a : Abandoned} : Echoes p (.error a) (.error a)

theorem traced_after (x : Observation) (line : String) : (x.after p).traced c line = (x.traced c line).after p := by
  unfold traced
  split
  · simp only [after, String.append_assoc]
  · rfl

theorem halt_after (x : Observation) : (x.after p).halt c = (x.halt c).after p := by
  unfold halt
  rw [traced_after]
  rfl

theorem proceed_after (x : Observation) (addr : Nat) (op : Opcode) (ip : Int) :
    (x.after p).proceed c addr op ip = (x.proceed c addr op ip).after p := by
  unfold proceed
  rw [← traced_after]
  rfl

theorem echoes_halt {x : Observation} (hx : x.sink.Open) : Echoes p (.ok (x.halt c)) (.ok ((x.after p).halt c)) := by
  rw [halt_after]
  refine .ok ?_
  rw [toConfiguration_halt]
  exact hx

theorem echoes_proceed {x : Observation} (hx : x.sink.Open) (addr : Nat) (op : Opcode) (ip : Int) :
    Echoes p (.ok (x.proceed c addr op ip)) (.ok ((x.after p).proceed c addr op ip)) := by
  rw [proceed_after]
  refine .ok ?_
  rw [toConfiguration_proceed]
  exact hx

theorem echoes_conclude {x : Observation} {r r' : Except Stop (Int × Configuration)} (hx : x.sink.Open)
    (h : Configuration.Echoes p.output r r') (addr : Nat) (op : Opcode) :
    Echoes p (x.conclude c addr op r) ((x.after p).conclude c addr op r') := by
  cases h with
  | @ok ip y hy => exact echoes_proceed (x := { x with toConfiguration := y }) hy addr op ip
  | @error e =>
    cases e with
    | fault reason => exact .ok hx
    | refused text => exact .ok hx
    | abandoned a => exact .error

theorem echoes_cycle {x : Observation} (hx : x.sink.Open) : Echoes p (x.cycle c) ((x.after p).cycle c) := by
  have hip : (x.after p).ip = x.ip := rfl
  rw [cycle_eq, cycle_eq, hip]
  cases upcoming c.code x.ip with
  | halt => exact echoes_halt hx
  | stuck => exact .ok hx
  | instr i => exact echoes_conclude hx (Configuration.blind_apply c _ i _ p.output hx) _ _

/-- What a start shows of a machine that has nothing behind it. -/
def fresh (c : Setup) (address : Word) (globals : Array Word) : Observation where
  stack := []
  globals := globals
  frames := [{ function := c.table.entry, returnAddress := -1, invoker := -1, slots := [] }]
  stats := { maxDepth := 1 }
  sink := .unlimited
  ip := address.toInt
  status := .running
  trace := ""

theorem started_eq_fresh {x : Observation} (address : Word) (hx : x.sink.Open) :
    x.started c address = (fresh c address x.globals).after ⟨x.sink.taken, x.trace⟩ := by
  simp only [started, fresh, after, Configuration.after, String.append_empty, ← Sink.eq_unlimited_after hx]

end Observation

/-! ## Two machines -/

/-- The states differ in their pasts and in what lies idle in their storage, and in nothing else. -/
structure Alike (c : Setup) (p q : Past) (s t : State) : Prop where
  left : Sound c s
  right : Sound c t
  shared : ∃ x : Observation, x.sink.Open ∧ s.observation = x.after p ∧ t.observation = x.after q

section Alike

variable {c : Setup} {p q : Past} {s t : State}

theorem Alike.cycle (h : Alike c p q s t) : Paired (Alike c p q) (cycle c s) (cycle c t) := by
  obtain ⟨hs, ht, x, hx, hsx, htx⟩ := h
  have hechoes := Observation.echoes_cycle (c := c) (p := p) hx
  have hechoes' := Observation.echoes_cycle (c := c) (p := q) hx
  have hcoupled : Coupled (fun y z => ∃ x : Observation, x.sink.Open ∧ y = x.after p ∧ z = x.after q)
      (s.observation.cycle c) (t.observation.cycle c) := by
    rw [hsx, htx]
    generalize (x.after p).cycle c = r at hechoes
    generalize (x.after q).cycle c = r' at hechoes'
    generalize x.cycle c = z at hechoes hechoes'
    cases hechoes with
    | ok hopen =>
      cases hechoes'
      exact .ok ⟨_, hopen, rfl, rfl⟩
    | error =>
      cases hechoes'
      exact .error
  exact (Level.cycle ⟨hs, ht, x, hx, hsx, htx⟩ hcoupled).mono fun _ _ h => ⟨h.left, h.right, h.same⟩

/-- Whatever two states of one setup have behind them, a start makes them alike if their globals are the same. -/
theorem alike_begin (address : Word) (hdepth : 1 ≤ c.limits.maxDepth) (hs : Sound c s) (ht : Sound c t)
    (hsopen : s.sink.Open) (htopen : t.sink.Open) (hglobals : s.globals = t.globals) :
    Alike c s.past t.past (leftBy (begin c address s)) (leftBy (begin c address t)) := by
  obtain ⟨s', hbegin, hs', hsx⟩ := observation_begin address hs hdepth
  obtain ⟨t', hbegin', ht', htx⟩ := observation_begin address ht hdepth
  rw [hbegin, hbegin']
  refine ⟨hs', ht', .fresh c address s.globals, fun _ _ => rfl, ?_, ?_⟩
  · exact hsx.trans (Observation.started_eq_fresh address hsopen)
  · rw [hglobals]
    exact htx.trans (Observation.started_eq_fresh address htopen)

theorem alike_lockstep (hdepth : 1 ≤ c.limits.maxDepth) : Lockstep c c (Alike c p q) where
  table := rfl
  interval := rfl
  status s t h := by
    obtain ⟨-, -, x, -, hs, ht⟩ := h
    exact (congrArg (·.status) hs).trans (congrArg (·.status) ht).symm
  cycles s t h := by
    obtain ⟨-, -, x, -, hs, ht⟩ := h
    exact (congrArg (·.stats.cycles) hs).trans (congrArg (·.stats.cycles) ht).symm
  start s t address h := by
    obtain ⟨hs, ht, x, hx, hsx, htx⟩ := h
    obtain ⟨s', hbegin, hs', hsx'⟩ := observation_begin address hs hdepth
    obtain ⟨t', hbegin', ht', htx'⟩ := observation_begin address ht hdepth
    rw [hbegin, hbegin']
    refine ⟨hs', ht', x.started c address, hx, ?_, ?_⟩
    · exact hsx'.trans (congrArg (Observation.started c address) hsx)
    · exact htx'.trans (congrArg (Observation.started c address) htx)
  cycle s t h := h.cycle
  cancel s t why h := by
    obtain ⟨hs, ht, x, hx, hsx, htx⟩ := h
    have hip : s.ip = x.ip := congrArg (·.ip) hsx
    have hip' : t.ip = x.ip := congrArg (·.ip) htx
    refine ⟨{ hs with }, { ht with }, x.fault x.ip 0 (.cancelled why), hx, ?_, ?_⟩
    · rw [observation_fault hs, hsx, hip]
      rfl
    · rw [observation_fault ht, htx, hip']
      rfl

end Alike

/-- Machines that were in the states `s` and `s'` when they were started have got to `t` and `t'`, and nothing that
has happened since tells one from the other. -/
structure SameRun (s s' t t' : State) : Prop where
  ip : t.ip = t'.ip
  stack : t.stack = t'.stack
  globals : t.globals = t'.globals
  frames : t.frames.map Activation.of = t'.frames.map Activation.of
  status : t.status = t'.status
  stats : t.stats = t'.stats
  output : ∃ text, t.sink.taken = s.sink.taken ++ text ∧ t'.sink.taken = s'.sink.taken ++ text
  trace : ∃ text, t.trace = s.trace ++ text ∧ t'.trace = s'.trace ++ text

theorem Alike.sameRun {c : Setup} {s s' t t' : State} (h : Alike c s.past s'.past t t') : SameRun s s' t t' := by
  obtain ⟨-, -, x, -, hx, hx'⟩ := h
  refine ⟨?_, ?_, ?_, ?_, ?_, ?_, ⟨x.sink.taken, ?_, ?_⟩, ⟨x.trace, ?_, ?_⟩⟩
  · exact (congrArg (·.ip) hx).trans (congrArg (·.ip) hx').symm
  · exact (congrArg (·.stack) hx).trans (congrArg (·.stack) hx').symm
  · exact (congrArg (·.globals) hx).trans (congrArg (·.globals) hx').symm
  · exact (congrArg (·.frames) hx).trans (congrArg (·.frames) hx').symm
  · exact (congrArg (·.status) hx).trans (congrArg (·.status) hx').symm
  · exact (congrArg (·.stats) hx).trans (congrArg (·.stats) hx').symm
  · exact congrArg (·.sink.taken) hx
  · exact congrArg (·.sink.taken) hx'
  · exact congrArg (·.trace) hx
  · exact congrArg (·.trace) hx'

theorem open_invariant {c : Setup} (hdepth : 1 ≤ c.limits.maxDepth) :
    Invariant c fun _ s => Sound c s ∧ s.view.sink.Open where
  toRunInvariant := configuration_invariant (P := (·.sink.Open)) hdepth (fun _ _ h => h) (fun _ _ h => h)
    fun _ _ _ _ _ => Configuration.open_apply
  overwrite _ _ d _ _ h := ⟨h.1.modifyFrame d fun _ hf => hf.setCell _ _, h.2⟩

/-- A machine that writes to an open sink keeps it open, whatever is asked of it. -/
theorem make_open (code : Array Word) {globals : Word} (table : FunctionTable) (o : Options)
    (hglobals : 0 ≤ globals) (hallocates : Allocates globals (Limits.adjust {} o.sizing)) (hsink : o.sink.Open) :
    ∃ m, make code globals (some table) {} o = .ok m ∧
      m.setup = { code := code, table := table, limits := Limits.adjust {} o.sizing, tracing := o.tracing } ∧
      ∀ history, Sound m.setup (m.serve history).state ∧ (m.serve history).state.sink.Open := by
  obtain ⟨m, hm, -, -, hlimits, -, -, hsound⟩ := make_eq_ok code table {} o hglobals hallocates
  have hdepth : 1 ≤ m.setup.limits.maxDepth := hlimits ▸ Limits.adjust_maxDepth_pos _ (by decide)
  have hopen : m.state.sink.Open := by
    have hview : m.state.sink = o.sink := congrArg (·.sink) (observation_of_make hm)
    exact hview ▸ hsink
  exact ⟨m, hm, setup_of_make hm, fun history => (open_invariant hdepth).serve ⟨hsound, hopen⟩ history⟩

/-- Take two machines of the same code, table and options whose sinks are open, with any two pasts that have left
the same globals. Once both are started at one address, the same requests are answered alike, and whatever they have
come to since then is the same for both. -/
theorem run_determined_by_globals (code : Array Word) (table : FunctionTable) (o : Options)
    (globals globals' : Word) (sink sink' : Sink) (hglobals : 0 ≤ globals) (hglobals' : 0 ≤ globals')
    (hallocates : Allocates globals (Limits.adjust {} o.sizing))
    (hallocates' : Allocates globals' (Limits.adjust {} o.sizing))
    (hsink : sink.Open) (hsink' : sink'.Open) :
    ∃ m m', make code globals (some table) {} { o with sink := sink } = .ok m ∧
      make code globals' (some table) {} { o with sink := sink' } = .ok m' ∧
      ∀ past past' : List Request, (m.serve past).state.globals = (m'.serve past').state.globals →
        ∀ (address : Word) (later : List Request), (∀ r ∈ later, r.writes = false) →
          SameRun (m.serve past).state (m'.serve past').state
            (m.serve (past ++ .start address :: later)).state
            (m'.serve (past' ++ .start address :: later)).state ∧
          ∀ r : Request, r.writes = false →
            ((m.serve (past ++ .start address :: later)).answer r).2 =
              ((m'.serve (past' ++ .start address :: later)).answer r).2 := by
  obtain ⟨m, hm, hsetup, hserved⟩ := make_open code table { o with sink := sink } hglobals hallocates hsink
  obtain ⟨m', hm', hsetup', hserved'⟩ := make_open code table { o with sink := sink' } hglobals' hallocates'
    hsink'
  refine ⟨m, m', hm, hm', ?_⟩
  intro past past' hequal address later hlater
  have hsame : m'.setup = m.setup := hsetup'.trans hsetup.symm
  have hdepth : 1 ≤ m.setup.limits.maxDepth := hsetup ▸ Limits.adjust_maxDepth_pos _ (by decide)
  obtain ⟨hsound, hopen⟩ := hserved past
  obtain ⟨hsound', hopen'⟩ := hserved' past'
  rw [hsame] at hsound'
  have hstarted : ((m.serve past).start address).setup = m.setup := by
    rw [start_eq]
    exact setup_serve m past
  have hstarted' : ((m'.serve past').start address).setup = m.setup := by
    rw [start_eq]
    exact (setup_serve m' past').trans hsame
  -- From here on the two differ in their pasts only.
  have halike : Alike m.setup (m.serve past).state.past (m'.serve past').state.past
      ((m.serve past).start address).state ((m'.serve past').start address).state := by
    rw [start_eq, start_eq, setup_serve, setup_serve, hsame]
    exact alike_begin address hdepth hsound hsound' hopen hopen' hequal
  have hlockstep := alike_lockstep (p := (m.serve past).state.past) (q := (m'.serve past').state.past) hdepth
  have hserve := hlockstep.serve hstarted hstarted' halike hlater
  rw [serve_start, serve_start]
  refine ⟨hserve.sameRun, ?_⟩
  intro r hr
  exact (hlockstep.answer ((setup_serve _ _).trans hstarted) ((setup_serve _ _).trans hstarted') hserve hr).1

/-- A function that prints a local slot and then stores its argument there, run once before. -/
theorem stored_local_forgotten :
    let past : List Request := .start 0 :: List.replicate 6 .step
    let later : List Request := List.replicate 4 .step
    0 ≤ (0 : Word) ∧ Allocates 0 (Limits.adjust {} { stackSize := some 4 }) ∧ Sink.unlimited.Open ∧
    (∀ r ∈ later, r.writes = false) ∧
    ∃ m, make #[9, 7, 16, 1, 18, 10, 1, 14, 10, 0, 12, 1, 17] 0 (some pairTable) {}
        { sizing := { stackSize := some 4 } } = .ok m ∧
      (m.serve past).state.globals = m.state.globals ∧
      (m.serve past).state.frames.map (·.slots) = [#[7, 7, 0], #[]] ∧
      (m.serve (past ++ .start 0 :: later)).state.sink.taken = "0\n0\n" ∧
      SameRun (m.serve past).state m.state (m.serve (past ++ .start 0 :: later)).state
        (m.serve (.start 0 :: later)).state := by
  intro past later
  have hlater : ∀ r ∈ later, r.writes = false := by
    intro r hr
    rw [List.eq_of_mem_replicate hr]
    rfl
  obtain ⟨m, m', hm, hm', h⟩ := run_determined_by_globals #[9, 7, 16, 1, 18, 10, 1, 14, 10, 0, 12, 1, 17] pairTable
    { sizing := { stackSize := some 4 } } 0 0 .unlimited .unlimited (by decide) (by decide) (by decide) (by decide)
    (fun _ _ => rfl) (fun _ _ => rfl)
  obtain rfl : m = m' := Except.ok.inj (hm.symm.trans hm')
  have hglobals : (m.serve past).state.globals = m.state.globals := by
    cases hm
    decide +kernel
  refine ⟨by decide, by decide, fun _ _ => rfl, hlater, m, hm, hglobals, ?_, ?_, (h past [] hglobals 0 later hlater).1⟩
  · cases hm
    decide +kernel
  · cases hm
    decide +kernel

end Machine
end StackMachine
