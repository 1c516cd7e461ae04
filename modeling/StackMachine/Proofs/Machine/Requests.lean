import StackMachine.Proofs.Machine.Execution

/-!
# Requests to a machine

A host starts and runs a machine as it likes, also again after a fault, and may write to slots of frames it has
got hold of. What a start establishes and what every cycle, every cancellation and every such write preserve
holds after any sequence of requests. A request is never abandoned if no cycle is.
-/

set_option autoImplicit false

namespace StackMachine.Machine

/-- A host's write to a cell of a frame it holds; the frame need not be active any more. -/
def State.overwrite (s : State) (d i : Nat) (v : Word) : State :=
  { s with arena := { s.arena with frames := s.arena.frames.modify d (·.setCell i v) } }

theorem setLocal?_eq_overwrite {s t : State} {slot v : Word} (h : s.setLocal? slot v = some t) :
    ∃ i, t = s.overwrite (s.depth - 1) i v := by
  obtain ⟨f, -, hset⟩ := Option.bind_eq_some_iff.mp h
  obtain ⟨i, -, rfl⟩ := Option.map_eq_some_iff.mp hset
  exact ⟨i, rfl⟩

inductive Request where
  | start (address : Word)
  | step
  | execute (ctx : Context) (address : Word)
  | executeEntry (ctx : Context)
  | executeFunction (ctx : Context) (name : String)
  | setLocal (slot value : Word)
  | overwrite (frame cell : Nat) (value : Word)

def named? (t : FunctionTable) (name : String) : Option Descriptor :=
  (t.idOf? name).bind fun id => t.entries[id]?

def Request.address? (t : FunctionTable) : Request → Option Word
  | .start address | .execute _ address => some address
  | .executeEntry _ => some t.entry.address
  | .executeFunction _ name => (named? t name).map (·.address)
  | _ => none

def answer (m : Machine) : Request → Machine × Option Failure
  | .start address =>
    match begin m.setup address m.state with
    | .ok _ s => ({ m with state := s }, none)
    | .error a s => ({ m with state := s }, some (.abandoned a))
  | .step => m.step
  | .execute ctx address => m.execute ctx address
  | .executeEntry ctx => m.executeEntry ctx
  | .executeFunction ctx name => m.executeFunction ctx name
  | .setLocal slot v => ({ m with state := (m.state.setLocal? slot v).getD m.state }, none)
  | .overwrite d i v => ({ m with state := m.state.overwrite d i v }, none)

theorem answer_start (m : Machine) (address : Word) : m.answer (.start address) = (m.start address, none) := by
  simp only [answer, (begin_start m address).1]
  rw [start_eq]

/-- Whether a request writes to a frame. -/
def Request.writes : Request → Bool
  | .setLocal _ _ | .overwrite _ _ _ => true
  | _ => false

def serve (m : Machine) (history : List Request) : Machine :=
  history.foldl (fun m r => (m.answer r).1) m

/-- The address at which the machine was started last, if it was. -/
def startedAt (t : FunctionTable) (history : List Request) : Option Word :=
  history.foldl (fun o r => (r.address? t).or o) none

/-- `I` holds of a state and the address of the last start, however the machine is started and run. -/
structure RunInvariant (c : Setup) (I : Option Word → State → Prop) : Prop where
  start : ∀ o s address, I o s → I (some address) (leftBy (begin c address s))
  cycle : ∀ o s, I o s → s.status = .running → I o (leftBy (cycle c s))
  cancel : ∀ o s why, I o s → s.status = .running → I o (s.fault s.ip 0 (.cancelled why))

/-- `I` holds whatever is asked of the machine. -/
structure Invariant (c : Setup) (I : Option Word → State → Prop) : Prop extends RunInvariant c I where
  overwrite : ∀ o s d i v, I o s → I o (s.overwrite d i v)

namespace RunInvariant

variable {c : Setup} {I : Option Word → State → Prop} {o : Option Word}

theorem pass (hI : RunInvariant c I) {s : State} (hs : I o s) (hrun : s.status = .running) (ctx : Context) :
    I o (leftBy (pass c ctx s)) := by
  have hcycle := hI.cycle o s hs hrun
  cases hconsult : consult c s ctx with
  | error why =>
    rw [pass_cancelled hconsult]
    exact hI.cancel o s why hs hrun
  | ok ctx' =>
    cases h : Machine.cycle c s with
    | ok _ t =>
      rw [h] at hcycle
      rw [pass_cycled hconsult h]
      exact hcycle
    | error a t =>
      rw [h] at hcycle
      rw [pass_abandoned hconsult h]
      exact hcycle

theorem run (hI : RunInvariant c I) {s : State} {ctx : Context} {r : State × Option Abandoned} (hs : I o s)
    (h : c.run ctx s = some r) : I o r.1 := by
  -- Induction on the approximations of the run; a run without a result has nothing to show.
  refine Setup.run.partial_correctness c (fun _ s r => I o s → I o r.1) ?_ ctx s r h hs
  intro run' ih ctx s r hr hs
  by_cases hrun : s.status = .running
  · have hpass := hI.pass hs hrun ctx
    rw [if_pos (isRunning_eq_true_iff.mpr hrun)] at hr
    cases h : Machine.pass c ctx s with
    | ok ctx' t =>
      rw [h] at hr hpass
      exact ih ctx' t r hr hpass
    | error a t =>
      rw [h] at hr hpass
      cases hr
      exact hpass
  · rw [isRunning_eq_false hrun] at hr
    cases hr
    exact hs

theorem start_state (hI : RunInvariant c I) {m : Machine} (hm : m.setup = c) (hs : I o m.state) (address : Word) :
    I (some address) (m.start address).state := by
  rw [start_eq, hm]
  exact hI.start o m.state address hs

theorem execute (hI : RunInvariant c I) {m : Machine} (hm : m.setup = c) (hs : I o m.state) (ctx : Context)
    (address : Word) : I (some address) (m.execute ctx address).1.state := by
  have hstart := hI.start_state hm hs address
  rw [Machine.execute]
  cases h : m.execute? ctx address with
  | none => exact hstart
  | some r =>
    rw [execute?_eq_run, hm] at h
    obtain ⟨r, hrun, rfl⟩ := Option.map_eq_some_iff.mp h
    exact hI.run hstart hrun

theorem step (hI : RunInvariant c I) {m : Machine} (hm : m.setup = c) (hs : I o m.state) :
    I o m.step.1.state := by
  by_cases hrun : m.state.status = .running
  · have hcycle := hI.cycle o m.state hs hrun
    cases h : Machine.cycle c m.state with
    | ok _ t =>
      rw [h] at hcycle
      rw [step_of_cycle_ok hrun (hm ▸ h)]
      exact hcycle
    | error a t =>
      rw [h] at hcycle
      rw [step_of_cycle_error hrun (hm ▸ h)]
      exact hcycle
  · rw [Machine.step, isRunning_eq_false hrun]
    exact hs

theorem answer (hI : RunInvariant c I) {m : Machine} (hm : m.setup = c) (hs : I o m.state) {r : Request}
    (hr : r.writes = false) : I ((r.address? c.table).or o) (m.answer r).1.state := by
  cases r with
  | start address =>
    rw [answer_start]
    exact hI.start_state hm hs address
  | step => exact hI.step hm hs
  | execute ctx address => exact hI.execute hm hs ctx address
  | executeEntry ctx =>
    subst hm
    exact hI.execute rfl hs ctx m.setup.table.entry.address
  | executeFunction ctx name =>
    simp only [Machine.answer, executeFunction, Request.address?, named?, ← hm]
    cases (m.setup.table.idOf? name).bind fun id => m.setup.table.entries[id]? with
    | none => exact hs
    | some d => exact hI.execute hm hs ctx d.address
  | setLocal | overwrite => cases hr

end RunInvariant

theorem Invariant.answer {c : Setup} {I : Option Word → State → Prop} {o : Option Word} (hI : Invariant c I)
    {m : Machine} (hm : m.setup = c) (hs : I o m.state) (r : Request) :
    I ((r.address? c.table).or o) (m.answer r).1.state := by
  cases r with
  | start | step | execute | executeEntry | executeFunction => exact hI.toRunInvariant.answer hm hs rfl
  | setLocal slot v =>
    simp only [Machine.answer]
    cases h : m.state.setLocal? slot v with
    | none => exact hs
    | some t =>
      obtain ⟨i, rfl⟩ := setLocal?_eq_overwrite h
      exact hI.overwrite o m.state _ i v hs
  | overwrite d i v => exact hI.overwrite o m.state d i v hs

theorem setup_execute (m : Machine) (ctx : Context) (address : Word) :
    (m.execute ctx address).1.setup = m.setup := by
  rw [execute, execute?_eq_run, start_eq]
  cases m.setup.run ctx _ <;> rfl

theorem setup_step (m : Machine) : m.step.1.setup = m.setup := by
  unfold step
  split
  · split <;> rfl
  · rfl

theorem setup_answer (m : Machine) (r : Request) : (m.answer r).1.setup = m.setup := by
  cases r with
  | start address =>
    rw [answer_start]
    exact setup_start m address
  | step => exact setup_step m
  | execute ctx address => exact setup_execute m ctx address
  | executeEntry ctx => exact setup_execute m ctx _
  | executeFunction ctx name =>
    simp only [answer, executeFunction]
    split
    · rfl
    · exact setup_execute m ctx _
  | setLocal slot v => rfl
  | overwrite d i v => rfl

theorem setup_serve (m : Machine) (history : List Request) : (m.serve history).setup = m.setup := by
  induction history generalizing m with
  | nil => rfl
  | cons r rest ih => exact (ih _).trans (setup_answer m r)

theorem serve_append (m : Machine) (history later : List Request) :
    m.serve (history ++ later) = (m.serve history).serve later :=
  List.foldl_append

theorem serve_start (m : Machine) (history later : List Request) (address : Word) :
    m.serve (history ++ .start address :: later) = ((m.serve history).start address).serve later := by
  rw [serve_append]
  change ((m.serve history).answer (.start address)).1.serve later = _
  rw [answer_start]

/-- What every answer in turn preserves holds in the end. -/
theorem serve_preserves {I : Option Word → State → Prop} {m : Machine} {history : List Request}
    (h : ∀ (m' : Machine) o, ∀ r ∈ history, m'.setup = m.setup → I o m'.state →
      I ((r.address? m.setup.table).or o) (m'.answer r).1.state) (hs : I none m.state) :
    I (startedAt m.setup.table history) (m.serve history).state := by
  -- The fold starts from any machine of the same setup, and from any last start.
  suffices hfold : ∀ (m' : Machine) (o : Option Word), m'.setup = m.setup → I o m'.state →
      I (history.foldl (fun o r => (r.address? m.setup.table).or o) o) (m'.serve history).state from
    hfold m none rfl hs
  induction history with
  | nil => exact fun _ _ _ hs => hs
  | cons r rest ih =>
    intro m' o hm hs
    refine ih (fun m' o r hr => h m' o r (List.mem_cons_of_mem _ hr)) _ _ ((setup_answer m' r).trans hm) ?_
    exact h m' o r List.mem_cons_self hm hs

theorem Invariant.serve {I : Option Word → State → Prop} {m : Machine} (hI : Invariant m.setup I)
    (hs : I none m.state) (history : List Request) :
    I (startedAt m.setup.table history) (m.serve history).state :=
  serve_preserves (fun _ _ r _ hm hs => hI.answer hm hs r) hs

theorem RunInvariant.serve {I : Option Word → State → Prop} {m : Machine} (hI : RunInvariant m.setup I)
    (hs : I none m.state) {history : List Request} (hhistory : ∀ r ∈ history, r.writes = false) :
    I (startedAt m.setup.table history) (m.serve history).state :=
  serve_preserves (fun _ _ r hr hm hs => hI.answer hm hs (hhistory r hr)) hs

/-! ## Requests that are abandoned

If cycles are only abandoned for certain reasons, so are requests.
-/

section Abandoned

variable {c : Setup} {I : Option Word → State → Prop} {P : Abandoned → Prop} {o : Option Word} {a : Abandoned}

theorem abandoned_of_run (hI : Invariant c I)
    (hcycle : ∀ o s a t, I o s → s.status = .running → cycle c s = .error a t → P a) {s : State} {ctx : Context}
    {r : State × Option Abandoned} (hs : I o s) (h : c.run ctx s = some r) (ha : r.2 = some a) : P a := by
  refine Setup.run.partial_correctness c (fun _ s r => I o s → r.2 = some a → P a) ?_ ctx s r h hs ha
  intro run' ih ctx s r hr hs ha
  by_cases hrun : s.status = .running
  · have hpass := hI.pass hs hrun ctx
    rw [if_pos (isRunning_eq_true_iff.mpr hrun)] at hr
    cases hconsult : consult c s ctx with
    | error why =>
      rw [pass_cancelled hconsult] at hr hpass
      exact ih _ _ r hr hpass ha
    | ok ctx' =>
      cases ht : cycle c s with
      | ok _ t =>
        rw [pass_cycled hconsult ht] at hr hpass
        exact ih _ _ r hr hpass ha
      | error b t =>
        rw [pass_abandoned hconsult ht] at hr
        cases hr
        cases ha
        exact hcycle o s a t hs hrun ht
  · rw [isRunning_eq_false hrun] at hr
    cases hr
    cases ha

theorem outcome_none_ne_abandoned (s : State) (a : Abandoned) : outcome s none ≠ some (.abandoned a) := by
  intro h
  obtain ⟨e, -, he⟩ := Option.map_eq_some_iff.mp h
  cases he

theorem abandoned_of_execute (hI : Invariant c I)
    (hcycle : ∀ o s a t, I o s → s.status = .running → cycle c s = .error a t → P a) {m : Machine}
    (hm : m.setup = c) (hs : I o m.state) {ctx : Context} {address : Word}
    (ha : (m.execute ctx address).2 = some (.abandoned a)) : P a := by
  have hstart := hI.start_state hm hs address
  rw [execute] at ha
  cases h : m.execute? ctx address with
  | none =>
    rw [h] at ha
    cases ha
  | some r =>
    rw [h] at ha
    rw [execute?_eq_run, hm] at h
    obtain ⟨⟨t, b⟩, hrun, rfl⟩ := Option.map_eq_some_iff.mp h
    cases b with
    | none => exact (outcome_none_ne_abandoned t a ha).elim
    | some b =>
      cases ha
      exact abandoned_of_run hI hcycle hstart hrun rfl

theorem abandoned_of_answer (hI : Invariant c I)
    (hcycle : ∀ o s a t, I o s → s.status = .running → cycle c s = .error a t → P a) {m : Machine}
    (hm : m.setup = c) (hs : I o m.state) {r : Request} (ha : (m.answer r).2 = some (.abandoned a)) : P a := by
  cases r with
  | start address =>
    rw [answer_start] at ha
    cases ha
  | step =>
    by_cases hrun : m.state.status = .running
    · cases ht : cycle c m.state with
      | ok _ t =>
        simp only [answer, step_of_cycle_ok hrun (hm ▸ ht)] at ha
        exact (outcome_none_ne_abandoned t a ha).elim
      | error b t =>
        simp only [answer, step_of_cycle_error hrun (hm ▸ ht)] at ha
        cases ha
        exact hcycle o m.state a t hs hrun ht
    · simp only [answer, step, isRunning_eq_false hrun] at ha
      cases ha
  | execute ctx address => exact abandoned_of_execute hI hcycle hm hs ha
  | executeEntry ctx => exact abandoned_of_execute hI hcycle hm hs ha
  | executeFunction ctx name =>
    simp only [answer, executeFunction] at ha
    split at ha
    · cases ha
    · exact abandoned_of_execute hI hcycle hm hs ha
  | setLocal slot v => cases ha
  | overwrite d i v => cases ha

end Abandoned

end StackMachine.Machine
