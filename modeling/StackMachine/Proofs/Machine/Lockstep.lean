import StackMachine.Proofs.Machine.Observation

/-!
# Machines in lockstep

If related states take related starts and cycles, then two machines that set out from related states and get the same
requests give the same answers, their runs end together or not at all, and their states stay related. Their setups may
differ, but not in the table or in how often the context is consulted. It is enough to relate what is observed of them.
-/

set_option autoImplicit false

namespace StackMachine.Machine

/-- Two computations have come to the same end, in related states. -/
inductive Paired {α : Type} (R : State → State → Prop) :
    EStateM.Result Abandoned State α → EStateM.Result Abandoned State α → Prop
  | ok {a : α} {s t : State} (h : R s t) : Paired R (.ok a s) (.ok a t)
  | error {e : Abandoned} {s t : State} (h : R s t) : Paired R (.error e s) (.error e t)

theorem Paired.symm {α : Type} {R : State → State → Prop} {x y : EStateM.Result Abandoned State α}
    (h : Paired R x y) : Paired (fun s t => R t s) y x := by
  cases h with
  | ok h => exact .ok h
  | error h => exact .error h

theorem Paired.mono {α : Type} {R R' : State → State → Prop} {x y : EStateM.Result Abandoned State α}
    (h : Paired R x y) (hR : ∀ s t, R s t → R' s t) : Paired R' x y := by
  cases h with
  | ok h => exact .ok (hR _ _ h)
  | error h => exact .error (hR _ _ h)

section Paired

variable {c d : Setup} {R : State → State → Prop} {s t : State}

/-- If the same number of cycles was made, the context is asked of both or of neither. -/
theorem consult_of_cycles (hinterval : c.limits.checkInterval = d.limits.checkInterval)
    (hcycles : s.stats.cycles = t.stats.cycles) (ctx : Context) : consult d t ctx = consult c s ctx := by
  simp only [consult, hcycles, hinterval]

/-- Cycles count only where the context allows one. -/
theorem paired_pass (ctx : Context) (hinterval : c.limits.checkInterval = d.limits.checkInterval)
    (hcycles : s.stats.cycles = t.stats.cycles)
    (hcancel : ∀ why, R (s.fault s.ip 0 (.cancelled why)) (t.fault t.ip 0 (.cancelled why)))
    (hcycle : ∀ ctx', consult d t ctx = .ok ctx' → Paired R (cycle c s) (cycle d t)) :
    Paired R (pass c ctx s) (pass d ctx t) := by
  have hconsult := consult_of_cycles hinterval hcycles ctx
  cases hs : consult c s ctx with
  | error why =>
    rw [pass_cancelled hs, pass_cancelled (hconsult.trans hs)]
    exact .ok (hcancel why)
  | ok ctx' =>
    have h := hcycle ctx' (hconsult.trans hs)
    generalize hx : Machine.cycle c s = x at h
    generalize hy : Machine.cycle d t = y at h
    cases h with
    | ok hR =>
      rw [pass_cycled hs hx, pass_cycled (hconsult.trans hs) hy]
      exact .ok hR
    | error hR =>
      rw [pass_abandoned hs hx, pass_abandoned (hconsult.trans hs) hy]
      exact .error hR

theorem outcome_of_status (h : s.status = t.status) (a : Option Abandoned) : outcome s a = outcome t a := by
  simp only [outcome, h]

theorem Paired.step {m n : Machine} (hstatus : ∀ s t, R s t → s.status = t.status) (hR : R m.state n.state)
    (h : m.state.status = .running → Paired R (cycle m.setup m.state) (cycle n.setup n.state)) :
    m.step.2 = n.step.2 ∧ R m.step.1.state n.step.1.state := by
  have hsame := hstatus _ _ hR
  by_cases hrun : m.state.status = .running
  · have hcycle := h hrun
    generalize hx : Machine.cycle m.setup m.state = x at hcycle
    generalize hy : Machine.cycle n.setup n.state = y at hcycle
    cases hcycle with
    | ok hR' =>
      rw [step_of_cycle_ok hrun hx, step_of_cycle_ok (hsame ▸ hrun) hy]
      exact ⟨outcome_of_status (hstatus _ _ hR') none, hR'⟩
    | error hR' =>
      rw [step_of_cycle_error hrun hx, step_of_cycle_error (hsame ▸ hrun) hy]
      exact ⟨rfl, hR'⟩
  · rw [Machine.step, Machine.step, ← hsame, isRunning_eq_false hrun]
    exact ⟨rfl, hR⟩

end Paired

/-! ## Observations side by side -/

/-- Two cycles of what is observed have come to the same end. -/
inductive Coupled (S : Observation → Observation → Prop) :
    Except Abandoned Observation → Except Abandoned Observation → Prop
  | ok {x y : Observation} (h : S x y) : Coupled S (.ok x) (.ok y)
  | error {a : Abandoned} : Coupled S (.error a) (.error a)

theorem coupled_of_map {α : Type} {f : Observation → α} {r r' : Except Abandoned Observation}
    (h : r.map f = r'.map f) : Coupled (fun x y => f x = f y) r r' := by
  cases r with
  | ok x =>
    cases r' with
    | ok y => exact .ok (Except.ok.inj h)
    | error => cases h
  | error a =>
    cases r' with
    | ok => cases h
    | error =>
      cases h
      exact .error

/-- The states are related by what is observed of them. -/
structure Level (c d : Setup) (S : Observation → Observation → Prop) (s t : State) : Prop where
  left : Sound c s
  right : Sound d t
  same : S s.observation t.observation

section Level

variable {c d : Setup} {S : Observation → Observation → Prop} {s t : State}

theorem Level.cycle (h : Level c d S s t)
    (hcycle : Coupled S (s.observation.cycle c) (t.observation.cycle d)) :
    Paired (Level c d S) (cycle c s) (cycle d t) := by
  have hseen := seen_cycle h.left
  have hseen' := seen_cycle h.right
  generalize s.observation.cycle c = x at hseen hcycle
  generalize t.observation.cycle d = y at hseen' hcycle
  cases hcycle with
  | ok hsame =>
    obtain ⟨u, hu, husound, hux⟩ := hseen.of_ok
    obtain ⟨v, hv, hvsound, hvy⟩ := hseen'.of_ok
    rw [hu, hv]
    exact .ok ⟨husound, hvsound, hux ▸ hvy ▸ hsame⟩
  | error =>
    obtain ⟨u, hu, husound, husame⟩ := hseen.of_error
    obtain ⟨v, hv, hvsound, hvsame⟩ := hseen'.of_error
    rw [hu, hv]
    exact .error ⟨husound, hvsound, husame ▸ hvsame ▸ h.same⟩

/-- States that are started need not be related before. -/
theorem level_begin (address : Word) (hdepth : 1 ≤ c.limits.maxDepth) (hdepth' : 1 ≤ d.limits.maxDepth)
    (hs : Sound c s) (ht : Sound d t)
    (hstart : S (s.observation.started c address) (t.observation.started d address)) :
    Level c d S (leftBy (begin c address s)) (leftBy (begin d address t)) := by
  obtain ⟨s', hbegin, hs', hsx⟩ := observation_begin address hs hdepth
  obtain ⟨t', hbegin', ht', htx⟩ := observation_begin address ht hdepth'
  rw [hbegin, hbegin']
  exact ⟨hs', ht', hsx ▸ htx ▸ hstart⟩

end Level

/-! ## Lockstep -/

structure Lockstep (c d : Setup) (R : State → State → Prop) : Prop where
  table : c.table = d.table
  interval : c.limits.checkInterval = d.limits.checkInterval
  status : ∀ s t, R s t → s.status = t.status
  cycles : ∀ s t, R s t → s.stats.cycles = t.stats.cycles
  start : ∀ s t address, R s t → R (leftBy (begin c address s)) (leftBy (begin d address t))
  cycle : ∀ s t, R s t → Paired R (cycle c s) (cycle d t)
  cancel : ∀ s t why, R s t → R (s.fault s.ip 0 (.cancelled why)) (t.fault t.ip 0 (.cancelled why))

namespace Lockstep

variable {c d : Setup} {R : State → State → Prop}

theorem symm (h : Lockstep c d R) : Lockstep d c fun s t => R t s where
  table := h.table.symm
  interval := h.interval.symm
  status s t hR := (h.status t s hR).symm
  cycles s t hR := (h.cycles t s hR).symm
  start s t address hR := h.start t s address hR
  cycle s t hR := (h.cycle t s hR).symm
  cancel s t why hR := h.cancel t s why hR

theorem pass (h : Lockstep c d R) {s t : State} (hR : R s t) (ctx : Context) :
    Paired R (pass c ctx s) (pass d ctx t) :=
  paired_pass ctx h.interval (h.cycles s t hR) (fun why => h.cancel s t why hR) fun _ _ => h.cycle s t hR

/-- If one run ends, so does the other. -/
theorem run_some (h : Lockstep c d R) {s t : State} {ctx : Context} {r : State × Option Abandoned} (hR : R s t)
    (hrun : c.run ctx s = some r) : ∃ r', d.run ctx t = some r' ∧ R r.1 r'.1 ∧ r'.2 = r.2 := by
  refine Setup.run.partial_correctness c
    (fun ctx s r => ∀ t, R s t → ∃ r', d.run ctx t = some r' ∧ R r.1 r'.1 ∧ r'.2 = r.2) ?_ ctx s r hrun t hR
  intro run' ih ctx s r hr t hR
  have hstatus := h.status s t hR
  by_cases hs : s.status = .running
  · have ht : t.status = .running := hstatus ▸ hs
    have hpass := h.pass hR ctx
    rw [if_pos (isRunning_eq_true_iff.mpr hs)] at hr
    generalize hx : Machine.pass c ctx s = x at hpass hr
    generalize hy : Machine.pass d ctx t = y at hpass
    cases hpass with
    | ok hR' =>
      rw [run_passed ht hy]
      exact ih _ _ r hr _ hR'
    | error hR' =>
      cases hr
      exact ⟨_, run_abandoned ht hy, hR', rfl⟩
  · rw [isRunning_eq_false hs] at hr
    cases hr
    exact ⟨_, run_stopped (hstatus ▸ hs), hR, rfl⟩

theorem start_state (h : Lockstep c d R) {m n : Machine} (hm : m.setup = c) (hn : n.setup = d)
    (hR : R m.state n.state) (address : Word) : R (m.start address).state (n.start address).state := by
  rw [start_eq, start_eq, hm, hn]
  exact h.start _ _ address hR

theorem outcome_eq (h : Lockstep c d R) {s t : State} (hR : R s t) (a : Option Abandoned) :
    outcome s a = outcome t a :=
  outcome_of_status (h.status s t hR) a

theorem execute (h : Lockstep c d R) {m n : Machine} (hm : m.setup = c) (hn : n.setup = d)
    (hR : R m.state n.state) (ctx : Context) (address : Word) :
    (m.execute ctx address).2 = (n.execute ctx address).2 ∧
      R (m.execute ctx address).1.state (n.execute ctx address).1.state := by
  have hstart := h.start_state hm hn hR address
  simp only [Machine.execute, execute?_eq_run, hm, hn]
  cases hx : c.run ctx (m.start address).state with
  | some r =>
    obtain ⟨r', hy, hR', hsame⟩ := h.run_some hstart hx
    rw [hy]
    refine ⟨?_, hR'⟩
    simp only [Option.map_some, Option.getD_some, reply, hsame]
    exact h.outcome_eq hR' r.2
  | none =>
    cases hy : d.run ctx (n.start address).state with
    | some r =>
      obtain ⟨r', hx', -⟩ := h.symm.run_some hstart hy
      rw [hx] at hx'
      cases hx'
    | none => exact ⟨rfl, hstart⟩

theorem step (h : Lockstep c d R) {m n : Machine} (hm : m.setup = c) (hn : n.setup = d) (hR : R m.state n.state) :
    m.step.2 = n.step.2 ∧ R m.step.1.state n.step.1.state := by
  subst hm hn
  exact Paired.step h.status hR fun _ => h.cycle _ _ hR

theorem answer (h : Lockstep c d R) {m n : Machine} (hm : m.setup = c) (hn : n.setup = d) (hR : R m.state n.state)
    {r : Request} (hr : r.writes = false) :
    (m.answer r).2 = (n.answer r).2 ∧ R (m.answer r).1.state (n.answer r).1.state := by
  cases r with
  | start address =>
    rw [answer_start, answer_start]
    exact ⟨rfl, h.start_state hm hn hR address⟩
  | step => exact h.step hm hn hR
  | execute ctx address => exact h.execute hm hn hR ctx address
  | executeEntry ctx =>
    simp only [Machine.answer, executeEntry, hm, hn, h.table]
    exact h.execute hm hn hR ctx _
  | executeFunction ctx name =>
    simp only [Machine.answer, executeFunction, hm, hn, h.table]
    cases (d.table.idOf? name).bind fun id => d.table.entries[id]? with
    | none => exact ⟨rfl, hR⟩
    | some f => exact h.execute hm hn hR ctx f.address
  | setLocal | overwrite => cases hr

theorem serve (h : Lockstep c d R) {m n : Machine} (hm : m.setup = c) (hn : n.setup = d) (hR : R m.state n.state)
    {requests : List Request} (hrequests : ∀ r ∈ requests, r.writes = false) :
    R (m.serve requests).state (n.serve requests).state := by
  induction requests generalizing m n with
  | nil => exact hR
  | cons r rest ih =>
    obtain ⟨hr, hrest⟩ := List.forall_mem_cons.mp hrequests
    exact ih ((setup_answer m r).trans hm) ((setup_answer n r).trans hn) (h.answer hm hn hR hr).2 hrest

end Lockstep
end StackMachine.Machine
