import Mathlib.Tactic.Set
import StackMachine.Proofs.Machine.Memory

/-!
# Running is stepping

A run makes the cycles that single steps would make. The context is asked once for every multiple of the check
interval, before the cycle with that number, so a context that gives in after `n` answers lets exactly `n` times
the interval of cycles happen. A run that nothing ends has no result, and the interval does not matter to it.
-/

set_option autoImplicit false

namespace StackMachine.Machine

theorem isRunning_eq_true_iff {s : Status} : s.isRunning = true ↔ s = .running := by
  cases s <;> simp [Status.isRunning]

theorem isRunning_eq_false {s : Status} (h : s ≠ .running) : s.isRunning = false := by
  rw [← Bool.not_eq_true, isRunning_eq_true_iff]
  exact h

/-- Up to `k` steps. A machine that does not run and a step that fails end them. -/
def steps : Nat → Machine → Machine × Option Failure
  | 0, m => (m, none)
  | k + 1, m =>
    if m.state.status.isRunning then
      match m.step with
      | (m, none) => steps k m
      | r => r
    else (m, none)

/-- Nothing is left to do after these steps: the machine has stopped, or the last step failed. -/
def Ended (r : Machine × Option Failure) : Prop :=
  r.1.state.status ≠ .running ∨ r.2 ≠ none

instance (r : Machine × Option Failure) : Decidable (Ended r) :=
  inferInstanceAs (Decidable (_ ∨ _))

section Steps

variable {m : Machine} {t : State} {k : Nat}

theorem steps_stopped (h : m.state.status ≠ .running) : steps k m = (m, none) := by
  cases k with
  | zero => rfl
  | succ k =>
    rw [steps, isRunning_eq_false h]
    rfl

theorem steps_running (hm : m.state.status = .running) (ht : t.status = .running)
    (h : cycle m.setup m.state = .ok () t) : steps (k + 1) m = steps k { m with state := t } := by
  have hnone : outcome t none = none := by simp only [outcome, ht, Status.error?, Option.map_none]
  rw [steps, if_pos (isRunning_eq_true_iff.mpr hm), step_of_cycle_ok hm h, hnone]

theorem steps_stopping (hm : m.state.status = .running) (ht : t.status ≠ .running)
    (h : cycle m.setup m.state = .ok () t) :
    steps (k + 1) m = ({ m with state := t }, outcome t none) := by
  rw [steps, if_pos (isRunning_eq_true_iff.mpr hm), step_of_cycle_ok hm h]
  cases ho : outcome t none with
  | none => exact steps_stopped ht
  | some f => rfl

theorem steps_abandoned {a : Abandoned} (hm : m.state.status = .running)
    (h : cycle m.setup m.state = .error a t) :
    steps (k + 1) m = ({ m with state := t }, some (.abandoned a)) := by
  rw [steps, if_pos (isRunning_eq_true_iff.mpr hm), step_of_cycle_error hm h]

/-- What becomes of a machine in one step. -/
inductive NextStep (m : Machine) : Prop
  | stopped (hm : m.state.status ≠ .running)
  | abandoned {a : Abandoned} {t : State} (hm : m.state.status = .running)
    (h : cycle m.setup m.state = .error a t)
  | last {t : State} (hm : m.state.status = .running) (h : cycle m.setup m.state = .ok () t)
    (ht : t.status ≠ .running)
  | running {t : State} (hm : m.state.status = .running) (h : cycle m.setup m.state = .ok () t)
    (ht : t.status = .running)

theorem nextStep (m : Machine) : NextStep m := by
  by_cases hm : m.state.status = .running
  · cases h : cycle m.setup m.state with
    | error a t => exact .abandoned hm h
    | ok _ t =>
      by_cases ht : t.status = .running
      · exact .running hm h ht
      · exact .last hm h ht
  · exact .stopped hm

/-- Steps after which the machine still runs can be followed by more. -/
theorem steps_add {k : Nat} {m m' : Machine} (h : steps k m = (m', none)) (hrun : m'.state.status = .running)
    (l : Nat) : steps (k + l) m = steps l m' := by
  induction k generalizing m with
  | zero =>
    cases h
    rw [Nat.zero_add]
  | succ k ih =>
    rw [Nat.succ_add]
    cases nextStep m with
    | stopped hm =>
      rw [steps_stopped hm] at h
      cases h
      exact (hm hrun).elim
    | abandoned hm hcycle =>
      rw [steps_abandoned hm hcycle] at h
      cases h
    | last hm hcycle ht =>
      rw [steps_stopping hm ht hcycle] at h
      obtain rfl := congrArg Prod.fst h
      exact (ht hrun).elim
    | running hm hcycle ht =>
      rw [steps_running hm ht hcycle] at h ⊢
      exact ih h

theorem steps_eq_of_ended {k l : Nat} {m : Machine} (hkl : k ≤ l) (h : Ended (steps k m)) :
    steps l m = steps k m := by
  induction k generalizing l m with
  | zero =>
    -- No step was made, so none can have failed.
    obtain hstop | hfail := h
    · exact steps_stopped hstop
    · exact (hfail rfl).elim
  | succ k ih =>
    obtain ⟨l, rfl⟩ : ∃ j, l = j + 1 := ⟨l - 1, by omega⟩
    cases nextStep m with
    | stopped hm => rw [steps_stopped hm, steps_stopped hm]
    | abandoned hm hc => rw [steps_abandoned hm hc, steps_abandoned hm hc]
    | last hm hc ht => rw [steps_stopping hm ht hc, steps_stopping hm ht hc]
    | running hm hc ht =>
      rw [steps_running hm ht hc] at h ⊢
      rw [steps_running hm ht hc]
      exact ih (by omega) h

end Steps

/-! ## Cycles count themselves -/

theorem cycle_counts {c : Setup} {s t : State} (h : cycle c s = .ok () t) (ht : t.status = .running) :
    t.stats.cycleCounter = s.stats.cycleCounter + 1 := by
  obtain ⟨i, ip, u, -, happly, rfl⟩ := cycle_running h ht
  obtain ⟨text, hproceed⟩ := proceed_eq c s.ip.toNat i.opcode ip u
  have hcounter : u.stats.cycleCounter = s.stats.cycleCounter :=
    congrArg (·.2.2.2.1) (keeps_of_ok (Attempt.keeps_control_apply c _ _) happly)
  rw [hproceed, ← hcounter]
  rfl

theorem cycles_succ {c : Setup} {s t : State} (h : cycle c s = .ok () t) (ht : t.status = .running)
    (hlt : s.stats.cycles + 1 < UInt64.size) : t.stats.cycles = s.stats.cycles + 1 := by
  have hcount := cycle_counts h ht
  unfold Stats.cycles at hlt ⊢
  rw [hcount, UInt64.toNat_add]
  exact Nat.mod_eq_of_lt hlt

/-- Every step that does not end the steps is counted. -/
theorem cycles_steps {k : Nat} {m : Machine} (h : ¬ Ended (steps k m))
    (hlt : m.state.stats.cycles + k < UInt64.size) :
    (steps k m).1.state.stats.cycles = m.state.stats.cycles + k := by
  induction k generalizing m with
  | zero => rfl
  | succ k ih =>
    cases nextStep m with
    | stopped hm =>
      rw [steps_stopped hm] at h
      exact (h (.inl hm)).elim
    | abandoned hm hcycle =>
      rw [steps_abandoned hm hcycle] at h
      exact (h (.inr (by simp))).elim
    | last hm hcycle ht =>
      rw [steps_stopping hm ht hcycle] at h
      exact (h (.inl ht)).elim
    | @running t hm hcycle ht =>
      have hcount : t.stats.cycles = m.state.stats.cycles + 1 := cycles_succ hcycle ht (by omega)
      rw [steps_running hm ht hcycle] at h ⊢
      rw [ih h (by change t.stats.cycles + k < _; omega)]
      change t.stats.cycles + k = _
      omega

/-! ## Runs -/

section Run

variable {c : Setup} {ctx ctx' : Context} {s t : State}

theorem run_stopped (h : s.status ≠ .running) : c.run ctx s = some (s, none) := by
  rw [Setup.run, isRunning_eq_false h]
  rfl

theorem run_passed (hs : s.status = .running) (h : pass c ctx s = .ok ctx' t) :
    c.run ctx s = c.run ctx' t := by
  rw [Setup.run, if_pos (isRunning_eq_true_iff.mpr hs), h]

theorem run_abandoned {a : Abandoned} (hs : s.status = .running) (h : pass c ctx s = .error a t) :
    c.run ctx s = some (t, some a) := by
  rw [Setup.run, if_pos (isRunning_eq_true_iff.mpr hs), h]

theorem pass_cancelled {why : Cancellation} (h : consult c s ctx = .error why) :
    pass c ctx s = .ok ctx (s.fault s.ip 0 (.cancelled why)) := by
  simp only [pass, h]

theorem pass_cycled (h : consult c s ctx = .ok ctx') (hc : cycle c s = .ok () t) :
    pass c ctx s = .ok ctx' t := by
  simp only [pass, h, hc]

theorem pass_abandoned {a : Abandoned} (h : consult c s ctx = .ok ctx') (hc : cycle c s = .error a t) :
    pass c ctx s = .error a t := by
  simp only [pass, h, hc]

end Run

def reply (m : Machine) (r : State × Option Abandoned) : Machine × Option Failure :=
  ({ m with state := r.1 }, outcome r.1 r.2)

def interruption (s : State) (why : Cancellation) : RunError :=
  .fault { ip := s.ip, opcode := 0, function := s.functionName, depth := s.depth, reason := .cancelled why }

/-- The machine with the interruption recorded, as it is reported. -/
def cancelled (m : Machine) (why : Cancellation) : Machine × Option Failure :=
  ({ m with state := { m.state with status := .faulted (interruption m.state why) } },
    some (.run (interruption m.state why)))

/-- What steps came to, or their cancellation if they have not ended. -/
def cutOff (why : Cancellation) (r : Machine × Option Failure) : Machine × Option Failure :=
  if Ended r then r else cancelled r.1 why

section Expiring

variable {m : Machine} {n i b : Nat} {why : Cancellation}

theorem consult_expired (h : m.state.stats.cycles % m.setup.limits.checkInterval = 0) :
    consult m.setup m.state (.expiring 0 why) = .error why := by
  simp only [consult, h, if_true]

/-- `i` cycles are left until the next consultation and `n` consultations after it; one cycle brings either
the first number down, or the second. -/
theorem consult_expiring (why : Cancellation) (hi : i < m.setup.limits.checkInterval)
    (hmod : (m.state.stats.cycles + i) % m.setup.limits.checkInterval = 0)
    (hb : i + m.setup.limits.checkInterval * n = b + 1) :
    ∃ n' i', consult m.setup m.state (.expiring n why) = .ok (.expiring n' why) ∧
      i' < m.setup.limits.checkInterval ∧
      (m.state.stats.cycles + 1 + i') % m.setup.limits.checkInterval = 0 ∧
      i' + m.setup.limits.checkInterval * n' = b := by
  set c := m.setup.limits.checkInterval with hc
  cases i with
  | zero =>
    cases n with
    | zero => omega
    | succ n =>
      rw [Nat.mul_succ] at hb
      refine ⟨n, c - 1, ?_, by omega, ?_, by omega⟩
      · simp only [consult, ← hc, show m.state.stats.cycles % c = 0 from hmod, if_true]
      · rw [show m.state.stats.cycles + 1 + (c - 1) = m.state.stats.cycles + c by omega, Nat.add_mod_right]
        exact hmod
  | succ i =>
    -- The cycle has a number strictly between two multiples of the interval.
    have hne : m.state.stats.cycles % c ≠ 0 := by
      intro h0
      rw [Nat.add_mod, h0, Nat.zero_add, Nat.mod_mod, Nat.mod_eq_of_lt hi] at hmod
      omega
    refine ⟨n, i, ?_, by omega, ?_, by omega⟩
    · simp only [consult, ← hc, hne, if_false]
    · rw [Nat.add_assoc, Nat.add_comm 1 i]
      exact hmod

/-- A run under a context that gives in makes the steps the context allows, and is cancelled if they have not
ended it. -/
theorem run_expiring (hm : m.state.status = .running) (hi : i < m.setup.limits.checkInterval)
    (hmod : (m.state.stats.cycles + i) % m.setup.limits.checkInterval = 0)
    (hb : i + m.setup.limits.checkInterval * n = b) (hlt : m.state.stats.cycles + b < UInt64.size) :
    (m.setup.run (.expiring n why) m.state).map (reply m) = some (cutOff why (steps b m)) := by
  -- The budget `b` is the number of cycles that the context still allows.
  induction b generalizing m n i with
  | zero =>
    obtain rfl : i = 0 := by omega
    obtain rfl : n = 0 := by
      cases n with
      | zero => rfl
      | succ n =>
        rw [Nat.mul_succ] at hb
        omega
    rw [run_passed hm (pass_cancelled (consult_expired hmod)), run_stopped (by intro h; cases h)]
    have hnot : ¬ Ended (steps 0 m) := by
      rintro (h | h)
      · exact h hm
      · exact h rfl
    rw [cutOff, if_neg hnot]
    rfl
  | succ b ih =>
    obtain ⟨n', i', hconsult, hi', hmod', hb'⟩ := consult_expiring why hi hmod hb
    cases nextStep m with
    | stopped hstop => exact (hstop hm).elim
    | abandoned _ hcycle =>
      rw [run_abandoned hm (pass_abandoned hconsult hcycle), steps_abandoned hm hcycle, cutOff,
        if_pos (.inr (by simp))]
      rfl
    | last _ hcycle ht =>
      rw [run_passed hm (pass_cycled hconsult hcycle), run_stopped ht, steps_stopping hm ht hcycle, cutOff,
        if_pos (.inl ht)]
      rfl
    | @running t _ hcycle ht =>
      have hcount : t.stats.cycles = m.state.stats.cycles + 1 := cycles_succ hcycle ht (by omega)
      rw [run_passed hm (pass_cycled hconsult hcycle), steps_running hm ht hcycle]
      refine ih (m := { m with state := t }) ht hi' ?_ hb' ?_
      · change (t.stats.cycles + i') % _ = 0
        rw [hcount]
        exact hmod'
      · change t.stats.cycles + b < _
        omega

end Expiring

/-! ## Runs that end

Whatever the interval is, the context is consulted again, at the latest when the counter of cycles has run over.
-/

section Ending

variable {c : Setup} {ctx ctx' : Context} {s : State} {n : Nat} {why : Cancellation}

/-- A run has a result if it has one after the next cycle. -/
theorem run_ends_of_next (hconsult : consult c s ctx = .ok ctx')
    (hnext : ∀ t, cycle c s = .ok () t → t.status = .running → ∃ r, c.run ctx' t = some r) :
    ∃ r, c.run ctx s = some r := by
  by_cases hs : s.status = .running
  · cases hcycle : cycle c s with
    | error a t => exact ⟨_, run_abandoned hs (pass_abandoned hconsult hcycle)⟩
    | ok _ t =>
      rw [run_passed hs (pass_cycled hconsult hcycle)]
      by_cases ht : t.status = .running
      · exact hnext t hcycle ht
      · exact ⟨_, run_stopped ht⟩
  · exact ⟨_, run_stopped hs⟩

theorem run_ends_of_consultation (hmod : s.stats.cycles % c.limits.checkInterval = 0)
    (hfewer : ∀ k t, n = k + 1 → ∃ r, c.run (.expiring k why) t = some r) :
    ∃ r, c.run (.expiring n why) s = some r := by
  cases n with
  | zero =>
    have hconsult : consult c s (.expiring 0 why) = .error why := by simp only [consult, hmod, if_true]
    by_cases hs : s.status = .running
    · rw [run_passed hs (pass_cancelled hconsult)]
      exact ⟨_, run_stopped fun h => by cases h⟩
    · exact ⟨_, run_stopped hs⟩
  | succ k =>
    have hconsult : consult c s (.expiring (k + 1) why) = .ok (.expiring k why) := by
      simp only [consult, hmod, if_true]
    exact run_ends_of_next hconsult fun t _ _ => hfewer k t rfl

theorem cycles_wrapped {t : State} (h : cycle c s = .ok () t) (ht : t.status = .running)
    (hlast : s.stats.cycles + 1 = UInt64.size) : t.stats.cycles = 0 := by
  have hcount := cycle_counts h ht
  unfold Stats.cycles at hlast ⊢
  rw [hcount, UInt64.toNat_add]
  change (s.stats.cycleCounter.toNat + 1) % UInt64.size = 0
  rw [hlast, Nat.mod_self]

theorem run_ends_of_fewer (hfewer : ∀ k t, n = k + 1 → ∃ r, c.run (.expiring k why) t = some r) (s : State) :
    ∃ r, c.run (.expiring n why) s = some r := by
  have hlt : s.stats.cycles < UInt64.size := s.stats.cycleCounter.toNat_lt
  -- Induction on the cycles that are left until the counter runs over.
  generalize hd : UInt64.size - s.stats.cycles = d
  induction d generalizing s with
  | zero => omega
  | succ d ih =>
    by_cases hmod : s.stats.cycles % c.limits.checkInterval = 0
    · exact run_ends_of_consultation hmod hfewer
    · have hconsult : consult c s (.expiring n why) = .ok (.expiring n why) := by
        simp only [consult, hmod, if_false]
      apply run_ends_of_next hconsult
      intro t hcycle ht
      by_cases hlast : s.stats.cycles + 1 = UInt64.size
      · apply run_ends_of_consultation ?_ hfewer
        rw [cycles_wrapped hcycle ht hlast, Nat.zero_mod]
      · have hcount : t.stats.cycles = s.stats.cycles + 1 := cycles_succ hcycle ht (by omega)
        exact ih t (by omega) (by omega)

/-- A run under a context that gives in has a result. -/
theorem run_expiring_ends (c : Setup) (n : Nat) (why : Cancellation) (s : State) :
    ∃ r, c.run (.expiring n why) s = some r := by
  induction n generalizing s with
  | zero =>
    apply run_ends_of_fewer
    intro k t hk
    cases hk
  | succ n ih =>
    apply run_ends_of_fewer
    intro k t hk
    cases hk
    exact ih t

end Ending

section Unlimited

variable {m : Machine} {k : Nat}

theorem consult_unlimited (c : Setup) (s : State) : consult c s .unlimited = .ok .unlimited := by
  simp only [consult, ite_self]

theorem run_unlimited (hm : m.state.status = .running) (h : Ended (steps k m)) :
    (m.setup.run .unlimited m.state).map (reply m) = some (steps k m) := by
  have hconsult := consult_unlimited m.setup m.state
  induction k generalizing m with
  | zero =>
    obtain hstop | hfail := h
    · exact (hstop hm).elim
    · exact (hfail rfl).elim
  | succ k ih =>
    cases nextStep m with
    | stopped hstop => exact (hstop hm).elim
    | abandoned _ hcycle =>
      rw [run_abandoned hm (pass_abandoned hconsult hcycle), steps_abandoned hm hcycle]
      rfl
    | last _ hcycle ht =>
      rw [run_passed hm (pass_cycled hconsult hcycle), run_stopped ht, steps_stopping hm ht hcycle]
      rfl
    | @running t _ hcycle ht =>
      rw [steps_running hm ht hcycle] at h ⊢
      rw [run_passed hm (pass_cycled hconsult hcycle)]
      exact ih (m := { m with state := t }) ht h (consult_unlimited _ _)

theorem ended_of_run {r : State × Option Abandoned} (h : m.setup.run .unlimited m.state = some r) :
    ∃ k, Ended (steps k m) := by
  refine Setup.run.partial_correctness m.setup
    (fun ctx s _ => ctx = .unlimited → ∃ k, Ended (steps k { m with state := s })) ?_ _ _ r h rfl
  -- `run'` is an approximation of the run, with a result only where the run has one.
  rintro run' ih _ s r hr rfl
  cases nextStep { m with state := s } with
  | stopped hs => exact ⟨0, .inl hs⟩
  | abandoned hs hcycle =>
    refine ⟨1, .inr ?_⟩
    rw [steps_abandoned hs hcycle]
    simp
  | last hs hcycle ht =>
    refine ⟨1, .inl ?_⟩
    rw [steps_stopping hs ht hcycle]
    exact ht
  | running hs hcycle ht =>
    rw [if_pos (isRunning_eq_true_iff.mpr hs), pass_cycled (consult_unlimited m.setup s) hcycle] at hr
    obtain ⟨k, hk⟩ := ih _ _ _ hr rfl
    refine ⟨k + 1, ?_⟩
    rw [steps_running hs ht hcycle]
    exact hk

end Unlimited

/-! ## Requests -/

theorem start_eq (m : Machine) (address : Word) :
    m.start address = { m with state := leftBy (begin m.setup address m.state) } := by
  unfold start
  cases begin m.setup address m.state <;> rfl

theorem setup_start (m : Machine) (address : Word) : (m.start address).setup = m.setup := by
  rw [start_eq]

theorem begin_start (m : Machine) (address : Word) :
    begin m.setup address m.state = .ok () (m.start address).state ∧
      (m.start address).state.status = .running ∧ (m.start address).state.stats.cycles = 0 := by
  obtain ⟨f, -, hbegin⟩ := begin_eq m.setup address m.state
  rw [start_eq, hbegin]
  exact ⟨rfl, rfl, rfl⟩

theorem execute?_eq_run (m : Machine) (ctx : Context) (address : Word) :
    m.execute? ctx address =
      (m.setup.run ctx (m.start address).state).map (reply (m.start address)) := by
  rw [execute?, (begin_start m address).1, start_eq]
  rfl

theorem execute?_expiring {m : Machine} {n : Nat} (why : Cancellation) (address : Word)
    (hc : 1 ≤ m.setup.limits.checkInterval) (hn : n * m.setup.limits.checkInterval < UInt64.size) :
    m.execute? (.expiring n why) address =
      some (cutOff why (steps (n * m.setup.limits.checkInterval) (m.start address))) := by
  obtain ⟨-, hrunning, hcycles⟩ := begin_start m address
  have hsetup := setup_start m address
  rw [execute?_eq_run, ← hsetup]
  refine run_expiring (i := 0) hrunning ?_ ?_ ?_ ?_
  · rw [hsetup]
    omega
  · rw [hcycles, Nat.zero_mod]
  · rw [Nat.zero_add, Nat.mul_comm]
  · rw [hcycles, hsetup]
    omega

theorem execute?_expiring_ends (m : Machine) (n : Nat) (why : Cancellation) (address : Word) :
    ∃ t a, m.execute? (.expiring n why) address = some ({ m with state := t }, outcome t a) := by
  obtain ⟨⟨t, a⟩, hrun⟩ := run_expiring_ends m.setup n why (m.start address).state
  refine ⟨t, a, ?_⟩
  rw [execute?_eq_run, hrun, start_eq]
  rfl

/-- Under a context that never gives in, a run has a result if steps come to an end, and it is theirs. -/
theorem execute?_unlimited_iff {m : Machine} {address : Word} {r : Machine × Option Failure} :
    m.execute? .unlimited address = some r ↔
      ∃ k, Ended (steps k (m.start address)) ∧ r = steps k (m.start address) := by
  obtain ⟨-, hrunning, -⟩ := begin_start m address
  have hsetup := setup_start m address
  rw [execute?_eq_run, ← hsetup]
  constructor
  · intro h
    obtain ⟨t, ht, -⟩ := Option.map_eq_some_iff.mp h
    obtain ⟨k, hk⟩ := ended_of_run ht
    rw [run_unlimited hrunning hk] at h
    exact ⟨k, hk, (Option.some.inj h).symm⟩
  · rintro ⟨k, hk, rfl⟩
    exact run_unlimited hrunning hk

/-! ## The check interval -/

def Setup.withInterval (c : Setup) (n : Nat) : Setup :=
  { c with limits := { c.limits with checkInterval := n } }

def withInterval (m : Machine) (n : Nat) : Machine :=
  { m with setup := m.setup.withInterval n }

theorem start_withInterval (m : Machine) (n : Nat) (address : Word) :
    (m.withInterval n).start address = (m.start address).withInterval n := by
  rw [start_eq, start_eq]
  rfl

theorem steps_withInterval (m : Machine) (n k : Nat) :
    steps k (m.withInterval n) = ((steps k m).1.withInterval n, (steps k m).2) := by
  induction k generalizing m with
  | zero => rfl
  | succ k ih =>
    cases nextStep m with
    | stopped hm => rw [steps_stopped (m := m.withInterval n) hm, steps_stopped hm]
    | abandoned hm hcycle =>
      rw [steps_abandoned (m := m.withInterval n) hm hcycle, steps_abandoned hm hcycle]
      rfl
    | last hm hcycle ht =>
      rw [steps_stopping (m := m.withInterval n) hm ht hcycle, steps_stopping hm ht hcycle]
      rfl
    | @running t hm hcycle ht =>
      rw [steps_running (m := m.withInterval n) hm ht hcycle, steps_running hm ht hcycle]
      exact ih { m with state := t }

theorem ended_withInterval_iff {n : Nat} {r : Machine × Option Failure} :
    Ended (r.1.withInterval n, r.2) ↔ Ended r :=
  Iff.rfl

theorem execute?_unlimited_withInterval (m : Machine) (address : Word) (n : Nat) :
    (m.withInterval n).execute? .unlimited address =
      (m.execute? .unlimited address).map fun r => (r.1.withInterval n, r.2) := by
  apply Option.ext
  intro r
  rw [execute?_unlimited_iff, Option.map_eq_some_iff]
  constructor
  · rintro ⟨k, hk, rfl⟩
    rw [start_withInterval, steps_withInterval, ended_withInterval_iff] at hk
    refine ⟨_, execute?_unlimited_iff.mpr ⟨k, hk, rfl⟩, ?_⟩
    rw [start_withInterval, steps_withInterval]
  · rintro ⟨r, hr, rfl⟩
    obtain ⟨k, hk, rfl⟩ := execute?_unlimited_iff.mp hr
    refine ⟨k, ?_, ?_⟩
    · rw [start_withInterval, steps_withInterval, ended_withInterval_iff]
      exact hk
    · rw [start_withInterval, steps_withInterval]

/-- A run is the steps that its context allows. If they end the run, their result is its result whatever the
interval and the context are; if they do not, exactly that many cycles are made and then the interruption is
recorded. An unlimited run comes to what steps come to, whatever the interval is. -/
theorem execute?_eq_steps (m : Machine) (address : Word) (c n : Nat) (why : Cancellation)
    (hc : 1 ≤ c) (hn : n * c < UInt64.size) :
    (∀ k ≤ n * c, Ended (steps k (m.start address)) →
      (m.withInterval c).execute? (.expiring n why) address =
        some ((steps k (m.start address)).1.withInterval c, (steps k (m.start address)).2)) ∧
    (¬ Ended (steps (n * c) (m.start address)) →
      (steps (n * c) (m.start address)).1.state.stats.cycles = n * c ∧
      (m.withInterval c).execute? (.expiring n why) address =
        some (cancelled ((steps (n * c) (m.start address)).1.withInterval c) why)) ∧
    (∀ r, m.execute? .unlimited address = some r ↔
      ∃ k, Ended (steps k (m.start address)) ∧ r = steps k (m.start address)) ∧
    (m.withInterval c).execute? .unlimited address =
      (m.execute? .unlimited address).map fun r => (r.1.withInterval c, r.2) := by
  have hrun := execute?_expiring (m := m.withInterval c) why address hc hn
  change _ = some (cutOff why (steps (n * c) ((m.withInterval c).start address))) at hrun
  rw [start_withInterval, steps_withInterval] at hrun
  refine ⟨?_, ?_, fun r => execute?_unlimited_iff, execute?_unlimited_withInterval m address c⟩
  · intro k hk hended
    rw [steps_eq_of_ended hk hended, cutOff, if_pos (ended_withInterval_iff.mpr hended)] at hrun
    exact hrun
  · intro hnot
    rw [cutOff, if_neg (mt ended_withInterval_iff.mp hnot)] at hrun
    have hcycles := (begin_start m address).2.2
    refine ⟨?_, hrun⟩
    rw [cycles_steps hnot (by omega), hcycles, Nat.zero_add]

/-- A machine that branches to where it is, asked to stop at its third consultation. -/
def roundabout : Machine where
  setup := {
    code := #[6, 0]
    table := { entries := #[{ name := "spin" }], size_pos := by decide, nonneg := by decide } }
  state := { cells := #[0], globals := #[], sink := .unlimited }

theorem roundabout_cancelled :
    1 ≤ 5 ∧ 2 * 5 < UInt64.size ∧ ¬ Ended (steps (2 * 5) (roundabout.start 0)) ∧
    (steps (2 * 5) (roundabout.start 0)).1.state.stats.cycles = 2 * 5 ∧
    (roundabout.withInterval 5).execute? (.expiring 2 .deadline) 0 =
      some (cancelled ((steps (2 * 5) (roundabout.start 0)).1.withInterval 5) .deadline) := by
  have hnot : ¬ Ended (steps (2 * 5) (roundabout.start 0)) := by
    rintro (h | h)
    · exact h rfl
    · exact h rfl
  exact ⟨by decide, by decide, hnot,
    (execute?_eq_steps roundabout 0 5 2 .deadline (by decide) (by decide)).2.1 hnot⟩

end StackMachine.Machine
