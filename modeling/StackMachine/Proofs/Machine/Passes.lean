import Mathlib.Logic.Function.Iterate
import StackMachine.Proofs.Machine.Lockstep
import StackMachine.Proofs.Machine.Output

/-!
# Runs pass by pass

A run has a result if its passes come to an end, and then it is what they have come to. The passes of two runs can be
compared one by one, also where the runs never end or part at some point. What a run has printed are the lines of its
passes, one after the other.
-/

set_option autoImplicit false

namespace StackMachine.Machine

/-- What a run has come to, and the context that it goes on with. -/
structure Stage where
  ctx : Context
  state : State
  abandoned : Option Abandoned := none

namespace Stage

def Active (g : Stage) : Prop :=
  g.state.status = .running ∧ g.abandoned = none

instance (g : Stage) : Decidable g.Active :=
  inferInstanceAs (Decidable (_ ∧ _))

/-- One more pass; a run that is over stays as it is. -/
def next (c : Setup) (g : Stage) : Stage :=
  if g.Active then
    match pass c g.ctx g.state with
    | .ok ctx t => { ctx := ctx, state := t }
    | .error a t => { g with state := t, abandoned := some a }
  else g

theorem not_active_of_abandoned {g : Stage} {a : Abandoned} (h : g.abandoned = some a) : ¬ g.Active := by
  rintro ⟨-, hnone⟩
  rw [h] at hnone
  cases hnone

section Next

variable {c : Setup} {g : Stage} {ctx : Context} {t : State}

theorem next_of_over (h : ¬ g.Active) : g.next c = g :=
  if_neg h

theorem next_of_passed (h : g.Active) (hpass : pass c g.ctx g.state = .ok ctx t) :
    g.next c = { ctx := ctx, state := t } := by
  rw [next, if_pos h, hpass]

theorem next_of_abandoned {a : Abandoned} (h : g.Active) (hpass : pass c g.ctx g.state = .error a t) :
    g.next c = { g with state := t, abandoned := some a } := by
  rw [next, if_pos h, hpass]

theorem iterate_next_of_over (h : ¬ g.Active) (k : Nat) : (next c)^[k] g = g :=
  Function.iterate_fixed (next_of_over h) k

end Next

end Stage

/-- The run from an address after `k` passes. -/
def stage (m : Machine) (ctx : Context) (address : Word) (k : Nat) : Stage :=
  (Stage.next m.setup)^[k] { ctx := ctx, state := (m.start address).state }

theorem stage_succ (m : Machine) (ctx : Context) (address : Word) (k : Nat) :
    m.stage ctx address (k + 1) = (m.stage ctx address k).next m.setup :=
  Function.iterate_succ_apply' _ k _

/-! ## Results -/

section Results

variable {c : Setup} {ctx : Context} {s : State} {r : State × Option Abandoned}

theorem run_of_over {k : Nat} {g : Stage} (h : (Stage.next c)^[k] { ctx := ctx, state := s } = g) (hover : ¬ g.Active) :
    c.run ctx s = some (g.state, g.abandoned) := by
  induction k generalizing ctx s with
  | zero =>
    cases h
    exact run_stopped fun hs => hover ⟨hs, rfl⟩
  | succ k ih =>
    by_cases hs : s.status = .running
    · have hactive : Stage.Active { ctx := ctx, state := s } := ⟨hs, rfl⟩
      rw [Function.iterate_succ_apply] at h
      cases hpass : pass c ctx s with
      | ok ctx' t =>
        rw [Stage.next_of_passed hactive hpass] at h
        rw [run_passed hs hpass]
        exact ih h
      | error a t =>
        rw [Stage.next_of_abandoned hactive hpass,
          Stage.iterate_next_of_over (Stage.not_active_of_abandoned rfl)] at h
        cases h
        exact run_abandoned hs hpass
    · rw [Stage.iterate_next_of_over fun h => hs h.1] at h
      cases h
      exact run_stopped hs

theorem over_of_run (h : c.run ctx s = some r) :
    ∃ k g, (Stage.next c)^[k] { ctx := ctx, state := s } = g ∧ ¬ g.Active ∧ (g.state, g.abandoned) = r := by
  refine Setup.run.partial_correctness c (fun ctx s r =>
    ∃ k g, (Stage.next c)^[k] { ctx := ctx, state := s } = g ∧ ¬ g.Active ∧ (g.state, g.abandoned) = r) ?_ ctx s r h
  intro run' ih ctx s r hr
  by_cases hs : s.status = .running
  · have hactive : Stage.Active { ctx := ctx, state := s } := ⟨hs, rfl⟩
    rw [if_pos (isRunning_eq_true_iff.mpr hs)] at hr
    cases hpass : pass c ctx s with
    | ok ctx' t =>
      rw [hpass] at hr
      obtain ⟨k, g, hg, hend⟩ := ih ctx' t r hr
      refine ⟨k + 1, g, ?_, hend⟩
      rw [Function.iterate_succ_apply, Stage.next_of_passed hactive hpass]
      exact hg
    | error a t =>
      rw [hpass] at hr
      cases hr
      exact ⟨1, _, Stage.next_of_abandoned hactive hpass, Stage.not_active_of_abandoned rfl, rfl⟩
  · rw [isRunning_eq_false hs] at hr
    cases hr
    exact ⟨0, _, rfl, fun h => hs h.1, rfl⟩

end Results

theorem execute?_eq_some_iff {m : Machine} {ctx : Context} {address : Word} {r : Machine × Option Failure} :
    m.execute? ctx address = some r ↔ ∃ k, ¬ (m.stage ctx address k).Active ∧
      r = reply (m.start address) ((m.stage ctx address k).state, (m.stage ctx address k).abandoned) := by
  rw [execute?_eq_run]
  constructor
  · intro h
    obtain ⟨r', hrun, rfl⟩ := Option.map_eq_some_iff.mp h
    obtain ⟨k, g, rfl, hover, rfl⟩ := over_of_run hrun
    exact ⟨k, hover, rfl⟩
  · rintro ⟨k, hover, rfl⟩
    rw [run_of_over rfl hover]
    rfl

/-! ## Two runs -/

/-- The stages go on with the same context, from related states. -/
structure Twins (R : State → State → Prop) (g g' : Stage) : Prop where
  ctx : g.ctx = g'.ctx
  abandoned : g.abandoned = g'.abandoned
  states : R g.state g'.state

section Twins

variable {c d : Setup} {R : State → State → Prop} {g g' : Stage}

theorem Twins.active_iff (hstatus : ∀ s t, R s t → s.status = t.status) (h : Twins R g g') : g.Active ↔ g'.Active := by
  rw [Stage.Active, Stage.Active, hstatus _ _ h.states, h.abandoned]

theorem Twins.next (hstatus : ∀ s t, R s t → s.status = t.status) (h : Twins R g g')
    (hpass : g'.Active → Paired R (pass c g'.ctx g.state) (pass d g'.ctx g'.state)) :
    Twins R (g.next c) (g'.next d) := by
  by_cases hactive : g'.Active
  · have hactive' := (h.active_iff hstatus).mpr hactive
    have hpaired := hpass hactive
    rw [← h.ctx] at hpaired
    generalize hx : pass c g.ctx g.state = x at hpaired
    generalize hy : pass d g.ctx g'.state = y at hpaired
    rw [h.ctx] at hy
    cases hpaired with
    | ok hR =>
      rw [Stage.next_of_passed hactive' hx, Stage.next_of_passed hactive hy]
      exact ⟨rfl, rfl, hR⟩
    | error hR =>
      rw [Stage.next_of_abandoned hactive' hx, Stage.next_of_abandoned hactive hy]
      exact ⟨h.ctx, rfl, hR⟩
  · rw [Stage.next_of_over hactive, Stage.next_of_over (mt (h.active_iff hstatus).mp hactive)]
    exact h

end Twins

section Execute

variable {R : State → State → Prop} {m n : Machine} {ctx : Context} {address : Word}

theorem execute?_of_twins {r : Machine × Option Failure} (hstatus : ∀ s t, R s t → s.status = t.status)
    (htwins : ∀ k, Twins R (m.stage ctx address k) (n.stage ctx address k)) (h : m.execute? ctx address = some r) :
    ∃ r', n.execute? ctx address = some r' ∧ r'.2 = r.2 ∧ R r.1.state r'.1.state := by
  obtain ⟨k, hover, rfl⟩ := execute?_eq_some_iff.mp h
  have htwin := htwins k
  refine ⟨_, execute?_eq_some_iff.mpr ⟨k, mt (htwin.active_iff hstatus).mpr hover, rfl⟩, ?_, htwin.states⟩
  simp only [reply, htwin.abandoned]
  exact (outcome_of_status (hstatus _ _ htwin.states) _).symm

/-- Runs whose passes are alike come to the same result, or to none. -/
theorem execute_of_twins (hstatus : ∀ s t, R s t → s.status = t.status)
    (htwins : ∀ k, Twins R (m.stage ctx address k) (n.stage ctx address k)) :
    (m.execute ctx address).2 = (n.execute ctx address).2 ∧
      R (m.execute ctx address).1.state (n.execute ctx address).1.state := by
  have hstatus' : ∀ s t, R t s → s.status = t.status := fun s t h => (hstatus t s h).symm
  have htwins' : ∀ k, Twins (fun s t => R t s) (n.stage ctx address k) (m.stage ctx address k) :=
    fun k => ⟨(htwins k).ctx.symm, (htwins k).abandoned.symm, (htwins k).states⟩
  cases h : m.execute? ctx address with
  | some r =>
    obtain ⟨r', h', hfailure, hR⟩ := execute?_of_twins hstatus htwins h
    rw [execute, execute, h, h']
    exact ⟨hfailure.symm, hR⟩
  | none =>
    cases h' : n.execute? ctx address with
    | some r' =>
      obtain ⟨r, hr, -⟩ := execute?_of_twins hstatus' htwins' h'
      rw [h] at hr
      cases hr
    | none =>
      rw [execute, execute, h, h']
      exact ⟨rfl, (htwins 0).states⟩

end Execute

/-! ## Output -/

/-- The word whose line the next pass hands to the sink, if it does. -/
def Stage.printing? (c : Setup) (g : Stage) : Option Word :=
  match consult c g.state g.ctx with
  | .ok _ => if g.Active then g.state.observation.printing? c else none
  | .error _ => none

/-- The words that the first `k` passes of a run from an address print. -/
def printed (m : Machine) (ctx : Context) (address : Word) (k : Nat) : List Word :=
  (List.range k).filterMap fun j => (m.stage ctx address j).printing? m.setup

section Output

variable {c : Setup} {g : Stage} {v : Word}

theorem Stage.printing?_eq_some (h : g.printing? c = some v) :
    g.Active ∧ (∃ ctx, consult c g.state g.ctx = .ok ctx) ∧ g.state.observation.printing? c = some v := by
  unfold printing? at h
  split at h
  next ctx hconsult =>
    split at h
    next hactive => exact ⟨hactive, ⟨ctx, hconsult⟩, h⟩
    next => cases h
  next => cases h

theorem Stage.printing?_of_active {ctx : Context} (hactive : g.Active) (hconsult : consult c g.state g.ctx = .ok ctx) :
    g.printing? c = g.state.observation.printing? c := by
  simp only [printing?, hconsult, if_pos hactive]

/-- A sound state whose sink takes everything. -/
structure Taking (c : Setup) (s : State) : Prop where
  sound : Sound c s
  takes : s.sink.Open

theorem Stage.output_next (h : Taking c g.state) :
    Taking c (g.next c).state ∧
      (g.next c).state.sink.taken = g.state.sink.taken ++ String.join ((g.printing? c).toList.map Word.line) := by
  by_cases hactive : g.Active
  · cases hconsult : consult c g.state g.ctx with
    | error why =>
      rw [next_of_passed hactive (pass_cancelled hconsult)]
      refine ⟨⟨{ h.sound with }, h.takes⟩, ?_⟩
      simp only [printing?, hconsult]
      exact String.append_empty.symm
    | ok ctx =>
      rw [printing?_of_active hactive hconsult]
      have hseen := seen_cycle h.sound
      cases hcycle : g.state.observation.cycle c with
      | ok y =>
        obtain ⟨t, ht, hsound, rfl⟩ := (hcycle ▸ hseen).of_ok
        rw [next_of_passed hactive (pass_cycled hconsult ht)]
        obtain ⟨hopen, htaken⟩ := Observation.output_cycle h.takes hcycle
        exact ⟨⟨hsound, hopen⟩, htaken⟩
      | error a =>
        obtain ⟨t, ht, hsound, hsame⟩ := (hcycle ▸ hseen).of_error
        have hsink : t.sink = g.state.sink := congrArg (·.sink) hsame
        rw [next_of_abandoned hactive (pass_abandoned hconsult ht), Observation.printing?_of_abandoned h.takes hcycle]
        refine ⟨⟨hsound, hsink ▸ h.takes⟩, ?_⟩
        change t.sink.taken = _
        rw [hsink]
        exact String.append_empty.symm
  · have hnone : g.printing? c = none := by
      unfold printing?
      split
      next => exact if_neg hactive
      next => rfl
    rw [next_of_over hactive, hnone]
    exact ⟨h, String.append_empty.symm⟩

/-- What a run to a sink that takes everything has printed are the lines of its passes. -/
theorem output_stage {m : Machine} {address : Word} (h : Taking m.setup (m.start address).state) (ctx : Context)
    (k : Nat) :
    Taking m.setup (m.stage ctx address k).state ∧ (m.stage ctx address k).state.sink.taken =
      (m.start address).state.sink.taken ++ String.join ((m.printed ctx address k).map Word.line) := by
  induction k with
  | zero => exact ⟨h, String.append_empty.symm⟩
  | succ k ih =>
    obtain ⟨htaking, htaken⟩ := (m.stage ctx address k).output_next ih.1
    have hprinted : m.printed ctx address (k + 1) =
        m.printed ctx address k ++ ((m.stage ctx address k).printing? m.setup).toList := by
      rw [printed, List.range_succ, List.filterMap_append]
      cases h : (m.stage ctx address k).printing? m.setup <;> simp [h, printed]
    rw [stage_succ, hprinted, List.map_append, String.join_append, ← String.append_assoc, ← ih.2]
    exact ⟨htaking, htaken⟩

end Output

end StackMachine.Machine
