import StackMachine.Proofs.Machine.Effects

/-!
# A fault changes nothing but the status

Every instruction makes all its checks before its first change, so one that stops short with a report leaves
the state as it found it. A cycle then only records the error, together with where it happened; the same holds
of a pass that the context ends.
-/

set_option autoImplicit false

namespace StackMachine.Machine

namespace Attempt

theorem atomic_write (piece : String) : Atomic (write piece) := by
  intro s e t h
  unfold write at h
  split at h
  · cases h
  · cases h
    exact .inr rfl

theorem atomic_binary (f : Word → Word → Word) : Atomic (binary f) := by
  apply atomic_bind_of_reads (reads_need 2)
  intro _
  apply Commits.atomic
  exact commits_bind (commits_lift _) fun _ => commits_bind (commits_lift _) fun _ => commits_lift _

theorem atomic_branchOn (c : Setup) (next : Nat) (taken w : Word) : Atomic (branchOn c next taken w) := by
  apply atomic_bind_of_reads (reads_need 1)
  intro _
  apply atomic_bind_of_reads (keeps_lift reads_top)
  intro v
  -- The target is looked at before the value is popped.
  split
  · apply atomic_bind_of_reads (reads_target c w)
    intro _
    exact (commits_bind (commits_lift _) fun _ => commits_pure _).atomic
  · exact (commits_bind (commits_lift _) fun _ => commits_pure _).atomic

theorem atomic_constant (w : Word) : Atomic (constant w) := by
  apply atomic_bind_of_reads reads_room
  intro _
  exact (commits_lift _).atomic

theorem atomic_load (slot : Word) : Atomic (load slot) := by
  apply atomic_bind_of_reads (keeps_lift reads_activeFrame)
  intro f
  split
  · exact (reads_refuse _).atomic
  · exact atomic_constant _

theorem atomic_store (slot : Word) : Atomic (store slot) := by
  apply atomic_bind_of_reads (keeps_lift reads_activeFrame)
  intro f
  split
  · exact (reads_refuse _).atomic
  · apply atomic_bind_of_reads (reads_need 1)
    intro _
    exact (commits_bind (commits_lift _) fun _ => commits_modify _).atomic

theorem atomic_loadGlobal (index : Word) : Atomic (loadGlobal index) := by
  apply atomic_bind_of_reads (reads_needGlobal index)
  intro _
  apply atomic_bind_of_reads reads_room
  intro _
  exact (commits_bind (commits_lift _) fun _ => commits_lift _).atomic

theorem atomic_storeGlobal (index : Word) : Atomic (storeGlobal index) := by
  apply atomic_bind_of_reads (reads_needGlobal index)
  intro _
  apply atomic_bind_of_reads (reads_need 1)
  intro _
  exact (commits_bind (commits_lift _) fun _ => commits_lift _).atomic

theorem atomic_print : Atomic print := by
  apply atomic_bind_of_reads (reads_need 1)
  intro _
  apply atomic_bind_of_reads (keeps_lift reads_top)
  intro v
  -- The value is popped after the sink has taken it.
  apply atomic_bind_of_commits (atomic_write _)
  intro _
  exact commits_bind (commits_lift _) fun _ => commits_pure _

theorem atomic_drop : Atomic drop := by
  apply atomic_bind_of_reads (reads_need 1)
  intro _
  exact (commits_bind (commits_lift _) fun _ => commits_pure _).atomic

theorem atomic_call (c : Setup) (next : Nat) (id : Word) : Atomic (call c next id) := by
  unfold call
  split
  · exact (reads_refuse _).atomic
  · apply atomic_bind_of_reads (reads_needCallable c _)
    intro _
    apply Commits.atomic
    apply commits_bind (commits_lift _)
    intro _
    apply commits_bind (commits_lift _)
    intro _
    exact commits_bind (commits_modify _) fun _ => commits_pure _

theorem atomic_ret : Atomic ret := by
  apply atomic_bind_of_reads keeps_get
  intro s
  apply atomic_bind_of_reads (reads_require _ _)
  intro _
  apply Commits.atomic
  apply commits_bind (commits_lift _)
  intro _
  exact commits_bind (commits_modify _) fun _ => commits_pure _

/-- What follows an instruction that only computes where to go on adds no failure. -/
theorem atomic_then {x : Attempt Unit} (h : Atomic x) (next : Int) :
    Atomic (do x; return next) :=
  atomic_bind_of_commits h fun _ => commits_pure _

theorem atomic_apply (c : Setup) (next : Nat) (i : Instr) : Atomic (apply c next i) := by
  cases i with
  | iadd | isub | imul | ilt | ieq => exact atomic_then (atomic_binary _) next
  | br t => exact (reads_target c t).atomic
  | brt t | brf t => exact atomic_branchOn c next _ t
  | iconst w => exact atomic_then (atomic_constant _) next
  | load slot => exact atomic_then (atomic_load slot) next
  | gload i => exact atomic_then (atomic_loadGlobal i) next
  | store slot => exact atomic_then (atomic_store slot) next
  | gstore i => exact atomic_then (atomic_storeGlobal i) next
  | print => exact atomic_then atomic_print next
  | pop => exact atomic_then atomic_drop next
  | call id => exact atomic_call c next id
  | ret => exact atomic_ret
  | halt => exact (commits_pure _).atomic

end Attempt

/-! ## Cycles -/

/-- `t` is `s` with the error `e` recorded; a fault says where `s` stands and in which function. -/
structure RecordsOnly (s : State) (e : RunError) (t : State) : Prop where
  unchanged : t = { s with status := .faulted e }
  located : ∀ f, e = .fault f → f.ip = s.ip ∧ f.function = s.functionName ∧ f.depth = s.depth

theorem recordsOnly_fault {s : State} {e : RunError} {opcode : Word} {reason : Reason}
    (h : (s.fault s.ip opcode reason).status = .faulted e) :
    RecordsOnly s e (s.fault s.ip opcode reason) := by
  cases h
  refine ⟨rfl, ?_⟩
  intro f hf
  cases hf
  exact ⟨rfl, rfl, rfl⟩

theorem recordsOnly_cycle {c : Setup} {s t : State} {e : RunError} (hrun : s.status = .running)
    (h : cycle c s = .ok () t) (he : t.status = .faulted e) : RecordsOnly s e t := by
  have hcases := cycle_cases c s
  rw [h] at hcases
  cases hcases with
  | halts => cases he
  | stuck => exact recordsOnly_fault he
  | proceeds hi happly =>
    -- An applied instruction leaves the machine running.
    have hstatus := congrArg (·.2.1) (keeps_of_ok (Attempt.keeps_control_apply c _ _) happly)
    rw [proceed_status] at he
    cases (hrun.symm.trans hstatus.symm).trans he
  | faults hi happly =>
    obtain ⟨a, ha⟩ | hts := Attempt.atomic_apply c _ _ _ _ _ happly
    · cases ha
    · subst hts
      exact recordsOnly_fault he
  | refused hi happly =>
    obtain ⟨a, ha⟩ | hts := Attempt.atomic_apply c _ _ _ _ _ happly
    · cases ha
    · subst hts
      cases he
      refine ⟨rfl, ?_⟩
      intro f hf
      cases hf

theorem recordsOnly_pass {c : Setup} {ctx ctx' : Context} {s t : State} {e : RunError}
    (hrun : s.status = .running) (h : pass c ctx s = .ok ctx' t) (he : t.status = .faulted e) :
    RecordsOnly s e t := by
  unfold pass at h
  split at h
  next =>
    cases h
    exact recordsOnly_fault he
  next =>
    split at h
    next u hu =>
      cases h
      exact recordsOnly_cycle hrun hu he
    next => cases h

/-- Whatever makes a cycle fail, in a step or in a pass of a run, the state before it differs from the state
after it in the recorded error only. -/
theorem faults_change_only_status (c : Setup) (s : State) (hrun : s.status = .running) :
    (∀ t e, cycle c s = .ok () t → t.status = .faulted e → RecordsOnly s e t) ∧
    (∀ ctx ctx' t e, pass c ctx s = .ok ctx' t → t.status = .faulted e → RecordsOnly s e t) ∧
    (∀ e, (step ⟨c, s⟩).1.state.status = .faulted e →
      RecordsOnly s e (step ⟨c, s⟩).1.state ∧ (step ⟨c, s⟩).2 = some (.run e)) := by
  refine ⟨fun _ _ => recordsOnly_cycle hrun, fun _ _ _ _ => recordsOnly_pass hrun, ?_⟩
  intro e he
  cases hs : cycle c s with
  | ok _ t =>
    rw [step_of_cycle_ok (m := ⟨c, s⟩) hrun hs] at he ⊢
    have hstatus : t.status = .faulted e := he
    refine ⟨recordsOnly_cycle hrun hs hstatus, ?_⟩
    simp only [outcome, hstatus, Status.error?, Option.map_some]
  | error a t =>
    -- What is abandoned has not failed: the machine goes on running.
    rw [step_of_cycle_error (m := ⟨c, s⟩) hrun hs] at he
    have hstatus : t.status = s.status := congrArg (·.2.1) (cycle_abandoned_control hs)
    change t.status = _ at he
    rw [hstatus, hrun] at he
    cases he

/-- A machine whose next instruction would branch out of its code. -/
def strayBranch : Machine where
  setup := {
    code := #[7, 99]
    table := { entries := #[{ name := "main" }], size_pos := by decide, nonneg := by decide } }
  state := {
    sp := 0
    cells := #[1]
    globals := #[]
    arena := {
      frames := #[{ function := { name := "main" }, returnAddress := -1, invoker := -1 }]
      depth := 1 }
    status := .running
    sink := .unlimited }

theorem strayBranch_keeps_operand :
    strayBranch.state.status = .running ∧
    RecordsOnly strayBranch.state
      (.fault { ip := 0, opcode := 7, function := "main", depth := 1, reason := .branchOutside 99 })
      (step strayBranch).1.state :=
  ⟨rfl, ((faults_change_only_status _ strayBranch.state rfl).2.2 _ rfl).1⟩

end StackMachine.Machine
