import StackMachine.Proofs.Machine.Lockstep
import StackMachine.Proofs.Machine.Representation

/-!
# Machines with more room

Limits are only looked at to say that they have been reached. So a machine that does not reach its own limits is in
lockstep with every machine that differs from it in having larger ones.
-/

set_option autoImplicit false

namespace StackMachine

/-- A limit of the machine was reached: the stack or the call stack has overflowed. -/
def Reason.Exhausts : Reason → Prop
  | overflow _ | depthExceeded _ _ => True
  | _ => False

def Status.Exhausted (status : Status) : Prop :=
  ∃ f, status = .faulted (.fault f) ∧ f.reason.Exhausts

/-- Neither limit that an instruction can reach is smaller in `l`. -/
structure Limits.Larger (k l : Limits) : Prop where
  stackSize : k.stackSize ≤ l.stackSize
  maxDepth : k.maxDepth ≤ l.maxDepth

namespace Machine

def Setup.withLimits (c : Setup) (l : Limits) : Setup :=
  { c with limits := l }

/-! ## Instructions -/

/-- Two results are the same, unless the first one is that a limit was reached. -/
inductive Unexhausted {α : Type} : Except Stop α → Except Stop α → Prop
  | same (r : Except Stop α) : Unexhausted r r
  | exhausted {reason : Reason} {r : Except Stop α} (h : reason.Exhausts) : Unexhausted (.error (.fault reason)) r

namespace Configuration

variable {c : Setup} {l : Limits}

theorem unexhausted_push (h : c.limits.Larger l) (w : Word) (x : Configuration) :
    Unexhausted (push c w x) (push (c.withLimits l) w x) := by
  unfold push
  split
  next hroom =>
    have hroom' : x.stack.length < (c.withLimits l).limits.stackSize := Nat.lt_of_lt_of_le hroom h.stackSize
    rw [if_pos hroom']
    exact .same _
  next => exact .exhausted trivial

theorem unexhausted_load (h : c.limits.Larger l) (slot : Word) (x : Configuration) :
    Unexhausted (load c slot x) (load (c.withLimits l) slot x) := by
  unfold load
  split
  next => exact .same _
  next =>
    split
    next => exact .same _
    next v _ => exact unexhausted_push h v x

theorem unexhausted_loadGlobal (h : c.limits.Larger l) (index : Word) (x : Configuration) :
    Unexhausted (loadGlobal c index x) (loadGlobal (c.withLimits l) index x) := by
  unfold loadGlobal
  split
  next => exact .same _
  next v _ => exact unexhausted_push h v x

/-- The depth is checked after the arguments and before the address, so only that check can turn out otherwise. -/
theorem unexhausted_call (h : c.limits.Larger l) (next : Nat) (id : Word) (x : Configuration) :
    Unexhausted (call c next id x) (call (c.withLimits l) next id x) := by
  have htable : (c.withLimits l).table = c.table := rfl
  unfold call
  rw [htable]
  cases c.table.lookup? id with
  | none => exact .same _
  | some d =>
    by_cases hargs : x.stack.length < d.args.toInt
    · simp only [if_pos hargs]
      exact .same _
    · simp only [if_neg hargs]
      by_cases hdepth : c.limits.maxDepth ≤ x.frames.length
      · rw [if_pos hdepth]
        exact .exhausted trivial
      · have hdepth' : ¬ (c.withLimits l).limits.maxDepth ≤ x.frames.length := by
          have hle : c.limits.maxDepth ≤ (c.withLimits l).limits.maxDepth := h.maxDepth
          omega
        rw [if_neg hdepth, if_neg hdepth']
        exact .same _

theorem unexhausted_andThen {t t' : Transition Unit} {x : Configuration} (next : Nat) (h : Unexhausted (t x) (t' x)) :
    Unexhausted (andThen next t x) (andThen next t' x) := by
  unfold andThen
  generalize t x = r at h
  generalize t' x = r' at h
  cases h with
  | same => exact .same _
  | exhausted h => exact .exhausted h

theorem unexhausted_apply (h : c.limits.Larger l) (next : Nat) (i : Instr) (x : Configuration) :
    Unexhausted (apply c next i x) (apply (c.withLimits l) next i x) := by
  cases i with
  | iconst w => exact unexhausted_andThen next (unexhausted_push h w.narrow x)
  | load slot => exact unexhausted_andThen next (unexhausted_load h slot x)
  | gload index => exact unexhausted_andThen next (unexhausted_loadGlobal h index x)
  | call id => exact unexhausted_call h next id x
  | _ => exact .same _

end Configuration

/-! ## Cycles -/

section Cycles

variable {c : Setup} {l : Limits} {s t : State}

theorem Observation.conclude_withLimits (l : Limits) (addr : Nat) (op : Opcode) (x : Observation)
    {r r' : Except Stop (Int × Configuration)} (h : Unexhausted r r') :
    x.conclude (c.withLimits l) addr op r' = x.conclude c addr op r ∨
      ∃ y, x.conclude c addr op r = .ok y ∧ y.status.Exhausted := by
  cases h with
  | same =>
    cases r with
    | ok z => exact .inl rfl
    | error e => cases e <;> exact .inl rfl
  | exhausted h => exact .inr ⟨_, rfl, _, rfl, h⟩

theorem Observation.cycle_withLimits (h : c.limits.Larger l) (x : Observation) :
    x.cycle (c.withLimits l) = x.cycle c ∨ ∃ y, x.cycle c = .ok y ∧ y.status.Exhausted := by
  have hcode : (c.withLimits l).code = c.code := rfl
  rw [cycle_eq, cycle_eq, hcode]
  cases upcoming c.code x.ip with
  | halt => exact .inl rfl
  | stuck => exact .inl rfl
  | instr i => exact conclude_withLimits l _ _ x (Configuration.unexhausted_apply h _ i _)

theorem cycle_withLimits (h : Level c (c.withLimits l) Eq s t) (hl : c.limits.Larger l)
    (hleft : ¬ (leftBy (cycle c s)).status.Exhausted) :
    Paired (Level c (c.withLimits l) Eq) (cycle c s) (cycle (c.withLimits l) t) := by
  apply h.cycle
  rw [← h.same]
  obtain hsame | ⟨y, hy, hexhausted⟩ := s.observation.cycle_withLimits hl
  · rw [hsame]
    exact coupled_of_map (f := id) rfl
  · obtain ⟨u, hu, -, rfl⟩ := (hy ▸ seen_cycle h.left).of_ok
    rw [hu] at hleft
    exact (hleft hexhausted).elim

end Cycles

/-! ## Steps -/

section Steps

variable {m n : Machine} {l : Limits}

theorem leftBy_cycle (h : m.state.status = .running) : leftBy (cycle m.setup m.state) = m.step.1.state := by
  cases hcycle : cycle m.setup m.state with
  | ok _ t => rw [step_of_cycle_ok h hcycle]; rfl
  | error a t => rw [step_of_cycle_error h hcycle]; rfl

theorem step_withLimits (hn : n.setup = m.setup.withLimits l) (hl : m.setup.limits.Larger l)
    (h : Level m.setup (m.setup.withLimits l) Eq m.state n.state) (hleft : ¬ m.step.1.state.status.Exhausted) :
    m.step.2 = n.step.2 ∧ Level m.setup (m.setup.withLimits l) Eq m.step.1.state n.step.1.state := by
  refine Paired.step (fun s t h => congrArg (·.status) h.same) h fun hrun => ?_
  rw [hn]
  exact cycle_withLimits h hl (leftBy_cycle hrun ▸ hleft)

/-- A machine whose limits were reached stays as it is. -/
theorem step_of_exhausted (h : m.state.status.Exhausted) : m.step.1 = m := by
  obtain ⟨f, hf, -⟩ := h
  rw [step, hf]
  rfl

theorem serve_steps_succ (m : Machine) (k : Nat) :
    m.serve (List.replicate (k + 1) .step) = (m.serve (List.replicate k .step)).step.1 := by
  rw [List.replicate_succ', serve_append]
  rfl

/-- As long as the limits of the first machine are not reached, steps of both are answered alike and change both alike. -/
theorem serve_steps_withLimits (hn : n.setup = m.setup.withLimits l) (hl : m.setup.limits.Larger l)
    (h : Level m.setup (m.setup.withLimits l) Eq m.state n.state) (k : Nat)
    (hleft : ¬ (m.serve (List.replicate k .step)).state.status.Exhausted) :
    Level m.setup (m.setup.withLimits l) Eq (m.serve (List.replicate k .step)).state
        (n.serve (List.replicate k .step)).state ∧
      ∀ j < k, (m.serve (List.replicate j .step)).step.2 = (n.serve (List.replicate j .step)).step.2 := by
  induction k with
  | zero => exact ⟨h, nofun⟩
  | succ k ih =>
    rw [serve_steps_succ] at hleft
    have hearlier : ¬ (m.serve (List.replicate k .step)).state.status.Exhausted := by
      intro hexhausted
      rw [step_of_exhausted hexhausted] at hleft
      exact hleft hexhausted
    obtain ⟨hlevel, hanswers⟩ := ih hearlier
    have hm := setup_serve m (List.replicate k .step)
    have hn' := (setup_serve n (List.replicate k .step)).trans hn
    rw [← hm] at hn' hl hlevel
    obtain ⟨hanswer, hnext⟩ := step_withLimits hn' hl hlevel hleft
    rw [hm] at hnext
    rw [serve_steps_succ, serve_steps_succ]
    refine ⟨hnext, fun j hj => ?_⟩
    obtain hlt | rfl := Nat.lt_succ_iff_lt_or_eq.mp hj
    · exact hanswers j hlt
    · exact hanswer

end Steps

/-- Take a machine and one with at least the same room for operands and frames, with any two pasts that have left the
same globals, output and trace. Once both are started at one address and until the first one reaches its limits, steps
of both are answered alike, and the same is observed of both. -/
theorem larger_machine_agrees (code : Array Word) {globals : Word} (table : FunctionTable) {base base' : Limits}
    (o : Options) (sizing : Sizing) (hglobals : 0 ≤ globals) (hdepth : 1 ≤ (base.adjust o.sizing).maxDepth)
    (hlarger : (base.adjust o.sizing).Larger (base'.adjust sizing))
    (hallocates : Allocates globals (base'.adjust sizing)) :
    ∃ m m', make code globals (some table) base o = .ok m ∧
      make code globals (some table) base' { o with sizing := sizing } = .ok m' ∧
      ∀ past past' : List Request, (m.serve past).state.globals = (m'.serve past').state.globals →
        (m.serve past).state.sink = (m'.serve past').state.sink →
        (m.serve past).state.trace = (m'.serve past').state.trace →
        ∀ (address : Word) (k : Nat),
          ¬ (m.serve (past ++ .start address :: List.replicate k .step)).state.status.Exhausted →
          (m.serve (past ++ .start address :: List.replicate k .step)).state.observation =
            (m'.serve (past' ++ .start address :: List.replicate k .step)).state.observation ∧
          ∀ j < k, ((m.serve (past ++ .start address :: List.replicate j .step)).answer .step).2 =
            ((m'.serve (past' ++ .start address :: List.replicate j .step)).answer .step).2 := by
  obtain ⟨m, hm, -⟩ := make_eq_ok code table base o hglobals
    ⟨hallocates.globals_le, Nat.le_trans hlarger.stackSize hallocates.stack_le⟩
  obtain ⟨m', hm', -⟩ := make_eq_ok code table base' { o with sizing := sizing } hglobals hallocates
  refine ⟨m, m', hm, hm', ?_⟩
  intro past past' hequal hsink htrace address k
  have hsetup : m'.setup = m.setup.withLimits (base'.adjust sizing) := by
    rw [setup_of_make hm, setup_of_make hm']
    rfl
  have hlimits : m.setup.limits = base.adjust o.sizing := congrArg (·.limits) (setup_of_make hm)
  rw [← hlimits] at hlarger
  have hdepth' : 1 ≤ (base'.adjust sizing).maxDepth := Nat.le_trans (hlimits ▸ hdepth) hlarger.maxDepth
  have hsound := (stands_of_make hdepth hm past).1.sound
  have hsound' := (stands_of_make hdepth' hm' past').1.sound
  have hlevel : Level m.setup (m.setup.withLimits (base'.adjust sizing)) Eq ((m.serve past).start address).state
      ((m'.serve past').start address).state := by
    rw [start_eq, start_eq, setup_serve, setup_serve]
    rw [hsetup] at hsound' ⊢
    refine level_begin address (hlimits ▸ hdepth) hdepth' hsound hsound' ?_
    simp only [Observation.started, State.observation, State.view, hequal, hsink, htrace]
    rfl
  have hstarted := (setup_start (m.serve past) address).trans (setup_serve m past)
  have hstarted' := ((setup_start (m'.serve past') address).trans (setup_serve m' past')).trans hsetup
  rw [← hstarted] at hlevel hlarger hstarted'
  simp only [serve_start]
  intro hleft
  obtain ⟨hend, hanswers⟩ := serve_steps_withLimits hstarted' hlarger hlevel k hleft
  exact ⟨hend.same, hanswers⟩

/-- A function that prints its argument, called with no room to spare. -/
theorem tight_call_agrees :
    let tight : Sizing := { stackSize := some 1, maxDepth := some 2 }
    let wide : Sizing := { stackSize := some 8, maxDepth := some 9 }
    let requests : List Request := .start 0 :: List.replicate 6 .step
    0 ≤ (0 : Word) ∧ 1 ≤ (Limits.adjust {} tight).maxDepth ∧ (Limits.adjust {} tight).Larger (Limits.adjust {} wide) ∧
    Allocates 0 (Limits.adjust {} wide) ∧
    ∃ m m', make #[9, 7, 16, 1, 18, 10, 0, 14, 17] 0 (some pairTable) {} { sizing := tight } = .ok m ∧
      make #[9, 7, 16, 1, 18, 10, 0, 14, 17] 0 (some pairTable) {} { sizing := wide } = .ok m' ∧
      (m.serve requests).state.status = .halted ∧ (m.serve requests).state.sink.taken = "7\n" ∧
      (m.serve requests).state.observation = (m'.serve requests).state.observation := by
  intro tight wide requests
  have hnonneg : 0 ≤ (0 : Word) := by decide
  have hlarger : (Limits.adjust {} tight).Larger (Limits.adjust {} wide) := ⟨by decide, by decide⟩
  obtain ⟨m, m', hm, hm', h⟩ := larger_machine_agrees #[9, 7, 16, 1, 18, 10, 0, 14, 17] pairTable { sizing := tight } wide
    hnonneg (by decide) hlarger (by decide)
  have hhalted : (m.serve requests).state.status = .halted := by
    cases hm
    decide +kernel
  have hglobals : m.state.globals = m'.state.globals := by
    cases hm
    cases hm'
    rfl
  have hsink : m.state.sink = m'.state.sink := by
    cases hm
    cases hm'
    rfl
  have htrace : m.state.trace = m'.state.trace := by
    cases hm
    cases hm'
    rfl
  refine ⟨hnonneg, by decide, hlarger, by decide, m, m', hm, hm', hhalted, ?_, ?_⟩
  · cases hm
    decide +kernel
  · refine (h [] [] hglobals hsink htrace 0 6 ?_).1
    rintro ⟨f, hf, -⟩
    have hstatus := hhalted.symm.trans hf
    cases hstatus

end Machine
end StackMachine
