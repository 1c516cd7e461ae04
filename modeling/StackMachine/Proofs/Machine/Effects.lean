import StackMachine.Machine.Run

/-!
# What computations on states leave alone

A computation keeps a part of the state if that part is the same afterwards, however it ends. Checks keep the
whole state, and what follows the checks can only be abandoned; a computation made of checks followed by such
work stops short without a trace. Nothing here assumes anything about the state.
-/

set_option autoImplicit false

namespace StackMachine.Machine

variable {ε α β γ : Type}

theorem bind_ok {x : EStateM ε State α} {f : α → EStateM ε State β} {s t : State} {a : α}
    (h : x s = .ok a t) : (x >>= f) s = f a t := by
  simp only [bind, EStateM.bind, h]

theorem bind_error {x : EStateM ε State α} {f : α → EStateM ε State β} {s t : State} {e : ε}
    (h : x s = .error e t) : (x >>= f) s = .error e t := by
  simp only [bind, EStateM.bind, h]

theorem get_bind (f : State → EStateM ε State α) (s : State) : (get >>= f) s = f s s := rfl

theorem modify_bind (g : State → State) (f : Unit → EStateM ε State α) (s : State) :
    (modify g >>= f) s = f () (g s) := rfl

theorem lift_ok {x : Access α} {s t : State} {a : α} (h : x s = .ok a t) :
    (liftM x : Attempt α) s = .ok a t := by
  change EStateM.adaptExcept Stop.abandoned x s = _
  simp only [EStateM.adaptExcept, h]

theorem lift_error {x : Access α} {s t : State} {a : Abandoned} (h : x s = .error a t) :
    (liftM x : Attempt α) s = .error (.abandoned a) t := by
  change EStateM.adaptExcept Stop.abandoned x s = _
  simp only [EStateM.adaptExcept, h]

def leftBy : EStateM.Result ε State α → State
  | .ok _ t => t
  | .error _ t => t

/-- The part `p` of the state is the same before and after. -/
def Keeps (p : State → γ) (x : EStateM ε State α) : Prop :=
  ∀ s, p (leftBy (x s)) = p s

/-- If `P` holds before, it holds afterwards, however the computation ends. -/
def Preserves (P : State → Prop) (x : EStateM ε State α) : Prop :=
  ∀ s, P s → P (leftBy (x s))

/-- The computation looks at the state and does not change it. -/
def Reads (x : EStateM ε State α) : Prop :=
  Keeps id x

/-- The computation ends or is abandoned; it never reports why it stopped. -/
def Commits (x : Attempt α) : Prop :=
  ∀ s e t, x s = .error e t → ∃ a, e = .abandoned a

/-- If the computation reports why it stopped, it has changed nothing. -/
def Atomic (x : Attempt α) : Prop :=
  ∀ s e t, x s = .error e t → (∃ a, e = .abandoned a) ∨ t = s

section Keeps

variable {p : State → γ}

theorem keeps_pure (a : α) : Keeps p (pure a : EStateM ε State α) :=
  fun _ => rfl

theorem keeps_throw (e : ε) : Keeps p (throw e : EStateM ε State α) :=
  fun _ => rfl

theorem keeps_get : Keeps p (get : EStateM ε State State) :=
  fun _ => rfl

theorem keeps_bind {x : EStateM ε State α} {f : α → EStateM ε State β} (hx : Keeps p x)
    (hf : ∀ a, Keeps p (f a)) : Keeps p (x >>= f) := by
  intro s
  have hs := hx s
  cases h : x s with
  | ok a t =>
    rw [h] at hs
    rw [bind_ok h]
    exact (hf a t).trans hs
  | error e t =>
    rw [h] at hs
    rw [bind_error h]
    exact hs

theorem keeps_lift {x : Access α} (hx : Keeps p x) : Keeps p (liftM x : Attempt α) := by
  intro s
  have hs := hx s
  cases h : x s with
  | ok a t =>
    rw [h] at hs
    rw [lift_ok h]
    exact hs
  | error e t =>
    rw [h] at hs
    rw [lift_error h]
    exact hs

theorem keeps_of_ok {x : EStateM ε State α} {s t : State} {a : α} (hx : Keeps p x) (h : x s = .ok a t) :
    p t = p s := by
  have hs := hx s
  rw [h] at hs
  exact hs

theorem keeps_of_error {x : EStateM ε State α} {s t : State} {e : ε} (hx : Keeps p x)
    (h : x s = .error e t) : p t = p s := by
  have hs := hx s
  rw [h] at hs
  exact hs

end Keeps

section Preserves

variable {P : State → Prop}

theorem preserves_pure (a : α) : Preserves P (pure a : EStateM ε State α) :=
  fun _ hs => hs

theorem preserves_modify {g : State → State} (h : ∀ s, P s → P (g s)) :
    Preserves P (modify g : EStateM ε State Unit) :=
  h

theorem preserves_bind {x : EStateM ε State α} {f : α → EStateM ε State β} (hx : Preserves P x)
    (hf : ∀ a, Preserves P (f a)) : Preserves P (x >>= f) := by
  intro s hs
  have ht := hx s hs
  cases h : x s with
  | ok a t =>
    rw [h] at ht
    rw [bind_ok h]
    exact hf a t ht
  | error e t =>
    rw [h] at ht
    rw [bind_error h]
    exact ht

theorem preserves_lift {x : Access α} (hx : Preserves P x) : Preserves P (liftM x : Attempt α) := by
  intro s hs
  have ht := hx s hs
  cases h : x s with
  | ok a t =>
    rw [h] at ht
    rw [lift_ok h]
    exact ht
  | error e t =>
    rw [h] at ht
    rw [lift_error h]
    exact ht

theorem Preserves.of_ok {x : EStateM ε State α} {s t : State} {a : α} (hx : Preserves P x) (hs : P s)
    (h : x s = .ok a t) : P t := by
  have ht := hx s hs
  rw [h] at ht
  exact ht

theorem Preserves.of_error {x : EStateM ε State α} {s t : State} {e : ε} (hx : Preserves P x) (hs : P s)
    (h : x s = .error e t) : P t := by
  have ht := hx s hs
  rw [h] at ht
  exact ht

theorem Reads.preserves {x : EStateM ε State α} (h : Reads x) : Preserves P x := by
  intro s hs
  have hsame : leftBy (x s) = s := h s
  rw [hsame]
  exact hs

end Preserves

theorem commits_pure (a : α) : Commits (pure a) := by
  intro s e t h
  cases h

theorem commits_lift (x : Access α) : Commits (liftM x) := by
  intro s e t h
  cases hx : x s with
  | ok a u =>
    rw [lift_ok hx] at h
    cases h
  | error a u =>
    rw [lift_error hx] at h
    cases h
    exact ⟨a, rfl⟩

theorem commits_modify (g : State → State) : Commits (modify g) := by
  intro s e t h
  cases h

theorem commits_bind {x : Attempt α} {f : α → Attempt β} (hx : Commits x) (hf : ∀ a, Commits (f a)) :
    Commits (x >>= f) := by
  intro s e t h
  cases hs : x s with
  | ok a u =>
    rw [bind_ok hs] at h
    exact hf a u e t h
  | error e' u =>
    rw [bind_error hs] at h
    cases h
    exact hx s e t hs

theorem Commits.atomic {x : Attempt α} (h : Commits x) : Atomic x :=
  fun s e t hs => .inl (h s e t hs)

theorem Reads.atomic {x : Attempt α} (h : Reads x) : Atomic x := by
  intro s e t hs
  have hleft := h s
  rw [hs] at hleft
  exact .inr hleft

/-- Checks come first. -/
theorem atomic_bind_of_reads {x : Attempt α} {f : α → Attempt β} (hx : Reads x)
    (hf : ∀ a, Atomic (f a)) : Atomic (x >>= f) := by
  intro s e t h
  have hleft := hx s
  cases hs : x s with
  | ok a u =>
    rw [hs] at hleft
    rw [bind_ok hs] at h
    have hu : u = s := hleft
    subst u
    exact hf a s e t h
  | error e' u =>
    rw [hs] at hleft
    rw [bind_error hs] at h
    cases h
    exact .inr hleft

/-- Once something has changed, nothing is reported any more. -/
theorem atomic_bind_of_commits {x : Attempt α} {f : α → Attempt β} (hx : Atomic x)
    (hf : ∀ a, Commits (f a)) : Atomic (x >>= f) := by
  intro s e t h
  cases hs : x s with
  | ok a u =>
    rw [bind_ok hs] at h
    exact .inl (hf a u e t h)
  | error e' u =>
    rw [bind_error hs] at h
    cases h
    exact hx s e t hs

/-! ## Checks -/

theorem reads_cell (i : Int) : Reads (Access.cell i) := by
  intro s
  unfold Access.cell
  split <;> rfl

theorem reads_top : Reads Access.top :=
  keeps_bind keeps_get fun s => reads_cell s.sp

theorem reads_cellsBetween (low high : Int) : Reads (Access.cellsBetween low high) := by
  intro s
  unfold Access.cellsBetween
  split <;> rfl

theorem reads_global (i : Word) : Reads (Access.global i) := by
  intro s
  unfold Access.global
  split <;> rfl

theorem reads_idleFrame : Reads Access.idleFrame := by
  intro s
  unfold Access.idleFrame
  split <;> rfl

theorem reads_activeFrame : Reads Access.activeFrame := by
  intro s
  unfold Access.activeFrame
  split
  · rfl
  · split <;> rfl

namespace Attempt

theorem reads_refuse {α : Type} (reason : Reason) : Reads (refuse reason : Attempt α) :=
  keeps_throw _

theorem reads_require (p : Prop) [Decidable p] (reason : Reason) : Reads (require p reason) := by
  unfold require
  split
  · exact keeps_pure ()
  · exact reads_refuse reason

theorem reads_need (n : Nat) : Reads (need n) :=
  keeps_bind keeps_get fun _ => reads_require _ _

theorem reads_room : Reads room :=
  keeps_bind keeps_get fun _ => reads_require _ _

theorem reads_needGlobal (index : Word) : Reads (needGlobal index) :=
  keeps_bind keeps_get fun _ => reads_require _ _

theorem reads_needCallable (c : Setup) (d : Descriptor) : Reads (needCallable c d) :=
  keeps_bind keeps_get fun _ =>
    keeps_bind (reads_require _ _) fun _ => keeps_bind (reads_require _ _) fun _ => reads_require _ _

theorem reads_target (c : Setup) (w : Word) : Reads (target c w) := by
  unfold target
  split
  · exact keeps_pure _
  · exact reads_refuse _

end Attempt

/-! ## Changes

What an instruction changes is one of a few things, and a property that none of them affects outlasts every
instruction.
-/

/-- `P` outlasts all that an instruction changes, on its own or in one go with others. -/
structure Lasting (c : Setup) (P : State → Prop) : Prop where
  operands : ∀ s sp cells, P s → P { s with sp := sp, cells := cells }
  globals : ∀ s globals, globals.size = s.globals.size → P s → P { s with globals := globals }
  sink : ∀ s sink, P s → P { s with sink := sink }
  called : ∀ s, P s → P { s with stats := s.stats.countCall }
  returned : ∀ s, P s → P { s with stats := s.stats.countReturn }
  store : ∀ s i v, P s → P { s with arena := s.arena.modifyActive (·.setCell i v) }
  fill : ∀ s values, P s → P { s with arena := s.arena.modifyActive (·.fill values) }
  grow : ∀ s, P s → P { s with arena := s.arena.grow }
  leave : ∀ s, P s → P { s with arena := s.arena.leave }
  /-- The frame is made in the storage of the first one that is not active. -/
  enter : ∀ s id d f g returnAddress, c.table.lookup? id = some d → s.arena.frames[s.arena.depth]? = some f →
    f.resize d.frameSize = .ok g → P s →
    P { s with arena := s.arena.activate { g with
          function := d
          returnAddress := returnAddress
          invoker := s.arena.depth - 1 } }

namespace Lasting

variable {c : Setup} {P : State → Prop}

theorem preserves_setCell (h : Lasting c P) (i : Int) (w : Word) : Preserves P (Access.setCell i w) := by
  intro s hs
  unfold Access.setCell
  split
  · exact h.operands s s.sp _ hs
  · exact hs

theorem preserves_push (h : Lasting c P) (w : Word) : Preserves P (Access.push w) :=
  preserves_bind (preserves_modify fun s => h.operands s _ s.cells) fun _ =>
    preserves_bind (Reads.preserves keeps_get) fun _ => h.preserves_setCell _ w

theorem preserves_pop (h : Lasting c P) : Preserves P Access.pop :=
  preserves_bind reads_top.preserves fun _ =>
    preserves_bind (preserves_modify fun s => h.operands s _ s.cells) fun _ => preserves_pure _

theorem preserves_setGlobal (h : Lasting c P) (i w : Word) : Preserves P (Access.setGlobal i w) := by
  intro s hs
  unfold Access.setGlobal
  split
  · exact h.globals s _ Array.size_setIfInBounds hs
  · exact hs

theorem preserves_enter (h : Lasting c P) {id : Word} {d : Descriptor} (hd : c.table.lookup? id = some d)
    (returnAddress : Int) : Preserves P (Access.enter d returnAddress d.frameSize) := by
  intro s hs
  have hgrown := h.grow s hs
  unfold Access.enter
  rw [modify_bind]
  cases hf : s.arena.grow.frames[s.arena.grow.depth]? with
  | none =>
    rw [bind_error (by simp only [Access.idleFrame, hf]; rfl)]
    exact hgrown
  | some f =>
    rw [bind_ok (by simp only [Access.idleFrame, hf]; rfl)]
    cases hg : f.resize d.frameSize with
    | error a => exact hgrown
    | ok g => exact h.enter _ id d f g returnAddress hd hf hg hgrown

theorem preserves_takeArguments (h : Lasting c P) (n : Word) : Preserves P (Access.takeArguments n) :=
  preserves_bind (Reads.preserves keeps_get) fun _ =>
    preserves_bind (reads_cellsBetween _ _).preserves fun values => preserves_modify fun s hs =>
      h.operands _ _ s.cells (h.fill s values hs)

theorem preserves_leave (h : Lasting c P) : Preserves P Access.leave :=
  preserves_bind (preserves_modify h.leave) fun _ => reads_idleFrame.preserves

theorem preserves_write (h : Lasting c P) (piece : String) : Preserves P (Attempt.write piece) := by
  intro s hs
  unfold Attempt.write
  split
  · exact h.sink s _ hs
  · exact hs

theorem preserves_binary (h : Lasting c P) (f : Word → Word → Word) : Preserves P (Attempt.binary f) :=
  preserves_bind (Attempt.reads_need 2).preserves fun _ =>
    preserves_bind (preserves_lift h.preserves_pop) fun _ =>
      preserves_bind (preserves_lift h.preserves_pop) fun _ => preserves_lift (h.preserves_push _)

theorem preserves_branchOn (h : Lasting c P) (next : Nat) (taken w : Word) :
    Preserves P (Attempt.branchOn c next taken w) := by
  refine preserves_bind (Attempt.reads_need 1).preserves fun _ => ?_
  refine preserves_bind (preserves_lift reads_top.preserves) fun v => ?_
  split
  · refine preserves_bind (Attempt.reads_target c w).preserves fun _ => ?_
    exact preserves_bind (preserves_lift h.preserves_pop) fun _ => preserves_pure _
  · exact preserves_bind (preserves_lift h.preserves_pop) fun _ => preserves_pure _

theorem preserves_constant (h : Lasting c P) (w : Word) : Preserves P (Attempt.constant w) :=
  preserves_bind Attempt.reads_room.preserves fun _ => preserves_lift (h.preserves_push w)

theorem preserves_load (h : Lasting c P) (slot : Word) : Preserves P (Attempt.load slot) := by
  refine preserves_bind (preserves_lift reads_activeFrame.preserves) fun f => ?_
  split
  · exact (Attempt.reads_refuse _).preserves
  · exact h.preserves_constant _

theorem preserves_store (h : Lasting c P) (slot : Word) : Preserves P (Attempt.store slot) := by
  refine preserves_bind (preserves_lift reads_activeFrame.preserves) fun f => ?_
  split
  · exact (Attempt.reads_refuse _).preserves
  · refine preserves_bind (Attempt.reads_need 1).preserves fun _ => ?_
    exact preserves_bind (preserves_lift h.preserves_pop) fun v => preserves_modify fun s => h.store s _ v

theorem preserves_loadGlobal (h : Lasting c P) (index : Word) : Preserves P (Attempt.loadGlobal index) :=
  preserves_bind (Attempt.reads_needGlobal index).preserves fun _ =>
    preserves_bind Attempt.reads_room.preserves fun _ =>
      preserves_bind (preserves_lift (reads_global index).preserves) fun _ => preserves_lift (h.preserves_push _)

theorem preserves_storeGlobal (h : Lasting c P) (index : Word) : Preserves P (Attempt.storeGlobal index) :=
  preserves_bind (Attempt.reads_needGlobal index).preserves fun _ =>
    preserves_bind (Attempt.reads_need 1).preserves fun _ =>
      preserves_bind (preserves_lift h.preserves_pop) fun _ => preserves_lift (h.preserves_setGlobal index _)

theorem preserves_print (h : Lasting c P) : Preserves P Attempt.print :=
  preserves_bind (Attempt.reads_need 1).preserves fun _ =>
    preserves_bind (preserves_lift reads_top.preserves) fun _ =>
      preserves_bind (h.preserves_write _) fun _ =>
        preserves_bind (preserves_lift h.preserves_pop) fun _ => preserves_pure _

theorem preserves_drop (h : Lasting c P) : Preserves P Attempt.drop :=
  preserves_bind (Attempt.reads_need 1).preserves fun _ =>
    preserves_bind (preserves_lift h.preserves_pop) fun _ => preserves_pure _

theorem preserves_call (h : Lasting c P) (next : Nat) (id : Word) : Preserves P (Attempt.call c next id) := by
  unfold Attempt.call
  split
  next => exact (Attempt.reads_refuse _).preserves
  next hd =>
    refine preserves_bind (Attempt.reads_needCallable c _).preserves fun _ => ?_
    refine preserves_bind (preserves_lift (h.preserves_enter hd _)) fun _ => ?_
    refine preserves_bind (preserves_lift (h.preserves_takeArguments _)) fun _ => ?_
    exact preserves_bind (preserves_modify h.called) fun _ => preserves_pure _

theorem preserves_ret (h : Lasting c P) : Preserves P Attempt.ret := by
  refine preserves_bind (Reads.preserves keeps_get) fun s => ?_
  refine preserves_bind (Attempt.reads_require _ _).preserves fun _ => ?_
  refine preserves_bind (preserves_lift h.preserves_leave) fun _ => ?_
  exact preserves_bind (preserves_modify h.returned) fun _ => preserves_pure _

theorem preserves_apply (h : Lasting c P) (next : Nat) (i : Instr) : Preserves P (Attempt.apply c next i) := by
  cases i with
  | iadd | isub | imul | ilt | ieq => exact preserves_bind (h.preserves_binary _) fun _ => preserves_pure _
  | br t => exact (Attempt.reads_target c t).preserves
  | brt t | brf t => exact h.preserves_branchOn next _ t
  | iconst w => exact preserves_bind (h.preserves_constant _) fun _ => preserves_pure _
  | load slot => exact preserves_bind (h.preserves_load slot) fun _ => preserves_pure _
  | gload i => exact preserves_bind (h.preserves_loadGlobal i) fun _ => preserves_pure _
  | store slot => exact preserves_bind (h.preserves_store slot) fun _ => preserves_pure _
  | gstore i => exact preserves_bind (h.preserves_storeGlobal i) fun _ => preserves_pure _
  | print => exact preserves_bind h.preserves_print fun _ => preserves_pure _
  | pop => exact preserves_bind h.preserves_drop fun _ => preserves_pure _
  | call id => exact h.preserves_call next id
  | ret => exact h.preserves_ret
  | halt => exact preserves_pure _

end Lasting

/-! ## Control

Where the machine stands, its status, its trace and the counters of applied instructions are changed by a
finished cycle only, and the number of globals by nothing.
-/

def State.control (s : State) : Int × Status × String × UInt64 × Vector UInt64 18 × Nat × Nat :=
  (s.ip, s.status, s.trace, s.stats.cycleCounter, s.stats.opcodeCounters, s.stats.maxDepth, s.globals.size)

theorem lasting_control (c : Setup) (v : Int × Status × String × UInt64 × Vector UInt64 18 × Nat × Nat) :
    Lasting c fun s => s.control = v where
  operands _ _ _ hs := hs
  globals s globals hsize hs := by
    rw [← hs]
    simp only [State.control, hsize]
  sink _ _ hs := hs
  called _ hs := hs
  returned _ hs := hs
  store _ _ _ hs := hs
  fill _ _ hs := hs
  grow _ hs := hs
  leave _ hs := hs
  enter _ _ _ _ _ _ _ _ _ hs := hs

theorem Attempt.keeps_control_apply (c : Setup) (next : Nat) (i : Instr) : Keeps State.control (apply c next i) :=
  fun s => (lasting_control c s.control).preserves_apply next i s rfl

theorem traced_eq (s : State) (c : Setup) (line : Unit → String) :
    ∃ text, s.traced c line = { s with trace := text } := by
  unfold State.traced
  split
  · exact ⟨_, rfl⟩
  · exact ⟨s.trace, rfl⟩

theorem proceed_eq (c : Setup) (addr : Nat) (op : Opcode) (ip : Int) (s : State) :
    ∃ text, proceed c addr op ip s =
      { s with ip := ip, stats := s.stats.record op s.depth, trace := text } := by
  obtain ⟨text, h⟩ := traced_eq { s with ip := ip, stats := s.stats.record op s.depth } c
    fun _ => cycleLine c addr s.stack s.calls
  exact ⟨text, h⟩

theorem halt_eq (c : Setup) (s : State) :
    ∃ text, halt c s = { s with status := .halted, trace := text } := by
  obtain ⟨text, h⟩ := traced_eq s c fun _ => haltLines c s.ip s.stack s.globals
  exact ⟨text, by rw [halt, h]⟩

theorem proceed_status (c : Setup) (addr : Nat) (op : Opcode) (ip : Int) (s : State) :
    (proceed c addr op ip s).status = s.status := by
  obtain ⟨text, h⟩ := proceed_eq c addr op ip s
  rw [h]

/-! ## What a cycle comes to -/

/-- Nothing can be applied at the instruction pointer, and this is what is reported. -/
inductive Unfetched (c : Setup) (s : State) : Word → Reason → Prop
  | outside (h : s.ip < 0 ∨ c.code.size < s.ip) : Unfetched c s 0 (.pointerOutside s.ip c.code.size)
  | invalid {w : Word} (h0 : 0 ≤ s.ip) (h : fetch? c.code s.ip.toNat = some (.invalid w)) :
    Unfetched c s w (.invalidOpcode w)
  | truncated {op : Opcode} (h0 : 0 ≤ s.ip) (h : fetch? c.code s.ip.toNat = some (.truncated op)) :
    Unfetched c s op.word (.truncated op)

/-- The instruction to apply stands at the instruction pointer. -/
structure Fetches (c : Setup) (s : State) (i : Instr) : Prop where
  nonneg : 0 ≤ s.ip
  fetched : fetch? c.code s.ip.toNat = some (.instr i)
  applicable : i ≠ .halt

inductive Cycles (c : Setup) (s : State) : EStateM.Result Abandoned State Unit → Prop
  | halts (h : s.ip = c.code.size ∨ 0 ≤ s.ip ∧ fetch? c.code s.ip.toNat = some (.instr .halt)) :
    Cycles c s (.ok () (halt c s))
  | stuck {opcode : Word} {reason : Reason} (h : Unfetched c s opcode reason) :
    Cycles c s (.ok () (s.fault s.ip opcode reason))
  | proceeds {i : Instr} {ip : Int} {t : State} (hi : Fetches c s i)
    (h : Attempt.apply c (s.ip.toNat + i.size) i s = .ok ip t) :
    Cycles c s (.ok () (proceed c s.ip.toNat i.opcode ip t))
  | faults {i : Instr} {reason : Reason} {t : State} (hi : Fetches c s i)
    (h : Attempt.apply c (s.ip.toNat + i.size) i s = .error (.fault reason) t) :
    Cycles c s (.ok () (t.fault s.ip i.opcode.word reason))
  | refused {i : Instr} {text : String} {t : State} (hi : Fetches c s i)
    (h : Attempt.apply c (s.ip.toNat + i.size) i s = .error (.refused text) t) :
    Cycles c s (.ok () (t.fail (.print s.ip.toNat text)))
  | abandoned {i : Instr} {a : Abandoned} {t : State} (hi : Fetches c s i)
    (h : Attempt.apply c (s.ip.toNat + i.size) i s = .error (.abandoned a) t) :
    Cycles c s (.error a t)

theorem cycles_perform {c : Setup} {s : State} {i : Instr} (hi : Fetches c s i) :
    Cycles c s (perform c s.ip.toNat i s) := by
  have hip : (s.ip.toNat : Int) = s.ip := Int.toNat_of_nonneg hi.nonneg
  unfold perform
  split
  next h => exact .proceeds hi h
  next h =>
    rw [hip]
    exact .faults hi h
  next h => exact .refused hi h
  next h => exact .abandoned hi h

theorem cycle_cases (c : Setup) (s : State) : Cycles c s (cycle c s) := by
  unfold cycle
  split
  next h => exact .halts (.inl h)
  next hend =>
    split
    next h => exact .stuck (.outside (.inl h))
    next hneg =>
      have h0 : 0 ≤ s.ip := by omega
      split
      next h =>
        have hle := fetch?_eq_none_iff.mp h
        exact .stuck (.outside (.inr (by omega)))
      next h => exact .stuck (.invalid h0 h)
      next h => exact .stuck (.truncated h0 h)
      next h => exact .halts (.inr ⟨h0, h⟩)
      next hne h => exact cycles_perform ⟨h0, h, hne⟩

section Fetched

variable {c : Setup} {s : State} {i : Instr}

theorem inside_of_fetch? {f : Fetched} (h0 : 0 ≤ s.ip) (hf : fetch? c.code s.ip.toNat = some f) :
    s.ip ≠ c.code.size ∧ ¬ s.ip < 0 := by
  have hlt : ¬ c.code.size ≤ s.ip.toNat := by
    intro hle
    rw [fetch?_eq_none_iff.mpr hle] at hf
    cases hf
  omega

theorem cycle_of_unfetched {opcode : Word} {reason : Reason} (h : Unfetched c s opcode reason) :
    cycle c s = .ok () (s.fault s.ip opcode reason) := by
  cases h with
  | outside h =>
    have hend : s.ip ≠ c.code.size := by omega
    unfold cycle
    rw [if_neg hend]
    split
    · rfl
    · rw [fetch?_eq_none_iff.mpr (by omega)]
  | invalid h0 h =>
    obtain ⟨hend, hneg⟩ := inside_of_fetch? h0 h
    unfold cycle
    rw [if_neg hend, if_neg hneg, h]
  | truncated h0 h =>
    obtain ⟨hend, hneg⟩ := inside_of_fetch? h0 h
    unfold cycle
    rw [if_neg hend, if_neg hneg, h]

theorem cycle_of_fetches (h : Fetches c s i) : cycle c s = perform c s.ip.toNat i s := by
  obtain ⟨hend, hneg⟩ := inside_of_fetch? h.nonneg h.fetched
  unfold cycle
  rw [if_neg hend, if_neg hneg, h.fetched]
  cases i with
  | halt => exact (h.applicable rfl).elim
  | _ => rfl

end Fetched

/-- A cycle that is abandoned has not got past its instruction. -/
theorem cycle_abandoned_control {c : Setup} {s t : State} {a : Abandoned} (h : cycle c s = .error a t) :
    t.control = s.control := by
  have hcases := cycle_cases c s
  rw [h] at hcases
  cases hcases with
  | abandoned hi happly => exact keeps_of_error (Attempt.keeps_control_apply c _ _) happly

/-- A cycle after which the machine still runs has applied an instruction. -/
theorem cycle_running {c : Setup} {s t : State} (h : cycle c s = .ok () t) (ht : t.status = .running) :
    ∃ i ip u, Fetches c s i ∧ Attempt.apply c (s.ip.toNat + i.size) i s = .ok ip u ∧
      t = proceed c s.ip.toNat i.opcode ip u := by
  have hcases := cycle_cases c s
  rw [h] at hcases
  cases hcases with
  | halts | stuck | faults | refused => cases ht
  | proceeds hi happly => exact ⟨_, _, _, hi, happly, rfl⟩

theorem step_of_cycle_ok {m : Machine} {t : State} (hrun : m.state.status = .running)
    (h : cycle m.setup m.state = .ok () t) : m.step = ({ m with state := t }, outcome t none) := by
  simp only [step, hrun, Status.isRunning, if_true, h]

theorem step_of_cycle_error {m : Machine} {t : State} {a : Abandoned} (hrun : m.state.status = .running)
    (h : cycle m.setup m.state = .error a t) : m.step = ({ m with state := t }, some (.abandoned a)) := by
  simp only [step, hrun, Status.isRunning, if_true, h]

end StackMachine.Machine
