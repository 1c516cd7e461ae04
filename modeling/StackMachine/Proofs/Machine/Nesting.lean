import StackMachine.Proofs.Machine.Calls
import StackMachine.Proofs.Machine.Representation

/-!
# Calls are nested

A call puts a frame made of the topmost operands on the frames that are there. Until the depth is the caller's
again nothing in the run touches those frames, and what brings it back is the return from the frame that the
call made, to the address after the call.
-/

set_option autoImplicit false

namespace StackMachine.Machine

variable {c : Setup} {s t : State}

/-- A pass of a run leads from `s` to `t`, under whatever context. -/
def Moves (c : Setup) (s t : State) : Prop :=
  s.status = .running ∧ ∃ ctx, leftBy (pass c ctx s) = t

/-- A single step is a pass that nothing can cancel. -/
theorem moves_step {m : Machine} (hrun : m.state.status = .running) :
    Moves m.setup m.state m.step.1.state := by
  have hconsult := consult_unlimited m.setup m.state
  refine ⟨hrun, .unlimited, ?_⟩
  cases h : cycle m.setup m.state with
  | ok _ t =>
    rw [pass_cycled hconsult h, step_of_cycle_ok hrun h]
    rfl
  | error a t =>
    rw [pass_abandoned hconsult h, step_of_cycle_error hrun h]
    rfl

theorem leftBy_pass {ctx ctx' : Context} (h : consult c s ctx = .ok ctx') : leftBy (pass c ctx s) = leftBy (cycle c s) := by
  cases hcycle : cycle c s with
  | ok _ t =>
    rw [pass_cycled h hcycle]
    rfl
  | error a t =>
    rw [pass_abandoned h hcycle]
    rfl

/-- A pass applies an instruction, or it leaves pointer and frames alone. -/
theorem flow_of_moves (h : Sound c s) (hmoves : Moves c s t) :
    Sound c t ∧ (t.ip = s.ip ∧ t.view.frames = s.view.frames ∨
      ∃ i y, Fetches c s i ∧ Flow c (s.ip.toNat + i.size) i s.view (.ok (t.ip, y)) ∧
        t.view.frames = y.frames) := by
  obtain ⟨-, ctx, rfl⟩ := hmoves
  cases hconsult : consult c s ctx with
  | error why =>
    rw [pass_cancelled hconsult]
    exact ⟨{ h with }, .inl ⟨rfl, rfl⟩⟩
  | ok ctx' =>
    rw [leftBy_pass hconsult]
    obtain ⟨hsound, -, hcycled⟩ := cycle_flow h
    refine ⟨hsound, ?_⟩
    cases hcycled with
    | moved hi hflow hframes _ => exact .inr ⟨_, _, hi, hflow, hframes⟩
    | stayed hip hframes _ => exact .inl ⟨hip, hframes⟩

/-! ## Entering a function -/

/-- `t` is where a call of `d` leads from `s`. -/
structure Entered (d : Descriptor) (s t : State) : Prop where
  arguments : d.args.toInt ≤ s.stack.length
  /-- The call takes its arguments off the stack, and nothing else. -/
  stack : t.stack = s.stack.drop d.args.toInt.toNat
  /-- The arguments in the order they were pushed in, then zeros. -/
  frames : ∃ f, t.view.frames = f :: s.view.frames ∧ f.function = d ∧ f.returnAddress = s.ip + 2 ∧
    f.slots = (s.stack.take d.args.toInt.toNat).reverse ++ List.replicate d.locals.toInt.toNat 0
  pointer : t.ip = d.address.toInt

theorem Configuration.call_eq_ok {next : Nat} {id : Word} {x y : Configuration} {ip : Int}
    (h : call c next id x = .ok (ip, y)) :
    ∃ d, c.table.lookup? id = some d ∧ d.args.toInt ≤ x.stack.length ∧ ip = d.address.toInt ∧
      y.stack = x.stack.drop d.args.toInt.toNat ∧ y.frames = x.activation d next :: x.frames := by
  have hcases := call_cases c next id x
  rw [h] at hcases
  cases hcases with
  | made hd hcallable => exact ⟨_, hd, hcallable.arguments, rfl, rfl, rfl⟩

theorem entered_of_cycle {id : Word} (h : Sound c s) (hi : Fetches c s (.call id)) (hcycle : cycle c s = .ok () t)
    (ht : t.status = .running) : ∃ d, c.table.lookup? id = some d ∧ Entered d s t := by
  obtain ⟨i, ip, u, hi', happly, rfl⟩ := cycle_running hcycle ht
  obtain ⟨text, htext⟩ := proceed_eq c s.ip.toNat i.opcode ip u
  have hcall : i = .call id := by
    have hfetched := hi.fetched
    rw [hi'.fetched] at hfetched
    cases hfetched
    rfl
  subst hcall
  have hagrees := Attempt.agrees_apply (s.ip.toNat + (Instr.call id).size) (.call id) h
  rw [happly] at hagrees
  generalize hresult : Configuration.apply c _ (.call id) s.view = r at hagrees
  cases hagrees with
  | ok sound =>
    obtain ⟨d, hd, hargs, hip, hstack, hframes⟩ := Configuration.call_eq_ok hresult
    have hnonneg := hi.nonneg
    have htwo : (Instr.call id).size = 2 := rfl
    rw [htext]
    refine ⟨d, hd, hargs, hstack, ⟨_, hframes, rfl, ?_, rfl⟩, hip⟩
    simp only [Configuration.activation, htwo]
    omega

/-! ## Until the return -/

/-- The given frames lie under others, the lowest of which returns to `back`. -/
def Suspended (frames : List Activation) (back : Int) (t : State) : Prop :=
  ∃ inner f, t.view.frames = inner ++ f :: frames ∧ f.returnAddress = back

/-- The given frames are all there is again, by a return from `s` to `back`. -/
structure Resumed (c : Setup) (frames : List Activation) (back : Int) (s t : State) : Prop where
  returns : Fetches c s .ret
  pointer : t.ip = back
  frames : t.view.frames = frames

section Suspended

variable {frames : List Activation} {back : Int}

theorem Suspended.depth_lt (h : Suspended frames back t) (ht : Sound c t) : frames.length < t.depth := by
  obtain ⟨inner, f, hframes, -⟩ := h
  rw [ht.depth_eq, hframes]
  simp only [List.length_append, List.length_cons]
  omega

/-- Only a return from the lowest of the other frames gets to the frames that lie under them. -/
theorem suspended_flow {next : Nat} {i : Instr} {x y : Configuration} {ip : Int} {inner : List Activation}
    {f : Activation} (hx : x.frames = inner ++ f :: frames) (h : Flow c next i x (.ok (ip, y))) :
    (∃ inner' f', y.frames = inner' ++ f' :: frames ∧ f'.returnAddress = f.returnAddress) ∨
      (i = .ret ∧ ip = f.returnAddress ∧ y.frames = frames) := by
  cases h with
  | advance hy => exact .inl ⟨inner, f, hy.trans hx, rfl⟩
  | branch _ _ hy => exact .inl ⟨inner, f, hy.trans hx, rfl⟩
  | store hf hy =>
    rw [hf] at hx
    cases inner with
    | nil =>
      obtain ⟨rfl, rfl⟩ := List.cons.inj hx
      exact .inl ⟨[], _, hy, rfl⟩
    | cons g inner =>
      obtain ⟨rfl, rfl⟩ := List.cons.inj hx
      exact .inl ⟨_ :: inner, f, hy, rfl⟩
  | call _ _ _ _ _ hy =>
    rw [hx] at hy
    exact .inl ⟨_ :: inner, f, hy, rfl⟩
  | ret hi hf hy =>
    rw [hf] at hx
    cases inner with
    | nil =>
      obtain ⟨rfl, hrest⟩ := List.cons.inj hx
      exact .inr ⟨hi, rfl, hy.trans hrest⟩
    | cons g inner =>
      obtain ⟨-, hrest⟩ := List.cons.inj hx
      exact .inl ⟨inner, f, hy.trans hrest, rfl⟩

theorem suspended_moves (hs : Sound c s) (h : Suspended frames back s) (hmoves : Moves c s t) :
    Suspended frames back t ∨ Resumed c frames back s t := by
  obtain ⟨inner, f, hframes, rfl⟩ := h
  obtain ⟨-, ⟨-, hsame⟩ | ⟨i, y, hi, hflow, hy⟩⟩ := flow_of_moves hs hmoves
  · exact .inl ⟨inner, f, hsame.trans hframes, rfl⟩
  · obtain ⟨inner', f', hy', hback⟩ | ⟨rfl, hip, hy'⟩ := suspended_flow hframes hflow
    · exact .inl ⟨inner', f', hy.trans hy', hback⟩
    · exact .inr ⟨hi, hip, hy.trans hy'⟩

end Suspended

/-! ## Runs -/

/-- The states of a run, or of a part of it, up to its `n`-th pass. -/
def Trail (c : Setup) (n : Nat) (trail : Nat → State) : Prop :=
  ∀ k < n, Moves c (trail k) (trail (k + 1))

def preceded (s : State) (trail : Nat → State) : Nat → State
  | 0 => s
  | k + 1 => trail k

section Trail

variable {trail : Nat → State} {n i : Nat}

theorem Trail.preceded (h : Trail c n trail) (hs : Moves c s (trail 0)) : Trail c (n + 1) (preceded s trail) := by
  intro k hk
  cases k with
  | zero => exact hs
  | succ k => exact h k (by omega)

theorem trail_run {ctx : Context} {r : State × Option Abandoned} (h : c.run ctx s = some r) :
    ∃ trail n, trail 0 = s ∧ trail n = r.1 ∧ Trail c n trail := by
  refine Setup.run.partial_correctness c (fun _ s r => ∃ trail n, trail 0 = s ∧ trail n = r.1 ∧ Trail c n trail) ?_
    ctx s r h
  intro run' ih ctx s r hr
  by_cases hrun : s.status = .running
  · have hmoves : Moves c s (leftBy (pass c ctx s)) := ⟨hrun, ctx, rfl⟩
    rw [if_pos (isRunning_eq_true_iff.mpr hrun)] at hr
    cases hpass : pass c ctx s with
    | ok ctx' t =>
      rw [hpass] at hr hmoves
      obtain ⟨trail, n, rfl, hn, htrail⟩ := ih ctx' t r hr
      exact ⟨preceded s trail, n + 1, rfl, hn, htrail.preceded hmoves⟩
    | error a t =>
      rw [hpass] at hr hmoves
      cases hr
      refine ⟨preceded s fun _ => t, 1, rfl, rfl, Trail.preceded ?_ hmoves⟩
      intro k hk
      omega
  · rw [isRunning_eq_false hrun] at hr
    cases hr
    refine ⟨fun _ => s, 0, rfl, rfl, ?_⟩
    intro k hk
    omega

theorem trail_execute? {m : Machine} {history : List Request} {ctx : Context} {address : Word}
    {r : Machine × Option Failure} (h : (m.serve history).execute? ctx address = some r) :
    ∃ trail n, trail 0 = (m.serve (history ++ [.start address])).state ∧ trail n = r.1.state ∧
      Trail m.setup n trail := by
  rw [execute?_eq_run, setup_serve] at h
  obtain ⟨r, hrun, rfl⟩ := Option.map_eq_some_iff.mp h
  rw [serve_start]
  exact trail_run hrun

theorem trail_steps {m : Machine} {history : List Request}
    (h : ∀ k < n, (m.serve (history ++ List.replicate k .step)).state.status = .running) :
    Trail m.setup n fun k => (m.serve (history ++ List.replicate k .step)).state := by
  intro k hk
  have hmoves := moves_step (h k hk)
  rw [setup_serve] at hmoves
  simp only [List.replicate_succ', ← List.append_assoc, serve_append _ _ [.step]]
  exact hmoves

theorem Trail.sound (h : Trail c n trail) (h0 : Sound c (trail 0)) {k : Nat} (hk : k ≤ n) :
    Sound c (trail k) := by
  induction k with
  | zero => exact h0
  | succ k ih => exact (flow_of_moves (ih (by omega)) (h k hk)).1

/-- As long as the depth is not that of the caller, the caller's frames are suspended. When it is for the first
time, they have just been resumed. -/
theorem Trail.nested {frames : List Activation} {back : Int} (h : Trail c n trail) (h0 : Sound c (trail 0))
    (hi : Suspended frames back (trail (i + 1))) (k : Nat) (hk : i + 1 + k ≤ n)
    (hdepth : ∀ l, i < l → l < i + 1 + k → (trail l).depth ≠ frames.length) :
    Suspended frames back (trail (i + 1 + k)) ∨
      Resumed c frames back (trail (i + k)) (trail (i + 1 + k)) := by
  induction k with
  | zero => exact .inl hi
  | succ k ih =>
    have hsound := h.sound h0 (show i + 1 + k ≤ n by omega)
    obtain hsuspended | hresumed := ih (by omega) fun l hl hlk => hdepth l hl (by omega)
    · have hmoves := h (i + 1 + k) (by omega)
      rw [show i + (k + 1) = i + 1 + k by omega]
      exact suspended_moves hsound hsuspended hmoves
    · -- The depth would have been the caller's before.
      refine (hdepth (i + 1 + k) (by omega) (by omega) ?_).elim
      rw [hsound.depth_eq, hresumed.frames]

end Trail

/-- Executions of a machine are trails from where they start. On every trail, wherever it sets out from, a call
that is made enters the function with the topmost operands as its low slots and zeros above. From then on the
frames of the caller stay as they are under other frames until the depth is the caller's again, and then that has
come by a return to the address after the call, with the caller's frames as they were. -/
theorem calls_nested (code : Array Word) (globals : Word) (table : FunctionTable) (o : Options)
    (hglobals : 0 ≤ globals) (hallocates : Allocates globals (Limits.adjust {} o.sizing)) :
    ∃ m, make code globals (some table) {} o = .ok m ∧ m.setup.code = code ∧ m.setup.table = table ∧
      (∀ history ctx address r, (m.serve history).execute? ctx address = some r →
        ∃ trail n, trail 0 = (m.serve (history ++ [.start address])).state ∧ trail n = r.1.state ∧
          Trail m.setup n trail) ∧
      ∀ history trail n, trail 0 = (m.serve history).state → Trail m.setup n trail →
        ∀ i id, i < n → Fetches m.setup (trail i) (.call id) →
          cycle m.setup (trail i) = .ok () (trail (i + 1)) → (trail (i + 1)).status = .running →
          (∃ d, table.lookup? id = some d ∧ Entered d (trail i) (trail (i + 1))) ∧
          ∀ j, i < j → j ≤ n → (∀ k, i < k → k < j → (trail k).depth ≠ (trail i).depth) →
            ((trail j).depth ≠ (trail i).depth → (trail i).depth < (trail j).depth ∧
              ∃ inner, (trail j).view.frames = inner ++ (trail i).view.frames) ∧
            ((trail j).depth = (trail i).depth →
              Resumed m.setup (trail i).view.frames ((trail i).ip + 2) (trail (j - 1)) (trail j)) := by
  obtain ⟨m, hm, hcode, htable, hlimits, -, hready, hsound⟩ := make_eq_ok code table {} o hglobals
    hallocates
  have hdepth : 1 ≤ m.setup.limits.maxDepth := by
    rw [hlimits]
    exact Limits.adjust_maxDepth_pos _ (by decide)
  have hready' : m.state.status ≠ .running := by
    rw [hready]
    intro h
    cases h
  refine ⟨m, hm, hcode, htable, fun _ _ _ _ => trail_execute?, ?_⟩
  intro history trail n h0 htrail i id hi hcall hcycle hrunning
  have hstart : Sound m.setup (trail 0) := by
    rw [h0]
    exact ((stands_invariant hdepth).serve ⟨hsound, hready'⟩ history).sound
  have hcaller := htrail.sound hstart (Nat.le_of_lt hi)
  obtain ⟨d, hd, hentered⟩ := entered_of_cycle hcaller hcall hcycle hrunning
  refine ⟨⟨d, htable ▸ hd, hentered⟩, ?_⟩
  intro j hij hj hapart
  obtain ⟨f, hframes, -, hback, -⟩ := hentered.frames
  obtain ⟨k, rfl⟩ : ∃ k, j = i + 1 + k := ⟨j - (i + 1), by omega⟩
  rw [show i + 1 + k - 1 = i + k by omega]
  rw [hcaller.depth_eq] at hapart ⊢
  obtain hsuspended | hresumed := htrail.nested hstart ⟨[], f, hframes, hback⟩ k hj hapart
  · have hlt := hsuspended.depth_lt (htrail.sound hstart hj)
    obtain ⟨inner, g, hinner, -⟩ := hsuspended
    exact ⟨fun _ => ⟨hlt, inner ++ [g], by simp [hinner]⟩, fun heq => by omega⟩
  · refine ⟨fun hne => (hne ?_).elim, fun _ => hresumed⟩
    rw [(htrail.sound hstart hj).depth_eq, hresumed.frames]

/-- `main` calls `f` with two arguments, and `f` calls `g` with the second one. -/
def chainTable : FunctionTable where
  entries := #[{ name := "main" }, { name := "f", args := 2, locals := 1, address := 7 },
    { name := "g", args := 1, address := 12 }]
  size_pos := by decide
  nonneg := by decide

def chainCode : Array Word :=
  #[9, 7, 9, 8, 16, 1, 18, 10, 1, 16, 2, 17, 17]

/-- The third step calls `f`, and the seventh returns from it. -/
theorem chain_resumed :
    0 ≤ (0 : Word) ∧ Allocates 0 (Limits.adjust {} { stackSize := some 4 }) ∧
    ∃ m, make chainCode 0 (some chainTable) {} { sizing := { stackSize := some 4 } } = .ok m ∧
      Fetches m.setup (m.serve (.start 0 :: List.replicate 2 .step)).state (.call 1) ∧
      Resumed m.setup (m.serve (.start 0 :: List.replicate 2 .step)).state.view.frames 6
        (m.serve (.start 0 :: List.replicate 6 .step)).state
        (m.serve (.start 0 :: List.replicate 7 .step)).state := by
  obtain ⟨m, hm, -, -, -, h⟩ := calls_nested chainCode 0 chainTable { sizing := { stackSize := some 4 } }
    (by decide) (by decide)
  have hcall : Fetches m.setup (m.serve (.start 0 :: List.replicate 2 .step)).state (.call 1) := by
    cases hm
    exact ⟨by decide, rfl, by decide⟩
  have hcycle : cycle m.setup (m.serve (.start 0 :: List.replicate 2 .step)).state =
      .ok () (m.serve (.start 0 :: List.replicate 3 .step)).state := by
    cases hm
    rfl
  have hrunning : ∀ k < 7, (m.serve ([.start 0] ++ List.replicate k .step)).state.status = .running := by
    cases hm
    intro k hk
    match k with
    | 0 | 1 | 2 | 3 | 4 | 5 | 6 => rfl
  have hapart : ∀ k, 2 < k → k < 7 → (m.serve (.start 0 :: List.replicate k .step)).state.depth ≠
      (m.serve (.start 0 :: List.replicate 2 .step)).state.depth := by
    cases hm
    intro k hk hk'
    match k with
    | 3 | 4 | 5 | 6 => decide
  have hreturned : (m.serve (.start 0 :: List.replicate 7 .step)).state.depth =
      (m.serve (.start 0 :: List.replicate 2 .step)).state.depth := by
    cases hm
    rfl
  have hip : (m.serve (.start 0 :: List.replicate 2 .step)).state.ip = 4 := by
    cases hm
    rfl
  have hnested := h [.start 0] _ 7 rfl (trail_steps hrunning) 2 1 (by decide) hcall hcycle
    (hrunning 3 (by decide))
  have hresumed := (hnested.2 7 (by decide) (by decide) hapart).2 hreturned
  refine ⟨by decide, by decide, m, hm, hcall, ?_⟩
  rw [show (6 : Int) = 4 + 2 by decide, ← hip]
  exact hresumed

end StackMachine.Machine
