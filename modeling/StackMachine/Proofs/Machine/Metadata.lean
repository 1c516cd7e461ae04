import StackMachine.Proofs.Machine.Nesting
import StackMachine.Proofs.Machine.Observation

/-!
# What opcodes say about their execution

The numbers that are fixed by an opcode are those of its execution. An instruction that is applied takes as many
operands as its opcode says, a call as many as its callee has arguments, and puts as many values in their place as its
opcode says; what lies below stays. It goes on after its own words unless it branches, calls or returns. Too few
operands are a fault. Counters and frames are changed by calls and returns alone.
-/

set_option autoImplicit false

namespace StackMachine

/-- Operands that an instruction takes: what its opcode says, or the arguments of the function that it calls. A call of
no function has no such number. -/
def Instr.takes? (t : FunctionTable) : Instr → Option Nat
  | call id => (t.lookup? id).map (·.args.toInt.toNat)
  | i => i.opcode.pops

/-- Whether an instruction goes on elsewhere than after its own words, given the operands. -/
def Instr.departs : Instr → List Word → Bool
  | br _, _ => true
  | brt _, v :: _ => v == 1
  | brf _, v :: _ => v == 0
  | call _, _ => true
  | ret, _ => true
  | _, _ => false

namespace Machine

/-! ## Instructions -/

/-- The topmost `p` operands have given way to `q` others. No frame was entered or left, and nothing was counted. -/
structure Exchanges (p q : Nat) (x y : Configuration) : Prop where
  enough : p ≤ x.stack.length
  stack : ∃ values : List Word, values.length = q ∧ y.stack = values ++ x.stack.drop p
  depth : y.frames.length = x.frames.length
  stats : y.stats = x.stats

/-- What has become of `x` when an instruction was applied that goes on at `ip`. -/
inductive Effect (c : Setup) (next : Nat) (x : Configuration) : Instr → Int → Configuration → Prop
  | exchange {i : Instr} {p : Nat} {ip : Int} {y : Configuration} (hi : i ≠ .ret) (hp : i.opcode.pops = some p)
    (h : Exchanges p i.opcode.pushes x y) (hip : i.departs x.stack = false → ip = next) : Effect c next x i ip y
  | call {id : Word} {d : Descriptor} {ip : Int} {y : Configuration} (hd : c.table.lookup? id = some d)
    (hargs : d.args.toInt.toNat ≤ x.stack.length) (hstack : y.stack = x.stack.drop d.args.toInt.toNat)
    (hdepth : y.frames.length = x.frames.length + 1) (hlimit : y.frames.length ≤ c.limits.maxDepth)
    (hstats : y.stats = x.stats.countCall) : Effect c next x (.call id) ip y
  | ret {ip : Int} {y : Configuration} (hstack : y.stack = x.stack) (hdepth : x.frames.length = y.frames.length + 1)
    (hactive : 0 < y.frames.length) (hstats : y.stats = x.stats.countReturn) : Effect c next x .ret ip y

namespace Configuration

section Exchanges

variable {c : Setup} {next : Nat} {i : Instr} {x y : Configuration} {ip : Int}

theorem exchanges_refl (x : Configuration) : Exchanges 0 0 x x :=
  ⟨Nat.zero_le _, ⟨[], rfl, rfl⟩, rfl, rfl⟩

theorem exchanges_push {w : Word} (h : push c w x = .ok ((), y)) : Exchanges 0 1 x y := by
  unfold push at h
  split at h
  · cases h
    exact ⟨Nat.zero_le _, ⟨[w], rfl, rfl⟩, rfl, rfl⟩
  · cases h

theorem exchanges_binary {f : Word → Word → Word} (h : binary f x = .ok ((), y)) : Exchanges 2 1 x y := by
  unfold binary at h
  split at h
  next b a rest hs =>
    cases h
    refine ⟨?_, ⟨[f a b], rfl, ?_⟩, rfl, rfl⟩
    · rw [hs]
      exact Nat.le_add_left 2 rest.length
    · rw [hs]
      rfl
  next => cases h

/-- What goes on with the topmost operand leaves the others alone. -/
theorem exchanges_withTop {α : Type} {f : Word → Transition α} {a : α}
    (hf : ∀ v z, f v z = .ok (a, y) → Exchanges 0 0 z y) (h : withTop f x = .ok (a, y)) : Exchanges 1 0 x y := by
  unfold withTop at h
  split at h
  next => cases h
  next v rest hs =>
    obtain ⟨-, ⟨values, hlength, hstack⟩, hdepth, hstats⟩ := hf v _ h
    refine ⟨?_, ⟨values, hlength, ?_⟩, hdepth, hstats⟩
    · rw [hs]
      exact Nat.le_add_left 1 rest.length
    · rw [hstack, hs]
      rfl

theorem exchanges_target {w : Word} (h : target c w x = .ok (ip, y)) : Exchanges 0 0 x y := by
  unfold target at h
  split at h
  · cases h
    exact exchanges_refl x
  · cases h

theorem exchanges_branchOn {taken w : Word} (h : branchOn c next taken w x = .ok (ip, y)) : Exchanges 1 0 x y := by
  refine exchanges_withTop ?_ h
  intro v z hgoes
  split at hgoes
  · exact exchanges_target hgoes
  · cases hgoes
    exact exchanges_refl _

theorem exchanges_load {slot : Word} (h : load c slot x = .ok ((), y)) : Exchanges 0 1 x y := by
  unfold load at h
  split at h
  next => cases h
  next =>
    split at h
    next => cases h
    next => exact exchanges_push h

theorem exchanges_store {slot : Word} (h : store slot x = .ok ((), y)) : Exchanges 1 0 x y := by
  unfold store at h
  split at h
  next => cases h
  next f rest hf =>
    split at h
    next => cases h
    next n _ =>
      -- The frame that is written to stays where it is.
      unfold withTop at h
      split at h
      next => cases h
      next v ws hs =>
        cases h
        refine ⟨?_, ⟨[], rfl, ?_⟩, ?_, rfl⟩
        · rw [hs]
          exact Nat.le_add_left 1 ws.length
        · rw [hs]
          rfl
        · rw [hf]
          rfl

theorem exchanges_loadGlobal {index : Word} (h : loadGlobal c index x = .ok ((), y)) : Exchanges 0 1 x y := by
  unfold loadGlobal at h
  split at h
  next => cases h
  next => exact exchanges_push h

theorem exchanges_storeGlobal {index : Word} (h : storeGlobal index x = .ok ((), y)) : Exchanges 1 0 x y := by
  unfold storeGlobal at h
  split at h
  next => cases h
  next =>
    refine exchanges_withTop ?_ h
    intro v z hstored
    cases hstored
    exact { exchanges_refl z with }

theorem exchanges_print (h : print x = .ok ((), y)) : Exchanges 1 0 x y := by
  refine exchanges_withTop ?_ h
  intro v z hprinted
  split at hprinted
  · cases hprinted
    exact { exchanges_refl z with }
  · cases hprinted

theorem exchanges_drop (h : drop x = .ok ((), y)) : Exchanges 1 0 x y := by
  refine exchanges_withTop ?_ h
  intro v z hdropped
  cases hdropped
  exact exchanges_refl _

/-- An instruction that only computes goes on after its own words. -/
theorem effect_andThen {t : Transition Unit} {p : Nat} (hi : i ≠ .ret) (hp : i.opcode.pops = some p)
    (ht : t x = .ok ((), y) → Exchanges p i.opcode.pushes x y) (h : andThen next t x = .ok (ip, y)) :
    Effect c next x i ip y := by
  unfold andThen at h
  split at h
  next z hz =>
    cases h
    exact .exchange hi hp (ht hz) fun _ => rfl
  next => cases h

/-- A branch that does not depart was not taken. -/
theorem next_of_branchOn {taken w : Word} (htaken : ∀ v rest, x.stack = v :: rest → v ≠ taken)
    (h : branchOn c next taken w x = .ok (ip, y)) : ip = next := by
  unfold branchOn withTop at h
  split at h
  next => cases h
  next v rest hs =>
    dsimp only at h
    rw [if_neg (htaken v rest hs)] at h
    cases h
    rfl

theorem effect_call {id : Word} (h : call c next id x = .ok (ip, y)) : Effect c next x (.call id) ip y := by
  have hcases := call_cases c next id x
  rw [h] at hcases
  cases hcases with
  | made hd hcallable =>
    have hargs := hcallable.arguments
    have hlimit := hcallable.depth
    refine .call hd ?_ rfl rfl ?_ rfl
    · omega
    · change x.frames.length + 1 ≤ _
      omega

theorem effect_ret (h : ret x = .ok (ip, y)) : Effect c next x .ret ip y := by
  unfold ret at h
  split at h
  next f g rest hf =>
    cases h
    refine .ret rfl ?_ (Nat.succ_pos rest.length) rfl
    rw [hf]
    rfl
  next => cases h

theorem effect_apply (h : apply c next i x = .ok (ip, y)) : Effect c next x i ip y := by
  cases i with
  | iadd | isub | imul | ilt | ieq => exact effect_andThen nofun rfl exchanges_binary h
  | br w => exact .exchange nofun rfl (exchanges_target h) nofun
  | brt w =>
    refine .exchange nofun rfl (exchanges_branchOn h) fun hstays => next_of_branchOn ?_ h
    rintro v rest hs rfl
    rw [hs] at hstays
    cases hstays
  | brf w =>
    refine .exchange nofun rfl (exchanges_branchOn h) fun hstays => next_of_branchOn ?_ h
    rintro v rest hs rfl
    rw [hs] at hstays
    cases hstays
  | iconst w => exact effect_andThen nofun rfl exchanges_push h
  | load slot => exact effect_andThen nofun rfl exchanges_load h
  | gload index => exact effect_andThen nofun rfl exchanges_loadGlobal h
  | store slot => exact effect_andThen nofun rfl exchanges_store h
  | gstore index => exact effect_andThen nofun rfl exchanges_storeGlobal h
  | print => exact effect_andThen nofun rfl exchanges_print h
  | pop => exact effect_andThen nofun rfl exchanges_drop h
  | call id => exact effect_call h
  | ret => exact effect_ret h
  | halt =>
    cases h
    exact .exchange nofun rfl (exchanges_refl x) fun _ => rfl

end Exchanges

/-! ## Too few operands -/

/-- The transition is not made, and that is a fault. -/
def Faults {α : Type} (r : Except Stop (α × Configuration)) : Prop :=
  ∃ reason, r = .error (.fault reason)

section Faults

variable {c : Setup} {next : Nat} {x : Configuration}

theorem faults_withTop {α : Type} {f : Word → Transition α} (hs : x.stack.length < 1) : Faults (withTop f x) := by
  have hnil : x.stack = [] := List.length_eq_zero_iff.mp (by omega)
  unfold withTop
  rw [hnil]
  exact ⟨_, rfl⟩

theorem faults_binary {f : Word → Word → Word} (hs : x.stack.length < 2) : Faults (binary f x) := by
  unfold binary
  split
  next hstack =>
    rw [hstack] at hs
    simp only [List.length_cons] at hs
    omega
  next => exact ⟨_, rfl⟩

theorem faults_branchOn {taken w : Word} (hs : x.stack.length < 1) : Faults (branchOn c next taken w x) :=
  faults_withTop hs

theorem faults_store {slot : Word} (hf : x.frames ≠ []) (hs : x.stack.length < 1) : Faults (store slot x) := by
  unfold store
  split
  next hnil => exact (hf hnil).elim
  next =>
    split
    next => exact ⟨_, rfl⟩
    next => exact faults_withTop hs

theorem faults_storeGlobal {index : Word} (hs : x.stack.length < 1) : Faults (storeGlobal index x) := by
  unfold storeGlobal
  split
  next => exact ⟨_, rfl⟩
  next => exact faults_withTop hs

theorem faults_call {id : Word} {d : Descriptor} (hd : c.table.lookup? id = some d)
    (hs : x.stack.length < d.args.toInt.toNat) : Faults (call c next id x) := by
  have hargs : x.stack.length < d.args.toInt := by omega
  unfold call
  rw [hd]
  exact ⟨_, if_pos hargs⟩

theorem faults_andThen {t : Transition Unit} (h : Faults (t x)) : Faults (andThen next t x) := by
  obtain ⟨reason, h⟩ := h
  unfold andThen
  rw [h]
  exact ⟨reason, rfl⟩

/-- An instruction that lacks operands faults, whatever else is wrong. -/
theorem faults_apply {i : Instr} {p : Nat} (hf : x.frames ≠ []) (hp : i.takes? c.table = some p)
    (hs : x.stack.length < p) : Faults (apply c next i x) := by
  cases i with
  | iadd | isub | imul | ilt | ieq =>
    cases hp
    exact faults_andThen (faults_binary hs)
  | brt w | brf w =>
    cases hp
    exact faults_branchOn hs
  | store slot =>
    cases hp
    exact faults_andThen (faults_store hf hs)
  | gstore index =>
    cases hp
    exact faults_andThen (faults_storeGlobal hs)
  | print | pop =>
    cases hp
    exact faults_andThen (faults_withTop hs)
  | call id =>
    obtain ⟨d, hd, rfl⟩ := Option.map_eq_some_iff.mp hp
    exact faults_call hd hs
  | br w | iconst w | load slot | gload index | ret | halt =>
    cases hp
    exact (Nat.not_lt_zero _ hs).elim

end Faults

end Configuration

/-! ## Cycles -/

/-- The cycle from `s` applies `i` and leads to `t`. -/
structure Applies (c : Setup) (s : State) (i : Instr) (t : State) : Prop where
  fetches : Fetches c s i
  cycled : cycle c s = .ok () t
  running : t.status = .running

section Applies

variable {c : Setup} {s t : State} {i : Instr}

theorem effect_of_applies (hs : Sound c s) (h : Applies c s i t) :
    Sound c t ∧ ∃ y, Effect c (s.ip.toNat + i.size) s.view i t.ip y ∧
      t.view = { y with stats := y.stats.record i.opcode y.frames.length } := by
  obtain ⟨j, ip, u, hj, happly, rfl⟩ := cycle_running h.cycled h.running
  obtain rfl : j = i := by
    have hfetched := hj.fetched
    rw [h.fetches.fetched] at hfetched
    cases hfetched
    rfl
  obtain ⟨text, htext⟩ := proceed_eq c s.ip.toNat j.opcode ip u
  have hagrees := Attempt.agrees_apply (s.ip.toNat + j.size) j hs
  rw [happly] at hagrees
  generalize hresult : Configuration.apply c _ j s.view = r at hagrees
  cases hagrees with
  | ok sound =>
    rw [htext]
    refine ⟨{ sound with }, u.view, Configuration.effect_apply hresult, ?_⟩
    rw [← sound.depth_eq]
    rfl

/-- What the opcode of an applied instruction says about the operands and the pointer. -/
structure AsSaid (t : FunctionTable) (i : Instr) (before after : State) : Prop where
  operands : ∃ p, i.takes? t = some p ∧ p ≤ before.stack.length ∧
    after.stack.length = before.stack.length - p + i.opcode.pushes ∧
    after.stack.drop i.opcode.pushes = before.stack.drop p
  pointer : i.departs before.stack = false → after.ip = before.ip + i.opcode.size

/-- Without a call, what is taken is what the opcode says. -/
theorem takes?_of_pops {table : FunctionTable} {p : Nat} (h : i.opcode.pops = some p) : i.takes? table = some p := by
  cases i with
  | call id => cases h
  | _ => exact h

theorem asSaid_of_effect {y : Configuration} {stats : Stats} (hnonneg : 0 ≤ s.ip)
    (h : Effect c (s.ip.toNat + i.size) s.view i t.ip y) (ht : t.view = { y with stats := stats }) :
    AsSaid c.table i s t := by
  have hstack : t.stack = y.stack := congrArg (·.stack) ht
  cases h with
  | @exchange _ p _ _ _ hp hexchanges hip =>
    obtain ⟨henough, ⟨values, hlength, hy⟩, -, -⟩ := hexchanges
    have hview : s.view.stack = s.stack := rfl
    rw [hview] at henough hy
    refine ⟨⟨p, takes?_of_pops hp, henough, ?_, ?_⟩, ?_⟩
    · rw [hstack, hy, List.length_append, List.length_drop, hlength, Nat.add_comm]
    · rw [hstack, hy, ← hlength, List.drop_left]
    · intro hstays
      have hnext := hip hstays
      rw [Instr.size] at hnext
      omega
  | @call id d _ _ hd hargs hy =>
    refine ⟨⟨d.args.toInt.toNat, ?_, hargs, ?_, ?_⟩, ?_⟩
    · rw [Instr.takes?, hd]
      rfl
    · rw [hstack, hy, List.length_drop]
      rfl
    · rw [hstack, hy]
      rfl
    · intro hstays
      cases hstays
  | ret hy =>
    refine ⟨⟨0, rfl, Nat.zero_le _, ?_, ?_⟩, ?_⟩
    · rw [hstack, hy]
      rfl
    · rw [hstack, hy]
      rfl
    · intro hstays
      cases hstays

end Applies

/-- Whatever a machine runs, an instruction that is applied does to the operands and to the instruction pointer what its
opcode says, and one that finds fewer operands than that is a fault. -/
theorem execution_as_opcodes_say {m : Machine} {code : Array Word} {globals : Word} {table : Option FunctionTable}
    {base : Limits} {o : Options} (hbase : 1 ≤ base.maxDepth) (hmake : make code globals table base o = .ok m)
    (history : List Request) (hrun : (m.serve history).state.status = .running) :
    (∀ i t, Applies m.setup (m.serve history).state i t →
      AsSaid m.setup.table i (m.serve history).state t) ∧
    (∀ i p, Fetches m.setup (m.serve history).state i → i.takes? m.setup.table = some p →
      (m.serve history).state.stack.length < p →
      ∃ reason, cycle m.setup (m.serve history).state =
        .ok () ((m.serve history).state.fault (m.serve history).state.ip i.opcode.word reason)) := by
  obtain ⟨-, -, -, address, hstanding⟩ := standing_of_make hbase hmake hrun
  constructor
  · intro i t happlies
    obtain ⟨-, y, heffect, hview⟩ := effect_of_applies hstanding.sound happlies
    exact asSaid_of_effect happlies.fetches.nonneg heffect hview
  · intro i p hfetches hp hfew
    obtain ⟨reason, hreason⟩ := Configuration.faults_apply hstanding.active hp hfew
    exact ⟨reason, cycle_of_fault hstanding.sound hfetches hreason⟩

/-- The third step of the chain is a call with both arguments, and a start right at that call finds none. -/
theorem chain_call_as_said :
    1 ≤ ({} : Limits).maxDepth ∧
    ∃ m, make chainCode 0 (some chainTable) {} { sizing := { stackSize := some 4 } } = .ok m ∧
      AsSaid m.setup.table (.call 1) (m.serve (.start 0 :: List.replicate 2 .step)).state
        (m.serve (.start 0 :: List.replicate 3 .step)).state ∧
      ∃ reason, cycle m.setup (m.serve [.start 4]).state =
        .ok () ((m.serve [.start 4]).state.fault (m.serve [.start 4]).state.ip Opcode.call.word reason) := by
  have hglobals : (0 : Word) ≤ 0 := by decide
  obtain ⟨m, hm, -⟩ := make_eq_ok chainCode chainTable {} { sizing := { stackSize := some 4 } } hglobals
    (by decide)
  have hrun : (m.serve (.start 0 :: List.replicate 2 .step)).state.status = .running := by
    cases hm
    rfl
  have happlies : Applies m.setup (m.serve (.start 0 :: List.replicate 2 .step)).state (.call 1)
      (m.serve (.start 0 :: List.replicate 3 .step)).state := by
    cases hm
    exact ⟨⟨by decide, rfl, by decide⟩, rfl, rfl⟩
  have hrun' : (m.serve [.start 4]).state.status = .running := by
    cases hm
    rfl
  have hfetches : Fetches m.setup (m.serve [.start 4]).state (.call 1) := by
    cases hm
    exact ⟨by decide, rfl, by decide⟩
  have htakes : (Instr.call 1).takes? m.setup.table = some 2 := by
    cases hm
    rfl
  have hfew : (m.serve [.start 4]).state.stack.length < 2 := by
    cases hm
    decide
  obtain ⟨hsaid, -⟩ := execution_as_opcodes_say (by decide) hm (.start 0 :: List.replicate 2 .step) hrun
  obtain ⟨-, hfaults⟩ := execution_as_opcodes_say (by decide) hm [.start 4] hrun'
  exact ⟨by decide, m, hm, hsaid _ _ happlies, hfaults _ 2 hfetches htakes hfew⟩

end Machine
end StackMachine
