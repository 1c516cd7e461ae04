import StackMachine.Proofs.Image.Soundness
import StackMachine.Proofs.Machine.Passes
import StackMachine.Service

/-!
# The cap on output

A service runs an image as it would be run without a cap on its output, up to the first line that would take the output
past the cap. That line is not printed, and the run ends there. Before that the two runs cannot be told apart.
-/

set_option autoImplicit false

namespace StackMachine

namespace Sink

variable {k : Sink} {limit : Int} {piece : String}

/-- The sink of a service, after what `k` has taken. -/
def under (k : Sink) (limit : Int) : Sink :=
  { capped limit "output limit exceeded" with taken := k.taken }

theorem write_under_of_le (h : k.taken.utf8ByteSize + piece.utf8ByteSize ≤ limit) :
    (k.under limit).write piece = .ok ({ k with taken := k.taken ++ piece }.under limit) := by
  have hfits : ¬ (k.taken.utf8ByteSize + piece.utf8ByteSize : Int) > limit := by omega
  simp only [write, under, capped, if_neg hfits]

theorem write_under_of_lt (h : limit < k.taken.utf8ByteSize + piece.utf8ByteSize) :
    (k.under limit).write piece = .error "output limit exceeded" := by
  have hexceeds : (k.taken.utf8ByteSize + piece.utf8ByteSize : Int) > limit := h
  simp only [write, under, capped, if_pos hexceeds]

end Sink

namespace Machine

/-! ## Cycles -/

namespace Observation

variable {c : Setup} {limit : Int} {x y : Observation}

def capped (limit : Int) (x : Observation) : Observation :=
  x.withSink (x.sink.under limit)

theorem proceed_capped (c : Setup) (addr : Nat) (op : Opcode) (ip : Int) (x : Observation) :
    (x.capped limit).proceed c addr op ip = (x.proceed c addr op ip).capped limit := by
  have hsink : (x.proceed c addr op ip).sink = x.sink := congrArg (·.sink) (toConfiguration_proceed c addr op ip x)
  rw [capped, capped, hsink]
  exact proceed_withSink c addr op ip x _

/-- Nothing but the cap tells `x` from `y`, whose sink takes everything. -/
def CapOf (limit : Int) (x y : Observation) : Prop :=
  y.sink.Open ∧ x = y.capped limit

/-- The next cycle prints `v`, whose line takes the output past the limit. -/
def Exceeds (c : Setup) (limit : Int) (x : Observation) (v : Word) : Prop :=
  x.printing? c = some v ∧ limit < x.sink.taken.utf8ByteSize + v.line.utf8ByteSize

theorem coupled_capped (hopen : y.sink.Open) (hfits : ∀ v, ¬ y.Exceeds c limit v) :
    Coupled (CapOf limit) ((y.capped limit).cycle c) (y.cycle c) := by
  cases hv : y.printing? c with
  | none =>
    rw [capped, cycle_withSink hv]
    cases hz : y.cycle c with
    | ok z =>
      have hsink := sink_of_cycle hv hz
      refine .ok ⟨hsink ▸ hopen, ?_⟩
      rw [capped, hsink]
    | error a => exact .error
  | some v =>
    have hle : y.sink.taken.utf8ByteSize + v.line.utf8ByteSize ≤ limit := by
      have hnot := hfits v
      rw [Exceeds, not_and] at hnot
      exact Int.not_lt.mp (hnot hv)
    have hv' : (y.capped limit).printing? c = some v := hv
    rw [cycle_of_taken hv' (Sink.write_under_of_le hle), cycle_of_taken hv (Sink.write_open hopen v.line)]
    refine .ok ⟨?_, proceed_capped c y.ip.toNat .print _
      { y with stack := y.stack.tail, sink := { y.sink with taken := y.sink.taken ++ v.line } }⟩
    rw [toConfiguration_proceed]
    exact hopen

theorem cycle_of_exceeds {v : Word} (h : y.Exceeds c limit v) :
    (y.capped limit).cycle c = .ok ((y.capped limit).fail (.print y.ip.toNat "output limit exceeded")) := by
  have hv : (y.capped limit).printing? c = some v := h.1
  exact cycle_of_refusal hv (Sink.write_under_of_lt h.2)

end Observation

/-! ## Machines -/

/-- The states of a machine with a cap and of one with a sink that takes everything, otherwise the same. -/
abbrev UnderCap (c : Setup) (limit : Int) : State → State → Prop :=
  Level c c (Observation.CapOf limit)

/-- The machine with a sink that takes everything. -/
def uncapped (m : Machine) : Machine :=
  { m with state := { m.state with sink := .unlimited } }

section Start

variable {m : Machine} {limit : Int}

theorem capped_uncapped (hsound : Sound m.setup m.state)
    (hsink : m.state.sink = .capped limit "output limit exceeded") :
    UnderCap m.setup limit m.state m.uncapped.state := by
  refine ⟨hsound, { hsound with }, fun _ _ => rfl, ?_⟩
  unfold State.observation State.view
  rw [hsink]
  rfl

theorem start_capped (hdepth : 1 ≤ m.setup.limits.maxDepth) (hsound : Sound m.setup m.state)
    (hsink : m.state.sink = .capped limit "output limit exceeded") (address : Word) :
    UnderCap m.setup limit (m.start address).state (m.uncapped.start address).state := by
  have hlevel := capped_uncapped hsound hsink
  rw [start_eq, start_eq]
  refine level_begin address hdepth hdepth hlevel.left hlevel.right ⟨hlevel.same.1, ?_⟩
  rw [hlevel.same.2]
  rfl

theorem output_start (hdepth : 1 ≤ m.setup.limits.maxDepth) (hsound : Sound m.setup m.state) (address : Word) :
    (m.uncapped.start address).state.sink.taken = "" := by
  have hsound' : Sound m.setup m.uncapped.state := { hsound with }
  obtain ⟨t, hbegin, -, hobservation⟩ := observation_begin address hsound' hdepth
  have hstate : (m.uncapped.start address).state = t := by
    rw [start_eq]
    exact congrArg leftBy hbegin
  rw [hstate]
  exact congrArg (·.sink.taken) hobservation

end Start

/-! ## Runs -/

section Runs

variable {c : Setup} {limit : Int} {g g' : Stage} {v : Word} {m : Machine} {ctx : Context} {address : Word} {k : Nat}

/-- The next pass prints `v`, whose line takes the output past the limit. -/
def Stage.Exceeds (c : Setup) (limit : Int) (g : Stage) (v : Word) : Prop :=
  g.printing? c = some v ∧ limit < g.state.sink.taken.utf8ByteSize + v.line.utf8ByteSize

theorem status_of_capped (s t : State) (h : UnderCap c limit s t) : s.status = t.status :=
  congrArg (·.status) h.same.2

theorem Twins.capped_next (h : Twins (UnderCap c limit) g g')
    (hfits : ∀ v, ¬ g'.Exceeds c limit v) :
    Twins (UnderCap c limit) (g.next c) (g'.next c) := by
  obtain ⟨hleft, hright, hopen, hsame⟩ := h.states
  have hip : g.state.ip = g'.state.ip := congrArg (·.ip) hsame
  refine h.next status_of_capped fun hactive => ?_
  refine paired_pass g'.ctx rfl (congrArg (·.stats.cycles) hsame) ?_ ?_
  · intro why
    refine ⟨{ hleft with }, { hright with }, hopen, ?_⟩
    rw [observation_fault hleft, observation_fault hright, hsame, hip]
    rfl
  · intro ctx hconsult
    apply h.states.cycle
    rw [hsame]
    refine Observation.coupled_capped hopen fun v hv => hfits v ⟨?_, hv.2⟩
    rw [Stage.printing?_of_active hactive hconsult]
    exact hv.1

theorem stage_capped
    (hstart : UnderCap m.setup limit (m.start address).state (m.uncapped.start address).state)
    (hfits : ∀ j < k, ∀ v, ¬ (m.uncapped.stage ctx address j).Exceeds m.setup limit v) :
    Twins (UnderCap m.setup limit) (m.stage ctx address k)
      (m.uncapped.stage ctx address k) := by
  induction k with
  | zero => exact ⟨rfl, rfl, hstart⟩
  | succ k ih =>
    have htwins := ih fun j hj => hfits j (Nat.lt_succ_of_lt hj)
    rw [stage_succ, stage_succ]
    exact htwins.capped_next (hfits k (Nat.lt_succ_self k))

/-- The line that does not fit ends the run, and leaves all but the status as it is. -/
theorem next_of_exceeds (h : Twins (UnderCap c limit) g g') (hexceeds : g'.Exceeds c limit v) :
    ¬ (g.next c).Active ∧ (g.next c).abandoned = none ∧ (g.next c).state.observation =
      (g'.state.observation.capped limit).fail (.print g'.state.ip.toNat "output limit exceeded") := by
  obtain ⟨hactive, ⟨ctx, hconsult⟩, hprinting⟩ := Stage.printing?_eq_some hexceeds.1
  obtain ⟨hleft, -, -, hsame⟩ := h.states
  have hcycle := Observation.cycle_of_exceeds (y := g'.state.observation) ⟨hprinting, hexceeds.2⟩
  rw [← hsame] at hcycle ⊢
  obtain ⟨t, ht, -, hobservation⟩ := (hcycle ▸ seen_cycle hleft).of_ok
  rw [consult_of_cycles rfl (congrArg (·.stats.cycles) hsame), ← h.ctx] at hconsult
  rw [Stage.next_of_passed ((h.active_iff status_of_capped).mpr hactive) (pass_cycled hconsult ht)]
  refine ⟨?_, rfl, hobservation⟩
  rintro ⟨hrunning, -⟩
  have hstatus := (congrArg (·.status) hobservation).symm.trans hrunning
  cases hstatus

theorem execute?_of_exceeds (h : Twins (UnderCap m.setup limit) (m.stage ctx address k) (m.uncapped.stage ctx address k))
    (hexceeds : (m.uncapped.stage ctx address k).Exceeds m.setup limit v) :
    ∃ n ip, (m.uncapped.stage ctx address k).state.ip = (ip : Nat) ∧
      m.execute? ctx address = some (n, some (.run (.print ip "output limit exceeded"))) ∧
      n.state.observation =
        ((m.uncapped.stage ctx address k).state.observation.capped limit).fail (.print ip "output limit exceeded") := by
  obtain ⟨hover, hnone, hobservation⟩ := next_of_exceeds h hexceeds
  have hstatus : ((m.stage ctx address k).next m.setup).state.status =
      .faulted (.print (m.uncapped.stage ctx address k).state.ip.toNat "output limit exceeded") :=
    congrArg (·.status) hobservation
  have hprinting := (Stage.printing?_eq_some hexceeds.1).2.2
  have hnonneg := upcoming_instr (Observation.printing?_eq_some hprinting).1
  refine ⟨{ m.start address with state := ((m.stage ctx address k).next m.setup).state }, _,
    (Int.toNat_of_nonneg hnonneg).symm, ?_, hobservation⟩
  refine execute?_eq_some_iff.mpr ⟨k + 1, ?_, ?_⟩
  · rw [stage_succ]
    exact hover
  · rw [stage_succ, hnone, reply, outcome, hstatus]
    rfl

end Runs

/-! ## The bound -/

/-- The sink has the cap, and has not taken more than that. -/
def Capped (limit : Int) (x : Configuration) : Prop :=
  x.sink = x.sink.under limit ∧ x.sink.taken.utf8ByteSize ≤ limit

theorem capped_apply {c : Setup} {limit : Int} {next : Nat} {i : Instr} {x y : Configuration} {ip : Int}
    (hx : Capped limit x) (h : Configuration.apply c next i x = .ok (ip, y)) : Capped limit y := by
  by_cases hi : i = .print
  · subst hi
    cases hs : x.stack with
    | nil =>
      rw [Configuration.apply_print_empty hs] at h
      cases h
    | cons v rest =>
      by_cases hle : (x.sink.taken.utf8ByteSize + v.line.utf8ByteSize : Int) ≤ limit
      · have hwrite := Sink.write_under_of_le hle
        rw [← hx.1] at hwrite
        rw [Configuration.apply_print_taken hs hwrite] at h
        cases h
        refine ⟨rfl, ?_⟩
        change ((x.sink.taken ++ v.line).utf8ByteSize : Int) ≤ limit
        rw [String.utf8ByteSize_append]
        omega
      · have hwrite := Sink.write_under_of_lt (Int.not_le.mp hle)
        rw [← hx.1] at hwrite
        rw [Configuration.apply_print_refused hs hwrite] at h
        cases h
  · rw [Capped, Configuration.sink_of_aloof (Configuration.aloof_apply c next hi) h]
    exact hx

theorem capped_invariant {c : Setup} {limit : Int} (hdepth : 1 ≤ c.limits.maxDepth) :
    RunInvariant c fun _ s => Sound c s ∧ Capped limit s.view :=
  configuration_invariant hdepth (fun _ _ h => h) (fun _ _ h => h) fun _ _ _ _ _ => capped_apply

end Machine

/-! ## Images -/

namespace Service

open Machine

section Report

variable {s : Service} {img : Image} {m : Machine}

theorem run_of_machine (h : s.machine img = .ok m) (ctx : Context) : s.run ctx img = reportOf (img.execute ctx m) := by
  rw [run, h]

theorem reportOf_of_capped {c : Setup} {limit : Int} {r r' : Machine × Option Failure} (hfailure : r.2 = r'.2)
    (h : UnderCap c limit r.1.state r'.1.state) : reportOf r = reportOf r' := by
  obtain ⟨n, failure⟩ := r
  obtain ⟨n', failure'⟩ := r'
  have hsame := h.same.2
  have houtput : n.state.sink.taken = n'.state.sink.taken := congrArg (·.sink.taken) hsame
  have hstats : n.state.stats = n'.state.stats := congrArg (·.stats) hsame
  have hglobals : n.state.globals = n'.state.globals := congrArg (·.globals) hsame
  cases hfailure
  cases failure with
  | none => simp only [reportOf, houtput, hstats, hglobals]
  | some f => cases f <;> simp only [reportOf, houtput, hstats, hglobals]

theorem machine_uncapped (s : Service) (img : Image) :
    img.machine {} = (s.machine img).map uncapped := by
  unfold machine Image.machine
  cases img.table with
  | error e => rfl
  | ok t =>
    simp only [make_some]
    split
    · rfl
    · split <;> rfl

theorem machine_made (h : s.machine img = .ok m) :
    1 ≤ m.setup.limits.maxDepth ∧ Sound m.setup m.state ∧
      m.state.sink = .capped s.maxOutput.toInt "output limit exceeded" := by
  obtain ⟨hdepth, hsound⟩ := Image.sound_of_machine h
  obtain ⟨t, -, -, -, rfl⟩ := Image.machine_eq_ok_iff.mp h
  exact ⟨hdepth, hsound, rfl⟩

/-- No report has more output than the service allows. -/
theorem output_le_limit (hlimit : 0 < s.maxOutput) {ctx : Context} {r : RunReport} (h : s.run ctx img = .ok r) :
    r.output.utf8ByteSize ≤ s.maxOutput.toInt := by
  have hpos : 0 < s.maxOutput.toInt := Int64.lt_iff_toInt_lt.mp hlimit
  unfold run at h
  split at h
  next => cases h
  next =>
    cases h
    exact Int.le_of_lt hpos
  next m hm =>
    obtain ⟨hdepth, hsound, hsink⟩ := machine_made hm
    have hcapped : Capped s.maxOutput.toInt m.state.view := by
      unfold Capped State.view
      rw [hsink]
      exact ⟨rfl, Int.le_of_lt hpos⟩
    have hwrites : (img.request ctx).writes = false := by
      unfold Image.request
      split <;> rfl
    have hanswer := ((capped_invariant hdepth).answer (o := none) rfl ⟨hsound, hcapped⟩ hwrites).2.2
    rw [← Image.execute_eq_answer] at hanswer
    generalize img.execute ctx m = result at h hanswer
    obtain ⟨n, failure⟩ := result
    cases failure with
    | none =>
      cases h
      exact hanswer
    | some f =>
      cases f with
      | abandoned => cases h
      | run | notRunning | noFunction =>
        cases h
        exact hanswer

theorem start_of_machine (h : s.machine img = .ok m) (address : Word) :
    UnderCap m.setup s.maxOutput.toInt (m.start address).state
      (m.uncapped.start address).state := by
  obtain ⟨hdepth, hsound, hsink⟩ := machine_made h
  exact start_capped hdepth hsound hsink address

theorem execute_of_fits {ctx : Context} (h : s.machine img = .ok m)
    (hfits : ∀ address, (img.request ctx).address? m.setup.table = some address →
      ∀ k v, ¬ (m.uncapped.stage ctx address k).Exceeds m.setup s.maxOutput.toInt v) :
    (img.execute ctx m).2 = (img.execute ctx m.uncapped).2 ∧
      UnderCap m.setup s.maxOutput.toInt (img.execute ctx m).1.state
        (img.execute ctx m.uncapped).1.state := by
  cases haddress : (img.request ctx).address? m.setup.table with
  | none =>
    have haddress' : (img.request ctx).address? m.uncapped.setup.table = none := haddress
    obtain ⟨-, hsound, hsink⟩ := machine_made h
    rw [Image.execute_of_no_address haddress, Image.execute_of_no_address haddress']
    exact ⟨rfl, capped_uncapped hsound hsink⟩
  | some address =>
    have haddress' : (img.request ctx).address? m.uncapped.setup.table = some address := haddress
    rw [Image.execute_of_address haddress, Image.execute_of_address haddress']
    refine execute_of_twins status_of_capped fun k => ?_
    exact stage_capped (start_of_machine h address) fun j _ => hfits address haddress j

/-- Without a cap, what was printed are the lines of the passes. -/
theorem output_of_machine (h : s.machine img = .ok m) (ctx : Context) (address : Word) (k : Nat) :
    (m.uncapped.stage ctx address k).state.sink.taken =
      String.join ((m.uncapped.printed ctx address k).map Word.line) := by
  obtain ⟨hdepth, hsound, -⟩ := machine_made h
  have hstart := start_of_machine h address
  have hlines := (output_stage ⟨hstart.right, hstart.same.1⟩ ctx k).2
  rw [output_start hdepth hsound, String.empty_append] at hlines
  exact hlines

end Report

/-- How the run of an image by a service compares with the same run on a sink that takes everything. -/
structure Truncates (s : Service) (img : Image) (ctx : Context) (m : Machine) : Prop where
  /-- As long as every line has fitted, nothing but the cap tells the two runs apart. -/
  before : ∀ address, (img.request ctx).address? m.setup.table = some address → ∀ k,
    (∀ j < k, ∀ v, ¬ (m.uncapped.stage ctx address j).Exceeds m.setup s.maxOutput.toInt v) →
    Twins (UnderCap m.setup s.maxOutput.toInt) (m.stage ctx address k)
      (m.uncapped.stage ctx address k)
  /-- If every line fits, the run comes to the same. -/
  whole : (∀ address, (img.request ctx).address? m.setup.table = some address →
      ∀ k v, ¬ (m.uncapped.stage ctx address k).Exceeds m.setup s.maxOutput.toInt v) →
    s.run ctx img = reportOf (img.execute ctx m.uncapped) ∧
    (img.execute ctx m).2 = (img.execute ctx m.uncapped).2 ∧
    UnderCap m.setup s.maxOutput.toInt (img.execute ctx m).1.state
      (img.execute ctx m.uncapped).1.state
  /-- The first line that does not fit is not printed, and its word stays on the stack. The run ends there, with the
  lines before it as its output, and the cycle is not counted. -/
  cut : ∀ address, (img.request ctx).address? m.setup.table = some address → ∀ k v,
    (∀ j < k, ∀ w, ¬ (m.uncapped.stage ctx address j).Exceeds m.setup s.maxOutput.toInt w) →
    (m.uncapped.stage ctx address k).Exceeds m.setup s.maxOutput.toInt v →
    ∃ n ip, (m.uncapped.stage ctx address k).state.ip = (ip : Nat) ∧
      img.execute ctx m = (n, some (.run (.print ip "output limit exceeded"))) ∧
      n.state.observation = ((m.uncapped.stage ctx address k).state.observation.capped
        s.maxOutput.toInt).fail (.print ip "output limit exceeded") ∧
      n.state.stack.head? = some v ∧
      s.run ctx img = .ok {
        output := String.join ((m.uncapped.printed ctx address k).map Word.line)
        failure := some (.run (.run (.print ip "output limit exceeded")))
        stats := (m.uncapped.stage ctx address k).state.stats
        globals := (m.uncapped.stage ctx address k).state.globals.toList }

/-- The cap of a service only cuts off output, and does so between two lines. -/
theorem output_cap_truncates (s : Service) (img : Image) (ctx : Context) (hlimit : 0 < s.maxOutput) :
    img.machine {} = (s.machine img).map uncapped ∧
    (∀ m, s.machine img = .ok m → s.Truncates img ctx m) ∧
    ∀ r, s.run ctx img = .ok r → r.output.utf8ByteSize ≤ s.maxOutput.toInt := by
  refine ⟨machine_uncapped s img, ?_, fun r => output_le_limit hlimit⟩
  intro m hm
  refine ⟨?_, ?_, ?_⟩
  · exact fun address _ k hfits => stage_capped (start_of_machine hm address) hfits
  · intro hfits
    have hexecute := execute_of_fits hm hfits
    rw [run_of_machine hm]
    exact ⟨reportOf_of_capped hexecute.1 hexecute.2, hexecute⟩
  · intro address haddress k v hfits hexceeds
    have htwins := stage_capped (start_of_machine hm address) hfits
    obtain ⟨n, ip, hip, hexecute?, hobservation⟩ := execute?_of_exceeds htwins hexceeds
    have hexecute : img.execute ctx m = (n, some (.run (.print ip "output limit exceeded"))) := by
      rw [Image.execute_of_address haddress, Machine.execute, hexecute?, Option.getD_some]
    obtain ⟨-, rest, hstack⟩ := Observation.printing?_eq_some (Stage.printing?_eq_some hexceeds.1).2.2
    have htop : n.state.stack = v :: rest := (congrArg (·.stack) hobservation).trans hstack
    have houtput : n.state.sink.taken = String.join ((m.uncapped.printed ctx address k).map Word.line) :=
      (congrArg (·.sink.taken) hobservation).trans (output_of_machine hm ctx address k)
    have hstats : n.state.stats = (m.uncapped.stage ctx address k).state.stats := congrArg (·.stats) hobservation
    have hglobals : n.state.globals = (m.uncapped.stage ctx address k).state.globals :=
      congrArg (·.globals) hobservation
    refine ⟨n, ip, hip, hexecute, hobservation, congrArg List.head? htop, ?_⟩
    rw [run_of_machine hm, hexecute, ← houtput, ← hstats, ← hglobals]
    rfl

/-- Prints two lines of two bytes each. -/
def twoLines : Image where
  version := 1
  functions := some [{ name := "main" }]
  code := some [9, 7, 14, 9, 8, 14, 18]
  stackSize := 2
  maxDepth := 1

/-- With room for just one of the lines the other one ends the run. -/
theorem twoLines_truncated :
    let s := make 1 1000 2 100 none
    0 < s.maxOutput ∧
    ∃ m r, s.machine twoLines = .ok m ∧ (twoLines.request .unlimited).address? m.setup.table = some 0 ∧
      (∀ j < 3, ∀ v, ¬ (m.uncapped.stage .unlimited 0 j).Exceeds m.setup s.maxOutput.toInt v) ∧
      (m.uncapped.stage .unlimited 0 3).Exceeds m.setup s.maxOutput.toInt 8 ∧
      s.run .unlimited twoLines = .ok r ∧ r.output = "7\n" ∧ r.stats.cycles = 3 ∧
      r.failure = some (.run (.run (.print 5 "output limit exceeded"))) := by
  intro s
  have hlimit : 0 < s.maxOutput := by decide
  obtain ⟨m, hm⟩ : ∃ m, s.machine twoLines = .ok m := ⟨_, rfl⟩
  have haddress : (twoLines.request .unlimited).address? m.setup.table = some 0 := by
    cases hm
    rfl
  have hlines : ∀ j < 3, ((m.uncapped.stage .unlimited 0 j).printing? m.setup).all fun v =>
      decide ((m.uncapped.stage .unlimited 0 j).state.sink.taken.utf8ByteSize + v.line.utf8ByteSize ≤ 2) := by
    cases hm
    decide +kernel
  have htwo : s.maxOutput.toInt = 2 := by decide
  have hfits : ∀ j < 3, ∀ v, ¬ (m.uncapped.stage .unlimited 0 j).Exceeds m.setup s.maxOutput.toInt v := by
    rintro j hj v ⟨hv, hlt⟩
    have hline := hlines j hj
    rw [hv, Option.all_some, decide_eq_true_eq] at hline
    omega
  have hexceeds : (m.uncapped.stage .unlimited 0 3).Exceeds m.setup s.maxOutput.toInt 8 := by
    cases hm
    exact ⟨by decide +kernel, by decide +kernel⟩
  obtain ⟨-, htruncates, -⟩ := output_cap_truncates s twoLines .unlimited hlimit
  obtain ⟨n, ip, hip, -, -, -, hrun⟩ := (htruncates m hm).cut 0 haddress 3 8 hfits hexceeds
  have hfive : (m.uncapped.stage .unlimited 0 3).state.ip = 5 := by
    cases hm
    decide +kernel
  obtain rfl : ip = 5 := by
    rw [hfive] at hip
    omega
  refine ⟨hlimit, m, _, hm, haddress, hfits, hexceeds, hrun, ?_, ?_, rfl⟩
  · cases hm
    decide +kernel
  · cases hm
    decide +kernel

end Service
end StackMachine
