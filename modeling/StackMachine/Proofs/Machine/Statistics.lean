import StackMachine.Proofs.Machine.Metadata

/-!
# Statistics account for a run

A run since a start is kept as a log of the opcodes that were applied and a list of the states it went through. Cycles
that halt, fault or are cancelled or abandoned are not in the log, and neither are writes of the host. The counters
count the log up to their width: all of it, each opcode in it, its calls and its returns. So the depth is one more than
the calls that have not returned, and the greatest depth on record is that of some state since the start.
-/

set_option autoImplicit false

namespace StackMachine

theorem Opcode.index_injective {a b : Opcode} (h : a.index = b.index) : a = b := by
  have ha : ofNumber? a.number = some a := ofNumber?_eq_some_iff.mpr rfl
  have hb : ofNumber? a.number = some b := ofNumber?_eq_some_iff.mpr (by rw [number, number, h])
  exact Option.some.inj (ha.symm.trans hb)

/-- The counts of all opcodes together. -/
def Stats.total (s : Stats) : Nat :=
  Opcode.all.foldr (fun op n => s.count op + n) 0

section Counting

variable {log : List Opcode}

theorem foldr_count_cons (ops : List Opcode) (op : Opcode) :
    ops.foldr (fun x n => (op :: log).count x + n) 0 = ops.foldr (fun x n => log.count x + n) 0 + ops.count op := by
  induction ops with
  | nil => rfl
  | cons x ops ih =>
    rw [List.foldr_cons, List.foldr_cons, ih]
    by_cases hx : x = op
    · subst hx
      rw [List.count_cons_self, List.count_cons_self]
      omega
    · rw [List.count_cons_of_ne (Ne.symm hx), List.count_cons_of_ne hx]
      omega

/-- Every opcode of a log is one of all opcodes, and only one. -/
theorem foldr_count_all (log : List Opcode) : Opcode.all.foldr (fun op n => log.count op + n) 0 = log.length := by
  induction log with
  | nil => rfl
  | cons op log ih =>
    have honce : Opcode.all.count op = 1 := by cases op <;> rfl
    rw [foldr_count_cons, ih, honce, List.length_cons]

theorem ofNat_succ_eq {a : UInt64} {n : Nat} (h : a = .ofNat n) : a + 1 = .ofNat (n + 1) := by
  rw [h, UInt64.ofNat_add]
  rfl

theorem get_record {s : Stats} (h : ∀ op : Opcode, s.opcodeCounters.get op.index = .ofNat (log.count op)) (op : Opcode)
    (depth : Nat) (x : Opcode) : (s.record op depth).opcodeCounters.get x.index = .ofNat ((op :: log).count x) := by
  by_cases hx : op = x
  · subst hx
    rw [List.count_cons_self, ← ofNat_succ_eq (h op)]
    exact Vector.getElem_set_self _
  · have hindex : op.index.val ≠ x.index.val := fun heq => hx (Opcode.index_injective (Fin.ext heq))
    rw [List.count_cons_of_ne hx, ← h x]
    exact Vector.getElem_set_ne op.index.isLt x.index.isLt hindex

end Counting

namespace Machine

variable {c : Setup} {s t : State} {log : List Opcode} {states : List State}

/-! ## Cycles -/

/-- What is counted when an instruction with this opcode leads from `s` to `t`. -/
inductive Counted (c : Setup) (s t : State) : Opcode → Prop
  | plain {op : Opcode} (hcall : op ≠ .call) (hret : op ≠ .ret) (hdepth : t.depth = s.depth)
    (hstats : t.stats = s.stats.record op t.depth) : Counted c s t op
  | call (hdepth : t.depth = s.depth + 1) (hlimit : t.depth ≤ c.limits.maxDepth)
    (hstats : t.stats = s.stats.countCall.record .call t.depth) : Counted c s t .call
  | ret (hdepth : s.depth = t.depth + 1) (hactive : 0 < t.depth)
    (hstats : t.stats = s.stats.countReturn.record .ret t.depth) : Counted c s t .ret

theorem counted_of_applies {i : Instr} (hs : Sound c s) (h : Applies c s i t) : Sound c t ∧ Counted c s t i.opcode := by
  obtain ⟨ht, y, heffect, hview⟩ := effect_of_applies hs h
  have hframes : t.depth = y.frames.length := by rw [ht.depth_eq, hview]
  have hstats : t.stats = y.stats.record i.opcode t.depth := by
    rw [hframes]
    exact congrArg (·.stats) hview
  refine ⟨ht, ?_⟩
  cases heffect with
  | exchange hi hp hexchanges =>
    refine .plain ?_ ?_ ?_ ?_
    · intro hcall
      rw [hcall] at hp
      cases hp
    · intro hret
      cases i with
      | ret => exact hi rfl
      | _ => cases hret
    · rw [hframes, hs.depth_eq, hexchanges.depth]
    · rw [hstats, hexchanges.stats]
      rfl
  | call _ _ _ hdepth hlimit hcounted =>
    refine .call ?_ ?_ ?_
    · rw [hframes, hs.depth_eq, hdepth]
    · rw [hframes]
      exact hlimit
    · rw [hstats, hcounted]
      rfl
  | ret _ hdepth hactive hcounted =>
    refine .ret ?_ ?_ ?_
    · rw [hframes, hs.depth_eq, hdepth]
    · rw [hframes]
      exact hactive
    · rw [hstats, hcounted]
      rfl

theorem view_of_error {next : Nat} {i : Instr} {e : Stop} (hs : Sound c s) (h : Attempt.apply c next i s = .error e t) :
    Sound c t ∧ t.view = s.view := by
  have hagrees := Attempt.agrees_apply next i hs
  rw [h] at hagrees
  generalize Configuration.apply c next i s.view = r at hagrees
  cases hagrees with
  | error sound same => exact ⟨sound, same⟩

/-- A cycle that applies no instruction leaves the configuration alone. -/
theorem view_of_cycle (hs : Sound c s) (hrun : s.status = .running)
    (hnone : ∀ i, ¬ Applies c s i (leftBy (cycle c s))) :
    Sound c (leftBy (cycle c s)) ∧ (leftBy (cycle c s)).view = s.view := by
  have hcases := cycle_cases c s
  generalize hcycle : cycle c s = r at hcases hnone ⊢
  cases hcases with
  | halts =>
    obtain ⟨text, htext⟩ := halt_eq c s
    simp only [leftBy, htext]
    exact ⟨{ hs with }, rfl⟩
  | stuck => exact ⟨{ hs with }, rfl⟩
  | proceeds hi happly =>
    refine (hnone _ ⟨hi, hcycle, ?_⟩).elim
    have hstatus := congrArg (·.2.1) (keeps_of_ok (Attempt.keeps_control_apply c _ _) happly)
    exact (proceed_status ..).trans (hstatus.trans hrun)
  | faults hi happly =>
    obtain ⟨ht, hview⟩ := view_of_error hs happly
    exact ⟨{ ht with }, hview⟩
  | refused hi happly =>
    obtain ⟨ht, hview⟩ := view_of_error hs happly
    exact ⟨{ ht with }, hview⟩
  | abandoned hi happly => exact view_of_error hs happly

theorem view_of_moves (hs : Sound c s) (h : Moves c s t) (hnone : ∀ i, ¬ Applies c s i t) :
    Sound c t ∧ t.view = s.view := by
  obtain ⟨hrun, ctx, rfl⟩ := h
  cases hconsult : consult c s ctx with
  | error why =>
    rw [pass_cancelled hconsult]
    exact ⟨{ hs with }, rfl⟩
  | ok ctx' =>
    have hleft := leftBy_pass hconsult
    rw [hleft] at hnone ⊢
    exact view_of_cycle hs hrun hnone

/-! ## Courses of runs -/

/-- A run from `start` that has come to a state, with the opcodes that were applied and all states since then, both
the latest first. Between two passes the host may write to frames. -/
inductive Course (c : Setup) (start : State) : List Opcode → List State → State → Prop
  | started : Course c start [] [start] start
  | applied {log : List Opcode} {states : List State} {s t : State} {i : Instr} (h : Course c start log states s)
    (hi : Applies c s i t) : Course c start (i.opcode :: log) (t :: states) t
  | passed {log : List Opcode} {states : List State} {s t : State} (h : Course c start log states s)
    (hmoves : Moves c s t) (hnone : ∀ i, ¬ Applies c s i t) : Course c start log (t :: states) t
  | written {log : List Opcode} {states : List State} {s : State} (h : Course c start log states s) (d i : Nat)
    (v : Word) : Course c start log (s.overwrite d i v :: states) (s.overwrite d i v)

/-- Some course leads from `start` to `t`. -/
def Leads (c : Setup) (start t : State) : Prop :=
  ∃ log states, Course c start log states t

section Leads

variable {start : State}

theorem Leads.moves (h : Leads c start s) (hmoves : Moves c s t) : Leads c start t := by
  obtain ⟨log, states, h⟩ := h
  by_cases hi : ∃ i, Applies c s i t
  · obtain ⟨i, hi⟩ := hi
    exact ⟨_, _, h.applied hi⟩
  · exact ⟨_, _, h.passed hmoves fun i hi' => hi ⟨i, hi'⟩⟩

theorem leads_of_trail {trail : Nat → State} {n : Nat} (h : Trail c n trail) {k : Nat} (hk : k ≤ n) :
    Leads c (trail 0) (trail k) := by
  induction k with
  | zero => exact ⟨_, _, .started⟩
  | succ k ih => exact (ih (by omega)).moves (h k hk)

theorem leads_execute (m : Machine) (ctx : Context) (address : Word) :
    Leads m.setup (m.start address).state (m.execute ctx address).1.state := by
  rw [execute, execute?_eq_run]
  cases hrun : m.setup.run ctx (m.start address).state with
  | none => exact ⟨_, _, .started⟩
  | some r =>
    obtain ⟨trail, n, h0, hn, htrail⟩ := trail_run hrun
    have hleads := leads_of_trail htrail (Nat.le_refl n)
    rw [h0, hn] at hleads
    exact hleads

/-- A request that starts the machine leads on from there. -/
theorem leads_answer {m : Machine} {r : Request} {address : Word} (h : r.address? m.setup.table = some address) :
    Leads m.setup (m.start address).state (m.answer r).1.state := by
  cases r with
  | start a =>
    cases h
    rw [answer_start]
    exact ⟨_, _, .started⟩
  | execute ctx a =>
    cases h
    exact leads_execute m ctx _
  | executeEntry ctx =>
    cases h
    exact leads_execute m ctx _
  | executeFunction ctx name =>
    obtain ⟨d, hd, rfl⟩ := Option.map_eq_some_iff.mp h
    have hexecute : m.answer (.executeFunction ctx name) = m.execute ctx d.address := by
      rw [answer, executeFunction, show Option.bind _ _ = some d from hd]
    rw [hexecute]
    exact leads_execute m ctx _
  | step | setLocal | overwrite => cases h

/-- A request that does not start the machine goes on with the same run. -/
theorem Leads.answer {m : Machine} {r : Request} (hm : Leads m.setup start m.state)
    (h : r.address? m.setup.table = none) : Leads m.setup start (m.answer r).1.state := by
  cases r with
  | start | execute | executeEntry => cases h
  | executeFunction ctx name =>
    have hexecute : (m.answer (.executeFunction ctx name)).1 = m := by
      rw [Machine.answer, executeFunction, show Option.bind _ _ = none from Option.map_eq_none_iff.mp h]
    rw [hexecute]
    exact hm
  | step =>
    by_cases hrun : m.state.status = .running
    · exact hm.moves (moves_step hrun)
    · have hstep : m.step.1 = m := by rw [step, isRunning_eq_false hrun]; rfl
      change Leads m.setup start m.step.1.state
      rw [hstep]
      exact hm
  | setLocal slot v =>
    change Leads m.setup start ((m.state.setLocal? slot v).getD m.state)
    cases hset : m.state.setLocal? slot v with
    | none => exact hm
    | some t =>
      obtain ⟨i, rfl⟩ := setLocal?_eq_overwrite hset
      obtain ⟨log, states, hm⟩ := hm
      exact ⟨_, _, hm.written _ i v⟩
  | overwrite d i v =>
    obtain ⟨log, states, hm⟩ := hm
    exact ⟨_, _, hm.written d i v⟩

theorem Leads.serve {m : Machine} {later : List Request} (hm : Leads m.setup start m.state)
    (h : ∀ r ∈ later, r.address? m.setup.table = none) : Leads m.setup start (m.serve later).state := by
  induction later generalizing m with
  | nil => exact hm
  | cons r later ih =>
    have hanswer := hm.answer (h r List.mem_cons_self)
    rw [← setup_answer m r] at hanswer h ⊢
    exact ih hanswer fun q hq => h q (List.mem_cons_of_mem r hq)

end Leads

/-! ## What the counters say -/

/-- The counters of cycles and opcodes are those of the log, up to their width. -/
structure Counts (log : List Opcode) (s : State) : Prop where
  cycles : s.stats.cycleCounter = .ofNat log.length
  opcodes : ∀ op : Opcode, s.stats.opcodeCounters.get op.index = .ofNat (log.count op)

/-- Calls and returns are those of the log, and what has not returned is active. -/
structure Balance (log : List Opcode) (s : State) : Prop where
  calls : s.stats.callCounter = .ofNat (log.count .call)
  returns : s.stats.returnCounter = .ofNat (log.count .ret)
  depth : s.depth + log.count .ret = 1 + log.count .call
  active : 0 < s.depth

/-- The greatest depth on record is that of a state, and no state lies deeper. -/
structure Peak (c : Setup) (states : List State) (s : State) : Prop where
  latest : s ∈ states
  attained : ∃ u ∈ states, u.depth = s.stats.maxDepth
  greatest : ∀ u ∈ states, u.depth ≤ s.stats.maxDepth
  limited : s.stats.maxDepth ≤ c.limits.maxDepth

structure Tallied (c : Setup) (log : List Opcode) (states : List State) (s : State) : Prop where
  sound : Sound c s
  counts : Counts log s
  balance : Balance log s
  peak : Peak c states s

section Counted

variable {op : Opcode}

theorem Counted.recorded (h : Counted c s t op) :
    t.stats.cycleCounter = s.stats.cycleCounter + 1 ∧
      t.stats.opcodeCounters = (s.stats.record op t.depth).opcodeCounters ∧
      t.stats.maxDepth = max s.stats.maxDepth t.depth := by
  cases h with
  | plain _ _ _ hstats =>
    rw [hstats]
    exact ⟨rfl, rfl, rfl⟩
  | call _ _ hstats =>
    rw [hstats]
    exact ⟨rfl, rfl, rfl⟩
  | ret _ _ hstats =>
    rw [hstats]
    exact ⟨rfl, rfl, rfl⟩

theorem Counted.depth_le (h : Counted c s t op) (hs : s.depth ≤ c.limits.maxDepth) : t.depth ≤ c.limits.maxDepth := by
  cases h with
  | plain _ _ hdepth _ => omega
  | call _ hlimit _ => exact hlimit
  | ret hdepth _ _ => omega

theorem Counts.counted (h : Counts log s) (hop : Counted c s t op) : Counts (op :: log) t := by
  obtain ⟨hcycles, hopcodes, -⟩ := hop.recorded
  constructor
  · rw [hcycles]
    exact ofNat_succ_eq h.cycles
  · rw [hopcodes]
    exact get_record h.opcodes op _

theorem Balance.counted (h : Balance log s) (hop : Counted c s t op) : Balance (op :: log) t := by
  have hbalance := h.depth
  cases hop with
  | plain hcall hret hdepth hstats =>
    refine ⟨?_, ?_, ?_, ?_⟩
    · rw [hstats, List.count_cons_of_ne hcall]
      exact h.calls
    · rw [hstats, List.count_cons_of_ne hret]
      exact h.returns
    · rw [hdepth, List.count_cons_of_ne hcall, List.count_cons_of_ne hret]
      exact h.depth
    · rw [hdepth]
      exact h.active
  | call hdepth _ hstats =>
    refine ⟨?_, ?_, ?_, ?_⟩
    · rw [hstats, List.count_cons_self]
      exact ofNat_succ_eq h.calls
    · rw [hstats, List.count_cons_of_ne (by decide)]
      exact h.returns
    · rw [hdepth, List.count_cons_self, List.count_cons_of_ne (by decide)]
      omega
    · omega
  | ret hdepth hactive hstats =>
    refine ⟨?_, ?_, ?_, hactive⟩
    · rw [hstats, List.count_cons_of_ne (by decide)]
      exact h.calls
    · rw [hstats, List.count_cons_self]
      exact ofNat_succ_eq h.returns
    · rw [List.count_cons_self, List.count_cons_of_ne (by decide)]
      omega

theorem Peak.counted (h : Peak c states s) (hop : Counted c s t op) : Peak c (t :: states) t := by
  obtain ⟨-, -, hmax⟩ := hop.recorded
  have hlimit := hop.depth_le (Nat.le_trans (h.greatest s h.latest) h.limited)
  have hlimited := h.limited
  refine ⟨List.mem_cons_self, ?_, ?_, by omega⟩
  · obtain ⟨u, hu, hdepth⟩ := h.attained
    by_cases hdeeper : s.stats.maxDepth ≤ t.depth
    · exact ⟨t, List.mem_cons_self, by omega⟩
    · exact ⟨u, List.mem_cons_of_mem t hu, by omega⟩
  · intro u hu
    obtain rfl | hu := List.mem_cons.mp hu
    · omega
    · have hle := h.greatest u hu
      omega

end Counted

/-- Nothing is counted while depth and statistics stay. -/
theorem Tallied.unchanged (h : Tallied c log states s) (ht : Sound c t) (hdepth : t.depth = s.depth)
    (hstats : t.stats = s.stats) : Tallied c log (t :: states) t := by
  obtain ⟨-, ⟨hcycles, hopcodes⟩, ⟨hcalls, hreturns, hbalance, hactive⟩, hlatest, ⟨u, hu, hattained⟩, hgreatest,
    hlimited⟩ := h
  have hle := hgreatest s hlatest
  rw [← hdepth] at hbalance hactive hle
  rw [← hstats] at hcycles hopcodes hcalls hreturns hattained hgreatest hlimited hle
  refine ⟨ht, ⟨hcycles, hopcodes⟩, ⟨hcalls, hreturns, hbalance, hactive⟩, List.mem_cons_self,
    ⟨u, List.mem_cons_of_mem t hu, hattained⟩, ?_, hlimited⟩
  intro v hv
  obtain rfl | hv := List.mem_cons.mp hv
  · exact hle
  · exact hgreatest v hv

/-- What a start establishes holds all along the course. -/
theorem Course.tallied {start : State} (h : Course c start log states t) (hstart : Tallied c [] [start] start) :
    Tallied c log states t := by
  induction h with
  | started => exact hstart
  | applied _ hi ih =>
    obtain ⟨ht, hcounted⟩ := counted_of_applies ih.sound hi
    exact ⟨ht, ih.counts.counted hcounted, ih.balance.counted hcounted, ih.peak.counted hcounted⟩
  | passed _ hmoves hnone ih =>
    obtain ⟨ht, hview⟩ := view_of_moves ih.sound hmoves hnone
    have hdepth := congrArg (·.frames.length) hview
    rw [← ht.depth_eq, ← ih.sound.depth_eq] at hdepth
    exact ih.unchanged ht hdepth (congrArg (·.stats) hview)
  | written _ d i v ih => exact ih.unchanged (ih.sound.modifyFrame d fun _ hf => hf.setCell _ _) rfl rfl

theorem tallied_start {m : Machine} (address : Word) (hs : Sound m.setup m.state)
    (hdepth : 1 ≤ m.setup.limits.maxDepth) :
    Tallied m.setup [] [(m.start address).state] (m.start address).state := by
  obtain ⟨t, hbegin, ht, hobservation⟩ := observation_begin address hs hdepth
  rw [(begin_start m address).1] at hbegin
  cases hbegin
  have hstats : (m.start address).state.stats = { maxDepth := 1 } := congrArg (·.stats) hobservation
  have hone : (m.start address).state.depth = 1 := by
    rw [ht.depth_eq]
    exact congrArg (·.frames.length) hobservation
  refine ⟨ht, ⟨?_, ?_⟩, ⟨?_, ?_, ?_, ?_⟩, List.mem_singleton_self _, ⟨_, List.mem_singleton_self _, ?_⟩, ?_, ?_⟩
  · rw [hstats]
    rfl
  · rw [hstats]
    exact fun op => Vector.getElem_replicate _
  · rw [hstats]
    rfl
  · rw [hstats]
    rfl
  · rw [hone]
    rfl
  · rw [hone]
    exact Nat.one_pos
  · rw [hone, hstats]
  · intro u hu
    obtain rfl := List.mem_singleton.mp hu
    exact Nat.le_of_eq (hone.trans (congrArg Stats.maxDepth hstats).symm)
  · rw [hstats]
    exact hdepth

theorem Course.halt_not_mem {start : State} (h : Course c start log states t) : .halt ∉ log := by
  induction h with
  | started => exact List.not_mem_nil
  | @applied _ _ _ _ i _ hi ih =>
    intro hmem
    obtain hhalt | hmem := List.mem_cons.mp hmem
    · cases i with
      | halt => exact hi.fetches.applicable rfl
      | _ => cases hhalt
    · exact ih hmem
  | passed _ _ _ ih => exact ih
  | written _ _ _ _ ih => exact ih

/-- What the statistics say of a run with this log and these states. -/
structure Account (c : Setup) (log : List Opcode) (states : List State) (t : State) : Prop where
  cycles : t.stats.cycles = log.length
  counts : ∀ op, t.stats.count op = log.count op
  total : t.stats.cycles = t.stats.total
  calls : t.stats.count .call = t.stats.calls
  returns : t.stats.count .ret = t.stats.returns
  halts : t.stats.count .halt = 0
  depth : (t.depth : Int) = 1 + t.stats.calls - t.stats.returns
  returns_le : t.stats.returns ≤ t.stats.calls
  attained : ∃ u ∈ states, u.depth = t.stats.maxDepth
  greatest : ∀ u ∈ states, u.depth ≤ t.stats.maxDepth
  limited : t.stats.maxDepth ≤ c.limits.maxDepth

theorem Tallied.account (h : Tallied c log states t) (hhalt : .halt ∉ log) (hwidth : log.length < UInt64.size) :
    Account c log states t := by
  obtain ⟨-, hcounts, ⟨hcallCounter, hreturnCounter, hbalance, hactive⟩, hpeak⟩ := h
  have hexact : ∀ op : Opcode, log.count op < UInt64.size := fun op => Nat.lt_of_le_of_lt List.count_le_length hwidth
  have hcycles : t.stats.cycles = log.length := by
    rw [Stats.cycles, hcounts.cycles, UInt64.toNat_ofNat_of_lt' hwidth]
  have hcount : ∀ op, t.stats.count op = log.count op := by
    intro op
    exact (congrArg UInt64.toNat (hcounts.opcodes op)).trans (UInt64.toNat_ofNat_of_lt' (hexact op))
  have hcalls : t.stats.calls = log.count .call := by
    rw [Stats.calls, hcallCounter, UInt64.toNat_ofNat_of_lt' (hexact .call)]
  have hreturns : t.stats.returns = log.count .ret := by
    rw [Stats.returns, hreturnCounter, UInt64.toNat_ofNat_of_lt' (hexact .ret)]
  refine ⟨hcycles, hcount, ?_, ?_, ?_, ?_, ?_, ?_, hpeak.attained, hpeak.greatest, hpeak.limited⟩
  · rw [hcycles, Stats.total]
    simp only [hcount]
    exact (foldr_count_all log).symm
  · rw [hcount, hcalls]
  · rw [hcount, hreturns]
  · rw [hcount]
    exact List.count_eq_zero.mpr hhalt
  · rw [hcalls, hreturns]
    omega
  · -- The outermost frame never returns.
    rw [hcalls, hreturns]
    omega

/-- After any request that starts a machine, and whatever is asked of it before it is started again, it is on a course
from that start. On every such course the statistics are exact until they have counted to their width. -/
theorem statistics_account_for_run {m : Machine} {code : Array Word} {globals : Word} {table : Option FunctionTable}
    {base : Limits} {o : Options} (hbase : 1 ≤ base.maxDepth) (hmake : make code globals table base o = .ok m)
    (history : List Request) (address : Word) :
    (∀ r later, r.address? m.setup.table = some address → (∀ q ∈ later, q.address? m.setup.table = none) →
      ∃ log states, Course m.setup ((m.serve history).start address).state log states
        (m.serve (history ++ r :: later)).state) ∧
    ∀ log states t, Course m.setup ((m.serve history).start address).state log states t → log.length < UInt64.size →
      Account m.setup log states t := by
  cases table with
  | none => cases hmake
  | some table =>
    have hadjusted : 1 ≤ (base.adjust o.sizing).maxDepth := Limits.adjust_maxDepth_pos _ hbase
    have hsound : Sound m.setup (m.serve history).state := (stands_of_make hadjusted hmake history).1.sound
    have hdepth : 1 ≤ m.setup.limits.maxDepth := by
      rw [setup_of_make hmake]
      exact hadjusted
    rw [← setup_serve m history] at hsound hdepth ⊢
    have hstart := tallied_start address hsound hdepth
    constructor
    · intro r later hr hlater
      rw [serve_append]
      have hleads := leads_answer hr
      rw [← setup_answer _ r] at hleads hlater ⊢
      exact hleads.serve hlater
    · intro log states t hcourse hwidth
      exact (hcourse.tallied hstart).account hcourse.halt_not_mem hwidth

/-- The chain of calls, until `main` has been returned to. -/
theorem chain_accounted :
    1 ≤ ({} : Limits).maxDepth ∧
    ∃ m, make chainCode 0 (some chainTable) {} { sizing := { stackSize := some 4 } } = .ok m ∧
      Leads m.setup ((m.serve []).start 0).state (m.serve (.start 0 :: List.replicate 7 .step)).state ∧
      (∃ states, Account m.setup [.ret, .ret, .call, .load, .call, .iconst, .iconst] states
        (m.serve (.start 0 :: List.replicate 7 .step)).state) ∧
      (m.serve (.start 0 :: List.replicate 7 .step)).state.stats.maxDepth = 3 := by
  have hglobals : (0 : Word) ≤ 0 := by decide
  obtain ⟨m, hm, -⟩ := make_eq_ok chainCode chainTable {} { sizing := { stackSize := some 4 } } hglobals
    (by decide)
  obtain ⟨hleads, haccount⟩ := statistics_account_for_run (by decide) hm [] 0
  have hstart : (m.serve [.start 0]).state = ((m.serve []).start 0).state :=
    congrArg (·.state) (serve_start m [] [] 0)
  rw [← hstart] at haccount
  have happlies : ∀ k i, [.iconst 7, .iconst 8, .call 1, .load 1, .call 2, .ret, .ret][k]? = some i →
      Applies m.setup (m.serve (.start 0 :: List.replicate k .step)).state i
        (m.serve (.start 0 :: List.replicate (k + 1) .step)).state := by
    cases hm
    intro k i hi
    match k with
    | 0 | 1 | 2 | 3 | 4 | 5 | 6 =>
      cases hi
      exact ⟨⟨by decide, rfl, by decide⟩, rfl, rfl⟩
  have hcourse : Course m.setup (m.serve [.start 0]).state [.ret, .ret, .call, .load, .call, .iconst, .iconst] _
      (m.serve (.start 0 :: List.replicate 7 .step)).state :=
    Course.started.applied (happlies 0 _ rfl)
      |>.applied (happlies 1 _ rfl)
      |>.applied (happlies 2 _ rfl)
      |>.applied (happlies 3 _ rfl)
      |>.applied (happlies 4 _ rfl)
      |>.applied (happlies 5 _ rfl)
      |>.applied (happlies 6 _ rfl)
  refine ⟨by decide, m, hm, hleads (.start 0) (List.replicate 7 .step) rfl ?_, ⟨_, haccount _ _ _ hcourse ?_⟩, ?_⟩
  · intro q hq
    rw [List.eq_of_mem_replicate hq]
    rfl
  · decide
  · cases hm
    rfl

end Machine
end StackMachine
