import StackMachine.Proofs.Machine.Observation
import StackMachine.Proofs.Machine.Representation
import StackMachine.Proofs.Verification.Exactness

/-!
# Findings come true

A machine that comes to an instruction with a finding faults there, whatever it holds by then: verification warns of
nothing that a machine could get past. The exceptions are branches. One that leads into the middle of an instruction
can be taken, and one that leads out of the code can be passed over if its condition does not hold.
-/

set_option autoImplicit false

namespace StackMachine

/-- There is a topmost operand, and it is one with which the branch goes on at the next instruction. -/
def Opcode.PassesOver (op : Opcode) (stack : List Word) : Prop :=
  ∃ v rest, stack = v :: rest ∧ (op = .brt ∧ v ≠ 1 ∨ op = .brf ∧ v ≠ 0)

namespace Machine

open Verification

/-- The next cycle ends in a fault of this kind, at the place where the machine stands. -/
def Faults (m : Machine) (kind : FaultKind) : Prop :=
  ∃ f : Fault, f.ip = m.state.ip ∧ f.reason.kind = kind ∧
    cycle m.setup m.state = .ok () (m.state.fail (.fault f)) ∧
    m.step = ({ m with state := m.state.fail (.fault f) }, some (.run (.fault f)))

/-- What a problem comes to on a machine that stands at its instruction. Nothing is said of functions, nor of branches
to some place within the code. -/
def Bites (m : Machine) : Problem → Prop
  | .invalidOpcode _ => m.Faults .decode
  | .truncated _ | .badGlobal _ _ _ | .negativeSlot _ _ | .unknownFunction _ => m.Faults .bounds
  | .badTarget op w =>
    ¬ (0 ≤ w.toInt ∧ w.toInt ≤ m.setup.code.size) → (m.Faults .bounds ↔ ¬ op.PassesOver m.state.stack)
  | .badAddress _ _ => True

/-! ## Instructions that offend are refused -/

section Refused

variable {c : Setup} {next : Nat} {i : Instr} {x : Configuration}

/-- The instruction is not applied, because something is out of bounds. -/
def Refused (c : Setup) (next : Nat) (i : Instr) (x : Configuration) : Prop :=
  ∃ reason : Reason, Configuration.apply c next i x = .error (.fault reason) ∧ reason.kind = .bounds

theorem refused_global {w : Word} (hi : i = .gload w ∨ i = .gstore w) (h : w.index? x.globals.size = none) :
    Refused c next i x := by
  refine ⟨.globalOutside w x.globals.size, ?_, rfl⟩
  obtain rfl | rfl := hi
  · simp [Configuration.apply, Configuration.andThen, Configuration.loadGlobal, h]
  · simp [Configuration.apply, Configuration.andThen, Configuration.storeGlobal, h]

theorem refused_slot {w : Word} (hi : i = .load w ∨ i = .store w) (hframes : x.frames ≠ []) (h : w.toInt < 0) :
    Refused c next i x := by
  obtain ⟨f, rest, hf⟩ := List.exists_cons_of_ne_nil hframes
  have hnone : w.index? f.slots.length = none := Word.index?_eq_none_iff.mpr (by omega)
  refine ⟨.localOutside w f.slots.length, ?_, rfl⟩
  obtain rfl | rfl := hi
  · simp [Configuration.apply, Configuration.andThen, Configuration.load, hf, hnone]
  · simp [Configuration.apply, Configuration.andThen, Configuration.store, hf, hnone]

theorem refused_call {id : Word} (h : c.table.lookup? id = none) : Refused c next (.call id) x :=
  ⟨.unknownFunction id c.table.size, by simp only [Configuration.apply, Configuration.call, h], rfl⟩

theorem branchOn_passes {taken v : Word} {rest : List Word} (w : Word) (hs : x.stack = v :: rest) (hv : v ≠ taken) :
    Configuration.branchOn c next taken w x = .ok (next, { x with stack := rest }) := by
  simp only [Configuration.branchOn, Configuration.withTop, hs, hv, if_false]

theorem branchOn_refused {taken w : Word} (hw : w.target? c.code.size = none)
    (h : ∀ v rest, x.stack = v :: rest → v = taken) :
    ∃ reason : Reason, Configuration.branchOn c next taken w x = .error (.fault reason) ∧ reason.kind = .bounds := by
  cases hs : x.stack with
  | nil =>
    refine ⟨.underflow 1 0, ?_, rfl⟩
    simp only [Configuration.branchOn, Configuration.withTop, hs]
  | cons v rest =>
    refine ⟨.branchOutside w, ?_, rfl⟩
    simp only [Configuration.branchOn, Configuration.withTop, hs, h v rest hs, if_true, Configuration.target, hw]

theorem branch_passes {w : Word} (hi : i = .br w ∨ i = .brt w ∨ i = .brf w) (h : i.opcode.PassesOver x.stack) :
    ∃ y, Configuration.apply c next i x = .ok (next, y) := by
  obtain ⟨v, rest, hs, ⟨hop, hv⟩ | ⟨hop, hv⟩⟩ := h
  · obtain rfl | rfl | rfl := hi
    · cases hop
    · exact ⟨_, branchOn_passes w hs hv⟩
    · cases hop
  · obtain rfl | rfl | rfl := hi
    · cases hop
    · cases hop
    · exact ⟨_, branchOn_passes w hs hv⟩

theorem refused_branch {w : Word} (hi : i = .br w ∨ i = .brt w ∨ i = .brf w) (hw : w.target? c.code.size = none)
    (h : ¬ i.opcode.PassesOver x.stack) : Refused c next i x := by
  obtain rfl | rfl | rfl := hi
  · exact ⟨.branchOutside w, by simp only [Configuration.apply, Configuration.target, hw], rfl⟩
  · refine branchOn_refused hw fun v rest hs => ?_
    apply Classical.byContradiction
    exact fun hv => h ⟨v, rest, hs, .inl ⟨rfl, hv⟩⟩
  · refine branchOn_refused hw fun v rest hs => ?_
    apply Classical.byContradiction
    exact fun hv => h ⟨v, rest, hs, .inr ⟨rfl, hv⟩⟩

end Refused

/-- An instruction that is refused leaves a fault and nothing else. -/
theorem cycle_of_refused {c : Setup} {s : State} {i : Instr} (hsound : Sound c s) (h : Fetches c s i)
    (hrefused : Refused c (s.ip.toNat + i.size) i s.view) :
    ∃ reason : Reason, reason.kind = .bounds ∧ cycle c s = .ok () (s.fault s.ip i.opcode.word reason) := by
  obtain ⟨reason, happly, hkind⟩ := hrefused
  exact ⟨reason, hkind, cycle_of_fault hsound h happly⟩

/-! ## Machines at a finding -/

section Bites

variable {m : Machine} {address : Word}

theorem faults_of_cycle {opcode : Word} {reason : Reason} (hrun : m.state.status = .running)
    (h : cycle m.setup m.state = .ok () (m.state.fault m.state.ip opcode reason)) : m.Faults reason.kind :=
  ⟨_, rfl, rfl, h, step_of_cycle_ok hrun h⟩

theorem not_faults_of_running {kind : FaultKind} {t : State} (h : cycle m.setup m.state = .ok () t)
    (ht : t.status = .running) : ¬ m.Faults kind := by
  rintro ⟨f, -, -, hcycle, -⟩
  rw [hcycle] at h
  cases h
  cases ht

theorem faults_of_refused {i : Instr} (hrun : m.state.status = .running) (hsound : Sound m.setup m.state)
    (hi : Fetches m.setup m.state i) (h : Refused m.setup (m.state.ip.toNat + i.size) i m.state.view) :
    m.Faults .bounds := by
  obtain ⟨reason, hkind, hcycle⟩ := cycle_of_refused hsound hi h
  exact hkind ▸ faults_of_cycle hrun hcycle

/-- What is wrong with the item at the instruction pointer comes true, whatever else the machine holds. -/
theorem bites_of_offence {edge : Int → Prop} {globals : Word} {f : Fetched} {p : Problem}
    (hrun : m.state.status = .running) (hstanding : Standing m.setup address m.state)
    (hglobals : m.state.globals.size = globals.toInt.toNat) (h0 : 0 ≤ m.state.ip)
    (hf : fetch? m.setup.code m.state.ip.toNat = some f) (h : Offence edge globals (some m.setup.table) f p) :
    m.Bites p := by
  cases h with
  | invalid w => exact faults_of_cycle hrun (cycle_of_unfetched (.invalid h0 hf))
  | truncated op => exact faults_of_cycle hrun (cycle_of_unfetched (.truncated h0 hf))
  | target hi =>
    intro houtside
    have hfetches : Fetches m.setup m.state _ := ⟨h0, hf, by rintro rfl; simp at hi⟩
    constructor
    · intro hfaults hpasses
      obtain ⟨y, hy⟩ := branch_passes (x := m.state.view) hi hpasses
      obtain ⟨t, ht, -, -, hstatus, -⟩ := cycle_of_applied hstanding.sound hfetches hy
      exact not_faults_of_running ht (hstatus.trans hrun) hfaults
    · intro hpasses
      refine faults_of_refused hrun hstanding.sound hfetches (refused_branch hi ?_ hpasses)
      exact Word.index?_eq_none_iff.mpr (by omega)
  | globalIndex hi hindex =>
    have hfetches : Fetches m.setup m.state _ := ⟨h0, hf, by rintro rfl; simp at hi⟩
    refine faults_of_refused hrun hstanding.sound hfetches (refused_global hi ?_)
    refine Word.index?_eq_none_iff.mpr ?_
    change ¬ (_ ∧ _ < (m.state.globals.size : Int))
    omega
  | slot hi hslot =>
    have hfetches : Fetches m.setup m.state _ := ⟨h0, hf, by rintro rfl; simp at hi⟩
    exact faults_of_refused hrun hstanding.sound hfetches (refused_slot hi hstanding.active (by omega))
  | callee ht hid =>
    cases ht
    refine faults_of_refused hrun hstanding.sound ⟨h0, hf, nofun⟩ (refused_call ?_)
    rw [← Option.not_isSome_iff_eq_none, lookup?_isSome_iff]
    exact hid

end Bites

/-- However a machine has been brought to run at an instruction with a finding, the finding comes true there. -/
theorem findings_bite {code : Array Word} {globals : Word} {table : Option FunctionTable} {base : Limits} {o : Options}
    {m : Machine} {history : List Request} {x : Finding} (hbase : 1 ≤ base.maxDepth)
    (hmake : make code globals table base o = .ok m)
    (hrun : (m.serve history).state.status = .running) (hx : x ∈ findings code globals table)
    (hip : (m.serve history).state.ip = x.address) : (m.serve history).Bites x.problem := by
  obtain ⟨hcode, htable, hglobals, address, hstanding⟩ := standing_of_make hbase hmake hrun
  obtain ⟨fs, hfs⟩ := exists_reading code
  obtain ⟨items, functions, hfindings, hreports⟩ := exists_report globals table hfs
  rw [hfindings, List.mem_append] at hx
  obtain hx | hx := hx
  · obtain ⟨⟨a, f⟩, hmem, haddress, hoffence⟩ := (hreports.offences x).mp hx
    have hfetch : fetch? code a = some f := (mem_walkFrom (walk_of_reading hfs ▸ hmem)).1
    have hnat : (m.serve history).state.ip = a := hip.trans haddress
    rw [← setup_serve m history] at hcode htable hstanding
    refine bites_of_offence hrun hstanding hglobals (by omega) ?_ (htable ▸ hoffence)
    rw [hcode, hnat]
    exact hfetch
  · obtain ⟨t, -, id, d, -, -, rfl⟩ := (hreports.misplaced x).mp hx
    trivial

/-- A branch out of the code, on a constant with which it is taken. -/
def missedExit : Array Word :=
  #[9, 1, 7, 99]

theorem missedExit_faults :
    1 ≤ ({} : Limits).maxDepth ∧
    ∃ m, make missedExit 0 (some pairTable) {} { sizing := { stackSize := some 4 } } = .ok m ∧
      (m.serve [.start 0, .step]).state.status = .running ∧ (m.serve [.start 0, .step]).state.ip = 2 ∧
      { address := 2, problem := .badTarget .brt 99 } ∈ findings missedExit 0 (some pairTable) ∧
      (m.serve [.start 0, .step]).Faults .bounds := by
  have hreading : Reading missedExit.toList [.instr (.iconst 1), .instr (.brt 99)] :=
    .instr (.iconst 1) (.instr (.brt 99) .done)
  have hedge : ¬ Edge [.instr (.iconst 1), .instr (.brt 99)] missedExit.size (99 : Word).toInt := by
    rintro (h | ⟨p, hp, h⟩)
    · cases h
    · simp only [located, List.mem_cons, List.not_mem_nil, or_false] at hp
      rcases hp with rfl | rfl <;> cases h
  have hfinding : { address := 2, problem := .badTarget .brt 99 } ∈ findings missedExit 0 (some pairTable) := by
    obtain ⟨items, functions, hfindings, hreports⟩ := exists_report 0 (some pairTable) hreading
    rw [hfindings]
    refine List.mem_append_left _ ((hreports.offences _).mpr ?_)
    exact ⟨(2, .instr (.brt 99)), by decide, rfl, .target (.inr (.inl rfl)) hedge⟩
  have hglobals : 0 ≤ (0 : Word) := by decide
  obtain ⟨m, hm, -⟩ := make_eq_ok missedExit pairTable {} { sizing := { stackSize := some 4 } } hglobals
    (by decide)
  have hrun : (m.serve [.start 0, .step]).state.status = .running := by
    cases hm
    rfl
  have hip : (m.serve [.start 0, .step]).state.ip = 2 := by
    cases hm
    rfl
  have hdepth : 1 ≤ ({} : Limits).maxDepth := by decide
  refine ⟨hdepth, m, hm, hrun, hip, hfinding, (findings_bite hdepth hm hrun hfinding hip ?_).mpr ?_⟩
  · exact fun h => absurd h.2 (by cases hm; decide)
  · rintro ⟨v, rest, hstack, ⟨-, hv⟩ | ⟨hop, -⟩⟩
    · have htop : (m.serve [.start 0, .step]).state.stack = [1] := by
        cases hm
        rfl
      rw [htop] at hstack
      cases hstack
      exact hv rfl
    · cases hop

end Machine
end StackMachine
