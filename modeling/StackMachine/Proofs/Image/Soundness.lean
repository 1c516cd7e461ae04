import StackMachine.Image.Basic
import StackMachine.Proofs.Machine.Representation
import StackMachine.Proofs.Success
import StackMachine.Proofs.Verification.Boundaries

/-!
# Valid images run on boundaries

In verified code that was started at a boundary the instruction pointer and every return address stay on
boundaries. So what the verifier looks for never happens: faults are left only where operands, frames or limits
do not suffice.
-/

set_option autoImplicit false

namespace StackMachine

/-- A fault that verification does not rule out. -/
def Reason.Permitted (r : Reason) : Prop :=
  r.isDynamic = true ∨ ∃ why, r = .cancelled why

namespace Machine

open Verification

def returnAddresses (frames : List Activation) : List Int :=
  -- The outermost frame comes last and returns nowhere.
  (frames.map (·.returnAddress)).dropLast

structure OnTrack (c : Setup) (s : State) : Prop where
  pointer : Boundary c.code s.ip
  returns : ∀ r ∈ returnAddresses s.view.frames, Boundary c.code r
  faults : ∀ f, s.status = .faulted (.fault f) → f.reason.Permitted

section OnTrack

variable {c : Setup} {globals : Word} {s : State}

/-- At a boundary where something stands, an instruction stands. -/
theorem fetched_at_boundary (hv : Verified c.code globals c.table) (h : Boundary c.code s.ip)
    {f : Fetched} (hf : fetch? c.code s.ip.toNat = some f) :
    s.ip.toNat ∈ starts c.code ∧
      ∃ i, f = .instr i ∧ Boundary c.code ((s.ip.toNat + i.size : Nat) : Int) := by
  obtain hend | ⟨n, hn, hip⟩ := h
  · have hnone := fetch?_eq_none_iff.mpr (show c.code.size ≤ s.ip.toNat by omega)
    rw [hf] at hnone
    cases hnone
  · have hnat : s.ip.toNat = n := by omega
    obtain ⟨i, hi, hnext⟩ := hv.fetches n hn
    rw [hnat] at hf ⊢
    rw [hi] at hf
    cases hf
    exact ⟨hn, i, rfl, hnext⟩

theorem unfetched_at_boundary (hv : Verified c.code globals c.table) (h : Boundary c.code s.ip)
    {opcode : Word} {reason : Reason} (hu : Unfetched c s opcode reason) : False := by
  cases hu with
  | outside hout =>
    obtain hend | ⟨n, hn, hip⟩ := h
    · omega
    · obtain ⟨i, hi, -⟩ := hv.fetches n hn
      obtain ⟨-, -, hsize⟩ := words_of_fetch? hi
      omega
  | invalid _ hf =>
    obtain ⟨-, i, hi, -⟩ := fetched_at_boundary hv h hf
    cases hi
  | truncated _ hf =>
    obtain ⟨-, i, hi, -⟩ := fetched_at_boundary hv h hf
    cases hi

theorem mem_returnAddresses_cons {a : Activation} {frames : List Activation} {r : Int}
    (h : r ∈ returnAddresses (a :: frames)) : r = a.returnAddress ∨ r ∈ returnAddresses frames := by
  unfold returnAddresses at *
  cases frames with
  | nil => cases h
  | cons b rest => exact List.mem_cons.mp h

theorem boundary_flow (hv : Verified c.code globals c.table) (h : OnTrack c s) {i : Instr} {ip : Int}
    {y : Configuration} (hi : Fetches c s i)
    (hflow : Flow c (s.ip.toNat + i.size) i s.view (.ok (ip, y))) :
    Boundary c.code ip ∧ ∀ r ∈ returnAddresses y.frames, Boundary c.code r := by
  obtain ⟨hstart, j, hj, hnext⟩ := fetched_at_boundary hv h.pointer hi.fetched
  cases hj
  cases hflow with
  | advance hy =>
    rw [hy]
    exact ⟨hnext, h.returns⟩
  | branch hbranch hw hy =>
    obtain ⟨n, hn, hboundary⟩ := hv.branches _ hstart _ _ hi.fetched hbranch
    rw [hw] at hn
    cases hn
    rw [hy]
    exact ⟨hboundary, h.returns⟩
  | store hf hy =>
    have hreturns := h.returns
    rw [hf] at hreturns
    rw [hy]
    exact ⟨hnext, hreturns⟩
  | call hcall hd _ _ _ hy =>
    obtain ⟨n, hn, hboundary⟩ := hv.functions _ (FunctionTable.mem_of_lookup? hd)
    obtain ⟨haddr, -⟩ := Word.index?_eq_some_iff.mp hn
    rw [hy, haddr]
    refine ⟨hboundary, ?_⟩
    intro r hr
    obtain rfl | hr := mem_returnAddresses_cons hr
    -- The new frame returns to the address after the call, where the walk goes on too.
    · exact hnext
    · exact h.returns r hr
  | @ret f g rest y _ hf hy =>
    -- A frame lies below `f`, so the address of `f` is among those that are on boundaries.
    have hreturns := h.returns
    rw [hf] at hreturns
    rw [hy]
    exact ⟨hreturns _ List.mem_cons_self, fun r hr => hreturns r (List.mem_cons_of_mem _ hr)⟩

/-- An instruction that is not applied did not find the operands, frames or limits it needs. -/
theorem permitted_flow (hv : Verified c.code globals c.table) (h : OnTrack c s)
    (hglobals : s.globals.size = globals.toInt.toNat) {i : Instr} {reason : Reason} (hi : Fetches c s i)
    (hflow : Flow c (s.ip.toNat + i.size) i s.view (.error (.fault reason))) : reason.Permitted := by
  obtain ⟨hstart, -⟩ := fetched_at_boundary hv h.pointer hi.fetched
  cases hflow with
  | dynamic hr => exact .inl hr
  | badBranch hbranch hw =>
    obtain ⟨n, hn, -⟩ := hv.branches _ hstart _ _ hi.fetched hbranch
    rw [hw] at hn
    cases hn
  | badGlobal hglobal hw =>
    have hsome := hv.globals _ hstart _ _ hi.fetched hglobal
    rw [← hglobals] at hsome
    exact (hsome hw).elim
  | badCall hcall hd =>
    subst hcall
    exact (hv.calls _ hstart _ hi.fetched hd).elim
  | badEntry hcall hd haddr =>
    obtain ⟨n, hn, -⟩ := hv.functions _ (FunctionTable.mem_of_lookup? hd)
    rw [haddr] at hn
    cases hn

theorem onTrack_cycle (hv : Verified c.code globals c.table) (hsound : Sound c s) (h : OnTrack c s)
    (hglobals : s.globals.size = globals.toInt.toNat) (hrun : s.status = .running) :
    OnTrack c (leftBy (cycle c s)) := by
  obtain ⟨-, -, hcycled⟩ := cycle_flow hsound
  cases hcycled with
  | moved hi hflow hframes hstatus =>
    obtain ⟨hpointer, hreturns⟩ := boundary_flow hv h hi hflow
    rw [← hframes] at hreturns
    refine ⟨hpointer, hreturns, ?_⟩
    intro f hf
    rw [hstatus, hrun] at hf
    cases hf
  | stayed hip hframes hstatus =>
    refine ⟨hip ▸ h.pointer, hframes ▸ h.returns, ?_⟩
    intro f hf
    rw [hf] at hstatus
    -- One case for each way to end; only an instruction that was not applied leaves a fault.
    generalize hs : Status.faulted (.fault f) = status at hstatus
    cases hstatus with
    | halted | print => cases hs
    | stuck hu => exact (unfetched_at_boundary hv h.pointer hu).elim
    | fault hi hflow =>
      cases hs
      exact permitted_flow hv h hglobals hi hflow
    | abandoned =>
      rw [hrun] at hs
      cases hs

end OnTrack

/-- What requests preserve: a machine last started at a boundary is on track, whatever happened before. -/
structure Tracked (c : Setup) (globals : Word) (o : Option Word) (s : State) : Prop where
  sound : Sound c s
  globals_size : s.globals.size = globals.toInt.toNat
  idle : o = none → s.status ≠ .running
  onTrack : ∀ address : Word, o = some address → Boundary c.code address.toInt → OnTrack c s

theorem tracked_fresh (code : Array Word) (globals : Word) (table : FunctionTable) (limits : Limits) (o : Options) :
    Tracked (fresh code globals table limits o).setup globals none (fresh code globals table limits o).state := by
  refine ⟨sound_fresh code globals table limits o, Array.size_replicate, ?_, ?_⟩
  · intro _ hrun
    cases hrun
  · intro address haddress
    cases haddress

theorem returnAddresses_overwrite (s : State) (d i : Nat) (v : Word) :
    returnAddresses (s.overwrite d i v).view.frames = returnAddresses s.view.frames := by
  have hshape := congrArg (List.map (·.2.1)) (shape_overwrite s d i v)
  rw [List.map_map, List.map_map] at hshape
  exact congrArg List.dropLast hshape

theorem tracked_invariant {c : Setup} {globals : Word} (hv : Verified c.code globals c.table)
    (hdepth : 1 ≤ c.limits.maxDepth) : Invariant c (Tracked c globals) where
  start o s address h := by
    obtain ⟨t, hbegin, ht, hframes, hip, hstatus, hglobals⟩ := begin_view address h.sound hdepth
    rw [hbegin]
    refine ⟨ht, ?_, ?_, ?_⟩
    · simp only [leftBy, hglobals]
      exact h.globals_size
    · intro hnone
      cases hnone
    · intro a ha hboundary
      cases ha
      refine ⟨?_, ?_, ?_⟩
      · simp only [leftBy, hip]
        exact hboundary
      · simp only [leftBy, hframes]
        intro r hr
        cases hr
      · simp only [leftBy, hstatus]
        intro f hf
        cases hf
  cycle o s h hrun := by
    obtain ⟨hsound, hsize, -⟩ := cycle_flow h.sound
    refine ⟨hsound, hsize.trans h.globals_size, fun hnone => (h.idle hnone hrun).elim, ?_⟩
    intro a ha hboundary
    exact onTrack_cycle hv h.sound (h.onTrack a ha hboundary) h.globals_size hrun
  cancel o s why h hrun := by
    refine ⟨{ h.sound with }, h.globals_size, fun hnone => (h.idle hnone hrun).elim, ?_⟩
    intro a ha hboundary
    have htrack := h.onTrack a ha hboundary
    refine ⟨htrack.pointer, htrack.returns, ?_⟩
    intro f hf
    cases hf
    exact .inr ⟨why, rfl⟩
  overwrite o s d i v h := by
    refine ⟨h.sound.modifyFrame d fun _ hf => hf.setCell _ _, h.globals_size, h.idle, ?_⟩
    intro a ha hboundary
    have htrack := h.onTrack a ha hboundary
    refine ⟨htrack.pointer, ?_, htrack.faults⟩
    rw [returnAddresses_overwrite]
    exact htrack.returns

end Machine

namespace Image

open Machine Verification

/-- The instruction pointer is on a boundary, and no fault is one that verification looks for. -/
structure Safe (code : Array Word) (s : State) : Prop where
  pointer : Boundary code s.ip
  faults : ∀ f, s.status = .faulted (.fault f) → f.reason.Permitted

section Validate

variable {img : Image}

theorem validate_eq_ok_iff :
    img.validate = .ok () ↔ img.version = currentVersion ∧
      ¬ (img.globals < 0 ∨ img.stackSize < 0 ∨ img.maxDepth < 0) ∧
      ∃ t, img.table = .ok t ∧ ¬ (img.entry ≠ "" ∧ (t.idOf? img.entry).isNone) ∧
        findings img.words img.globals (some t) = [] := by
  constructor
  · intro h
    unfold validate at h
    split at h
    next => cases h
    next hversion =>
      split at h
      next => cases h
      next hsizing =>
        split at h
        next => cases h
        next t ht =>
          split at h
          next => cases h
          next hentry =>
            split at h
            next hfindings => exact ⟨Decidable.not_not.mp hversion, hsizing, t, ht, hentry, hfindings⟩
            next => cases h
  · rintro ⟨hversion, hsizing, t, ht, hentry, hfindings⟩
    rw [validate, if_neg (not_not_intro hversion), if_neg hsizing, ht]
    dsimp only
    rw [if_neg hentry, hfindings]

theorem verified_of_validate (h : img.validate = .ok ()) :
    ∃ t, img.table = .ok t ∧ 0 ≤ img.globals ∧ (img.entry ≠ "" → (t.idOf? img.entry).isSome) ∧
      Verified img.words img.globals t := by
  obtain ⟨-, hsizing, t, ht, hentry, hfindings⟩ := validate_eq_ok_iff.mp h
  refine ⟨t, ht, ?_, ?_, verified_of_findings hfindings⟩
  · exact Int64.not_lt.mp fun hneg => hsizing (.inl hneg)
  · intro hne
    apply Classical.byContradiction
    intro hnone
    exact hentry ⟨hne, by simpa using hnone⟩

theorem named?_of_isSome {t : FunctionTable} {name : String} (h : (t.idOf? name).isSome) :
    ∃ d ∈ t.entries, named? t name = some d := by
  obtain ⟨k, hk⟩ := Option.isSome_iff_exists.mp h
  have hlt : k < t.entries.size := (Array.findIdx?_eq_some_iff_getElem.mp hk).1
  refine ⟨t.entries[k], Array.getElem_mem hlt, ?_⟩
  rw [named?, hk, Option.bind_some, Array.getElem?_eq_getElem hlt]

def request (img : Image) (ctx : Context) : Request :=
  if img.entry = "" then .executeEntry ctx else .executeFunction ctx img.entry

theorem execute_eq_answer (ctx : Context) (m : Machine) : img.execute ctx m = m.answer (img.request ctx) := by
  unfold execute request
  split <;> rfl

theorem request_address? {t : FunctionTable} (h : img.entry ≠ "" → (t.idOf? img.entry).isSome) (ctx : Context) :
    ∃ d ∈ t.entries, (img.request ctx).address? t = some d.address := by
  unfold request
  split
  next => exact ⟨t.entry, Array.getElem_mem t.size_pos, rfl⟩
  next hne =>
    obtain ⟨d, hd, hnamed⟩ := named?_of_isSome (h hne)
    refine ⟨d, hd, ?_⟩
    rw [Request.address?, hnamed, Option.map_some]

end Validate

section Machine

variable {img : Image} {m : Machine} {ctx : Context}

theorem execute_of_address {address : Word} (h : (img.request ctx).address? m.setup.table = some address) :
    img.execute ctx m = m.execute ctx address := by
  unfold execute
  unfold request at h
  split at h
  next hentry =>
    rw [if_pos hentry]
    cases h
    rfl
  next hentry =>
    obtain ⟨d, hd, rfl⟩ := Option.map_eq_some_iff.mp h
    unfold named? at hd
    simp only [if_neg hentry, executeFunction, hd]

theorem execute_of_no_address (h : (img.request ctx).address? m.setup.table = none) :
    img.execute ctx m = (m, some (.noFunction img.entry)) := by
  unfold execute
  unfold request at h
  split at h
  next => cases h
  next hentry =>
    have hd := Option.map_eq_none_iff.mp h
    unfold named? at hd
    simp only [if_neg hentry, executeFunction, hd]

/-- What a machine of the image needs can be allocated. -/
abbrev Allocates (img : Image) (o : Options) : Prop :=
  Machine.Allocates img.globals ((Limits.adjust {} img.sizing).adjust o.sizing)

theorem machine_of_table {o : Options} {t : FunctionTable} (h : img.table = .ok t) :
    img.machine o = (make img.words img.globals (some t) (Limits.adjust {} img.sizing) o).mapError .setup := by
  rw [machine, h]

theorem machine_refused {o : Options} {t : FunctionTable} (htable : img.table = .ok t) (hglobals : 0 ≤ img.globals)
    (h : ¬ img.Allocates o) : img.machine o = .error (.setup (.abandoned .allocation)) := by
  rw [machine_of_table htable, make_refused t hglobals h]
  rfl

theorem machine_eq_ok_iff {o : Options} :
    img.machine o = .ok m ↔ ∃ t, img.table = .ok t ∧ 0 ≤ img.globals ∧ img.Allocates o ∧
      m = fresh img.words img.globals t ((Limits.adjust {} img.sizing).adjust o.sizing) o := by
  constructor
  · intro h
    cases ht : img.table with
    | error e =>
      rw [machine, ht] at h
      cases h
    | ok t =>
      rw [machine_of_table ht] at h
      obtain ⟨t', ht', hmade⟩ := make_eq_ok_iff.mp (mapError_eq_ok_iff.mp h)
      cases ht'
      exact ⟨t, rfl, hmade⟩
  · rintro ⟨t, ht, hmade⟩
    rw [machine_of_table ht, make_eq_ok_iff.mpr ⟨t, rfl, hmade⟩]
    rfl

theorem sound_of_machine {o : Options} (h : img.machine o = .ok m) :
    1 ≤ m.setup.limits.maxDepth ∧ Sound m.setup m.state := by
  obtain ⟨t, -, -, -, rfl⟩ := machine_eq_ok_iff.mp h
  exact ⟨Limits.adjust_maxDepth_pos _ (Limits.adjust_maxDepth_pos _ (by decide)), sound_fresh _ _ t _ o⟩

end Machine

theorem Safe.of_tracked {c : Setup} {globals : Word} {o : Option Word} {s : State} {d : Descriptor}
    (hv : Verified c.code globals c.table) (h : Tracked c globals o s) (hd : d ∈ c.table.entries)
    (ho : o = some d.address) : Safe c.code s := by
  obtain ⟨n, hn, hboundary⟩ := hv.functions d hd
  obtain ⟨haddr, -⟩ := Word.index?_eq_some_iff.mp hn
  have htrack := h.onTrack d.address ho (haddr ▸ hboundary)
  exact ⟨htrack.pointer, htrack.faults⟩

/-- A valid image makes a machine, whatever the options are, if globals and operands can be allocated. Whatever was
asked of that machine before, while it runs from the address of a function of the table, or from where the image is run
from, its instruction pointer stays on boundaries and it does not fail for a reason that verification looks for. -/
theorem valid_image_safe (img : Image) (hvalid : img.validate = .ok ()) (o : Options) :
    ∃ table, img.table = .ok table ∧
      (img.Allocates o → ∃ m, img.machine o = .ok m) ∧
      (¬ img.Allocates o → img.machine o = .error (.setup (.abandoned .allocation))) ∧
      ∀ m, img.machine o = .ok m → ∀ history : List Request,
        (∀ d ∈ table.entries, startedAt table history = some d.address →
          Safe img.words (m.serve history).state) ∧
        (∀ ctx, Safe img.words (img.execute ctx (m.serve history)).1.state) := by
  obtain ⟨table, htable, hglobals, hentry, hverified⟩ := verified_of_validate hvalid
  refine ⟨table, htable, fun h => ⟨_, machine_eq_ok_iff.mpr ⟨table, htable, hglobals, h, rfl⟩⟩,
    machine_refused htable hglobals, ?_⟩
  intro m hm
  obtain ⟨hdepth, -⟩ := sound_of_machine hm
  obtain ⟨t, ht, -, -, rfl⟩ := machine_eq_ok_iff.mp hm
  obtain rfl : table = t := Except.ok.inj (htable.symm.trans ht)
  intro history
  -- What was asked before the last start may have left any state that is sound.
  have hinvariant := tracked_invariant hverified hdepth
  have hserved := hinvariant.serve (tracked_fresh _ _ table _ o) history
  constructor
  · intro d hd hstarted
    exact .of_tracked hverified hserved hd hstarted
  · intro ctx
    obtain ⟨d, hd, haddr⟩ := request_address? hentry ctx
    have hanswer := hinvariant.answer (setup_serve _ history) hserved (img.request ctx)
    rw [execute_eq_answer]
    exact .of_tracked hverified hanswer hd (congrArg (Option.or · _) haddr)

/-- Calls a function that prints twice its argument. -/
def doubling : Image where
  version := 1
  functions := some [{ name := "main" }, { name := "double", args := 1, address := 5 }]
  code := some [9, 7, 16, 1, 18, 10, 0, 10, 0, 1, 14, 17]

theorem doubling_safe :
    doubling.validate = .ok () ∧
    ∃ m, doubling.machine {} = .ok m ∧ Safe doubling.words (m.serve [.start 5, .step]).state ∧
      Safe doubling.words (doubling.execute .unlimited m).1.state := by
  have hvalid : doubling.validate = .ok () := by
    have hwalk : walk doubling.words = [(0, .instr (.iconst 7)), (2, .instr (.call 1)), (4, .instr .halt),
        (5, .instr (.load 0)), (7, .instr (.load 0)), (9, .instr .iadd), (10, .instr .print),
        (11, .instr .ret)] := by
      cbv
    unfold validate
    simp only [findings_eq, hwalk]
    unfold meets starts
    rw [hwalk]
    rfl
  obtain ⟨table, htable, hmade, -, hsafe⟩ := valid_image_safe doubling hvalid {}
  obtain ⟨m, hm⟩ := hmade (by decide)
  have h := hsafe m hm
  refine ⟨hvalid, m, hm, ?_, (h []).2 .unlimited⟩
  cases htable
  exact (h [.start 5, .step]).1 { name := "double", args := 1, address := 5 } (by simp [doubling]) rfl

/-- A valid image that asks for more operands than can be allocated. -/
def deep : Image where
  version := 1
  name := "deep"
  functions := some [{ name := "main" }]
  code := some [18]
  stackSize := 4611686018427387904
  maxDepth := 1

theorem deep_refused : deep.validate = .ok () ∧ deep.machine {} = .error (.setup (.abandoned .allocation)) := by
  have hwalk : walk deep.words = [(0, .instr .halt)] := by
    cbv
  constructor
  · unfold validate
    simp only [findings_eq, hwalk]
    unfold meets starts
    rw [hwalk]
    rfl
  · exact machine_refused (t := ⟨#[{ name := "main" }], by decide, by decide⟩) rfl (by decide) (by decide)

end Image
end StackMachine
