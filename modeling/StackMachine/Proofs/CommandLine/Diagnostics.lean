import StackMachine.CommandLine.Run
import StackMachine.Proofs.Image.RoundTrip
import StackMachine.Proofs.Image.Soundness
import StackMachine.Proofs.Machine.FrameSize
import StackMachine.Proofs.Machine.Tracing
import StackMachine.Proofs.RunStore.Session
import StackMachine.Proofs.Success

/-!
# Tracing, dumping, counting and recording

A command that runs a program file prints the same, fails in the same way and ends its report with the same line
whether or not it traces the run, dumps global memory, prints counters or records the run. A record holds what was
printed, and the failure if there was one, under the hash of the image that was run. No record is made if the machine
is abandoned, since that takes the command with it.
-/

set_option autoImplicit false

namespace StackMachine

/-! ## The image that is run -/

namespace Image

open Machine

section Load

variable {img : Image}

theorem validate_of_manifest {m : Manifest} (h : m.image = .ok img) : img.validate = .ok () := by
  unfold Manifest.image at h
  split at h
  next => cases h
  next =>
    obtain ⟨_, -, h⟩ := bind_eq_ok_iff.mp h
    obtain ⟨_, -, h⟩ := bind_eq_ok_iff.mp h
    obtain ⟨_, -, h⟩ := bind_eq_ok_iff.mp h
    obtain ⟨_, hvalid, h⟩ := bind_eq_ok_iff.mp h
    cases h
    exact mapError_eq_ok_iff.mp hvalid

/-- Program files are read as valid images only. -/
theorem validate_of_load {read : FileReader} {path : String} (h : Image.load read path = .ok img) :
    img.validate = .ok () := by
  unfold Image.load at h
  split at h
  next =>
    obtain ⟨_, -, h⟩ := bind_eq_ok_iff.mp h
    exact (of_decodeValid (mapError_eq_ok_iff.mp h)).2
  next =>
    obtain ⟨_, -, h⟩ := bind_eq_ok_iff.mp h
    exact validate_of_manifest (mapError_eq_ok_iff.mp h)

/-- The image with another function to start at; the empty name leaves the image's own. -/
def startedFrom (img : Image) (entry : String) : Image :=
  if entry = "" then img else { img with entry := entry }

theorem validate_startedFrom (h : img.validate = .ok ()) {entry : String}
    (hentry : entry = "" ∨ ∃ d ∈ img.functions.getD [], d.name = entry) :
    (img.startedFrom entry).validate = .ok () := by
  unfold startedFrom
  split
  next => exact h
  next hne =>
    obtain hempty | ⟨d, hd, hname⟩ := hentry
    · exact (hne hempty).elim
    · obtain ⟨hversion, hsizing, t, ht, -, hfindings⟩ := validate_eq_ok_iff.mp h
      refine validate_eq_ok_iff.mpr ⟨hversion, hsizing, t, ht, ?_, hfindings⟩
      rintro ⟨-, hnone⟩
      rw [← FunctionTable.toList_entries_of_ofList ht] at hd
      have hall := Array.findIdx?_eq_none_iff.mp (Option.isNone_iff_eq_none.mp hnone) d (Array.mem_def.mpr hd)
      rw [hname] at hall
      simp at hall

end Load

/-- Runs a machine from the image's entry point, if that ever ends. -/
def execute? (img : Image) (ctx : Context) (m : Machine) : Option (Machine × Option Failure) :=
  ((img.request ctx).address? m.setup.table).bind fun address => m.execute? ctx address

theorem execute_of_execute? {img : Image} {ctx : Context} {m : Machine} {r : Machine × Option Failure}
    (h : img.execute? ctx m = some r) : img.execute ctx m = r := by
  obtain ⟨address, haddress, hrun⟩ := Option.bind_eq_some_iff.mp h
  rw [execute_of_address haddress, Machine.execute, hrun, Option.getD_some]

section Machine

variable {img : Image} {m : Machine}

theorem machine_withTracing (img : Image) (b : Bool) :
    img.machine { tracing := b } = (img.machine {}).map (·.withTracing b) := by
  unfold machine
  cases img.table with
  | error e => rfl
  | ok t =>
    simp only [make_some]
    split
    · rfl
    · split <;> rfl

theorem machine_of_validate (h : img.validate = .ok ()) (o : Options) :
    (∃ m, img.machine o = .ok m) ∨ img.machine o = .error (.setup (.abandoned .allocation)) := by
  obtain ⟨t, htable, hglobals, -, -⟩ := verified_of_validate h
  by_cases hallocates : img.Allocates o
  · exact .inl ⟨_, machine_eq_ok_iff.mpr ⟨t, htable, hglobals, hallocates, rfl⟩⟩
  · exact .inr (machine_refused htable hglobals hallocates)

theorem untraced_of_machine (h : img.machine {} = .ok m) : m.setup.tracing = false ∧ m.state.trace = "" := by
  obtain ⟨t, -, -, -, rfl⟩ := machine_eq_ok_iff.mp h
  exact ⟨rfl, rfl⟩

end Machine

theorem address?_request (img : Image) (t : FunctionTable) (ctx ctx' : Context) :
    (img.request ctx).address? t = (img.request ctx').address? t := by
  unfold request
  split <;> rfl

/-- A run of an image that was not cut short ends the same way with a trace, unless it is cut short then. The
trace consists of closed lines, and there are none without tracing. -/
theorem execute?_withTracing {img : Image} {m n : Machine} {ctx ctx' : Context} {failure : Option Failure}
    (hm : img.machine {} = .ok m) (hrun : img.execute? ctx m = some (n, failure))
    (huncut : ¬ CutShort failure) (b : Bool)
    (huncut' : ∀ r, img.execute? ctx' (m.withTracing b) = some r → ¬ CutShort r.2) :
    ∃ n', img.execute? ctx' (m.withTracing b) = some (n', failure) ∧ Matching m.setup b n.state n'.state ∧
      n.state.trace = "" ∧ Closed (m.setup.withTracing b) n'.state.trace := by
  obtain ⟨hdepth, hsound⟩ := sound_of_machine hm
  obtain ⟨huntraced, hempty⟩ := untraced_of_machine hm
  obtain ⟨address, haddress, hexecute⟩ := Option.bind_eq_some_iff.mp hrun
  rw [address?_request img _ ctx ctx'] at haddress
  have haddress' : (img.request ctx').address? (m.withTracing b).setup.table = some address := haddress
  unfold execute? at huncut' ⊢
  rw [haddress', Option.bind_some] at huncut' ⊢
  obtain ⟨n', hexecute', hmatching⟩ := Machine.execute?_withTracing hdepth hsound hexecute huncut b huncut'
  refine ⟨n', hexecute', hmatching, ?_, ?_⟩
  · obtain htrace | ⟨htracing, -⟩ := closed_of_execute? hdepth hsound (.inl hempty) hexecute
    · exact htrace
    · rw [huntraced] at htracing
      cases htracing
  · exact closed_of_execute? (m := m.withTracing b) hdepth { hsound with } (.inl hempty) hexecute'

end Image

/-! ## Records -/

/-- A record with this id can be added. -/
def RunStore.Ready (st : RunStore) (id : String) : Prop :=
  st.closed = false ∧ ∀ row ∈ st.rows, row.id ≠ id

namespace CommandLine

open Machine

theorem keep_eq_ok {st : RunStore} {r : RunRecord} (hready : st.Ready r.id) (img : Image) :
    keep st img r = .ok { st.adding img with rows := st.rows ++ [r.row] } := by
  obtain ⟨hopen, hunused⟩ := hready
  have hnew : ¬ ((st.adding img).closed || (st.adding img).rows.any fun row => row.id = r.id) = true := by
    simpa [hopen] using hunused
  have hrecord : (st.adding img).record r = .ok { st.adding img with rows := st.rows ++ [r.row] } := by
    rw [RunStore.record, if_neg hnew, RunStore.adding_rows]
  rw [keep, RunStore.put_eq hopen]
  exact hrecord

/-! ## What is seen of a run -/

/-- The command runs a program by itself and at once. -/
structure Options.RunsHere (o : Options) : Prop where
  serve : o.serve = false
  disasm : o.disasm = false
  compile : o.compile = ""
  remote : o.remote = ""

structure Options.Plain (o : Options) : Prop where
  trace : o.trace = false
  dump : o.dump = false
  stats : o.stats = false
  store : o.store = ""

def exitOf (failure : Option Failure) : Nat :=
  (failure.map CommandError.run).elim 0 CommandError.status

def errorLine (failure : Option Failure) : String :=
  (failure.map CommandError.run).elim "" CommandError.line

section Local

variable {h : Host} {o : Options} {path : String} {img : Image} {m n : Machine} {failure : Option Failure}
  {st : Option RunStore}

theorem imageOf_eq_ok (hload : Image.load h.read path = .ok img)
    (hentry : o.entry = "" ∨ ∃ d ∈ img.functions.getD [], d.name = o.entry) :
    imageOf h o path = .ok (img.startedFrom o.entry) := by
  have hvalid := Image.validate_startedFrom (Image.validate_of_load hload) hentry
  refine bind_eq_ok_iff.mpr ⟨img, mapError_eq_ok_iff.mpr hload, ?_⟩
  unfold Image.startedFrom at hvalid ⊢
  split
  next => rfl
  next hne =>
    rw [if_neg hne] at hvalid
    exact bind_eq_ok_iff.mpr ⟨(), mapError_eq_ok_iff.mpr hvalid, rfl⟩

theorem perform_local (hhere : o.RunsHere) (himage : imageOf h o path = .ok img) :
    perform h o [path] st = runLocal h o img st := by
  simp [perform, himage, hhere.serve, hhere.disasm, hhere.compile, hhere.remote]

theorem runLocal_refused {a : Abandoned} (hm : img.machine { tracing := o.trace } = .error (.setup (.abandoned a))) :
    runLocal h o img st = { error := some (.run (.abandoned a)), store := st } := by
  simp only [runLocal, hm]

theorem runLocal_abandoned {a : Abandoned} (hm : img.machine { tracing := o.trace } = .ok m)
    (hrun : img.execute? (contextOf o) m = some (n, some (.abandoned a))) :
    runLocal h o img st = abandonedReport a n st := by
  simp only [runLocal, hm, Image.execute_of_execute? hrun]

theorem runLocal_finished (hm : img.machine { tracing := o.trace } = .ok m)
    (hrun : img.execute? (contextOf o) m = some (n, failure)) (hfinished : ∀ a, failure ≠ some (.abandoned a))
    (hready : ∀ s, st = some s → s.Ready h.occasion.runId) :
    runLocal h o img st = reportOf o n failure (st.map fun s =>
      { s.adding img with rows := s.rows ++ [(recordOf img n failure h.occasion).row] }) := by
  cases st with
  | none => simp only [runLocal, hm, Image.execute_of_execute? hrun, Option.map_none]
  | some s =>
    have hkeep := keep_eq_ok (r := recordOf img n failure h.occasion) (hready s rfl) img
    simp only [runLocal, hm, Image.execute_of_execute? hrun, hkeep, Option.map_some]

/-- The store that the command works with. -/
structure Opened (h : Host) (o : Options) (st : Option RunStore) : Prop where
  absent : o.store = "" → st = none
  given : o.store ≠ "" → ∃ s, h.openStore o.store = .ok s ∧ st = some s
  ready : ∀ s, st = some s → s.Ready h.occasion.runId

theorem run_eq_local {arguments : List String} (hparse : parse {} arguments = .ok (o, [path])) (hhere : o.RunsHere)
    (himage : imageOf h o path = .ok img)
    (hstore : o.store ≠ "" → ∃ s, h.openStore o.store = .ok s ∧ s.Ready h.occasion.runId) :
    ∃ st, Opened h o st ∧ run h arguments = (runLocal h o img st).outcome o.store := by
  by_cases hnone : o.store = ""
  · refine ⟨none, ⟨fun _ => rfl, fun hne => (hne hnone).elim, fun s hs => by cases hs⟩, ?_⟩
    simp only [run, hparse, performWith, if_pos hnone, perform_local hhere himage]
  · obtain ⟨s, hopen, hready⟩ := hstore hnone
    refine ⟨some s, ⟨fun hempty => (hnone hempty).elim, fun _ => ⟨s, hopen, rfl⟩, ?_⟩, ?_⟩
    · intro s' hs'
      cases hs'
      exact hready
    · simp only [run, hparse, performWith, if_neg hnone, hopen, perform_local hhere himage]

end Local

/-! ## Two commands -/

/-- A text of whole lines. -/
def Lines (text : String) : Prop :=
  text = "" ∨ ∃ before, text = before ++ "\n"

theorem Lines.append {a b : String} (ha : Lines a) (hb : Lines b) : Lines (a ++ b) := by
  obtain rfl | ⟨before, rfl⟩ := hb
  · rw [String.append_empty]
    exact ha
  · exact .inr ⟨a ++ before, String.append_assoc.symm⟩

theorem lines_statsText (s : Stats) : Lines (statsText s) := by
  unfold statsText
  dsimp only
  split
  · exact .inr ⟨_, rfl⟩
  · exact .inr ⟨_, rfl⟩

theorem lines_dump (s : State) : Lines (String.join s.dump) :=
  .inr (join_dumpOf s.globals)

/-- What is reported of a state besides its trace. -/
def extrasOf (o : Options) (s : State) : String :=
  (if o.dump then String.join s.dump else "") ++ (if o.stats then statsText s.stats else "")

theorem lines_extrasOf (o : Options) (s : State) : Lines (extrasOf o s) := by
  refine .append ?_ ?_
  · split
    · exact lines_dump s
    · exact .inl rfl
  · split
    · exact lines_statsText s.stats
    · exact .inl rfl

/-- What is seen of a command that has run an image, and how much of it is stored. -/
structure Shows (h : Host) (o : Options) (img : Image) (st : Option RunStore) (output trace : String)
    (failure : Option Failure) (seen : Outcome) : Prop where
  stdout : seen.stdout = output
  exit : seen.exit = exitOf failure
  stderr : ∃ rest, seen.stderr = trace ++ rest ++ errorLine failure ∧ Lines rest ∧
    (o.dump = false → o.stats = false → rest = "")
  /-- A command that was taken down with its machine leaves the store as it was. -/
  lost : ∀ a, failure = some (.abandoned a) → seen.stored = st.map fun s => (o.store, s)
  kept : (∀ a, failure ≠ some (.abandoned a)) → ∃ n : Machine, n.state.sink.taken = output ∧
    seen.stored = st.map fun s =>
      (o.store, { s.adding img with rows := s.rows ++ [(recordOf img n failure h.occasion).row] })

section Shows

variable {h : Host} {o : Options} {img : Image} {m n : Machine} {failure : Option Failure} {st : Option RunStore}

theorem shows_lost {a : Abandoned} {output trace : String}
    (hreport : runLocal h o img st =
      { stdout := output, diagnostics := trace, error := some (.run (.abandoned a)), store := st }) :
    Shows h o img st output trace (some (.abandoned a)) ((runLocal h o img st).outcome o.store) := by
  rw [hreport]
  refine ⟨rfl, rfl, ⟨"", ?_, .inl rfl, fun _ _ => rfl⟩, fun _ _ => rfl, fun hfinished => (hfinished a rfl).elim⟩
  rw [String.append_empty]
  rfl

theorem shows_refused {a : Abandoned} (hm : img.machine { tracing := o.trace } = .error (.setup (.abandoned a))) :
    Shows h o img st "" "" (some (.abandoned a)) ((runLocal h o img st).outcome o.store) :=
  shows_lost (runLocal_refused hm)

theorem shows_abandoned {a : Abandoned} (hm : img.machine { tracing := o.trace } = .ok m)
    (hrun : img.execute? (contextOf o) m = some (n, some (.abandoned a))) :
    Shows h o img st n.state.sink.taken n.state.trace (some (.abandoned a))
      ((runLocal h o img st).outcome o.store) :=
  shows_lost (runLocal_abandoned hm hrun)

theorem shows_finished (hm : img.machine { tracing := o.trace } = .ok m)
    (hrun : img.execute? (contextOf o) m = some (n, failure)) (hfinished : ∀ a, failure ≠ some (.abandoned a))
    (hready : ∀ s, st = some s → s.Ready h.occasion.runId) :
    Shows h o img st n.state.sink.taken n.state.trace failure ((runLocal h o img st).outcome o.store) := by
  rw [runLocal_finished hm hrun hfinished hready]
  have hdiagnostics : diagnosticsOf o n = n.state.trace ++ extrasOf o n.state := String.append_assoc
  refine ⟨rfl, ?_, ⟨extrasOf o n.state, ?_, lines_extrasOf o n.state, ?_⟩, fun a ha => (hfinished a ha).elim, fun _ => ?_⟩
  · cases failure <;> rfl
  · rw [← hdiagnostics]
    cases failure <;> rfl
  · intro hdump hstats
    rw [extrasOf, hdump, hstats]
    rfl
  · exact ⟨n, rfl, by cases st <;> rfl⟩

theorem shows_runLocal (hm : img.machine { tracing := o.trace } = .ok m)
    (hrun : img.execute? (contextOf o) m = some (n, failure)) (hready : ∀ s, st = some s → s.Ready h.occasion.runId) :
    Shows h o img st n.state.sink.taken n.state.trace failure ((runLocal h o img st).outcome o.store) := by
  by_cases hfinished : ∀ a, failure ≠ some (.abandoned a)
  · exact shows_finished hm hrun hfinished hready
  · obtain ⟨a, rfl⟩ : ∃ a, failure = some (.abandoned a) := by
      simpa using hfinished
    exact shows_abandoned hm hrun

theorem Shows.stderr_eq {output : String} {seen : Outcome} (hshows : Shows h o img st output "" failure seen)
    (hplain : o.Plain) : seen.stderr = errorLine failure := by
  obtain ⟨rest, hstderr, -, hrest⟩ := hshows.stderr
  rw [hstderr, hrest hplain.dump hplain.stats, String.append_empty, String.empty_append]

theorem Shows.stored_none {output trace : String} {seen : Outcome}
    (hshows : Shows h o img none output trace failure seen) : seen.stored = none := by
  by_cases hfinished : ∀ a, failure ≠ some (.abandoned a)
  · obtain ⟨n, -, hstored⟩ := hshows.kept hfinished
    exact hstored
  · obtain ⟨a, ha⟩ : ∃ a, failure = some (.abandoned a) := by
      simpa using hfinished
    exact hshows.lost a ha

end Shows

/-- The run that the options ask for ends, and not because its time is up. -/
def EndsInTime (img : Image) (o : Options) : Prop :=
  ∀ m, img.machine { tracing := o.trace } = .ok m → ∃ r, img.execute? (contextOf o) m = some r ∧ ¬ CutShort r.2

/-- The run that the options ask for does not end because its time is up. -/
def InTime (img : Image) (o : Options) : Prop :=
  ∀ m r, img.machine { tracing := o.trace } = .ok m → img.execute? (contextOf o) m = some r → ¬ CutShort r.2

/-- Without a time limit every run is in time. -/
theorem inTime_of_unlimited {img : Image} {o : Options} (h : ¬ 0 < o.timeout) : InTime img o := by
  intro m r hm hr
  obtain ⟨hdepth, hsound⟩ := Image.sound_of_machine hm
  rw [contextOf, if_neg h] at hr
  obtain ⟨address, -, hexecute⟩ := Option.bind_eq_some_iff.mp hr
  exact uncut_of_execute? hdepth hsound hexecute

theorem exitOf_eq_zero_iff {failure : Option Failure} : exitOf failure = 0 ↔ failure = none := by
  cases failure with
  | none => simp [exitOf]
  | some f => cases f <;> simp [exitOf, CommandError.status]

theorem exitOf_eq_two_iff {failure : Option Failure} : exitOf failure = 2 ↔ ∃ a, failure = some (.abandoned a) := by
  cases failure with
  | none => simp [exitOf]
  | some f => cases f <;> simp [exitOf, CommandError.status]

/-- A record says how the command exits and what its error line is. -/
theorem recordOf_failure {failure : Option Failure} (hfinished : ∀ a, failure ≠ some (.abandoned a)) (img : Image)
    (n : Machine) (occasion : Occasion) :
    ((recordOf img n failure occasion).halted = true ↔ exitOf failure = 0) ∧
    (exitOf failure = 0 → (recordOf img n failure occasion).fault = "") ∧
    (exitOf failure ≠ 0 →
      errorLine failure = "stackvm: " ++ (recordOf img n failure occasion).fault ++ "\n") := by
  rw [ne_eq, exitOf_eq_zero_iff]
  refine ⟨Option.isNone_iff_eq_none, ?_, ?_⟩
  · rintro rfl
    rfl
  · intro hfail
    cases failure with
    | none => exact (hfail rfl).elim
    | some f =>
      cases f with
      | run | notRunning | noFunction => rfl
      | abandoned a => exact (hfinished a rfl).elim

/-- With diagnostics or without, runs of a valid image that are not cut short are seen to come to the same. -/
theorem shows_alike {h : Host} {o o' : Options} {img : Image} {st : Option RunStore} (hvalid : img.validate = .ok ())
    (hplain : o.Plain) (hends : EndsInTime img o) (hintime : InTime img o')
    (hready : ∀ s, st = some s → s.Ready h.occasion.runId) :
    ∃ output trace failure, Lines trace ∧
      Shows h o img none output "" failure ((runLocal h o img none).outcome o.store) ∧
      Shows h o' img st output trace failure ((runLocal h o' img st).outcome o'.store) := by
  have htracing := Image.machine_withTracing img o'.trace
  have hmachine : img.machine { tracing := o.trace } = img.machine {} := by
    rw [hplain.trace]
  obtain ⟨m, hm⟩ | hrefused := Image.machine_of_validate hvalid {}
  · rw [hm] at htracing hmachine
    obtain ⟨⟨n, failure⟩, hrun, huncut⟩ := hends m hmachine
    obtain ⟨n', hrun', hmatching, htrace, hclosed⟩ :=
      Image.execute?_withTracing hm hrun huncut o'.trace fun r hr => hintime _ r htracing hr
    have hshows : Shows h o img none _ _ _ _ := shows_runLocal hmachine hrun fun s hs => by cases hs
    have hshows' := shows_runLocal htracing hrun' hready
    have hsink : n'.state.sink = n.state.sink := (congrArg (·.sink) hmatching.same).symm
    rw [htrace] at hshows
    rw [hsink] at hshows'
    refine ⟨n.state.sink.taken, n'.state.trace, failure, ?_, hshows, hshows'⟩
    obtain hempty | ⟨-, hmore⟩ := hclosed
    · exact .inl hempty
    · exact .inr hmore
  · rw [hrefused] at htracing hmachine
    exact ⟨"", "", some (.abandoned .allocation), .inl rfl, shows_refused hmachine, shows_refused htracing⟩

/-- Take two command lines that run one program file here, from the same function, the first of them without any
diagnostics, and let neither run be cut short by its time limit. Both print the same and exit with the same status,
and the second one's report is whole lines of diagnostics followed by the first one's, which is the error line.
If the second one records the run, the store gets the image that was run and one record, with the text that was
printed and the error; only a machine that is abandoned, which takes the command with it, is not recorded. -/
theorem diagnostics_leave_run_alone (h : Host) (plain flagged : List String) (o o' : Options) (path : String)
    (img : Image) (hparse : parse {} plain = .ok (o, [path])) (hparse' : parse {} flagged = .ok (o', [path]))
    (hplain : o.Plain) (hhere : o.RunsHere) (hhere' : o'.RunsHere) (hsame : o'.entry = o.entry)
    (hload : Image.load h.read path = .ok img)
    (hentry : o.entry = "" ∨ ∃ d ∈ img.functions.getD [], d.name = o.entry)
    (hends : EndsInTime (img.startedFrom o.entry) o) (hintime : InTime (img.startedFrom o.entry) o')
    (hstore : o'.store ≠ "" → ∃ st, h.openStore o'.store = .ok st ∧ st.Ready h.occasion.runId) :
    (run h flagged).stdout = (run h plain).stdout ∧ (run h flagged).exit = (run h plain).exit ∧
    (∃ diagnostics, (run h flagged).stderr = diagnostics ++ (run h plain).stderr ∧ Lines diagnostics) ∧
    ((run h plain).exit = 0 ∧ (run h plain).stderr = "" ∨ ∃ f : Failure,
      (run h plain).exit = (CommandError.run f).status ∧ (run h plain).stderr = (CommandError.run f).line) ∧
    (run h plain).stored = none ∧ (o'.store = "" → (run h flagged).stored = none) ∧
    ∀ st, o'.store ≠ "" → h.openStore o'.store = .ok st →
      ((run h plain).exit = 2 → (run h flagged).stored = some (o'.store, st)) ∧
      ((run h plain).exit ≠ 2 → ∃ r : RunRecord,
        (run h flagged).stored =
          some (o'.store, { st.adding (img.startedFrom o.entry) with rows := st.rows ++ [r.row] }) ∧
        r.imageHash = (img.startedFrom o.entry).hash ∧ r.output = (run h plain).stdout ∧
        (r.halted = true ↔ (run h plain).exit = 0) ∧
        ((run h plain).exit = 0 → r.fault = "") ∧
        ((run h plain).exit ≠ 0 → (run h plain).stderr = "stackvm: " ++ r.fault ++ "\n")) := by
  have hvalid := Image.validate_startedFrom (Image.validate_of_load hload) hentry
  have himage : imageOf h o path = .ok (img.startedFrom o.entry) := imageOf_eq_ok hload hentry
  have himage' : imageOf h o' path = .ok (img.startedFrom o.entry) := by
    rw [← hsame] at hentry ⊢
    exact imageOf_eq_ok hload hentry
  obtain ⟨st, hopened, hplainrun⟩ := run_eq_local hparse hhere himage fun hne => (hne hplain.store).elim
  obtain ⟨st', hopened', hflaggedrun⟩ := run_eq_local hparse' hhere' himage' hstore
  obtain rfl := hopened.absent hplain.store
  obtain ⟨output, trace, failure, htrace, hshows, hshows'⟩ :=
    shows_alike hvalid hplain hends hintime hopened'.ready
  rw [← hplainrun] at hshows
  rw [← hflaggedrun] at hshows'
  have hstderr : (run h plain).stderr = errorLine failure := hshows.stderr_eq hplain
  refine ⟨?_, ?_, ?_, ?_, hshows.stored_none, ?_, ?_⟩
  · rw [hshows.stdout, hshows'.stdout]
  · rw [hshows.exit, hshows'.exit]
  · obtain ⟨rest, hrest, hlines, -⟩ := hshows'.stderr
    exact ⟨trace ++ rest, hstderr ▸ hrest, .append htrace hlines⟩
  · rw [hshows.exit, hstderr]
    cases failure with
    | none => exact .inl ⟨rfl, rfl⟩
    | some f => exact .inr ⟨f, rfl, rfl⟩
  · intro hempty
    obtain rfl := hopened'.absent hempty
    exact hshows'.stored_none
  · intro s hne hopen
    obtain ⟨s', hopen', rfl⟩ := hopened'.given hne
    obtain rfl : s = s' := Except.ok.inj (hopen.symm.trans hopen')
    rw [hshows.exit, hshows.stdout, hstderr]
    constructor
    · intro htwo
      obtain ⟨a, ha⟩ := exitOf_eq_two_iff.mp htwo
      exact hshows'.lost a ha
    · intro htwo
      have hfinished : ∀ a, failure ≠ some (.abandoned a) := fun a ha => htwo (exitOf_eq_two_iff.mpr ⟨a, ha⟩)
      obtain ⟨n, houtput, hstored⟩ := hshows'.kept hfinished
      exact ⟨recordOf (img.startedFrom o.entry) n failure h.occasion, hstored, rfl, houtput,
        recordOf_failure hfinished _ n h.occasion⟩

/-- The second function prints a number and returns from the outermost frame. -/
def printing : Image where
  version := 1
  functions := some [{ name := "main" }, { name := "show", address := 1 }]
  code := some [18, 9, 7, 14, 17]
  stackSize := 4
  maxDepth := 2

def printingHost : Host where
  read _ := .ok printing.encode
  refuses _ := none
  openStore _ := .ok {}
  occasion := { runId := "run" }

def printingMachine : Machine where
  setup := {
    code := #[18, 9, 7, 14, 17]
    table := {
      entries := #[{ name := "main" }, { name := "show", address := 1 }]
      size_pos := by decide
      nonneg := by decide }
    limits := { stackSize := 4, maxDepth := 2 } }
  state := { cells := Array.replicate 4 0, globals := #[], sink := .unlimited }

theorem machine_printing : (printing.startedFrom "show").machine {} = .ok printingMachine := rfl

theorem validate_printing : printing.validate = .ok () := by
  have hwalk : Verification.walk printing.words =
      [(0, .instr .halt), (1, .instr (.iconst 7)), (3, .instr .print), (4, .instr .ret)] := by
    cbv
  unfold Image.validate
  simp only [Verification.findings_eq, hwalk]
  unfold Verification.meets Verification.starts
  rw [hwalk]
  rfl

theorem load_of_encode {read : FileReader} {img : Image} (hread : read "p.cbor" = .ok img.encode)
    (hlimits : img.WithinLimits) (hvalid : img.validate = .ok ()) : Image.load read "p.cbor" = .ok img := by
  have hextension : Text.lower (extensionOf "p.cbor") = ".cbor" := by decide
  have hdecode : Image.decodeValid img.encode = .ok img := by
    rw [Image.decodeValid_eq (Image.decode_encode hlimits), hvalid]
    rfl
  rw [Image.load, if_pos hextension]
  exact bind_eq_ok_iff.mpr ⟨img.encode, mapError_eq_ok_iff.mpr hread, mapError_eq_ok_iff.mpr hdecode⟩

theorem load_printing : Image.load printingHost.read "p.cbor" = .ok printing := by
  have hlimits : printing.WithinLimits := by
    refine ⟨by decide, by decide, ?_, ?_, ?_⟩
    · rintro ds ⟨⟩
      decide
    · rintro ds ⟨⟩
      decide
    · rintro ws ⟨⟩
      decide
  exact load_of_encode rfl hlimits validate_printing

def plainArguments : List String :=
  ["-entry", "show", "p.cbor"]

def allFlags : List String :=
  ["-trace", "-dump", "-entry=show", "--stats", "-store", "runs.db", "p.cbor"]

theorem printing_alike :
    parse {} plainArguments = .ok ({ entry := "show" }, ["p.cbor"]) ∧
    parse {} allFlags =
      .ok ({ trace := true, dump := true, stats := true, store := "runs.db", entry := "show" }, ["p.cbor"]) ∧
    Image.load printingHost.read "p.cbor" = .ok printing ∧
    EndsInTime (printing.startedFrom "show") { entry := "show" } ∧
    (run printingHost allFlags).stdout = (run printingHost plainArguments).stdout ∧
    (run printingHost allFlags).exit = (run printingHost plainArguments).exit ∧
    ((run printingHost plainArguments).exit ≠ 2 → ∃ r : RunRecord,
      (run printingHost allFlags).stored =
        some ("runs.db", { RunStore.adding {} (printing.startedFrom "show") with rows := [r.row] })) := by
  have hplain : parse {} plainArguments = .ok ({ entry := "show" }, ["p.cbor"]) := by cbv
  have hflagged : parse {} allFlags =
      .ok ({ trace := true, dump := true, stats := true, store := "runs.db", entry := "show" }, ["p.cbor"]) := by
    cbv
  have hshow : ∃ d ∈ printing.functions.getD [], d.name = "show" :=
    ⟨{ name := "show", address := 1 }, by decide, rfl⟩
  have hended : Ended (steps 3 (printingMachine.start 1)) := by decide +kernel
  have haddress :
      ((printing.startedFrom "show").request .unlimited).address? printingMachine.setup.table = some 1 := by
    decide +kernel
  have hrun : (printing.startedFrom "show").execute? .unlimited printingMachine =
      some (steps 3 (printingMachine.start 1)) :=
    Option.bind_eq_some_iff.mpr ⟨1, haddress, execute?_unlimited_iff.mpr ⟨3, hended, rfl⟩⟩
  have hends : EndsInTime (printing.startedFrom "show") { entry := "show" } := by
    intro m hm
    cases machine_printing.symm.trans hm
    exact ⟨_, hrun, inTime_of_unlimited (o := { entry := "show" }) (by decide) _ _ machine_printing hrun⟩
  obtain ⟨hstdout, hexit, -, -, -, -, hstored⟩ := diagnostics_leave_run_alone printingHost plainArguments allFlags
    { entry := "show" } { trace := true, dump := true, stats := true, store := "runs.db", entry := "show" } "p.cbor"
    printing hplain hflagged ⟨rfl, rfl, rfl, rfl⟩ ⟨rfl, rfl, rfl, rfl⟩ ⟨rfl, rfl, rfl, rfl⟩ rfl load_printing
    (.inr hshow) hends (inTime_of_unlimited (by decide))
    (fun _ => ⟨{}, rfl, rfl, by simp⟩)
  refine ⟨hplain, hflagged, load_printing, hends, hstdout, hexit, ?_⟩
  intro htwo
  obtain ⟨r, hr, -⟩ := (hstored {} (by decide) rfl).2 htwo
  exact ⟨r, hr⟩

def vastHost : Host :=
  { printingHost with read := fun _ => .ok vastImage.encode }

/-- The run of a valid image ends by itself, and nothing is recorded of it. -/
theorem vast_not_recorded :
    Image.load vastHost.read "p.cbor" = .ok vastImage ∧
    parse {} ["-store", "runs.db", "p.cbor"] = .ok ({ store := "runs.db" }, ["p.cbor"]) ∧
    EndsInTime vastImage { store := "runs.db" } ∧ vastHost.openStore "runs.db" = .ok {} ∧
    (run vastHost ["-store", "runs.db", "p.cbor"]).exit = 2 ∧
    (run vastHost ["-store", "runs.db", "p.cbor"]).stored = some ("runs.db", {}) := by
  have hlimits : vastImage.WithinLimits := by
    refine ⟨by decide, by decide, ?_, ?_, ?_⟩
    · rintro ds ⟨⟩
      decide
    · rintro ds ⟨⟩
      decide
    · rintro ws ⟨⟩
      decide
  have hload : Image.load vastHost.read "p.cbor" = .ok vastImage := load_of_encode rfl hlimits vastImage_valid
  have hparse : parse {} ["-store", "runs.db", "p.cbor"] = .ok ({ store := "runs.db" }, ["p.cbor"]) := by
    cbv
  obtain ⟨m, hm⟩ : ∃ m, vastImage.machine {} = .ok m := ⟨_, rfl⟩
  have habandoned : ∃ n, steps 2 (m.start 0) = (n, some (.abandoned (.frameSize Int64.minValue))) := by
    cases hm
    exact ⟨_, rfl⟩
  obtain ⟨n, hsteps⟩ := habandoned
  have hrun : vastImage.execute? .unlimited m = some (n, some (.abandoned (.frameSize Int64.minValue))) := by
    refine Option.bind_eq_some_iff.mpr ⟨0, ?_, execute?_unlimited_iff.mpr ⟨2, ?_, hsteps.symm⟩⟩
    · cases hm
      rfl
    · rw [hsteps]
      exact .inr (by simp)
  obtain ⟨st, hopened, hlocal⟩ := run_eq_local (h := vastHost) hparse ⟨rfl, rfl, rfl, rfl⟩
    (imageOf_eq_ok (o := { store := "runs.db" }) hload (.inl rfl)) fun _ => ⟨{}, rfl, rfl, by simp⟩
  have hshows : Shows vastHost _ vastImage st _ _ _ _ := shows_abandoned (o := { store := "runs.db" }) hm hrun
  obtain ⟨s, hopen, rfl⟩ := hopened.given (by decide)
  cases hopen
  refine ⟨hload, hparse, ?_, rfl, ?_, ?_⟩
  · intro m' hm'
    cases hm.symm.trans hm'
    exact ⟨_, hrun, inTime_of_unlimited (o := { store := "runs.db" }) (by decide) _ _ hm hrun⟩
  · rw [hlocal]
    exact hshows.exit
  · rw [hlocal]
    exact hshows.lost _ rfl

end CommandLine
end StackMachine
