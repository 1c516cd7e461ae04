import StackMachine.Proofs.Image.Footprint

/-!
# Only images that cannot be run make a request fail

An accepted image is valid and its footprint was not cut off. So if what it asks for can be allocated, there is a
machine for it, no frame size runs over and nothing that is not there is addressed; the context ends the run at the
latest. Whatever the run came to is then a result, and the answer says what it was.
-/

set_option autoImplicit false

namespace StackMachine

theorem append_ne_empty {text : String} (h : text ≠ "") (rest : String) : text ++ rest ≠ "" :=
  fun happend => h (String.append_eq_empty_iff.mp happend).1

theorem RunError.message_ne_empty (e : RunError) : e.message ≠ "" := by
  cases e with
  | fault f =>
    have hplace : f.diagnostic.kind.name ++ " at ip=" ≠ "" :=
      fun h => absurd (String.append_eq_empty_iff.mp h).2 (by decide)
    iterate 5 apply append_ne_empty
    exact append_ne_empty hplace _
  | print ip refusal =>
    iterate 3 apply append_ne_empty
    decide

namespace Image

open Machine

variable {img : Image} {t : FunctionTable} {m : Machine}

theorem execute_eq_execute (h : img.entry ≠ "" → (m.setup.table.idOf? img.entry).isSome) (ctx : Context) :
    ∃ d ∈ m.setup.table.entries, img.execute ctx m = m.execute ctx d.address := by
  unfold execute
  split
  next => exact ⟨m.setup.table.entry, Array.getElem_mem m.setup.table.size_pos, rfl⟩
  next hne =>
    obtain ⟨d, hd, hnamed⟩ := named?_of_isSome (h hne)
    refine ⟨d, hd, ?_⟩
    unfold named? at hnamed
    simp only [executeFunction, hnamed]

/-- No cycle is abandoned, since that happens only at the entry into a frame that cannot be made. -/
theorem Made.cycle_not_abandoned {o : Options} (hmade : Made img o t m) (htable : img.table = .ok t)
    (hglobals : 0 ≤ img.globals) (hlarge : img.footprint < Word.largest) (hallocatable : img.Allocatable)
    {address : Option Word} {s u : State} {a : Abandoned} (hs : Stands m.setup address s) (hrun : s.status = .running) :
    cycle m.setup s ≠ .error a u := by
  intro hcycle
  obtain ⟨address, rfl, hstanding⟩ := Stands.running hs hrun
  obtain ⟨d, hd, hrefused⟩ := refused_of_cycle hstanding hcycle
  rw [hmade.table] at hd
  have hsum := (frameSize_eq htable hglobals hlarge hd).1
  obtain ⟨hargs, hlocals, -⟩ := t.nonneg d hd
  have hnonneg : 0 ≤ d.args.toInt + d.locals.toInt :=
    Int.add_nonneg (Int64.le_iff_toInt_le.mp hargs) (Int64.le_iff_toInt_le.mp hlocals)
  have hblock : d.args.toInt + d.locals.toInt ≤ largestBlock := by
    apply hallocatable.frames
    rw [← entries_of_table htable]
    exact Array.mem_toList_iff.mpr hd
  rw [← hsum] at hnonneg hblock
  rw [Frame.refusal?_eq_none_iff.mpr ⟨hnonneg, hblock⟩] at hrefused
  cases hrefused

/-- A machine of an image whose footprint was not cut off comes to an end under a context that gives in, and nothing
that is not there is addressed on the way. -/
theorem Made.execute_ends {o : Options} (hmade : Made img o t m) (htable : img.table = .ok t)
    (hglobals : 0 ≤ img.globals) (hlarge : img.footprint < Word.largest) (hallocatable : img.Allocatable) (n : Nat)
    (why : Cancellation) (address : Word) :
    ∃ u, m.execute? (.expiring n why) address = some ({ m with state := u }, outcome u none) ∧
      u.globals.size = img.globals.toInt.toNat := by
  obtain ⟨u, a, hrun⟩ := execute?_expiring_ends m n why address
  have hanswer : m.answer (.execute (.expiring n why) address) = ({ m with state := u }, outcome u a) := by
    rw [answer, Machine.execute, hrun, Option.getD_some]
  have hfinished : a = none := by
    cases a with
    | none => rfl
    | some b =>
      have hcycles : ∀ o s b v, Stands m.setup o s → s.status = .running → cycle m.setup s = .error b v → False :=
        fun _ _ _ _ => hmade.cycle_not_abandoned htable hglobals hlarge hallocatable
      exact (abandoned_of_answer hmade.invariant hcycles rfl hmade.stands (congrArg Prod.snd hanswer)).elim
  subst hfinished
  refine ⟨u, hrun, ?_⟩
  have hserved := (hmade.holding htable hglobals hlarge [.execute (.expiring n why) address]).globals
  have hserve : m.serve [.execute (.expiring n why) address] = { m with state := u } := congrArg Prod.fst hanswer
  rw [hserve] at hserved
  exact hserved

end Image

namespace Service

open Machine

/-- `a` says how a run of the image ended. -/
structure Reports (img : Image) (failure : Option Failure) (a : RunAnswer) : Prop where
  halted : a.halted = true ↔ failure = none
  fault : a.halted = true ↔ a.fault = ""
  globals : (a.globals.length : Int) = img.globals.toInt
  faultKind : ∀ k, a.faultKind = some k ↔ ∃ f, failure = some (.run (.fault f)) ∧ f.reason.kind = k
  faultIp : ∀ ip, a.faultIp = some ip ↔
    ∃ f, failure = some (.run (.fault f)) ∧ Text.nearestDouble f.ip = ip

theorem context_expiring (s : Service) (p : Patience) : ∃ n why, s.context p = .expiring n why := by
  unfold context
  split
  · exact ⟨_, _, rfl⟩
  · exact ⟨_, .deadline, rfl⟩

theorem reports_answerOf {img : Image} {r : RunReport} (error : Option RunError) (o : Occasion)
    (hfailure : r.failure = error.map fun e => .run (.run e)) (hlength : (r.globals.length : Int) = img.globals.toInt) :
    Reports img (error.map .run) (answerOf img r o) := by
  have hhalted : (answerOf img r o).halted = r.failure.isNone := rfl
  have hfault : (answerOf img r o).fault = r.faultText := rfl
  have hglobals : (answerOf img r o).globals.length = r.globals.length := List.length_map _
  have hkind : (answerOf img r o).faultKind = r.fault?.map fun f => f.reason.kind := rfl
  have hip : (answerOf img r o).faultIp = r.fault?.map fun f => Text.nearestDouble f.ip := rfl
  have hreported : ∀ f, r.fault? = some f ↔ error.map Failure.run = some (.run (.fault f)) := by
    intro f
    rw [RunReport.fault?, hfailure]
    cases error with
    | none => simp
    | some e => cases e <;> simp [RunFailure.fault?, RunError.fault?]
  refine ⟨?_, ?_, (congrArg Nat.cast hglobals).trans hlength, ?_, ?_⟩
  · rw [hhalted, hfailure]
    cases error <;> simp
  · rw [hhalted, hfault, RunReport.faultText, hfailure]
    cases error with
    | none => simp
    | some e =>
      constructor
      · intro h
        cases h
      · intro h
        exact (e.message_ne_empty h).elim
  · intro k
    simp only [hkind, Option.map_eq_some_iff, hreported]
  · intro ip
    simp only [hip, Option.map_eq_some_iff, hreported]

section Accepted

variable {s : Service} {img : Image} {request : Bytes}

theorem run_eq_ok (s : Service) (hvalid : img.validate = .ok ()) (hlarge : img.footprint < Word.largest)
    (hallocatable : img.Allocatable) (n : Nat) (why : Cancellation) :
    ∃ m u, s.machine img = .ok m ∧
      (∃ address, m.execute? (.expiring n why) address = some ({ m with state := u }, outcome u none)) ∧
      img.execute (.expiring n why) m = ({ m with state := u }, outcome u none) ∧
      u.globals.size = img.globals.toInt.toNat ∧
      s.run (.expiring n why) img = .ok {
        output := u.sink.taken
        failure := u.status.error?.map fun e => .run (.run e)
        stats := u.stats
        globals := u.globals.toList } := by
  obtain ⟨t, htable, hglobals, hentry, -⟩ := Image.verified_of_validate hvalid
  obtain ⟨m, hm, hmade⟩ := Image.machine_eq_ok htable hglobals
    (o := { sink := .capped s.maxOutput.toInt "output limit exceeded" }) hallocatable.machine
  -- The entry exists, so the run starts at the address of some function.
  rw [← hmade.table] at hentry
  obtain ⟨d, -, hexecute⟩ := Image.execute_eq_execute hentry (.expiring n why)
  obtain ⟨u, hrun, hsize⟩ := hmade.execute_ends htable hglobals hlarge hallocatable n why d.address
  rw [Machine.execute, hrun, Option.getD_some] at hexecute
  refine ⟨m, u, hm, ⟨d.address, hrun⟩, hexecute, hsize, ?_⟩
  rw [run, machine, hm]
  simp only [hexecute, outcome]
  cases u.status.error? <;> rfl

theorem execute_refused {e : ServiceError} (h : s.accept request = .error e) (o : Occasion) (p : Patience) :
    s.execute request o p = (.error e, s) := by
  rw [execute, h]

theorem execute_accepted {r : RunReport} {p : Patience} (haccept : s.accept request = .ok img)
    (hwaiting : p.waiting = none) (hpool : s.pool.stopped = false) (hrun : s.run (s.context p) img = .ok r)
    (o : Occasion) : (s.execute request o p).1 = .ok (answerOf img r o) := by
  rw [execute, haccept]
  simp only [hwaiting, WorkerPool.submit, hpool, hrun]
  rfl

/-- An accepted image is answered with what its run came to. -/
theorem answer_of_accept (haccept : s.accept request = .ok img) (hallocatable : img.Allocatable)
    (hmemory : s.maxMemory < Word.largest) (hpool : s.pool.stopped = false) {p : Patience} (hwaiting : p.waiting = none) (o : Occasion) :
    ∃ m a, s.machine img = .ok m ∧
      (∃ address, m.execute? (s.context p) address = some (img.execute (s.context p) m)) ∧
      (s.execute request o p).1 = .ok a ∧ Reports img (img.execute (s.context p) m).2 a := by
  obtain ⟨hdecode, hle⟩ := accept_eq_ok_iff.mp haccept
  have hvalid := (Image.of_decodeValid hdecode).2
  obtain ⟨n, why, hctx⟩ := context_expiring s p
  obtain ⟨m, u, hm, hends, hexecute, hsize, hrun⟩ := run_eq_ok s hvalid (Int64.lt_of_le_of_lt hle hmemory)
    hallocatable n why
  rw [← hctx] at hends hexecute hrun
  refine ⟨m, _, hm, hexecute ▸ hends, execute_accepted haccept hwaiting hpool hrun o, ?_⟩
  rw [hexecute]
  refine reports_answerOf u.status.error? o rfl ?_
  obtain ⟨-, -, hglobals, -, -⟩ := Image.verified_of_validate hvalid
  have hnonneg : 0 ≤ img.globals.toInt := Int64.le_iff_toInt_le.mp hglobals
  simp only [Array.length_toList, hsize]
  omega

theorem code_of_accept {e : ServiceError} (h : s.accept request = .error e) : e.code = .invalidArgument := by
  cases hdecode : Image.decodeValid request with
  | error e' =>
    rw [accept_of_undecoded hdecode] at h
    cases h
    rfl
  | ok img =>
    rw [accept_of_decoded hdecode] at h
    split at h
    · cases h
      rfl
    · cases h

/-- A request fails only if its image is not accepted. -/
theorem accept_of_execute {e : ServiceError} {o : Occasion} {p : Patience}
    (hallocatable : ∀ img, s.accept request = .ok img → img.Allocatable) (hmemory : s.maxMemory < Word.largest)
    (hpool : s.pool.stopped = false) (hwaiting : p.waiting = none) (h : (s.execute request o p).1 = .error e) :
    s.accept request = .error e := by
  cases haccept : s.accept request with
  | ok img =>
    obtain ⟨m, a, -, -, ha, -⟩ := answer_of_accept haccept (hallocatable img haccept) hmemory hpool hwaiting o
    rw [ha] at h
    cases h
  | error e' =>
    rw [execute_refused haccept] at h
    cases h
    rfl

end Accepted

/-- On a service whose memory limit is below the largest word, while its pool runs, the caller waits for a worker and
what is accepted can be allocated, a request fails exactly if it holds no valid image or one that may need too much
memory. Then the caller is at fault, the pool is not asked and nothing is stored. Any other request is answered with
what its run came to, whatever the program does and whenever its context ends it, and no frame size of the image runs
over. -/
theorem request_fails_iff_image_refused (s : Service) (request : Bytes) (o : Occasion) (p : Patience)
    (hmemory : s.maxMemory < Word.largest) (hpool : s.pool.stopped = false) (hwaiting : p.waiting = none)
    (hallocatable : ∀ img, s.accept request = .ok img → img.Allocatable) :
    ((∃ e, (s.execute request o p).1 = .error e) ↔
      (∃ e, Image.decodeValid request = .error e) ∨
        ∃ img, Image.decodeValid request = .ok img ∧ s.maxMemory < img.footprint) ∧
    (∀ e, (s.execute request o p).1 = .error e →
      e.code = .invalidArgument ∧
        ∀ pool o' p', execute { s with pool := pool } request o' p' = (.error e, { s with pool := pool })) ∧
    ∀ img, Image.decodeValid request = .ok img → img.footprint ≤ s.maxMemory →
      (∀ d ∈ img.functions.getD [], d.frameSize.toInt = d.args.toInt + d.locals.toInt) ∧
      ∃ m a, s.machine img = .ok m ∧
        (∃ address, m.execute? (s.context p) address = some (img.execute (s.context p) m)) ∧
        (s.execute request o p).1 = .ok a ∧ Reports img (img.execute (s.context p) m).2 a := by
  have hrefused : ∀ e, (s.execute request o p).1 = .error e → s.accept request = .error e :=
    fun _ => accept_of_execute hallocatable hmemory hpool hwaiting
  refine ⟨⟨?_, ?_⟩, ?_, ?_⟩
  · rintro ⟨e, he⟩
    have haccept := hrefused e he
    cases hdecode : Image.decodeValid request with
    | error e' => exact .inl ⟨e', rfl⟩
    | ok img =>
      refine .inr ⟨img, rfl, Int64.not_le.mp ?_⟩
      intro hle
      rw [accept_eq_ok_iff.mpr ⟨hdecode, hle⟩] at haccept
      cases haccept
  · rintro (⟨e, hdecode⟩ | ⟨img, hdecode, hlt⟩)
    · exact ⟨_, congrArg Prod.fst (execute_refused (accept_of_undecoded hdecode) o p)⟩
    · have haccept := accept_of_decoded (s := s) hdecode
      rw [if_pos hlt] at haccept
      exact ⟨_, congrArg Prod.fst (execute_refused haccept o p)⟩
  · intro e he
    have haccept := hrefused e he
    refine ⟨code_of_accept haccept, ?_⟩
    intro pool o' p'
    exact execute_refused (s := { s with pool := pool }) haccept o' p'
  · intro img hdecode hle
    obtain ⟨t, htable, hglobals, -, -⟩ := Image.verified_of_validate (Image.of_decodeValid hdecode).2
    have haccept := accept_eq_ok_iff.mpr ⟨hdecode, hle⟩
    refine ⟨?_, answer_of_accept haccept (hallocatable img haccept) hmemory hpool hwaiting o⟩
    intro d hd
    rw [← Image.entries_of_table htable] at hd
    exact (Image.frameSize_eq htable hglobals (Int64.lt_of_le_of_lt hle hmemory) (Array.mem_toList_iff.mp hd)).1

/-- With memory for just what the image may need it is run, with one word less it is refused. -/
theorem nested_answered :
    let s := make 1 1000000000 100 17 none
    s.maxMemory < Word.largest ∧ s.pool.stopped = false ∧
    (∀ img, s.accept Image.nested.encode = .ok img → img.Allocatable) ∧
    (∃ m a, s.machine Image.nested = .ok m ∧
      (s.execute Image.nested.encode { runId := "r" }).1 = .ok a ∧
      Reports Image.nested (Image.nested.execute (s.context {}) m).2 a) ∧
    ∃ e, ((make 1 1000000000 100 16 none).execute Image.nested.encode { runId := "r" }).1 = .error e ∧
      e.code = .invalidArgument := by
  intro s
  have hmemory : s.maxMemory < Word.largest := by decide
  have hallocatable : ∀ (s : Service) img, s.accept Image.nested.encode = .ok img → img.Allocatable := by
    intro s img haccept
    obtain rfl : Image.nested = img := Except.ok.inj (Image.nested_decoded.symm.trans (accept_eq_ok_iff.mp haccept).1)
    exact Image.nested_allocatable
  obtain ⟨-, -, hanswered⟩ := request_fails_iff_image_refused s Image.nested.encode { runId := "r" } {} hmemory rfl rfl
    (hallocatable s)
  obtain ⟨-, m, a, hm, -, ha, hreports⟩ := hanswered Image.nested Image.nested_decoded (by decide)
  obtain ⟨hiff, hcode, -⟩ := request_fails_iff_image_refused (make 1 1000000000 100 16 none) Image.nested.encode
    { runId := "r" } {} (by decide) rfl rfl (hallocatable _)
  obtain ⟨e, he⟩ := hiff.mpr (.inr ⟨Image.nested, Image.nested_decoded, by decide⟩)
  exact ⟨hmemory, rfl, hallocatable s, ⟨m, a, hm, ha, hreports⟩, e, he, (hcode e he).1⟩

end Service
end StackMachine
