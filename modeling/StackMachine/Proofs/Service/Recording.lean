import StackMachine.Proofs.RunStore.Addressing
import StackMachine.Proofs.RunStore.Listing
import StackMachine.Proofs.Service.Admission

/-!
# Served runs and their records agree

A request that is answered with a run puts one image into the store and adds one record, and no other request changes
the service. What a session with a service leaves in its store is therefore what a session with the store alone leaves,
and the laws of stores apply to it.
-/

set_option autoImplicit false

namespace StackMachine

/-- What an answer and a listing both say of a run. -/
structure RunResult where
  runId : String
  halted : Bool
  fault : String
  output : String
  cycles : Int

def RunAnswer.result (a : RunAnswer) : RunResult where
  runId := a.runId
  halted := a.halted
  fault := a.fault
  output := a.output
  cycles := a.cycles

def RunListing.result (l : RunListing) : RunResult where
  runId := l.runId
  halted := l.halted
  fault := l.fault
  output := l.output
  cycles := l.cycles

namespace Service

inductive Request where
  | execute (image : Bytes) (o : Occasion) (p : Patience)
  | disassemble (image : Bytes)
  | runs (hash : String)

inductive Reply where
  | executed (outcome : Except ServiceError RunAnswer)
  | disassembled (outcome : Except ServiceError String)
  | listed (outcome : Except ServiceError (List RunListing))

def answer (s : Service) : Request → Reply × Service
  | .execute image o p => (.executed (s.execute image o p).1, (s.execute image o p).2)
  | .disassemble image => (.disassembled (disassemble image), s)
  | .runs hash => (.listed (s.runs hash), s)

def exchanges (s : Service) (qs : List Request) : List (Request × Reply) :=
  Session.exchanges answer s qs

def after (s : Service) (qs : List Request) : Service :=
  Session.after answer s qs

def Reply.run? : Reply → Option RunAnswer
  | .executed (.ok a) => some a
  | _ => none

def answered (log : List (Request × Reply)) : List RunAnswer :=
  log.filterMap fun e => e.2.run?

/-- The request asks to run the image, which is valid. -/
def Holds (q : Request) (img : Image) : Prop :=
  ∃ image o p, q = .execute image o p ∧ Image.decodeValid image = .ok img

/-! ## One request -/

section Answer

variable {s : Service}

/-- Either a request fails and leaves the service as it was, or its run is answered and recorded. -/
theorem execute_cases (s : Service) (image : Bytes) (o : Occasion) (p : Patience) :
    (∃ e, s.execute image o p = (.error e, s)) ∨
    ∃ img r, Image.decodeValid image = .ok img ∧
      s.execute image o p =
        (.ok (answerOf img r o), { s with store := s.store.map fun st => stored st img (recordOf img r o) }) := by
  unfold execute
  cases haccept : s.accept image with
  | error e => exact .inl ⟨e, rfl⟩
  | ok img =>
    have hdecode := (accept_eq_ok_iff.mp haccept).1
    cases p.waiting with
    | some why => exact .inl ⟨_, rfl⟩
    | none =>
      cases hrun : s.pool.submit fun _ => s.run (s.context p) img with
      | error e => exact .inl ⟨.pool e, by simp only [hrun]⟩
      | ok r => exact .inr ⟨img, r, hdecode, by simp only [hrun]⟩

theorem answer_unchanged {q : Request} (h : (s.answer q).1.run? = none) : (s.answer q).2 = s := by
  cases q with
  | execute image o p =>
    obtain ⟨e, he⟩ | ⟨img, r, -, hr⟩ := execute_cases s image o p
    · rw [answer, he]
    · rw [answer, hr] at h
      cases h
  | disassemble image => rfl
  | runs hash => rfl

theorem identified_self (r : RunRecord) : RunStore.identified r r.id = r := by
  unfold RunStore.identified
  split <;> rfl

/-- A run is stored as a client of the store would do it. -/
theorem stored_eq_after (st : RunStore) (img : Image) (r : RunRecord) :
    stored st img r = st.after [.put img, .record r r.id] := by
  change stored st img r = ((st.answer (.put img)).2.answer (.record r r.id)).2
  rw [stored, RunStore.answer, RunStore.answer, identified_self]
  cases hput : st.put img with
  | ok put =>
    simp only
    cases put.2.record r <;> rfl
  | error e =>
    -- Only a closed store refuses an image, and then the record as well.
    have hclosed : st.closed = true := by
      cases hopen : st.closed with
      | true => rfl
      | false =>
        rw [RunStore.put_eq hopen] at hput
        cases hput
    simp [RunStore.record, hclosed]

/-- A record and an answer say the same of the run that both are made of. -/
theorem result_recordOf (img : Image) (r : RunReport) (o : Occasion) :
    (listingOf (recordOf img r o)).result = (answerOf img r o).result := by
  simp [listingOf, recordOf, answerOf, RunListing.result, RunAnswer.result, Stats.cycles]

end Answer

/-! ## A session -/

/-- The store that was `st` has been asked `qs` on behalf of the requests that were answered. -/
structure Kept (st : RunStore) (log : List (Request × Reply)) (qs : List RunStore.Request) (s : Service) : Prop where
  store : s.store = some (st.after qs)
  records : (RunStore.submitted qs).map (fun r => (r.imageHash, (listingOf r).result)) =
    (answered log).map fun a => (a.imageHash, a.result)
  images : ∀ q a, (q, .executed (.ok a)) ∈ log → ∃ img, Holds q img ∧ a.imageHash = img.hash ∧ .put img ∈ qs
  puts : ∀ img, .put img ∈ qs → ∃ q ∈ log.map Prod.fst, Holds q img

theorem answered_append (log more : List (Request × Reply)) : answered (log ++ more) = answered log ++ answered more :=
  List.filterMap_append

namespace Kept

variable {st : RunStore} {log : List (Request × Reply)} {qs : List RunStore.Request} {s : Service}

theorem unanswered (h : Kept st log qs s) {e : Request × Reply} (he : e.2.run? = none) :
    Kept st (log ++ [e]) qs s := by
  refine ⟨h.store, ?_, ?_, ?_⟩
  · have hsame : answered (log ++ [e]) = answered log := by simp [answered, he]
    rw [hsame, h.records]
  · intro q a hmem
    obtain hmem | hmem := List.mem_append.mp hmem
    · exact h.images q a hmem
    · cases List.mem_singleton.mp hmem
      cases he
  · intro img hput
    obtain ⟨q, hq, hholds⟩ := h.puts img hput
    exact ⟨q, by simp [hq], hholds⟩

theorem run (h : Kept st log qs s) {image : Bytes} {o : Occasion} {p : Patience} {img : Image} {r : RunReport}
    (hdecode : Image.decodeValid image = .ok img) :
    Kept st (log ++ [(.execute image o p, .executed (.ok (answerOf img r o)))])
      (qs ++ [.put img, .record (recordOf img r o) (recordOf img r o).id])
      { s with store := s.store.map fun st => stored st img (recordOf img r o) } := by
  have hholds : Holds (.execute image o p) img := ⟨image, o, p, rfl, hdecode⟩
  refine ⟨?_, ?_, ?_, ?_⟩
  · simp only [h.store, Option.map_some, stored_eq_after]
    exact congrArg some (Session.after_append st qs _).symm
  · have hmore : RunStore.submitted (qs ++ [.put img, .record (recordOf img r o) (recordOf img r o).id]) =
        RunStore.submitted qs ++ [recordOf img r o] := by
      rw [RunStore.submitted, List.filterMap_append]
      simp only [List.filterMap_cons, List.filterMap_nil, RunStore.Request.submitted?, identified_self]
      rfl
    rw [hmore, answered_append, List.map_append, List.map_append, h.records]
    simp only [List.map_cons, List.map_nil, result_recordOf]
    rfl
  · intro q a hmem
    obtain hmem | hmem := List.mem_append.mp hmem
    · obtain ⟨img', hholds', hhash, hput⟩ := h.images q a hmem
      exact ⟨img', hholds', hhash, List.mem_append_left _ hput⟩
    · cases List.mem_singleton.mp hmem
      exact ⟨img, hholds, rfl, by simp⟩
  · intro img' hput
    obtain hput | hput := List.mem_append.mp hput
    · obtain ⟨q, hq, hholds'⟩ := h.puts img' hput
      exact ⟨q, by simp [hq], hholds'⟩
    · obtain rfl : img' = img := by simpa using hput
      exact ⟨_, by simp, hholds⟩

theorem step (log : List (Request × Reply)) (s : Service) (q : Request) (h : ∃ qs, Kept st log qs s) :
    ∃ qs, Kept st (log ++ [(q, (s.answer q).1)]) qs (s.answer q).2 := by
  obtain ⟨qs, h⟩ := h
  cases q with
  | execute image o p =>
    rw [answer]
    obtain ⟨e, he⟩ | ⟨img, r, hdecode, hr⟩ := execute_cases s image o p
    · rw [he]
      exact ⟨qs, h.unanswered rfl⟩
    · rw [hr]
      exact ⟨_, h.run hdecode⟩
  | disassemble image => exact ⟨qs, h.unanswered rfl⟩
  | runs hash => exact ⟨qs, h.unanswered rfl⟩

theorem ids (h : Kept st log qs s) :
    (RunStore.submitted qs).map RunRecord.id = (answered log).map RunAnswer.runId := by
  have hrecords := congrArg (List.map fun e => e.2.runId) h.records
  simp only [List.map_map] at hrecords
  exact hrecords

theorem results (h : Kept st log qs s) (hash : String) :
    ((RunStore.submitted qs).filter fun r => r.imageHash = hash).map (fun r => (listingOf r).result) =
      ((answered log).filter fun a => a.imageHash = hash).map RunAnswer.result := by
  have hrecords := congrArg (fun es => (es.filter fun e => e.1 = hash).map Prod.snd) h.records
  simp only [List.filter_map, List.map_map] at hrecords
  exact hrecords

variable {earlier : List RunStore.Request}

theorem listed (h : Kept (RunStore.after {} earlier) log qs s)
    (hids : ((RunStore.recorded (RunStore.exchanges {} earlier)).map RunRecord.id ++
      (answered log).map RunAnswer.runId).Nodup) (hash : String) :
    ∃ before now, (RunStore.after {} earlier).runs hash = .ok before ∧
      ((RunStore.after {} earlier).after qs).runs hash = .ok now ∧
      (now.map fun r => (listingOf r).result).Perm ((before.map fun r => (listingOf r).result) ++
        ((answered log).filter fun a => a.imageHash = hash).map RunAnswer.result) := by
  have hlogged := RunStore.logged_after earlier
  have htaken : RunStore.recorded ((RunStore.after {} earlier).exchanges qs) = RunStore.submitted qs := by
    refine hlogged.recorded_exchanges qs ?_
    rwa [List.map_append, h.ids]
  obtain ⟨before, hbefore, hperm, -⟩ := hlogged.runs_eq hash
  obtain ⟨now, hnow, hperm', -⟩ := (hlogged.after qs).runs_eq hash
  refine ⟨before, now, hbefore, hnow, ?_⟩
  rw [RunStore.recorded_append, htaken, List.filter_append] at hperm'
  refine (hperm'.map _).trans ?_
  rw [List.map_append, h.results hash]
  exact (hperm.map _).symm.append_right _

theorem found (h : Kept (RunStore.after {} earlier) log qs s) {img : Image} (hput : .put img ∈ qs)
    (hlimits : img.WithinLimits)
    (hdigest : ∀ other, .put other ∈ earlier ∨ (∃ q ∈ log.map Prod.fst, Holds q other) → other.hash = img.hash →
      other.encode = img.encode) : ((RunStore.after {} earlier).after qs).get img.hash = .ok img := by
  have hafter : (RunStore.after {} earlier).after qs = RunStore.after {} (earlier ++ qs) :=
    (Session.after_append _ earlier qs).symm
  rw [hafter]
  refine (RunStore.addressed_after (earlier ++ qs)).get_of_stored
    (RunStore.addressed_new.stored_of_mem (List.mem_append_right _ hput)) hlimits ?_
  intro other hash hstored
  refine hdigest other ?_
  obtain hmem | hmem := List.mem_append.mp (RunStore.mem_of_stored hstored)
  · exact .inl hmem
  · exact .inr (h.puts other hmem)

end Kept

theorem kept_after {st : RunStore} {s : Service} (h : s.store = some st) (requests : List Request) :
    ∃ qs, Kept st (exchanges s requests) qs (s.after requests) := by
  have hnew : Kept st [] [] s := ⟨h, rfl, by simp, by simp⟩
  exact Session.invariant Kept.step ⟨[], hnew⟩ requests

theorem runs_eq_map {s : Service} {st : RunStore} (hstore : s.store = some st) {hash : String} (hhash : hash ≠ "")
    {listed : List RunRecord} (hlisted : st.runs hash = .ok listed) : s.runs hash = .ok (listed.map listingOf) := by
  simp only [runs, hstore, if_neg hhash, hlisted]
  rfl

/-- A service whose store was used before, in whatever way, is asked to run, to disassemble and to list. If every run
that it answers has an id of its own, the listing of an image has gained one entry for each answer that names the image,
and the entry says what the answer says. Requests without such an answer change nothing. If the images have different
digests, an image that was run is found by the digest that was answered. -/
theorem runs_recorded_as_answered (earlier : List RunStore.Request) (s : Service)
    (hstore : s.store = some (RunStore.after {} earlier)) (requests : List Request)
    (hids : ((RunStore.recorded (RunStore.exchanges {} earlier)).map RunRecord.id ++
      (answered (exchanges s requests)).map RunAnswer.runId).Nodup) :
    (∀ hash, hash ≠ "" → ∃ before now, s.runs hash = .ok before ∧ (s.after requests).runs hash = .ok now ∧
      (now.map RunListing.result).Perm (before.map RunListing.result ++
        ((answered (exchanges s requests)).filter fun a => a.imageHash = hash).map RunAnswer.result)) ∧
    (∀ (t : Service) (q : Request), (t.answer q).1.run? = none → (t.answer q).2 = t) ∧
    ∀ q a, (q, .executed (.ok a)) ∈ exchanges s requests → ∃ img, Holds q img ∧ a.imageHash = img.hash ∧
      ((∀ image o p, .execute image o p ∈ requests → image.length < UInt64.size) →
        (∀ other, .put other ∈ earlier ∨ (∃ q ∈ requests, Holds q other) → other.hash = img.hash →
          other.encode = img.encode) →
        ∃ st, (s.after requests).store = some st ∧ st.get a.imageHash = .ok img) := by
  obtain ⟨qs, hkept⟩ := kept_after hstore requests
  refine ⟨?_, fun t q => answer_unchanged, ?_⟩
  · intro hash hhash
    obtain ⟨before, now, hbefore, hnow, hperm⟩ := hkept.listed hids hash
    refine ⟨_, _, runs_eq_map hstore hhash hbefore, runs_eq_map hkept.store hhash hnow, ?_⟩
    rw [List.map_map, List.map_map]
    exact hperm
  · intro q a hmem
    obtain ⟨img, hholds, hhash, hput⟩ := hkept.images q a hmem
    refine ⟨img, hholds, hhash, ?_⟩
    intro hsizes hdigest
    have hrequests : (exchanges s requests).map Prod.fst = requests := Session.map_fst_exchanges s requests
    have hlimits : img.WithinLimits := by
      obtain ⟨image, o, p, rfl, hdecode⟩ := hholds
      have hrequest : .execute image o p ∈ requests := hrequests ▸ List.mem_map_of_mem hmem
      exact Image.withinLimits_of_decode (hsizes image o p hrequest) (Image.of_decodeValid hdecode).1
    rw [← hrequests] at hdigest
    rw [hhash]
    exact ⟨_, hkept.store, hkept.found hput hlimits hdigest⟩

/-- An image is run, a request without one is refused, and the others only read. -/
def fourRequests : List Request :=
  [.execute Image.nested.encode { runId := "r" } {}, .execute [] { runId := "q" } {},
    .disassemble Image.nested.encode, .runs "h"]

theorem fourRequests_recorded :
    let s := make 1 1000000000 100 17 (some {})
    ∃ a, answered (exchanges s fourRequests) = [a] ∧
      (∃ now, (s.after fourRequests).runs Image.nested.hash = .ok now ∧ now.map RunListing.result = [a.result]) ∧
      ∃ st, (s.after fourRequests).store = some st ∧ st.get Image.nested.hash = .ok Image.nested := by
  intro s
  have hblank : Image.decodeValid [] = .error .malformed := rfl
  have haccept : s.accept Image.nested.encode = .ok Image.nested :=
    accept_eq_ok_iff.mpr ⟨Image.nested_decoded, by decide⟩
  obtain ⟨-, a, -, -, ha, -⟩ := answer_of_accept (p := {}) haccept Image.nested_allocatable (by decide) rfl rfl
    { runId := "r" }
  have hanswered : answered (exchanges s fourRequests) = [a] := by
    have hrefused : ∀ t : Service, (t.execute [] { runId := "q" } {}).1 = .error (.image .malformed) :=
      fun t => congrArg Prod.fst (execute_refused (accept_of_undecoded hblank) _ _)
    simp [answered, exchanges, Session.exchanges, fourRequests, answer, ha, hrefused, Reply.run?]
  have himage : ∀ image o p, .execute image o p ∈ fourRequests → image = Image.nested.encode ∨ image = [] := by
    intro image o p hmem
    simp only [fourRequests, List.mem_cons, Request.execute.injEq, List.not_mem_nil, reduceCtorEq] at hmem
    exact hmem.imp And.left fun h => (h.resolve_right (by simp)).1
  have hheld : ∀ q ∈ fourRequests, ∀ img, Holds q img → img = Image.nested := by
    rintro q hq img ⟨image, o, p, rfl, hdecode⟩
    obtain rfl | rfl := himage image o p hq
    · rw [Image.nested_decoded] at hdecode
      cases hdecode
      rfl
    · rw [hblank] at hdecode
      cases hdecode
  obtain ⟨hlisted, -, hfound⟩ := runs_recorded_as_answered [] s rfl fourRequests (by
    rw [hanswered]
    exact List.nodup_cons.mpr ⟨List.not_mem_nil, List.nodup_nil⟩)
  obtain ⟨img, hholds, hhash, hget⟩ := hfound (.execute Image.nested.encode { runId := "r" } {}) a (by
    rw [← ha]
    exact .head _)
  obtain rfl := hheld _ (.head _) img hholds
  refine ⟨a, hanswered, ?_, ?_⟩
  · have hdigest : Image.nested.hash ≠ "" := by decide +kernel
    obtain ⟨before, now, hbefore, hnow, hperm⟩ := hlisted Image.nested.hash hdigest
    have hnone : ({} : RunStore).runs Image.nested.hash = .ok [] := by simp [RunStore.runs]
    refine ⟨now, hnow, ?_⟩
    rw [runs_eq_map rfl hdigest hnone] at hbefore
    cases hbefore
    rw [hanswered, List.filter_cons_of_pos (by simp [hhash])] at hperm
    exact List.perm_singleton.mp hperm
  · rw [← hhash]
    refine hget ?_ ?_
    · intro image o p hmem
      obtain rfl | rfl := himage image o p hmem
      · decide
      · decide
    · rintro other (hput | ⟨q, hq, hholds'⟩) -
      · cases hput
      · rw [hheld q hq other hholds']

end Service
end StackMachine
