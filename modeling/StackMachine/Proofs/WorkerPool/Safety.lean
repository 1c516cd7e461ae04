import StackMachine.Proofs.WorkerPool.Accounting

/-!
# A worker pool is safe in any order of steps

No function is started twice, every outcome goes to its own caller, and no worker is lost before the signal to quit.
Once a stopper has returned nothing runs any more, and a call that is made then returns if it is ever given its turn.
-/

set_option autoImplicit false

namespace StackMachine.WorkerPool

open Situation

variable {α : Type} {s t : Situation α} {handed : List (Nat × Except String α)}

/-! ## Workers -/

theorem length_workers_step (h : Step s t) : t.workers.length = s.workers.length := by
  cases h <;> simp [modifyCaller, Situation.setPhase, setWorker]

theorem length_workers {n : Int} (h : Reaches (initial α n) s) : s.workers.length = (max n 1).toNat := by
  induction h with
  | refl => simp [initial, ofSize]
  | tail _ hstep ih => rw [length_workers_step hstep, ih]

theorem countP_set_of_eq {β : Type} {l : List β} {k : Nat} {a b : β} {p : β → Bool} (h : l[k]? = some a)
    (hp : p b = p a) : (l.set k b).countP p = l.countP p := by
  obtain ⟨hk, rfl⟩ := List.getElem?_eq_some_iff.mp h
  rw [List.countP_set hk, hp]
  by_cases hpos : p l[k] = true
  · have := List.countP_pos_iff.mpr ⟨l[k], List.getElem_mem hk, hpos⟩
    simp only [hpos, if_true]
    omega
  · simp [hpos]

theorem live_of_ended (h : Step s t) (hended : t.ended ≠ s.ended) : t.live = s.live := by
  cases h with
  | finish w i r hrunning => exact countP_set_of_eq hrunning rfl
  | _ => exact (hended rfl).elim

namespace Sound

theorem started_nodup (h : Sound s handed) : s.started.Nodup :=
  h.once.sublist (List.sublist_append_right _ _)

theorem ended_nodup (h : Sound s handed) : (s.ended.map Prod.fst).Nodup :=
  (h.accounted.nodup_iff.mpr h.started_nodup).sublist (List.sublist_append_right _ _)

theorem started_of_ended (h : Sound s handed) {i : Nat} {r : Except String α} (hmem : (i, r) ∈ s.ended) :
    i ∈ s.started :=
  h.accounted.mem_iff.mp (List.mem_append_right _ (List.mem_map_of_mem (f := Prod.fst) hmem))

theorem ended_of_got (h : Sound s handed) {i : Nat} {c : Caller α} {r : Except String α}
    (hc : s.callers[i]? = some c) (hr : c.Got r) : (i, r) ∈ s.ended :=
  h.delivered.mem_iff.mpr (List.mem_append_right _ (h.got i c r hc hr))

theorem live_eq (h : Sound s handed) (hquit : s.quit = false) : s.live = s.workers.length := by
  rw [live, List.countP_eq_length]
  intro w hw
  rw [h.present hquit w hw]
  rfl

/-- There is always a place for an outcome that a worker has to deliver. -/
theorem hand_enabled (h : Sound s handed) {w i : Nat} {r : Except String α}
    (hdelivering : s.workers[w]? = some (.delivering i r)) :
    ∃ t, Step s t ∧ t.workers[w]? = some .idle := by
  have hundelivered : (i, r) ∈ s.undelivered :=
    List.mem_filterMap.mpr ⟨_, List.mem_of_getElem? hdelivering, rfl⟩
  have hended : (i, r) ∈ s.ended := h.delivered.mem_iff.mpr (List.mem_append_left _ hundelivered)
  obtain ⟨c, hc, -⟩ := h.sent i (List.mem_append_right _ (h.started_of_ended hended))
  have hfree : c.answer = none := by
    cases hanswer : c.answer with
    | none => rfl
    | some r' =>
      -- The function would have ended twice.
      have hnodup := (h.delivered.map Prod.fst).nodup_iff.mp h.ended_nodup
      rw [List.map_append, List.nodup_append] at hnodup
      have hhanded : (i, r') ∈ handed := h.got i c r' hc (.inl hanswer)
      exact (hnodup.2.2 i (List.mem_map_of_mem (f := Prod.fst) hundelivered) i
        (List.mem_map_of_mem (f := Prod.fst) hhanded) rfl).elim
  refine ⟨_, .hand s w i r c hdelivering hc hfree, ?_⟩
  exact List.getElem?_set_self (List.getElem?_eq_some_iff.mp hdelivering).1

theorem reply_cases (h : Sound s handed) {i : Nat} {c : Caller α} {reply : Reply α} (hc : s.callers[i]? = some c)
    (hreply : c.phase = .returned reply) :
    reply = .stopped ∧ s.quit = true ∨ reply = .cancelled ∧ c.contextDone = true ∨
      ∃ r, reply = .outcome r ∧ (i, r) ∈ s.ended := by
  have htruthful := h.truthful c (List.mem_of_getElem? hc)
  cases reply with
  | outcome r => exact .inr (.inr ⟨r, rfl, h.ended_of_got hc (.inr hreply)⟩)
  | stopped => exact .inl ⟨rfl, htruthful.1 hreply⟩
  | cancelled => exact .inr (.inl ⟨rfl, htruthful.2 hreply⟩)

end Sound

/-! ## After a stop -/

/-- The signal was given and all workers have left. -/
structure Closed (s : Situation α) : Prop where
  quit : s.quit = true
  gone : ∀ w ∈ s.workers, w = .gone

theorem Sound.isClosed (h : Sound s handed) (hreturned : .returned ∈ s.stoppers) : Closed s :=
  ⟨h.signalled (List.ne_nil_of_mem hreturned), h.closed hreturned⟩

namespace Closed

theorem not_at (h : Closed s) {w : Nat} {a : Worker α} (ha : a ≠ .gone) : s.workers[w]? ≠ some a :=
  fun hw => ha (h.gone a (List.mem_of_getElem? hw))

theorem running_eq (h : Closed s) : s.running = [] := by
  rw [running, List.filterMap_eq_nil_iff]
  intro w hw
  rw [h.gone w hw]
  rfl

theorem step (h : Closed s) (hstep : Step s t) : Closed t ∧ t.started = s.started := by
  cases hstep with
  | take w i rest hidle _ => exact (h.not_at (by simp) hidle).elim
  | start w i hholding => exact (h.not_at (by simp) hholding).elim
  | finish w i r hrunning => exact (h.not_at (by simp) hrunning).elim
  | hand w i r c hdelivering _ _ => exact (h.not_at (by simp) hdelivering).elim
  | leave w hidle _ => exact (h.not_at (by simp) hidle).elim
  | stop => exact ⟨⟨rfl, h.gone⟩, rfl⟩
  | _ => exact ⟨⟨h.quit, h.gone⟩, rfl⟩

theorem reaches (h : Closed s) (hreaches : Reaches s t) : Closed t ∧ t.started = s.started := by
  induction hreaches with
  | refl => exact ⟨h, rfl⟩
  | tail _ hstep ih =>
    obtain ⟨hclosed, hstarted⟩ := ih
    obtain ⟨hclosed, hstarted'⟩ := hclosed.step hstep
    exact ⟨hclosed, hstarted'.trans hstarted⟩

/-- A call made after the stop never comes to its function. -/
theorem reply_cases (h : Closed s) (hsound : Sound s handed) (hreaches : Reaches s t) {i : Nat} {c : Caller α}
    {reply : Reply α} (hi : s.callers.length ≤ i) (hc : t.callers[i]? = some c) (hreply : c.phase = .returned reply) :
    reply = .stopped ∨ reply = .cancelled ∧ c.contextDone = true := by
  obtain ⟨handed', hsound'⟩ := hsound.reaches hreaches
  obtain ⟨hstopped, -⟩ | hcancelled | ⟨r, -, hended⟩ := hsound'.reply_cases hc hreply
  · exact .inl hstopped
  · exact .inr hcancelled
  · have hstarted := hsound'.started_of_ended hended
    rw [(h.reaches hreaches).2] at hstarted
    obtain ⟨c', hc', -⟩ := hsound.sent i (List.mem_append_right _ hstarted)
    have hlt := (List.getElem?_eq_some_iff.mp hc').1
    omega

end Closed

/-! ## Calls that are given their turn -/

/-- Situations one after the other; where nothing happens the situation stays. -/
structure Execution (s : Situation α) (f : Nat → Situation α) : Prop where
  first : f 0 = s
  next : ∀ k, f (k + 1) = f k ∨ Step (f k) (f (k + 1))

theorem Execution.reaches {f : Nat → Situation α} (h : Execution s f) (k : Nat) : Reaches s (f k) := by
  induction k with
  | zero =>
    rw [h.first]
    exact .refl s
  | succ k ih =>
    obtain hsame | hstep := h.next k
    · rwa [hsame]
    · exact ih.tail hstep

def Situation.phase? (s : Situation α) (i : Nat) : Option (Phase α) :=
  s.callers[i]?.map Caller.phase

/-- Something can happen next by which the call gets further. -/
def Situation.CanMove (s : Situation α) (i : Nat) : Prop :=
  ∃ p t, s.phase? i = some p ∧ Step s t ∧ t.phase? i ≠ some p

/-- A call that can always get further from some time on does so. -/
def Fair (f : Nat → Situation α) (i : Nat) : Prop :=
  ∀ k, ∃ m, k ≤ m ∧ (¬ (f m).CanMove i ∨ (f (m + 1)).phase? i ≠ (f m).phase? i)

/-- How often a call can still get further. -/
def Phase.rank : Phase α → Nat
  | .sending => 2
  | .waiting => 1
  | .returned _ => 0

theorem phase?_modifyCaller {i j : Nat} {p : Phase α} {f : Caller α → Caller α} (hp : s.phase? i = some p)
    (hf : ∀ c, s.callers[j]? = some c → (f c).phase = c.phase ∨ (f c).phase.rank < c.phase.rank) :
    ∃ p', (s.modifyCaller j f).phase? i = some p' ∧ (p' = p ∨ p'.rank < p.rank) := by
  obtain ⟨c, hc, rfl⟩ := Option.map_eq_some_iff.mp hp
  refine ⟨_, congrArg (Option.map Caller.phase) (getElem?_modifyCaller hc), ?_⟩
  split
  next heq =>
    subst heq
    exact hf c hc
  next => exact .inl rfl

theorem phase?_setPhase {i j : Nat} {p q : Phase α} {c : Caller α} (hp : s.phase? i = some p)
    (hc : s.callers[j]? = some c) (hq : q.rank < c.phase.rank) :
    ∃ p', (s.setPhase j q).phase? i = some p' ∧ (p' = p ∨ p'.rank < p.rank) := by
  refine phase?_modifyCaller hp ?_
  intro c' hc'
  cases hc.symm.trans hc'
  exact .inr hq

/-- A call never goes back. -/
theorem phase?_step (h : Step s t) {i : Nat} {p : Phase α} (hp : s.phase? i = some p) :
    ∃ p', t.phase? i = some p' ∧ (p' = p ∨ p'.rank < p.rank) := by
  cases h with
  | call contextDone =>
    refine ⟨p, ?_, .inl rfl⟩
    obtain ⟨c, hc, rfl⟩ := Option.map_eq_some_iff.mp hp
    rw [phase?, List.getElem?_append_left (List.getElem?_eq_some_iff.mp hc).1, hc]
    rfl
  | cancel j => exact phase?_modifyCaller hp fun c _ => .inl rfl
  | send j c hc hsending _ => exact phase?_setPhase hp hc (by simp [hsending, Phase.rank])
  | giveUp j c hc hsending _ => exact phase?_setPhase hp hc (by simp [hsending, Phase.rank])
  | refuse j c hc hsending _ => exact phase?_setPhase hp hc (by simp [hsending, Phase.rank])
  | hand w j r c _ _ _ => exact phase?_modifyCaller (s := s.setWorker w .idle) hp fun c _ => .inl rfl
  | receive j c r hc hwaiting _ =>
    refine phase?_modifyCaller hp ?_
    intro c' hc'
    cases hc.symm.trans hc'
    exact .inr (by simp [hwaiting, Phase.rank])
  | abandon j c hc hwaiting _ => exact phase?_setPhase hp hc (by simp [hwaiting, Phase.rank])
  | _ => exact ⟨p, hp, .inl rfl⟩

theorem Execution.phase?_later {f : Nat → Situation α} (h : Execution s f) {i k m : Nat} (hkm : k ≤ m) {p : Phase α}
    (hp : (f k).phase? i = some p) : ∃ p', (f m).phase? i = some p' ∧ p'.rank ≤ p.rank := by
  induction hkm with
  | refl => exact ⟨p, hp, Nat.le_refl _⟩
  | @step m _ ih =>
    obtain ⟨p', hp', hle⟩ := ih
    obtain hsame | hstep := h.next m
    · exact ⟨p', hsame ▸ hp', hle⟩
    · obtain ⟨p'', hp'', rfl | hlt⟩ := phase?_step hstep hp'
      · exact ⟨p'', hp'', hle⟩
      · exact ⟨p'', hp'', by omega⟩

/-- After the signal a call that has not returned can do so at any time. -/
theorem canMove_of_quit (hquit : s.quit = true) {i : Nat} {p : Phase α} (hp : s.phase? i = some p)
    (hrank : p.rank ≠ 0) : s.CanMove i := by
  obtain ⟨c, hc, rfl⟩ := Option.map_eq_some_iff.mp hp
  have hstep : Step s (s.setPhase i (.returned .stopped)) := by
    cases hphase : c.phase with
    | sending => exact .refuse s i c hc hphase hquit
    | waiting => exact .abandon s i c hc hphase hquit
    | returned reply =>
      rw [hphase] at hrank
      exact (hrank rfl).elim
  have hreturned : (s.setPhase i (.returned .stopped)).phase? i = some (.returned .stopped) := by
    rw [phase?, Situation.setPhase, getElem?_modifyCaller hc, if_pos rfl]
    rfl
  refine ⟨c.phase, _, hp, hstep, ?_⟩
  rw [hreturned]
  intro heq
  rw [← Option.some.inj heq] at hrank
  exact hrank rfl

theorem Fair.returns {f : Nat → Situation α} {i : Nat} (hfair : Fair f i) (h : Execution s f)
    (hquit : ∀ k, (f k).quit = true) {k : Nat} {p : Phase α} (hp : (f k).phase? i = some p) :
    ∃ m reply, (f m).phase? i = some (.returned reply) := by
  -- By the rank of the phase: a call that cannot get further has returned, and one that gets further has less to do.
  induction hrank : p.rank using Nat.strongRecOn generalizing k p with
  | ind rank ih =>
    obtain ⟨m, hkm, hm⟩ := hfair k
    obtain ⟨q, hq, hle⟩ := h.phase?_later hkm hp
    by_cases hdone : q.rank = 0
    · cases q with
      | returned reply => exact ⟨m, reply, hq⟩
      | sending => cases hdone
      | waiting => cases hdone
    obtain hstuck | hmoved := hm
    · exact (hstuck (canMove_of_quit (hquit m) hq hdone)).elim
    · obtain hsame | hstep := h.next m
      · exact (hmoved (by rw [hsame])).elim
      · obtain ⟨q', hq', rfl | hlt⟩ := phase?_step hstep hq
        · exact (hmoved (hq'.trans hq.symm)).elim
        · exact ih q'.rank (by omega) hq' rfl

/-! ## All together -/

/-- Whatever the callers, workers and stoppers of a new pool of `n` workers have done, in whatever order:

* no function was started twice;
* a call that has returned has returned what its own function ended in, a value or the text of a panic, or that the
  pool was stopped or that its context is done, and then that was so;
* functions that have started and not ended are with workers that run them, of which there are not more than `n`, or one;
* all workers are there until the signal to quit, the end of a function costs none, and none waits to hand over;
* once a stopper has returned nothing runs and nothing starts, and a call that is made then returns, when it is given
  its turn, that the pool was stopped or that its context is done. -/
theorem pool_safe_in_any_order (n : Int) (s : Situation α) (h : Reaches (initial α n) s) :
    s.started.Nodup ∧
    (∀ i c reply, s.callers[i]? = some c → c.phase = .returned reply →
      reply = .stopped ∧ s.quit = true ∨ reply = .cancelled ∧ c.contextDone = true ∨
        ∃ r, reply = .outcome r ∧ (i, r) ∈ s.ended) ∧
    ((s.running ++ s.ended.map Prod.fst).Perm s.started ∧ s.running.length ≤ (max n 1).toNat) ∧
    ((s.quit = false → s.live = (max n 1).toNat) ∧ (∀ t, Step s t → t.ended ≠ s.ended → t.live = s.live) ∧
      ∀ (w i : Nat) r, s.workers[w]? = some (.delivering i r) → ∃ t, Step s t ∧ t.workers[w]? = some .idle) ∧
    (.returned ∈ s.stoppers →
      (∀ t, Reaches s t → t.running = [] ∧ t.started = s.started ∧
        ∀ i c reply, s.callers.length ≤ i → t.callers[i]? = some c → c.phase = .returned reply →
          reply = .stopped ∨ reply = .cancelled ∧ c.contextDone = true) ∧
      ∀ f i, Execution s f → Fair f i → s.callers.length ≤ i → (∃ k, i < (f k).callers.length) →
        ∃ k c, (f k).callers[i]? = some c ∧
          (c.phase = .returned .stopped ∨ c.phase = .returned .cancelled ∧ c.contextDone = true)) := by
  obtain ⟨handed, hsound⟩ := (sound_initial α n).reaches h
  have hlength := length_workers h
  refine ⟨hsound.started_nodup, fun i c reply => hsound.reply_cases, ⟨hsound.accounted, ?_⟩, ⟨?_, ?_, ?_⟩, ?_⟩
  · rw [← hlength]
    exact List.length_filterMap_le _ _
  · intro hquit
    rw [hsound.live_eq hquit, hlength]
  · exact fun t => live_of_ended
  · exact fun w i r => hsound.hand_enabled
  · intro hreturned
    have hclosed := hsound.isClosed hreturned
    refine ⟨?_, ?_⟩
    · intro t ht
      obtain ⟨hclosed', hstarted⟩ := hclosed.reaches ht
      exact ⟨hclosed'.running_eq, hstarted, fun i c reply => hclosed.reply_cases hsound ht⟩
    · rintro f i hf hfair hi ⟨k, hk⟩
      have hquit : ∀ k, (f k).quit = true := fun k => (hclosed.reaches (hf.reaches k)).1.quit
      have hp : (f k).phase? i = some ((f k).callers[i]).phase := by
        rw [phase?, List.getElem?_eq_getElem hk]
        rfl
      obtain ⟨m, reply, hm⟩ := hfair.returns hf hquit hp
      obtain ⟨c, hc, hreply⟩ := Option.map_eq_some_iff.mp hm
      refine ⟨m, c, hc, ?_⟩
      obtain rfl | ⟨rfl, hdone⟩ := hclosed.reply_cases hsound (hf.reaches m) hi hc hreply
      · exact .inl hreply
      · exact .inr ⟨hreply, hdone⟩

/-- A function has panicked on the only worker, its caller has the text, and the pool was stopped. -/
def panicked : Situation Nat where
  callers := [{ phase := .returned (.outcome (.error "boom")) }]
  workers := [.gone]
  quit := true
  stoppers := [.returned]
  started := [0]
  ended := [(0, .error "boom")]

theorem reaches_panicked : Reaches (initial Nat 0) panicked := by
  have called := (Reaches.refl (initial Nat 0)).tail (.call _ false)
  have sent := called.tail (.send _ 0 _ rfl rfl (by decide))
  have taken := sent.tail (.take _ 0 0 [] rfl rfl)
  have started := taken.tail (.start _ 0 0 rfl)
  have finished := started.tail (.finish _ 0 0 (.error "boom") rfl)
  have handed := finished.tail (.hand _ 0 0 _ _ rfl rfl rfl)
  have received := handed.tail (.receive _ 0 _ _ rfl rfl rfl)
  have signalled := received.tail (.stop _)
  have left := signalled.tail (.leave _ 0 rfl rfl)
  exact left.tail (.stopped _ 0 rfl fun w hw => List.mem_singleton.mp hw)

/-- A call is made after the stop and refused. -/
def latecomer : Nat → Situation Nat
  | 0 => panicked
  | 1 => { panicked with callers := panicked.callers ++ [{}] }
  | _ + 2 => { panicked with callers := panicked.callers ++ [{ phase := .returned .stopped }] }

theorem panicked_safe :
    Reaches (initial Nat 0) panicked ∧ panicked.started.Nodup ∧ panicked.running.length ≤ 1 ∧
    (∀ t, Reaches panicked t → t.running = [] ∧ t.started = [0]) ∧
    Execution panicked latecomer ∧ Fair latecomer 1 ∧
    ∃ k c, (latecomer k).callers[1]? = some c ∧
      (c.phase = .returned .stopped ∨ c.phase = .returned .cancelled ∧ c.contextDone = true) := by
  obtain ⟨honce, -, ⟨-, hrunning⟩, -, hstopped⟩ := pool_safe_in_any_order 0 panicked reaches_panicked
  obtain ⟨hlater, hcalls⟩ := hstopped (by decide)
  have hexecution : Execution panicked latecomer := by
    refine ⟨rfl, ?_⟩
    rintro (_ | _ | k)
    · exact .inr (.call panicked false)
    · exact .inr (.refuse _ 1 _ rfl rfl rfl)
    · exact .inl rfl
  have hfair : Fair latecomer 1 := by
    intro k
    refine ⟨k + 2, by omega, .inl ?_⟩
    rintro ⟨p, t, hp, hstep, hmoved⟩
    obtain ⟨p', hp', rfl | hlt⟩ := phase?_step hstep hp
    · exact hmoved hp'
    · cases hp
      cases hlt
  refine ⟨reaches_panicked, honce, hrunning, ?_, hexecution, hfair, ?_⟩
  · intro t ht
    obtain ⟨hnone, hsame, -⟩ := hlater t ht
    exact ⟨hnone, hsame⟩
  · exact hcalls latecomer 1 hexecution hfair (by decide) ⟨1, by decide⟩

/-! ## Agreement with `submit` -/

/-- What a call comes to whose context is never done. -/
def Reply.result? : Reply α → Option (Except PoolError α)
  | .outcome r => some (r.mapError .failed)
  | .stopped => some (.error .stopped)
  | .cancelled => none

/-- A call whose context is not done returns what `submit` gives, on a pool that nobody stops and on one that was
stopped before. -/
theorem result?_eq_submit (n : Int) (h : Reaches (initial α n) s) (hreaches : Reaches s t) {i : Nat} {c : Caller α}
    {reply : Reply α} (hi : s.callers.length ≤ i) (hc : t.callers[i]? = some c) (hreply : c.phase = .returned reply)
    (hcontext : c.contextDone = false) :
    (t.quit = false → ∃ r, (i, r) ∈ t.ended ∧ reply.result? = some ((ofSize n).submit fun _ => r)) ∧
    (.returned ∈ s.stoppers → ∀ request, reply.result? = some ((ofSize n).stop.submit request)) := by
  obtain ⟨handed, hsound⟩ := (sound_initial α n).reaches h
  obtain ⟨handed', hsound'⟩ := hsound.reaches hreaches
  constructor
  · intro hquit
    obtain ⟨-, hquit'⟩ | ⟨-, hdone⟩ | ⟨r, rfl, hended⟩ := hsound'.reply_cases hc hreply
    · simp [hquit] at hquit'
    · simp [hcontext] at hdone
    · exact ⟨r, hended, rfl⟩
  · intro hreturned request
    obtain rfl | ⟨-, hdone⟩ := (hsound.isClosed hreturned).reply_cases hsound hreaches hi hc hreply
    · rfl
    · simp [hcontext] at hdone

end StackMachine.WorkerPool
