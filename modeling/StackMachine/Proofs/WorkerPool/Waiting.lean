import StackMachine.Proofs.WorkerPool.Safety

/-!
# How long calls wait

A call waits twice: for room in the queue, and then for its answer. In the first wait it watches its context and the
signal to quit, in the second the signal only. So a call cannot give up once its request is in the queue, and after
the signal it may return at any time, also while its function runs or before it is started.
-/

set_option autoImplicit false

namespace StackMachine.WorkerPool

open Situation

variable {α : Type} {s t : Situation α} {handed : List (Nat × Except String α)} {i : Nat}

theorem Reaches.trans {u : Situation α} (h : Reaches s t) (h' : Reaches t u) : Reaches s u := by
  induction h' with
  | refl => exact h
  | tail _ hstep ih => exact ih.tail hstep

/-! ## Requests that were accepted -/

/-- The callers whose requests have come into the queue. -/
def Situation.accepted (s : Situation α) : List Nat :=
  s.unstarted ++ s.started

/-- Requests are accepted one at a time and never dropped. -/
theorem accepted_step (h : Step s t) :
    t.accepted.Perm s.accepted ∨ ∃ j, t.phase? j = some .waiting ∧ t.accepted.Perm (j :: s.accepted) := by
  cases h with
  | send j c hc _ _ =>
    refine .inr ⟨j, ?_, ?_⟩
    · exact congrArg (Option.map Caller.phase) ((getElem?_modifyCaller hc).trans (by rw [if_pos rfl]))
    · rw [accepted, unstarted, ← List.append_assoc, List.append_assoc, List.singleton_append]
      exact List.perm_middle
  | take w j rest hidle hqueue =>
    refine .inl (pending_perm hidle rfl ?_)
    intro held
    rw [hqueue]
    exact List.perm_middle.symm.append_right _
  | start w j hholding => exact .inl (pending_perm hholding rfl fun _ => List.perm_middle)
  | finish w j r hrunning => exact .inl (pending_perm hrunning rfl fun _ => .rfl)
  | hand w j r c hdelivering _ _ => exact .inl (pending_perm hdelivering rfl fun _ => .rfl)
  | leave w hidle _ => exact .inl (pending_perm hidle rfl fun _ => .rfl)
  | _ => exact .inl .rfl

theorem mem_accepted_reaches (h : Reaches s t) (hi : i ∈ s.accepted) : i ∈ t.accepted := by
  induction h with
  | refl => exact hi
  | tail _ hstep ih =>
    obtain hperm | ⟨j, -, hperm⟩ := accepted_step hstep
    · exact hperm.mem_iff.mpr ih
    · exact hperm.mem_iff.mpr (List.mem_cons_of_mem j ih)

/-! ## Turns of a call -/

/-- What a step from `s` to `t` may make of the phase of the call `i`. -/
inductive Turn (s t : Situation α) (i : Nat) (c : Caller α) : Phase α → Prop where
  | stays : Turn s t i c c.phase
  | sent (queued : i ∈ t.queue) : Turn s t i c .waiting
  | gaveUp (sending : c.phase = .sending) : Turn s t i c (.returned .cancelled)
  | stopped (quit : s.quit = true) : Turn s t i c (.returned .stopped)
  | received (r : Except String α) : Turn s t i c (.returned (.outcome r))

theorem turn_modifyCaller {s u t : Situation α} {j : Nat} {f : Caller α → Caller α} {c' : Caller α}
    (hcallers : u.callers = s.callers) (hc' : (u.modifyCaller j f).callers[i]? = some c')
    (hturn : ∀ c, s.callers[j]? = some c → Turn s t j c (f c).phase) :
    ∃ c, s.callers[i]? = some c ∧ Turn s t i c c'.phase := by
  obtain ⟨c, hc, rfl⟩ := of_getElem?_modifyCaller hc'
  rw [hcallers] at hc
  refine ⟨c, hc, ?_⟩
  split
  next heq =>
    subst heq
    exact hturn c hc
  next => exact .stays

/-- A call is new and is sending, or it has taken its turn. -/
theorem turn_of_step (h : Step s t) {c' : Caller α} (hc' : t.callers[i]? = some c') :
    c'.phase = .sending ∨ ∃ c, s.callers[i]? = some c ∧ Turn s t i c c'.phase := by
  cases h with
  | call contextDone =>
    rw [List.getElem?_append] at hc'
    split at hc'
    next => exact .inr ⟨c', hc', .stays⟩
    next =>
      obtain rfl := List.mem_singleton.mp (List.mem_of_getElem? hc')
      exact .inl rfl
  | cancel j => exact .inr (turn_modifyCaller rfl hc' fun _ _ => .stays)
  | send j c hc _ _ =>
    exact .inr (turn_modifyCaller rfl hc' fun _ _ => .sent (List.mem_append_right _ (List.mem_singleton_self j)))
  | giveUp j c hc hsending _ =>
    refine .inr (turn_modifyCaller rfl hc' ?_)
    intro c₁ hc₁
    cases hc.symm.trans hc₁
    exact .gaveUp hsending
  | refuse j c _ _ hquit => exact .inr (turn_modifyCaller rfl hc' fun _ _ => .stopped hquit)
  | hand w j r c _ _ _ => exact .inr (turn_modifyCaller (u := s.setWorker w .idle) rfl hc' fun _ _ => .stays)
  | receive j c r _ _ _ => exact .inr (turn_modifyCaller rfl hc' fun _ _ => .received r)
  | abandon j c _ _ hquit => exact .inr (turn_modifyCaller rfl hc' fun _ _ => .stopped hquit)
  | _ => exact .inr ⟨c', hc', .stays⟩

/-- A call waits for its answer only if its request was accepted, and after that it does not give up. -/
structure Placed (s : Situation α) : Prop where
  accepted : ∀ i c, s.callers[i]? = some c → c.phase = .waiting → i ∈ s.accepted
  faithful : ∀ i c, s.callers[i]? = some c → i ∈ s.accepted → c.phase ≠ .returned .cancelled

theorem placed_step (h : Placed s) (hsound : Sound s handed) (hstep : Step s t) : Placed t := by
  constructor
  · intro i c' hc' hwaiting
    obtain hsending | ⟨c, hc, hturn⟩ := turn_of_step hstep hc'
    · rw [hwaiting] at hsending
      cases hsending
    · rw [hwaiting] at hturn
      generalize hp : Phase.waiting = p at hturn
      cases hturn with
      | stays => exact mem_accepted_reaches ((Reaches.refl s).tail hstep) (h.accepted i c hc hp.symm)
      | sent hqueued => exact List.mem_append_left _ (List.mem_append_right _ hqueued)
      | gaveUp | stopped | received => cases hp
  · intro i c' hc' hmem hcancelled
    -- Such a call was not accepted before, and the one that is accepted now is waiting.
    have hbefore : i ∉ s.accepted := by
      intro hmem
      obtain hsending | ⟨c, hc, hturn⟩ := turn_of_step hstep hc'
      · rw [hcancelled] at hsending
        cases hsending
      · rw [hcancelled] at hturn
        generalize hp : Phase.returned Reply.cancelled = p at hturn
        cases hturn with
        | stays => exact h.faithful i c hc hmem hp.symm
        | gaveUp hsending =>
          obtain ⟨c₁, hc₁, hsent⟩ := hsound.sent i hmem
          cases hc.symm.trans hc₁
          exact hsent hsending
        | sent | stopped | received => cases hp
    obtain hperm | ⟨j, hwaiting, hperm⟩ := accepted_step hstep
    · exact hbefore (hperm.mem_iff.mp hmem)
    · obtain rfl | hold := List.mem_cons.mp (hperm.mem_iff.mp hmem)
      · rw [phase?, hc', Option.map_some, hcancelled] at hwaiting
        cases hwaiting
      · exact hbefore hold

theorem placed_reaches {n : Int} (h : Reaches (initial α n) s) : Placed s := by
  induction h with
  | refl => constructor <;> simp [initial]
  | tail hreaches hstep ih =>
    obtain ⟨handed, hsound⟩ := (sound_initial α n).reaches hreaches
    exact placed_step ih hsound hstep

/-! ## Calls whose functions have started -/

/-- If the function of the call has started, the call does not return before the function has ended, and returns what
it ended in. -/
def Situation.KeepsWork (s : Situation α) (i : Nat) : Prop :=
  i ∈ s.started → ∀ reply, s.phase? i = some (.returned reply) → ∃ r, reply = .outcome r ∧ (i, r) ∈ s.ended

theorem keepsWork_iff (hsound : Sound s handed) (hplaced : Placed s) :
    s.KeepsWork i ↔ (i ∈ s.started → s.phase? i ≠ some (.returned .stopped)) := by
  constructor
  · intro hkeeps hstarted hstopped
    obtain ⟨r, hr, -⟩ := hkeeps hstarted _ hstopped
    cases hr
  · intro hnot hstarted reply hreply
    obtain ⟨c, hc, hphase⟩ := Option.map_eq_some_iff.mp hreply
    obtain ⟨rfl, -⟩ | ⟨rfl, -⟩ | hended := hsound.reply_cases hc hphase
    · exact (hnot hstarted hreply).elim
    · exact (hplaced.faithful i c hc (List.mem_append_right _ hstarted) hphase).elim
    · exact hended

theorem Sound.not_stopped (h : Sound s handed) (hquit : s.quit = false) : s.phase? i ≠ some (.returned .stopped) := by
  intro hstopped
  obtain ⟨c, hc, hphase⟩ := Option.map_eq_some_iff.mp hstopped
  have htrue := (h.truthful c (List.mem_of_getElem? hc)).1 hphase
  rw [hquit] at htrue
  cases htrue

/-- A waiting call comes to see the signal only after it was given. -/
theorem not_stopped_of_step (hstep : Step s t) (hwaiting : s.phase? i = some .waiting) (hquit : s.quit = false) :
    t.phase? i ≠ some (.returned .stopped) := by
  intro hstopped
  obtain ⟨c', hc', hphase⟩ := Option.map_eq_some_iff.mp hstopped
  obtain hsending | ⟨c, hc, hturn⟩ := turn_of_step hstep hc'
  · rw [hphase] at hsending
    cases hsending
  · rw [hphase] at hturn
    rw [phase?, hc] at hwaiting
    generalize hp : Phase.returned Reply.stopped = p at hturn
    cases hturn with
    | stays =>
      rw [Option.map_some, ← hp] at hwaiting
      cases hwaiting
    | stopped hquit' =>
      rw [hquit] at hquit'
      cases hquit'
    | sent | gaveUp | received => cases hp

theorem phase?_setPhase_self {p : Phase α} (h : i < s.callers.length) : (s.setPhase i p).phase? i = some p := by
  rw [phase?, Situation.setPhase, getElem?_modifyCaller (List.getElem?_eq_getElem h), if_pos rfl]
  rfl

theorem abandon_of_quit (hwaiting : s.phase? i = some .waiting) (hquit : s.quit = true) :
    ∃ t, Step s t ∧ t.started = s.started ∧ t.phase? i = some (.returned .stopped) := by
  obtain ⟨c, hc, hphase⟩ := Option.map_eq_some_iff.mp hwaiting
  exact ⟨_, .abandon s i c hc hphase hquit, rfl, phase?_setPhase_self (List.getElem?_eq_some_iff.mp hc).1⟩

/-- Whatever has happened in a pool, calls have returned what their functions ended in, unless they saw the signal to
quit: a call whose function was started, before or after, has not if and only if it has returned that the pool was
stopped. Until the signal there is no such call. From then on every call that waits for a function that was started
may become one with the next step. -/
theorem work_kept_unless_stopped (n : Int) (s : Situation α) (h : Reaches (initial α n) s) (i : Nat) :
    (s.KeepsWork i ↔ (i ∈ s.started → s.phase? i ≠ some (.returned .stopped))) ∧
    (s.quit = false → s.KeepsWork i) ∧
    (i ∈ s.started → s.phase? i = some .waiting → ((∀ t, Step s t → t.KeepsWork i) ↔ s.quit = false)) := by
  obtain ⟨handed, hsound⟩ := (sound_initial α n).reaches h
  have hplaced := placed_reaches h
  refine ⟨keepsWork_iff hsound hplaced, ?_, ?_⟩
  · intro hquit
    exact (keepsWork_iff hsound hplaced).mpr fun _ => hsound.not_stopped hquit
  · intro hstarted hwaiting
    constructor
    · intro hkeeps
      cases hquit : s.quit with
      | false => rfl
      | true =>
        obtain ⟨t, hstep, hsame, hstopped⟩ := abandon_of_quit hwaiting hquit
        obtain ⟨r, hr, -⟩ := hkeeps t hstep (hsame ▸ hstarted) _ hstopped
        cases hr
    · intro hquit t hstep
      obtain ⟨handed', hsound'⟩ := hsound.step hstep
      refine (keepsWork_iff hsound' (placed_step hplaced hsound hstep)).mpr ?_
      exact fun _ => not_stopped_of_step hstep hwaiting hquit

/-- The function of the only call runs. -/
def busy : Situation Nat where
  callers := [{ phase := .waiting }]
  workers := [.running 0]
  started := [0]

theorem reaches_busy : Reaches (initial Nat 1) busy := by
  have called := (Reaches.refl (initial Nat 1)).tail (.call _ false)
  have sent := called.tail (.send _ 0 _ rfl rfl (by decide))
  have taken := sent.tail (.take _ 0 0 [] rfl rfl)
  exact taken.tail (.start _ 0 0 rfl)

theorem busy_kept_until_stop :
    Reaches (initial Nat 1) busy ∧ busy.KeepsWork 0 ∧ (∀ t, Step busy t → t.KeepsWork 0) ∧
    ∃ t, Step busy t ∧ t.KeepsWork 0 ∧ ¬ ∀ u, Step t u → u.KeepsWork 0 := by
  have hstop := Step.stop busy
  obtain ⟨-, hbefore, hnext⟩ := work_kept_unless_stopped 1 busy reaches_busy 0
  obtain ⟨hiff, -, hnext'⟩ := work_kept_unless_stopped 1 _ (reaches_busy.tail hstop) 0
  refine ⟨reaches_busy, hbefore rfl, (hnext (.head _) rfl).mpr rfl, _, hstop, hiff.mpr ?_, ?_⟩
  · rintro - ⟨⟩
  · intro hkeeps
    cases (hnext' (.head _) rfl).mp hkeeps

/-- The call has returned that the pool was stopped, and its function still runs. -/
def deserted : Situation Nat where
  callers := [{ phase := .returned .stopped }]
  workers := [.running 0]
  quit := true
  stoppers := [.waiting]
  started := [0]

/-- The call has returned that the pool was stopped, and its request is still in the queue. -/
def forsaken : Situation Nat where
  callers := [{ phase := .returned .stopped }]
  workers := [.idle]
  queue := [0]
  quit := true
  stoppers := [.waiting]

/-- A call may return that the pool was stopped while its function runs, and also before its function is started. -/
theorem deserted_not_kept :
    Reaches (initial Nat 1) deserted ∧ deserted.phase? 0 = some (.returned .stopped) ∧ deserted.running = [0] ∧
    deserted.ended = [] ∧ ¬ deserted.KeepsWork 0 ∧
    Reaches (initial Nat 1) forsaken ∧ forsaken.phase? 0 = some (.returned .stopped) ∧ Reaches forsaken deserted := by
  refine ⟨?_, rfl, rfl, rfl, ?_, ?_, rfl, ?_⟩
  · have signalled := reaches_busy.tail (.stop _)
    exact signalled.tail (.abandon _ 0 _ rfl rfl rfl)
  · intro hkeeps
    obtain ⟨r, hr, -⟩ := hkeeps (.head _) _ rfl
    cases hr
  · have called := (Reaches.refl (initial Nat 1)).tail (.call _ false)
    have sent := called.tail (.send _ 0 _ rfl rfl (by decide))
    have signalled := sent.tail (.stop _)
    exact signalled.tail (.abandon _ 0 _ rfl rfl rfl)
  · have taken := (Reaches.refl forsaken).tail (.take _ 0 0 [] rfl rfl)
    exact taken.tail (.start _ 0 0 rfl)

/-! ## Calls whose requests were not taken -/

/-- No worker has taken the request of the call. -/
def Situation.Untaken (s : Situation α) (i : Nat) : Prop :=
  i ∉ s.workers.filterMap Worker.held? ++ s.started

theorem mem_accepted_iff_of_untaken (h : s.Untaken i) : i ∈ s.accepted ↔ i ∈ s.queue := by
  unfold Untaken at h
  constructor
  · intro hi
    obtain hi | hstarted := List.mem_append.mp hi
    · obtain hheld | hqueue := List.mem_append.mp hi
      · exact (h (List.mem_append_left _ hheld)).elim
      · exact hqueue
    · exact (h (List.mem_append_right _ hstarted)).elim
  · intro hqueue
    exact List.mem_append_left _ (List.mem_append_right _ hqueue)

theorem never_cancelled {n : Int} (h : Reaches (initial α n) s) (hi : i ∈ s.accepted) (hreaches : Reaches s t) :
    t.phase? i ≠ some (.returned .cancelled) := by
  intro hcancelled
  obtain ⟨c, hc, hphase⟩ := Option.map_eq_some_iff.mp hcancelled
  exact (placed_reaches (h.trans hreaches)).faithful i c hc (mem_accepted_reaches hreaches hi) hphase

/-- In whatever situation a call has not returned, its request was not taken and its context is done, the call can give
up with the next step if and only if its request is not in the queue. If it is there, the call will never give up. -/
theorem can_give_up_iff_not_queued (n : Int) (s : Situation α) (h : Reaches (initial α n) s) (i : Nat) (c : Caller α)
    (hc : s.callers[i]? = some c) (hreturned : ∀ reply, c.phase ≠ .returned reply) (huntaken : s.Untaken i)
    (hdone : c.contextDone = true) :
    ((∃ t, Step s t ∧ t.phase? i = some (.returned .cancelled)) ↔ i ∉ s.queue) ∧
    (i ∈ s.queue → ∀ t, Reaches s t → t.phase? i ≠ some (.returned .cancelled)) := by
  have hqueue := mem_accepted_iff_of_untaken huntaken
  refine ⟨⟨?_, ?_⟩, fun hi t => never_cancelled h (hqueue.mpr hi)⟩
  · rintro ⟨t, hstep, hcancelled⟩ hi
    exact never_cancelled h (hqueue.mpr hi) ((Reaches.refl s).tail hstep) hcancelled
  · intro hi
    have hsending : c.phase = .sending := by
      cases hphase : c.phase with
      | sending => rfl
      | waiting => exact (hi (hqueue.mp ((placed_reaches h).accepted i c hc hphase))).elim
      | returned reply => exact (hreturned reply hphase).elim
    exact ⟨_, .giveUp s i c hc hsending hdone, phase?_setPhase_self (List.getElem?_eq_some_iff.mp hc).1⟩

/-- The only worker is busy, a second call is in the queue and a third is not. -/
def crowded : Situation Nat where
  callers := [{ phase := .waiting }, { contextDone := true, phase := .waiting }, { contextDone := true }]
  workers := [.running 0]
  queue := [1]
  started := [0]

theorem reaches_crowded : Reaches (initial Nat 1) crowded := by
  have second := reaches_busy.tail (.call _ true)
  have sent := second.tail (.send _ 1 _ rfl rfl (by decide))
  exact sent.tail (.call _ true)

theorem crowded_gives_up :
    Reaches (initial Nat 1) crowded ∧ crowded.Untaken 2 ∧
    (∃ t, Step crowded t ∧ t.phase? 2 = some (.returned .cancelled)) ∧ crowded.Untaken 1 ∧
    ∀ t, Reaches crowded t → t.phase? 1 ≠ some (.returned .cancelled) := by
  have hthird : crowded.Untaken 2 := by
    unfold Untaken
    decide
  have hsecond : crowded.Untaken 1 := by
    unfold Untaken
    decide
  obtain ⟨hiff, -⟩ := can_give_up_iff_not_queued 1 crowded reaches_crowded 2 _ rfl (by rintro reply ⟨⟩) hthird rfl
  obtain ⟨-, hnever⟩ := can_give_up_iff_not_queued 1 crowded reaches_crowded 1 _ rfl (by rintro reply ⟨⟩) hsecond rfl
  exact ⟨reaches_crowded, hthird, hiff.mpr (by decide), hsecond, hnever (by decide)⟩

/-- A call whose context is done has to stay in the queue. -/
theorem crowded_must_stay :
    Reaches (initial Nat 1) crowded ∧ crowded.callers[1]? = some { contextDone := true, phase := .waiting } ∧
    crowded.Untaken 1 ∧ ¬ ∃ t, Step crowded t ∧ t.phase? 1 = some (.returned .cancelled) := by
  refine ⟨reaches_crowded, rfl, ?_, ?_⟩
  · unfold Untaken
    decide
  · rintro ⟨t, hstep, hcancelled⟩
    exact never_cancelled reaches_crowded (by decide) ((Reaches.refl _).tail hstep) hcancelled

end StackMachine.WorkerPool
