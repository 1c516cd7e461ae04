import StackMachine.WorkerPool.Interleaving

/-!
# Where the requests of a pool are

Every request that was sent is in one place: in the queue or held by a worker, until its function starts; with the
worker that runs it, until it ends; with the worker that delivers the outcome, until it is handed over. The lists of
what has started and ended account for all of them, and no step loses or doubles one.
-/

set_option autoImplicit false

namespace StackMachine.WorkerPool

variable {α : Type}

namespace Worker

def held? : Worker α → Option Nat
  | .holding i => some i
  | _ => none

def running? : Worker α → Option Nat
  | .running i => some i
  | _ => none

def outcome? : Worker α → Option (Nat × Except String α)
  | .delivering i r => some (i, r)
  | _ => none

def isGone : Worker α → Bool
  | .gone => true
  | _ => false

end Worker

/-- The outcome is on its way to the caller, or the caller has returned it. -/
def Caller.Got (c : Caller α) (r : Except String α) : Prop :=
  c.answer = some r ∨ c.phase = .returned (.outcome r)

/-- The call returns that the pool was stopped or that its context is done only if so. -/
def Caller.Truthful (quit : Bool) (c : Caller α) : Prop :=
  (c.phase = .returned .stopped → quit = true) ∧ (c.phase = .returned .cancelled → c.contextDone = true)

namespace Situation

/-- The callers whose functions are yet to be started. -/
def unstarted (s : Situation α) : List Nat :=
  s.workers.filterMap Worker.held? ++ s.queue

def running (s : Situation α) : List Nat :=
  s.workers.filterMap Worker.running?

/-- The outcomes that are not handed over yet. -/
def undelivered (s : Situation α) : List (Nat × Except String α) :=
  s.workers.filterMap Worker.outcome?

/-- The number of workers that have not left. -/
def live (s : Situation α) : Nat :=
  s.workers.countP fun w => !w.isGone

/-- The call has put its request into the queue, or has given that up. -/
def Sent (s : Situation α) (i : Nat) : Prop :=
  ∃ c, s.callers[i]? = some c ∧ c.phase ≠ .sending

theorem getElem?_modifyCaller {s : Situation α} {i j : Nat} {f : Caller α → Caller α} {c : Caller α}
    (h : s.callers[j]? = some c) : (s.modifyCaller i f).callers[j]? = some (if i = j then f c else c) := by
  simp [modifyCaller, List.getElem?_modify, h]

theorem of_getElem?_modifyCaller {s : Situation α} {i j : Nat} {f : Caller α → Caller α} {c : Caller α}
    (h : (s.modifyCaller i f).callers[j]? = some c) :
    ∃ c', s.callers[j]? = some c' ∧ c = if i = j then f c' else c' := by
  simp only [modifyCaller, List.getElem?_modify, Option.map_eq_map, Option.map_eq_some_iff] at h
  obtain ⟨c', hc', rfl⟩ := h
  exact ⟨c', hc', rfl⟩

end Situation

open Situation

theorem filterMap_set {β γ : Type} {l : List β} {k : Nat} {a : β} (h : l[k]? = some a) (f : β → Option γ) :
    ∃ rest, (l.filterMap f).Perm ((f a).toList ++ rest) ∧
      ∀ b, ((l.set k b).filterMap f).Perm ((f b).toList ++ rest) := by
  obtain ⟨hk, rfl⟩ := List.getElem?_eq_some_iff.mp h
  have hplace : ∀ b, ((l.take k ++ b :: l.drop (k + 1)).filterMap f).Perm
      ((f b).toList ++ (l.take k ++ l.drop (k + 1)).filterMap f) := by
    intro b
    refine (List.perm_middle.filterMap f).trans ?_
    rw [List.filterMap_cons]
    cases f b <;> exact .rfl
  refine ⟨(l.take k ++ l.drop (k + 1)).filterMap f, ?_, ?_⟩
  · have hhere := hplace l[k]
    rwa [List.getElem_cons_drop, List.take_append_drop] at hhere
  · intro b
    rw [List.set_eq_take_append_cons_drop, if_pos hk]
    exact hplace b

/-- A worker may go on as long as the request it held is passed on. -/
theorem pending_perm {s t : Situation α} {w : Nat} {a b : Worker α} (hworker : s.workers[w]? = some a)
    (hset : t.workers = s.workers.set w b)
    (hrest : ∀ rest, (b.held?.toList ++ rest ++ t.queue ++ t.started).Perm
      (a.held?.toList ++ rest ++ s.queue ++ s.started)) :
    (t.unstarted ++ t.started).Perm (s.unstarted ++ s.started) := by
  obtain ⟨rest, hs, ht⟩ := filterMap_set hworker Worker.held?
  have hbefore := (hs.append_right s.queue).append_right s.started
  have hafter := ((hset ▸ ht b).append_right t.queue).append_right t.started
  exact hafter.trans ((hrest rest).trans hbefore.symm)

/-- What always holds of a pool whose workers have handed over the outcomes `handed`. -/
structure Sound (s : Situation α) (handed : List (Nat × Except String α)) : Prop where
  /-- No request is in two places. -/
  once : (s.unstarted ++ s.started).Nodup
  sent : ∀ i ∈ s.unstarted ++ s.started, s.Sent i
  accounted : (s.running ++ s.ended.map Prod.fst).Perm s.started
  delivered : s.ended.Perm (s.undelivered ++ handed)
  got : ∀ i c r, s.callers[i]? = some c → c.Got r → (i, r) ∈ handed
  truthful : ∀ c ∈ s.callers, c.Truthful s.quit
  present : s.quit = false → ∀ w ∈ s.workers, w.isGone = false
  signalled : s.stoppers ≠ [] → s.quit = true
  closed : .returned ∈ s.stoppers → ∀ w ∈ s.workers, w = .gone

theorem sound_initial (α : Type) (n : Int) : Sound (initial α n) [] := by
  have hworkers : ∀ w ∈ (initial α n).workers, w = .idle := fun w hw => List.eq_of_mem_replicate hw
  have hnone : ∀ {β : Type} (f : Worker α → Option β), f .idle = none → (initial α n).workers.filterMap f = [] := by
    intro β f hf
    rw [List.filterMap_eq_nil_iff]
    intro w hw
    rw [hworkers w hw, hf]
  have hunstarted : (initial α n).unstarted = [] := by
    rw [unstarted, hnone _ rfl]
    rfl
  have hrunning : (initial α n).running = [] := hnone _ rfl
  have hundelivered : (initial α n).undelivered = [] := hnone _ rfl
  constructor
  · rw [hunstarted]
    exact List.nodup_nil
  · rw [hunstarted]
    simp [initial]
  · rw [hrunning]
    exact .nil
  · rw [hundelivered]
    exact .nil
  · simp [initial]
  · simp [initial]
  · intro _ w hw
    rw [hworkers w hw]
    rfl
  · simp [initial]
  · simp [initial]

namespace Sound

variable {s t : Situation α} {handed : List (Nat × Except String α)}

/-- A caller may go on as long as it takes back nothing, gets what was handed over and says only what is the case. -/
theorem modifyCaller (h : Sound s handed) {i : Nat} {f : Caller α → Caller α}
    (hsent : ∀ c, s.callers[i]? = some c → c.phase ≠ .sending → (f c).phase ≠ .sending)
    (hgot : ∀ c, s.callers[i]? = some c → ∀ r, (f c).Got r → c.Got r ∨ (i, r) ∈ handed)
    (htruthful : ∀ c, s.callers[i]? = some c → (f c).Truthful s.quit) : Sound (s.modifyCaller i f) handed := by
  refine { h with sent := ?_, got := ?_, truthful := ?_ }
  · intro j hj
    obtain ⟨c, hc, hphase⟩ := h.sent j hj
    refine ⟨_, getElem?_modifyCaller hc, ?_⟩
    split
    next heq =>
      subst heq
      exact hsent c hc hphase
    next => exact hphase
  · intro j c r hc hr
    obtain ⟨c', hc', rfl⟩ := of_getElem?_modifyCaller hc
    split at hr
    next heq =>
      subst heq
      exact (hgot c' hc' r hr).elim (h.got i c' r hc') id
    next => exact h.got j c' r hc' hr
  · intro c hc
    obtain ⟨j, hj⟩ := List.getElem?_of_mem hc
    obtain ⟨c', hc', rfl⟩ := of_getElem?_modifyCaller hj
    split
    next heq =>
      subst heq
      exact htruthful c' hc'
    next => exact h.truthful c' (List.mem_of_getElem? hc')

/-- A worker may go on as long as its request is passed on. -/
theorem work (h : Sound s handed) {handed' : List (Nat × Except String α)} {w : Nat} {a b : Worker α}
    (hworker : s.workers[w]? = some a) (hset : t.workers = s.workers.set w b) (ha : a ≠ .gone)
    (hb : b.isGone = true → s.quit = true) (hcallers : t.callers = s.callers) (hquit : t.quit = s.quit)
    (hstoppers : t.stoppers = s.stoppers) (hhanded : handed ⊆ handed')
    (honce : ∀ rest, (b.held?.toList ++ rest ++ t.queue ++ t.started).Perm
      (a.held?.toList ++ rest ++ s.queue ++ s.started))
    (haccounted : ∀ rest, (a.running?.toList ++ rest ++ s.ended.map Prod.fst).Perm s.started →
      (b.running?.toList ++ rest ++ t.ended.map Prod.fst).Perm t.started)
    (hdelivered : ∀ rest, s.ended.Perm (a.outcome?.toList ++ rest ++ handed) →
      t.ended.Perm (b.outcome?.toList ++ rest ++ handed')) : Sound t handed' := by
  have hpending := pending_perm hworker hset honce
  constructor
  · exact hpending.nodup_iff.mpr h.once
  · intro i hi
    rw [Sent, hcallers]
    exact h.sent i (hpending.mem_iff.mp hi)
  · obtain ⟨rest, hs, ht⟩ := filterMap_set hworker Worker.running?
    exact ((hset ▸ ht b).append_right _).trans (haccounted rest ((hs.symm.append_right _).trans h.accounted))
  · obtain ⟨rest, hs, ht⟩ := filterMap_set hworker Worker.outcome?
    exact (hdelivered rest (h.delivered.trans (hs.append_right _))).trans ((hset ▸ (ht b).symm).append_right _)
  · rw [hcallers]
    exact fun i c r hc hr => hhanded (h.got i c r hc hr)
  · rw [hcallers, hquit]
    exact h.truthful
  · intro hrunning x hx
    rw [hset] at hx
    rw [hquit] at hrunning
    obtain hx | rfl := List.mem_or_eq_of_mem_set hx
    · exact h.present hrunning x hx
    · exact Bool.eq_false_iff.mpr fun hgone => absurd (hb hgone) (by simp [hrunning])
  · rw [hstoppers, hquit]
    exact h.signalled
  · intro hreturned
    rw [hstoppers] at hreturned
    exact (ha (h.closed hreturned a (List.mem_of_getElem? hworker))).elim

/-! ## Steps of callers -/

theorem call (h : Sound s handed) (contextDone : Bool) :
    Sound { s with callers := s.callers ++ [{ contextDone := contextDone }] } handed := by
  refine { h with sent := ?_, got := ?_, truthful := ?_ }
  · intro i hi
    obtain ⟨c, hc, hphase⟩ := h.sent i hi
    refine ⟨c, ?_, hphase⟩
    rw [List.getElem?_append_left (List.getElem?_eq_some_iff.mp hc).1]
    exact hc
  · intro i c r hc hr
    rw [List.getElem?_append] at hc
    split at hc
    next => exact h.got i c r hc hr
    next =>
      obtain rfl := List.mem_singleton.mp (List.mem_of_getElem? hc)
      obtain hr | hr := hr <;> cases hr
  · intro c hc
    obtain hc | hc := List.mem_append.mp hc
    · exact h.truthful c hc
    · obtain rfl := List.mem_singleton.mp hc
      constructor <;> rintro ⟨⟩

theorem cancel (h : Sound s handed) (i : Nat) :
    Sound (s.modifyCaller i fun c => { c with contextDone := true }) handed := by
  refine h.modifyCaller (fun c _ hphase => hphase) (fun c _ r hr => .inl hr) ?_
  intro c hc
  exact ⟨(h.truthful c (List.mem_of_getElem? hc)).1, fun _ => rfl⟩

theorem setPhase (h : Sound s handed) {i : Nat} {phase : Phase α} (hsending : phase ≠ .sending)
    (houtcome : ∀ r, phase ≠ .returned (.outcome r))
    (htruthful : ∀ c, s.callers[i]? = some c → Caller.Truthful s.quit { c with phase := phase }) :
    Sound (s.setPhase i phase) handed := by
  refine h.modifyCaller (fun c _ _ => hsending) ?_ htruthful
  rintro c - r (hr | hr)
  · exact .inl (.inl hr)
  · exact (houtcome r hr).elim

theorem giveUp (h : Sound s handed) {i : Nat} {c : Caller α} (hc : s.callers[i]? = some c)
    (hdone : c.contextDone = true) : Sound (s.setPhase i (.returned .cancelled)) handed := by
  refine h.setPhase (by simp) (by simp) ?_
  intro c' hc'
  cases hc.symm.trans hc'
  exact ⟨by simp, fun _ => hdone⟩

theorem refuse (h : Sound s handed) (i : Nat) (hquit : s.quit = true) :
    Sound (s.setPhase i (.returned .stopped)) handed :=
  h.setPhase (by simp) (by simp) fun c _ => ⟨fun _ => hquit, by simp⟩

theorem receive (h : Sound s handed) {i : Nat} {c : Caller α} {r : Except String α} (hc : s.callers[i]? = some c)
    (hanswer : c.answer = some r) :
    Sound (s.modifyCaller i fun c => { c with phase := .returned (.outcome r), answer := none }) handed := by
  refine h.modifyCaller (fun c _ _ => by simp) ?_ fun c _ => ⟨by simp, by simp⟩
  rintro c' hc' r' (hr | hr)
  · cases hr
  · cases hr
    cases hc.symm.trans hc'
    exact .inl (.inl hanswer)

theorem send (h : Sound s handed) {i : Nat} {c : Caller α} (hc : s.callers[i]? = some c)
    (hsending : c.phase = .sending) : Sound { s.setPhase i .waiting with queue := s.queue ++ [i] } handed := by
  have hwaiting : Sound (s.setPhase i .waiting) handed := h.setPhase (by simp) (by simp) fun c _ => ⟨by simp, by simp⟩
  have hsent : (s.setPhase i .waiting).Sent i := ⟨_, getElem?_modifyCaller hc, by simp⟩
  -- A request that was not sent before is nowhere yet.
  have hnew : i ∉ s.unstarted ++ s.started := by
    intro hmem
    obtain ⟨c', hc', hphase⟩ := h.sent i hmem
    cases hc.symm.trans hc'
    exact hphase hsending
  have hperm : (s.workers.filterMap Worker.held? ++ (s.queue ++ [i]) ++ s.started).Perm
      (i :: (s.unstarted ++ s.started)) := by
    rw [← List.append_assoc, List.append_assoc, List.singleton_append]
    exact List.perm_middle
  refine { hwaiting with once := ?_, sent := ?_ }
  · exact hperm.nodup_iff.mpr (List.nodup_cons.mpr ⟨hnew, h.once⟩)
  · intro j hj
    obtain rfl | hj := List.mem_cons.mp (hperm.mem_iff.mp hj)
    · exact hsent
    · exact hwaiting.sent j hj

/-! ## Steps of workers and stoppers -/

theorem take (h : Sound s handed) {w i : Nat} {rest : List Nat} (hidle : s.workers[w]? = some .idle)
    (hqueue : s.queue = i :: rest) : Sound { s.setWorker w (.holding i) with queue := rest } handed := by
  refine h.work hidle rfl (by simp) (by simp [Worker.isGone]) rfl rfl rfl (List.Subset.refl _) ?_ (fun _ => id)
    fun _ => id
  intro held
  rw [hqueue]
  exact List.perm_middle.symm.append_right _

theorem start (h : Sound s handed) {w i : Nat} (hholding : s.workers[w]? = some (.holding i)) :
    Sound { s.setWorker w (.running i) with started := i :: s.started } handed :=
  h.work hholding rfl (by simp) (by simp [Worker.isGone]) rfl rfl rfl (List.Subset.refl _)
    (fun _ => List.perm_middle) (fun _ hperm => hperm.cons i) fun _ => id

theorem finish (h : Sound s handed) {w i : Nat} (r : Except String α) (hrunning : s.workers[w]? = some (.running i)) :
    Sound { s.setWorker w (.delivering i r) with ended := (i, r) :: s.ended } handed :=
  h.work hrunning rfl (by simp) (by simp [Worker.isGone]) rfl rfl rfl (List.Subset.refl _) (fun _ => .rfl)
    (fun _ => List.perm_middle.trans) fun _ hperm => hperm.cons (i, r)

theorem hand (h : Sound s handed) {w i : Nat} {r : Except String α}
    (hdelivering : s.workers[w]? = some (.delivering i r)) :
    Sound ((s.setWorker w .idle).modifyCaller i fun c => { c with answer := some r }) ((i, r) :: handed) := by
  have hidle : Sound (s.setWorker w .idle) ((i, r) :: handed) :=
    h.work hdelivering rfl (by simp) (by simp [Worker.isGone]) rfl rfl rfl (List.subset_cons_self _ _) (fun _ => .rfl)
      (fun _ => id) fun _ hperm => hperm.trans List.perm_middle.symm
  refine hidle.modifyCaller (fun c _ hphase => hphase) ?_ fun c hc => hidle.truthful c (List.mem_of_getElem? hc)
  rintro c - r' (hr | hr)
  · cases hr
    exact .inr (.head _)
  · exact .inl (.inr hr)

theorem leave (h : Sound s handed) {w : Nat} (hidle : s.workers[w]? = some .idle) (hquit : s.quit = true) :
    Sound (s.setWorker w .gone) handed :=
  h.work hidle rfl (by simp) (fun _ => hquit) rfl rfl rfl (List.Subset.refl _) (fun _ => .rfl) (fun _ => id) fun _ => id

theorem stop (h : Sound s handed) : Sound { s with quit := true, stoppers := s.stoppers ++ [.waiting] } handed := by
  refine { h with truthful := ?_, present := by simp, signalled := fun _ => rfl, closed := ?_ }
  · intro c hc
    exact ⟨fun _ => rfl, (h.truthful c hc).2⟩
  · intro hreturned
    exact h.closed (by simpa using hreturned)

theorem stopped (h : Sound s handed) {k : Nat} (hwaiting : s.stoppers[k]? = some .waiting)
    (hgone : ∀ w ∈ s.workers, w = .gone) : Sound { s with stoppers := s.stoppers.set k .returned } handed :=
  { h with
    signalled := fun _ => h.signalled (List.ne_nil_of_mem (List.mem_of_getElem? hwaiting))
    closed := fun _ => hgone }

theorem step (h : Sound s handed) (hstep : Step s t) : ∃ handed', Sound t handed' := by
  cases hstep with
  | call contextDone => exact ⟨_, h.call contextDone⟩
  | cancel i => exact ⟨_, h.cancel i⟩
  | send i c hc hsending _ => exact ⟨_, h.send hc hsending⟩
  | giveUp i c hc _ hdone => exact ⟨_, h.giveUp hc hdone⟩
  | refuse i c _ _ hquit => exact ⟨_, h.refuse i hquit⟩
  | take w i rest hidle hqueue => exact ⟨_, h.take hidle hqueue⟩
  | start w i hholding => exact ⟨_, h.start hholding⟩
  | finish w i r hrunning => exact ⟨_, h.finish r hrunning⟩
  | hand w i r c hdelivering _ _ => exact ⟨_, h.hand hdelivering⟩
  | leave w hidle hquit => exact ⟨_, h.leave hidle hquit⟩
  | receive i c r hc _ hanswer => exact ⟨_, h.receive hc hanswer⟩
  | abandon i c _ _ hquit => exact ⟨_, h.refuse i hquit⟩
  | stop => exact ⟨_, h.stop⟩
  | stopped k hwaiting hgone => exact ⟨_, h.stopped hwaiting hgone⟩

theorem reaches (h : Sound s handed) (hreaches : Reaches s t) : ∃ handed', Sound t handed' := by
  induction hreaches with
  | refl => exact ⟨handed, h⟩
  | tail _ hstep ih =>
    obtain ⟨handed', h'⟩ := ih
    exact h'.step hstep

end Sound

end StackMachine.WorkerPool
