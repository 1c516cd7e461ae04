import StackMachine.Proofs.RunStore.Session
import StackMachine.Proofs.Text.ByteOrder

/-!
# Runs are listed as they were recorded

The rows of a store are the records that it has taken, in that order and with ids of their own. A listing sorts those
of one image by start time and id, which leaves nothing to the order of recording.
-/

set_option autoImplicit false

namespace StackMachine

/-- One run was started before another, or at the same time and its id comes first byte by byte. -/
def RunRecord.Before (a b : RunRecord) : Prop :=
  a.startedAt < b.startedAt ∨ a.startedAt = b.startedAt ∧ Bytes.ofText a.id < Bytes.ofText b.id

instance (a b : RunRecord) : Decidable (a.Before b) :=
  inferInstanceAs (Decidable (_ ∨ _))

theorem RunRecord.Before.asymm {a b : RunRecord} (hab : a.Before b) (hba : b.Before a) : False := by
  obtain hab | ⟨heq, hab⟩ := hab
  · obtain hba | ⟨heq, -⟩ := hba
    · exact Int64.lt_asymm hab hba
    · exact Int64.lt_irrefl (heq ▸ hab)
  · obtain hba | ⟨-, hba⟩ := hba
    · exact Int64.lt_irrefl (heq ▸ hba)
    · exact List.lt_asymm hab hba

/-- A row keeps every field, cycles of sixty-four bits included. -/
theorem RunRecord.record_row (r : RunRecord) : r.row.record = r := by
  simp [RunRecord.row, RunRow.record]

namespace RunRow

theorem precedes_iff {a b : RunRow} :
    a.precedes b = true ↔ a.startedAt < b.startedAt ∨ a.startedAt = b.startedAt ∧ a.id ≤ b.id := by
  simp [precedes]

theorem precedes_trans (a b c : RunRow) (hab : a.precedes b = true) (hbc : b.precedes c = true) :
    a.precedes c = true := by
  rw [precedes_iff] at *
  obtain hab | ⟨hab, hab'⟩ := hab
  · obtain hbc | ⟨hbc, -⟩ := hbc
    · exact .inl (Int64.lt_trans hab hbc)
    · exact .inl (hbc ▸ hab)
  · rw [hab]
    exact hbc.imp_right fun ⟨hbc, hbc'⟩ => ⟨hbc, String.le_trans hab' hbc'⟩

theorem precedes_total (a b : RunRow) : (a.precedes b || b.precedes a) = true := by
  rw [Bool.or_eq_true, precedes_iff, precedes_iff]
  by_cases heq : a.startedAt = b.startedAt
  · exact (String.le_total a.id b.id).imp (fun h => .inr ⟨heq, h⟩) fun h => .inr ⟨heq.symm, h⟩
  · obtain hlt | hlt := Int64.lt_or_lt_of_ne heq
    · exact .inl (.inl hlt)
    · exact .inr (.inl hlt)

/-- Of two rows with different ids, the one that is listed first belongs to the earlier run. -/
theorem before_of_precedes {a b : RunRecord} (h : a.row.precedes b.row = true) (hid : a.id ≠ b.id) : a.Before b := by
  refine (precedes_iff.mp h).imp_right fun ⟨hstart, hle⟩ => ⟨hstart, Bytes.ofText_lt_iff.mpr ?_⟩
  refine Decidable.not_not.mp fun hnot => hid ?_
  exact String.le_antisymm hle (String.not_lt.mp hnot)

end RunRow

namespace RunStore

variable {s : RunStore}

/-- The rows of an open store are the records taken, whose ids all differ. -/
structure Logged (log : List (Request × Reply)) (s : RunStore) : Prop where
  opened : s.closed = false
  rows : s.rows = (recorded log).map RunRecord.row
  nodup : ((recorded log).map RunRecord.id).Nodup

theorem logged_new : Logged [] {} :=
  ⟨rfl, rfl, List.nodup_nil⟩

namespace Logged

variable {log : List (Request × Reply)}

theorem rows_any_iff (h : Logged log s) (id : String) :
    s.rows.any (fun row => row.id = id) = true ↔ id ∈ (recorded log).map RunRecord.id := by
  rw [h.rows, List.any_map, List.any_eq_true, List.mem_map]
  exact exists_congr fun r => and_congr_right fun _ => decide_eq_true_iff

theorem record_new (h : Logged log s) {r : RunRecord} (hid : r.id ∉ (recorded log).map RunRecord.id) :
    s.record r = .ok { s with rows := s.rows ++ [r.row] } := by
  rw [record, h.opened, Bool.false_or, if_neg]
  rwa [h.rows_any_iff]

theorem record_used (h : Logged log s) {r : RunRecord} (hid : r.id ∈ (recorded log).map RunRecord.id) :
    s.record r = .error (.notRecorded r.id) := by
  rw [record, h.opened, Bool.false_or, if_pos]
  rwa [h.rows_any_iff]

theorem answer_new (h : Logged log s) {r : RunRecord} {new : String}
    (hid : (identified r new).id ∉ (recorded log).map RunRecord.id) :
    s.answer (.record r new) =
      (.recorded (identified r new) none, { s with rows := s.rows ++ [(identified r new).row] }) := by
  rw [answer, h.record_new hid]

theorem answer_used (h : Logged log s) {r : RunRecord} {new : String}
    (hid : (identified r new).id ∈ (recorded log).map RunRecord.id) :
    s.answer (.record r new) =
      (.recorded (identified r new) (some (.notRecorded (identified r new).id)), s) := by
  rw [answer, h.record_used hid]

theorem unrecorded (h : Logged log s) {e : Request × Reply} (he : e.2.recorded? = none) {t : RunStore}
    (hclosed : t.closed = s.closed) (hrows : t.rows = s.rows) : Logged (log ++ [e]) t := by
  have hsame : recorded (log ++ [e]) = recorded log := by simp [recorded, he]
  exact ⟨hclosed.trans h.opened, hsame ▸ hrows.trans h.rows, hsame ▸ h.nodup⟩

theorem step (log : List (Request × Reply)) (s : RunStore) (q : Request) (h : Logged log s) :
    Logged (log ++ [(q, (s.answer q).1)]) (s.answer q).2 := by
  cases q with
  | put img =>
    rw [answer_put h.opened]
    exact h.unrecorded rfl (adding_closed s img) (adding_rows s img)
  | get hash => exact h.unrecorded rfl rfl rfl
  | record r new =>
    by_cases hid : (identified r new).id ∈ (recorded log).map RunRecord.id
    · rw [h.answer_used hid]
      exact h.unrecorded rfl rfl rfl
    · rw [h.answer_new hid]
      have hmore : ∀ q, recorded (log ++ [(q, .recorded (identified r new) none)]) =
          recorded log ++ [identified r new] := fun _ => recorded_append _ _
      refine ⟨h.opened, ?_, ?_⟩
      · rw [hmore, List.map_append, ← h.rows]
        rfl
      · rw [hmore, List.map_append, List.nodup_append]
        refine ⟨h.nodup, by simp, ?_⟩
        rintro id hmem _ hnew rfl
        cases List.mem_singleton.mp hnew
        exact hid hmem
  | runs hash => exact h.unrecorded rfl rfl rfl

/-- The records of one image, each once and in the order of a listing. -/
theorem runs_eq (h : Logged log s) (hash : String) :
    ∃ listed, s.runs hash = .ok listed ∧
      listed.Perm ((recorded log).filter fun r => r.imageHash = hash) ∧ listed.Pairwise RunRecord.Before := by
  let kept := (recorded log).filter fun r => r.imageHash = hash
  let sorted := (kept.map RunRecord.row).mergeSort RunRow.precedes
  have hperm : sorted.Perm (kept.map RunRecord.row) := List.mergeSort_perm _ _
  have hruns : s.runs hash = .ok (sorted.map RunRow.record) := by
    rw [runs, h.opened, h.rows, List.filter_map]
    rfl
  have hids : (sorted.map RunRow.id).Nodup := by
    have hkept : (kept.map RunRecord.id).Nodup := h.nodup.sublist (List.filter_sublist.map _)
    refine (hperm.map RunRow.id).nodup_iff.mpr ?_
    rw [List.map_map]
    exact hkept
  have hrow : ∀ a ∈ sorted, ∃ r : RunRecord, a = r.row := by
    intro a ha
    obtain ⟨r, -, rfl⟩ := List.mem_map.mp (hperm.mem_iff.mp ha)
    exact ⟨r, rfl⟩
  refine ⟨_, hruns, ?_, ?_⟩
  · have hback : (kept.map RunRecord.row).map RunRow.record = kept := by
      rw [List.map_map]
      exact List.map_id'' RunRecord.record_row kept
    have hrecords := hperm.map RunRow.record
    rwa [hback] at hrecords
  · have hsorted : sorted.Pairwise fun a b => a.precedes b = true :=
      List.pairwise_mergeSort RunRow.precedes_trans RunRow.precedes_total _
    rw [List.pairwise_map]
    refine (hsorted.and (List.pairwise_map.mp hids)).imp_of_mem ?_
    intro a b ha hb ⟨hprecedes, hne⟩
    obtain ⟨r, rfl⟩ := hrow a ha
    obtain ⟨r', rfl⟩ := hrow b hb
    rw [RunRecord.record_row, RunRecord.record_row]
    exact RunRow.before_of_precedes hprecedes hne

theorem after (h : Logged log s) (qs : List Request) : Logged (log ++ exchanges s qs) (s.after qs) :=
  Session.invariant step h qs

/-- Records with different ids, none of them in use, are all taken. -/
theorem recorded_exchanges (h : Logged log s) (qs : List Request)
    (hids : ((recorded log ++ submitted qs).map RunRecord.id).Nodup) :
    recorded (exchanges s qs) = submitted qs := by
  induction qs generalizing log s with
  | nil => rfl
  | cons q qs ih =>
    -- Nothing but a record counts, and that is taken since its id is not in use.
    have hfirst : (s.answer q).1.recorded? = q.submitted? := by
      cases q with
      | put img =>
        rw [answer_put h.opened]
        rfl
      | get hash => rfl
      | runs hash => rfl
      | record r new =>
        have hnew : (identified r new).id ∉ (recorded log).map RunRecord.id := by
          rw [List.map_append, List.nodup_append] at hids
          exact fun hmem => hids.2.2 _ hmem _ (by simp [submitted, Request.submitted?]) rfl
        rw [h.answer_new hnew]
        rfl
    have hmore : recorded (log ++ [(q, (s.answer q).1)]) ++ submitted qs = recorded log ++ submitted (q :: qs) := by
      rw [recorded_append, submitted_cons, List.append_assoc, recorded_cons, hfirst]
      simp [recorded]
    have hrest := ih (step log s q h) (hmore ▸ hids)
    rw [exchanges_cons, recorded_cons, submitted_cons, hrest, hfirst]

theorem runs_eq_of_perm {s' : RunStore} {log' : List (Request × Reply)} (h : Logged log s) (h' : Logged log' s')
    (hperm : (recorded log).Perm (recorded log')) (hash : String) : s.runs hash = s'.runs hash := by
  obtain ⟨listed, hruns, hlisted, hsorted⟩ := h.runs_eq hash
  obtain ⟨listed', hruns', hlisted', hsorted'⟩ := h'.runs_eq hash
  have hsame : listed = listed' := by
    refine List.Perm.eq_of_pairwise ?_ hsorted hsorted' ((hlisted.trans (hperm.filter _)).trans hlisted'.symm)
    intro a b _ _ hab hba
    exact (hab.asymm hba).elim
  rw [hruns, hruns', hsame]

end Logged

theorem logged_after (history : List Request) : Logged (exchanges {} history) (after {} history) := by
  simpa using logged_new.after history

/-- Whatever was asked of a new store, it lists of an image exactly the records that it has taken, each once, as they
were and in their order. A record with a new id is taken. One whose id is in use is refused and leaves the store as it
was. If no id comes twice, all records are taken, and the order in which they came does not matter. -/
theorem recorded_runs_listed (history : List Request) :
    let s := after {} history
    let log := recorded (exchanges {} history)
    (∀ hash, ∃ listed, s.runs hash = .ok listed ∧
      listed.Perm (log.filter fun r => r.imageHash = hash) ∧ listed.Pairwise RunRecord.Before) ∧
    (∀ r new, (identified r new).id ∉ log.map RunRecord.id →
      (s.answer (.record r new)).1 = .recorded (identified r new) none) ∧
    (∀ r new, (identified r new).id ∈ log.map RunRecord.id →
      s.answer (.record r new) = (.recorded (identified r new) (some (.notRecorded (identified r new).id)), s)) ∧
    (((submitted history).map RunRecord.id).Nodup →
      log = submitted history ∧
        ∀ other, (submitted other).Perm (submitted history) → ∀ hash, (after {} other).runs hash = s.runs hash) := by
  intro s log
  have hlogged : Logged (exchanges {} history) s := logged_after history
  refine ⟨hlogged.runs_eq, ?_, fun r new => hlogged.answer_used, ?_⟩
  · intro r new hid
    rw [hlogged.answer_new hid]
  · intro hids
    have hall : ∀ qs, ((submitted qs).map RunRecord.id).Nodup → recorded (exchanges {} qs) = submitted qs :=
      fun qs hqs => logged_new.recorded_exchanges qs (by simpa [recorded] using hqs)
    refine ⟨hall history hids, ?_⟩
    intro other hperm hash
    refine (logged_after other).runs_eq_of_perm hlogged ?_ hash
    rw [hall history hids, hall other ((hperm.map RunRecord.id).nodup_iff.mpr hids)]
    exact hperm

def shortRun (id : String) (cycles : UInt64) (startedAt : Word) : RunRecord where
  id := id
  imageHash := "h"
  halted := true
  fault := ""
  cycles := cycles
  output := ""
  startedAt := startedAt
  duration := 1

/-- Two runs of one moment, the second without an id of its own, and an earlier one whose counter has every bit set. -/
def threeRuns : List Request :=
  [.record (shortRun "b" 3 5) "x", .record (shortRun "" 3 5) "a", .record (shortRun "c" (-1) (-5)) "y"]

theorem threeRuns_listed :
    (after {} threeRuns).runs "h" = .ok [shortRun "c" (-1) (-5), shortRun "a" 3 5, shortRun "b" 3 5] ∧
    (after {} threeRuns.reverse).runs "h" = (after {} threeRuns).runs "h" ∧
    (after {} threeRuns).answer (.record (shortRun "a" 4 6) "z") =
      (.recorded (shortRun "a" 4 6) (some (.notRecorded "a")), after {} threeRuns) := by
  have hids : ((submitted threeRuns).map RunRecord.id).Nodup := by
    simp [threeRuns, submitted, Request.submitted?, identified, shortRun]
  obtain ⟨hruns, hnew, hused, horder⟩ := recorded_runs_listed threeRuns
  obtain ⟨hlog, hother⟩ := horder hids
  obtain ⟨listed, hlisted, hperm, hsorted⟩ := hruns "h"
  have hkept : (submitted threeRuns).filter (fun r => r.imageHash = "h") =
      [shortRun "b" 3 5, shortRun "a" 3 5, shortRun "c" (-1) (-5)] := by
    simp [threeRuns, submitted, Request.submitted?, identified, shortRun]
  refine ⟨?_, hother _ ?_ _, ?_⟩
  · rw [hlog, hkept] at hperm
    have hsame : listed = [shortRun "c" (-1) (-5), shortRun "a" 3 5, shortRun "b" 3 5] := by
      refine List.Perm.eq_of_pairwise (fun a b _ _ hab hba => (hab.asymm hba).elim) hsorted (by decide) ?_
      exact hperm.trans (by decide)
    rw [hlisted, hsame]
  · rw [submitted, submitted, List.filterMap_reverse]
    exact List.reverse_perm _
  · refine hused (shortRun "a" 4 6) "z" ?_
    rw [hlog]
    simp [threeRuns, submitted, Request.submitted?, identified, shortRun]

end RunStore
end StackMachine
