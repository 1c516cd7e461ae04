import StackMachine.Stats

/-!
# The most frequent opcodes

Tallies are selected from the front: in each round the largest of those that are left changes places with the first of
them. So after any number of rounds the selected tallies and the others are together those of the start, the selected
ones are in order, and none of the others is larger than one of them.
-/

set_option autoImplicit false

namespace StackMachine

namespace Opcode

theorem mem_all (op : Opcode) : op ∈ all := by
  cases op <;> decide

theorem nodup_all : all.Nodup := by
  decide

end Opcode

namespace Stats

/-! ## One round -/

section Round

variable {t m : Opcode × Nat} {ts : List (Opcode × Nat)}

theorem largest_cons (t u : Opcode × Nat) (ts : List (Opcode × Nat)) :
    largest t (u :: ts) = largest (if t.2 < u.2 then u else t) ts :=
  rfl

theorem largest_mem (t : Opcode × Nat) (ts : List (Opcode × Nat)) : largest t ts ∈ t :: ts := by
  induction ts generalizing t with
  | nil => exact List.mem_singleton_self t
  | cons u ts ih =>
    rw [largest_cons]
    split
    next => exact List.mem_cons_of_mem t (ih u)
    next =>
      obtain hfirst | hrest := List.mem_cons.mp (ih t)
      · rw [hfirst]
        exact List.mem_cons_self
      · exact List.mem_cons_of_mem t (List.mem_cons_of_mem u hrest)

theorem le_largest (t : Opcode × Nat) (ts : List (Opcode × Nat)) : ∀ u ∈ t :: ts, u.2 ≤ (largest t ts).2 := by
  induction ts generalizing t with
  | nil => exact List.forall_mem_singleton.mpr (Nat.le_refl t.2)
  | cons u ts ih =>
    rw [largest_cons]
    split
    next hlt =>
      obtain ⟨hu, hts⟩ := List.forall_mem_cons.mp (ih u)
      exact List.forall_mem_cons.mpr ⟨Nat.le_trans (Nat.le_of_lt hlt) hu, List.forall_mem_cons.mpr ⟨hu, hts⟩⟩
    next hle =>
      obtain ⟨ht, hts⟩ := List.forall_mem_cons.mp (ih t)
      exact List.forall_mem_cons.mpr ⟨ht, List.forall_mem_cons.mpr ⟨Nat.le_trans (Nat.le_of_not_lt hle) ht, hts⟩⟩

theorem map_exchange_of_not_mem (h : m ∉ ts) (t : Opcode × Nat) : (ts.map fun u => if u = m then t else u) = ts := by
  conv => rhs; rw [← List.map_id ts]
  apply List.map_congr_left
  intro u hu
  have hne : u ≠ m := fun heq => h (heq ▸ hu)
  rw [if_neg hne, id]

/-- A member of the list changes places with the first. -/
theorem exchange_perm (hnodup : (t :: ts).Nodup) (hm : m ∈ t :: ts) :
    (m :: ts.map fun u => if u = m then t else u).Perm (t :: ts) := by
  obtain ⟨ht, hts⟩ := List.nodup_cons.mp hnodup
  obtain rfl | hm := List.mem_cons.mp hm
  · rw [map_exchange_of_not_mem ht]
  · obtain ⟨xs, ys, rfl⟩ := List.append_of_mem hm
    have hother : m ∉ xs ++ ys := (List.nodup_cons.mp (List.perm_middle.nodup hts)).1
    obtain ⟨hxs, hys⟩ := not_or.mp (mt List.mem_append.mpr hother)
    rw [List.map_append, List.map_cons, map_exchange_of_not_mem hxs, map_exchange_of_not_mem hys, if_pos rfl]
    calc
      (m :: (xs ++ t :: ys)).Perm (m :: t :: (xs ++ ys)) := List.perm_middle.cons m
      _ |>.Perm (t :: m :: (xs ++ ys)) := .swap t m _
      _ |>.Perm (t :: (xs ++ m :: ys)) := List.perm_middle.symm.cons t

end Round

/-! ## All rounds -/

/-- What `n` rounds make of `ts`: the tallies selected, and those that are left. -/
structure Selects (n : Nat) (ts chosen rest : List (Opcode × Nat)) : Prop where
  perm : (chosen ++ rest).Perm ts
  length : chosen.length = min n ts.length
  ordered : chosen.Pairwise fun t u => u.2 ≤ t.2
  dominates : ∀ t ∈ chosen, ∀ u ∈ rest, u.2 ≤ t.2

/-- One round more. -/
theorem Selects.cons {n : Nat} {t m : Opcode × Nat} {ts us chosen rest : List (Opcode × Nat)}
    (h : Selects n us chosen rest) (hperm : (m :: us).Perm (t :: ts)) (hm : ∀ u ∈ t :: ts, u.2 ≤ m.2) :
    Selects (n + 1) (t :: ts) (m :: chosen) rest := by
  have hle : ∀ u ∈ chosen ++ rest, u.2 ≤ m.2 := fun u hu =>
    hm u (hperm.mem_iff.mp (List.mem_cons_of_mem m (h.perm.mem_iff.mp hu)))
  obtain ⟨hchosen, hrest⟩ := List.forall_mem_append.mp hle
  have hlength := hperm.length_eq
  refine ⟨(h.perm.cons m).trans hperm, ?_, List.pairwise_cons.mpr ⟨hchosen, h.ordered⟩,
    List.forall_mem_cons.mpr ⟨hrest, h.dominates⟩⟩
  have hmore := h.length
  rw [List.length_cons] at hlength ⊢
  omega

theorem exists_selects (n : Nat) {ts : List (Opcode × Nat)} (hts : ts.Nodup) :
    ∃ rest, Selects n ts (select n ts) rest := by
  induction n generalizing ts with
  | zero => exact ⟨ts, .refl ts, (Nat.zero_min _).symm, .nil, by simp [select]⟩
  | succ n ih =>
    cases ts with
    | nil => exact ⟨[], .nil, rfl, .nil, by simp [select]⟩
    | cons t ts =>
      have hperm := exchange_perm hts (largest_mem t ts)
      obtain ⟨rest, hrest⟩ := ih (List.nodup_cons.mp (hperm.symm.nodup hts)).2
      exact ⟨rest, hrest.cons hperm (le_largest t ts)⟩

/-! ## Tallies -/

theorem mem_tallies_iff {s : Stats} {t : Opcode × Nat} : t ∈ s.tallies ↔ t.2 = s.count t.1 ∧ 0 < t.2 := by
  rw [tallies, List.mem_filter, List.mem_map, decide_eq_true_iff]
  constructor
  · rintro ⟨⟨op, -, rfl⟩, hpos⟩
    exact ⟨rfl, hpos⟩
  · rintro ⟨hcount, hpos⟩
    exact ⟨⟨t.1, Opcode.mem_all t.1, by rw [← hcount]⟩, hpos⟩

theorem map_fst_tallies (s : Stats) : s.tallies.map Prod.fst = Opcode.all.filter fun op => 0 < s.count op := by
  rw [tallies, List.filter_map, List.map_map]
  exact List.map_id _

theorem length_tallies (s : Stats) : s.tallies.length = Opcode.all.countP fun op => 0 < s.count op := by
  rw [← List.length_map Prod.fst, map_fst_tallies, List.countP_eq_length_filter]

theorem nodup_map_fst_tallies (s : Stats) : (s.tallies.map Prod.fst).Nodup := by
  rw [map_fst_tallies]
  exact Opcode.nodup_all.filter _

theorem nodup_tallies (s : Stats) : s.tallies.Nodup :=
  List.Pairwise.of_map Prod.fst (fun _ _ hne heq => hne (congrArg Prod.fst heq)) s.nodup_map_fst_tallies

/-- The list of the most frequent opcodes has as many entries as are asked for and as there are opcodes that ran. The
opcodes are distinct, stand with their counts and in the order of these, and no other opcode ran more often than one of
them. -/
theorem top_most_frequent (s : Stats) (n : Int) :
    (s.top n).length = min n.toNat (Opcode.all.countP fun op => 0 < s.count op) ∧
    ((s.top n).map Prod.fst).Nodup ∧
    (∀ t ∈ s.top n, t.2 = s.count t.1 ∧ 0 < t.2) ∧
    (s.top n).Pairwise (fun t u => u.2 ≤ t.2) ∧
    ∀ op, op ∉ (s.top n).map Prod.fst → ∀ t ∈ s.top n, s.count op ≤ t.2 := by
  obtain ⟨rest, h⟩ := exists_selects n.toNat s.nodup_tallies
  rw [← top] at h
  refine ⟨?_, ?_, ?_, h.ordered, ?_⟩
  · rw [h.length, length_tallies]
  · have hboth := (h.perm.map Prod.fst).symm.nodup s.nodup_map_fst_tallies
    rw [List.map_append] at hboth
    exact (List.nodup_append.mp hboth).1
  · intro t ht
    exact mem_tallies_iff.mp (h.perm.mem_iff.mp (List.mem_append_left rest ht))
  · intro op hop t ht
    by_cases hpos : 0 < s.count op
    · -- An opcode that ran has a tally, which was not selected.
      have htally := h.perm.mem_iff.mpr (mem_tallies_iff.mpr ⟨rfl, hpos⟩ : (op, s.count op) ∈ s.tallies)
      obtain hchosen | hrest := List.mem_append.mp htally
      · exact (hop (List.mem_map_of_mem hchosen)).elim
      · exact h.dominates t ht _ hrest
    · omega

/-- Among equal counts the order is that of the exchanges. -/
example : ({ opcodeCounters := (Vector.replicate 18 0).set 0 1 |>.set 1 1 |>.set 2 2 } : Stats).top 3 =
    [(.imul, 2), (.isub, 1), (.iadd, 1)] := by
  decide +kernel

end Stats
end StackMachine
