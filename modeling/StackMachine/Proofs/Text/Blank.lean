import Mathlib.Data.List.TakeWhile
import StackMachine.Text.Blank

/-!
# Taking text apart

Lines that were put together are found again, and so are words between blanks.
-/

set_option autoImplicit false

namespace StackMachine.Text

/-! ## Lines -/

theorem splitAt_append {sep : Char} {l : List Char} (h : sep ∉ l) (rest : List Char) :
    splitAt sep (l ++ sep :: rest) = l :: splitAt sep rest := by
  induction l with
  | nil => simp [splitAt]
  | cons c l ih =>
    have hc : c ≠ sep := fun hc => h (hc ▸ List.mem_cons_self)
    have hl : sep ∉ l := fun hl => h (List.mem_cons_of_mem c hl)
    rw [List.cons_append, splitAt, if_neg hc, ih hl]

theorem splitAt_of_not_mem {sep : Char} {l : List Char} (h : sep ∉ l) : splitAt sep l = [l] := by
  induction l with
  | nil => rfl
  | cons c l ih =>
    have hc : c ≠ sep := fun hc => h (hc ▸ List.mem_cons_self)
    have hl : sep ∉ l := fun hl => h (List.mem_cons_of_mem c hl)
    rw [splitAt, if_neg hc, ih hl]

theorem mem_of_mem_splitAt {sep c : Char} {cs piece : List Char} (hpiece : piece ∈ splitAt sep cs)
    (hc : c ∈ piece) : c ∈ cs := by
  induction cs generalizing piece with
  | nil =>
    cases List.mem_singleton.mp hpiece
    cases hc
  | cons d cs ih =>
    rw [splitAt] at hpiece
    split at hpiece
    next =>
      obtain rfl | hpiece := List.mem_cons.mp hpiece
      · cases hc
      · exact List.mem_cons_of_mem _ (ih hpiece hc)
    next =>
      split at hpiece
      next =>
        cases List.mem_singleton.mp hpiece
        cases List.mem_singleton.mp hc
        exact List.mem_cons_self
      next first rest hsplit =>
        obtain rfl | hpiece := List.mem_cons.mp hpiece
        · obtain rfl | hc := List.mem_cons.mp hc
          · exact List.mem_cons_self
          · exact List.mem_cons_of_mem _ (ih (hsplit ▸ List.mem_cons_self) hc)
        · exact List.mem_cons_of_mem _ (ih (hsplit ▸ List.mem_cons_of_mem _ hpiece) hc)

/-- Lines that are each closed by the separator; what follows the last one is empty. -/
theorem splitAt_flatMap {sep : Char} {lines : List (List Char)} (h : ∀ l ∈ lines, sep ∉ l) :
    splitAt sep (lines.flatMap (· ++ [sep])) = lines ++ [[]] := by
  induction lines with
  | nil => rfl
  | cons l lines ih =>
    have hl := h l List.mem_cons_self
    have hlines : ∀ l ∈ lines, sep ∉ l := fun l hl => h l (List.mem_cons_of_mem _ hl)
    rw [List.flatMap_cons, List.append_assoc, List.singleton_append, splitAt_append hl, ih hlines]
    rfl

/-- Lines with a separator between each two of them. -/
theorem splitAt_intercalate {sep : Char} {lines : List (List Char)} (hne : lines ≠ []) (h : ∀ l ∈ lines, sep ∉ l) :
    splitAt sep ([sep].intercalate lines) = lines := by
  induction lines with
  | nil => exact (hne rfl).elim
  | cons l lines ih =>
    obtain ⟨hl, hlines⟩ := List.forall_mem_cons.mp h
    cases lines with
    | nil => rw [List.intercalate_singleton, splitAt_of_not_mem hl]
    | cons next lines =>
      rw [List.intercalate_cons_cons, List.append_assoc, List.singleton_append, splitAt_append hl,
        ih (List.cons_ne_nil _ _) hlines]

/-! ## Trimming -/

theorem trimLeft_eq_self {cs : List Char} (h : ∀ c ∈ cs.head?, isBlank c = false) : trimLeft cs = cs := by
  cases cs with
  | nil => rfl
  | cons c cs => simp [trimLeft, h c rfl]

theorem trim_eq_self {cs : List Char} (hhead : ∀ c ∈ cs.head?, isBlank c = false)
    (hlast : ∀ c ∈ cs.getLast?, isBlank c = false) : trim cs = cs := by
  rw [trim, trimLeft_eq_self hhead, trimLeft_eq_self (by rwa [List.head?_reverse]), List.reverse_reverse]

theorem mem_of_mem_trim {cs : List Char} {c : Char} (h : c ∈ trim cs) : c ∈ cs := by
  have hleft : (trimLeft cs).Sublist cs := List.dropWhile_sublist _
  have hright : (trimLeft (trimLeft cs).reverse).Sublist (trimLeft cs).reverse := List.dropWhile_sublist _
  exact hleft.subset (List.mem_reverse.mp (hright.subset (List.mem_reverse.mp h)))

theorem trim_eq_nil_iff {cs : List Char} : trim cs = [] ↔ ∀ c ∈ cs, isBlank c = true := by
  simp only [trim, trimLeft, List.reverse_eq_nil_iff, List.dropWhile_eq_nil_iff, List.mem_reverse]
  constructor
  · intro h
    rw [← List.dropWhile_eq_nil_iff]
    cases hdrop : cs.dropWhile isBlank with
    | nil => rfl
    | cons c rest =>
      have hkept : isBlank c = false := by
        have hhead := List.head?_dropWhile_not isBlank cs
        rw [hdrop] at hhead
        simpa using hhead
      have hblank := h c (hdrop ▸ List.mem_cons_self)
      rw [hkept] at hblank
      cases hblank
  · intro h c hc
    exact h c ((List.dropWhile_sublist _).subset hc)

/-- Trimming stops at a character that is not blank. -/
theorem trimLeft_append_cons {c : Char} (hc : isBlank c = false) (xs ys : List Char) :
    trimLeft (xs ++ c :: ys) = trimLeft xs ++ c :: ys := by
  simp only [trimLeft, List.dropWhile_append, List.dropWhile_cons, hc, Bool.false_eq_true, if_false]
  split
  next hempty =>
    rw [List.isEmpty_iff.mp hempty]
    rfl
  next => rfl

theorem trim_append_cons {c : Char} (hc : isBlank c = false) (xs ys : List Char) :
    trim (xs ++ c :: ys) = trimLeft xs ++ c :: (trimLeft ys.reverse).reverse := by
  rw [trim, trimLeft_append_cons hc, List.reverse_append, List.reverse_cons, List.append_assoc, List.singleton_append,
    trimLeft_append_cons hc]
  simp

section Blanks

variable {blanks : List Char} (hblanks : ∀ c ∈ blanks, isBlank c = true)

include hblanks

theorem trimLeft_blanks_append (cs : List Char) : trimLeft (blanks ++ cs) = trimLeft cs :=
  List.dropWhile_append_of_pos hblanks

theorem trim_blanks_append (cs : List Char) : trim (blanks ++ cs) = trim cs := by
  rw [trim, trimLeft_blanks_append hblanks, trim]

theorem trim_append_blanks (cs : List Char) : trim (cs ++ blanks) = trim cs := by
  by_cases hcs : ∀ c ∈ cs, isBlank c = true
  · rw [trim_eq_nil_iff.mpr hcs, trim_eq_nil_iff]
    exact List.forall_mem_append.mpr ⟨hcs, hblanks⟩
  · -- Something is left of `cs`, so the blanks are what the second trimming meets first.
    have hleft : trimLeft (cs ++ blanks) = trimLeft cs ++ blanks := by
      rw [trimLeft, List.dropWhile_append, if_neg]
      · rfl
      · rwa [List.isEmpty_iff, List.dropWhile_eq_nil_iff]
    have hreverse : ∀ c ∈ blanks.reverse, isBlank c = true := fun c hc => hblanks c (List.mem_reverse.mp hc)
    rw [trim, hleft, List.reverse_append, trimLeft_blanks_append hreverse, trim]

end Blanks

theorem trim_trimLeft (cs : List Char) : trim (trimLeft cs) = trim cs := by
  have hblanks : ∀ c ∈ cs.takeWhile isBlank, isBlank c = true := fun c hc => List.mem_takeWhile_imp hc
  calc
    trim (trimLeft cs) = trim (cs.takeWhile isBlank ++ trimLeft cs) := (trim_blanks_append hblanks _).symm
    _ = trim cs := by rw [trimLeft, List.takeWhile_append_dropWhile]

/-! ## Fields -/

section Runs

variable {keep : Char → Bool} {run w cs : List Char}

theorem runsFrom_keep (h : ∀ c ∈ w, keep c = true) :
    runsFrom keep run (w ++ cs) = runsFrom keep (w.reverse ++ run) cs := by
  induction w generalizing run with
  | nil => rfl
  | cons c w ih =>
    rw [List.cons_append, runsFrom, if_pos (h c List.mem_cons_self),
      ih fun c hc => h c (List.mem_cons_of_mem _ hc)]
    simp

theorem runsFrom_skip (h : ∀ c ∈ w, keep c = false) : runsFrom keep [] (w ++ cs) = runsFrom keep [] cs := by
  induction w with
  | nil => rfl
  | cons c w ih =>
    rw [List.cons_append, runsFrom, h c List.mem_cons_self, ih fun c hc => h c (List.mem_cons_of_mem _ hc)]
    rfl

/-- Nothing that follows the last run matters. -/
theorem runsFrom_append_skip (h : ∀ c ∈ w, keep c = false) : runsFrom keep run (cs ++ w) = runsFrom keep run cs := by
  induction cs generalizing run with
  | nil =>
    cases w with
    | nil => rfl
    | cons c w =>
      obtain ⟨hc, hw⟩ := List.forall_mem_cons.mp h
      have hnone : runsFrom keep [] w = [] := by
        rw [← List.append_nil w, runsFrom_skip hw]
        rfl
      cases run <;> simp [runsFrom, hc, hnone]
  | cons c cs ih => simp only [List.cons_append, runsFrom, ih]

end Runs

section Blanks

variable {blanks : List Char} (hblanks : ∀ c ∈ blanks, isBlank c = true)

include hblanks

theorem fields_blanks_append (cs : List Char) : fields (blanks ++ cs) = fields cs :=
  runsFrom_skip fun c hc => by rw [hblanks c hc]; rfl

theorem fields_append_blanks (cs : List Char) : fields (cs ++ blanks) = fields cs :=
  runsFrom_append_skip fun c hc => by rw [hblanks c hc]; rfl

end Blanks

theorem fields_trimLeft (cs : List Char) : fields (trimLeft cs) = fields cs := by
  have hblanks : ∀ c ∈ cs.takeWhile isBlank, isBlank c = true := fun c hc => List.mem_takeWhile_imp hc
  calc
    fields (trimLeft cs) = fields (cs.takeWhile isBlank ++ trimLeft cs) := (fields_blanks_append hblanks _).symm
    _ = fields cs := by rw [trimLeft, List.takeWhile_append_dropWhile]

theorem fields_trimRight (cs : List Char) : fields (trimLeft cs.reverse).reverse = fields cs := by
  have hblanks : ∀ c ∈ (cs.reverse.takeWhile isBlank).reverse, isBlank c = true :=
    fun c hc => List.mem_takeWhile_imp (List.mem_reverse.mp hc)
  calc
    fields (trimLeft cs.reverse).reverse =
        fields ((trimLeft cs.reverse).reverse ++ (cs.reverse.takeWhile isBlank).reverse) :=
      (fields_append_blanks hblanks _).symm
    _ = fields cs := by
      rw [← List.reverse_append, trimLeft, List.takeWhile_append_dropWhile, List.reverse_reverse]

theorem fields_trim (cs : List Char) : fields (trim cs) = fields cs := by
  rw [trim, fields_trimRight, fields_trimLeft]

/-- A word after blanks, followed by a blank or by nothing. -/
theorem fields_word {blanks w rest : List Char} (hblanks : ∀ c ∈ blanks, isBlank c = true)
    (hw : ∀ c ∈ w, isBlank c = false) (hne : w ≠ []) (hrest : ∀ c ∈ rest.head?, isBlank c = true) :
    fields (blanks ++ (w ++ rest)) = w :: fields rest := by
  have hkeep : ∀ c ∈ w, (!isBlank c) = true := fun c hc => by rw [hw c hc]; rfl
  rw [fields_blanks_append hblanks, fields, runsFrom_keep hkeep, List.append_nil, fields]
  cases rest with
  | nil => simp [runsFrom, hne]
  | cons c rest => simp [runsFrom, hrest c rfl, hne]

end StackMachine.Text
