import StackMachine.Word

/-!
# Reading numbers back

Decimal text is read as the number it was written for, whatever zeros it is padded with.
-/

set_option autoImplicit false

namespace StackMachine

namespace Text

theorem isDigit_iff {c : Char} : isDigit c = true ↔ 48 ≤ c.toNat ∧ c.toNat ≤ 57 := by
  rw [isDigit, Bool.and_eq_true, decide_eq_true_iff, decide_eq_true_iff]
  rfl

theorem isDigit_of_mem_toDigits {n : Nat} {c : Char} (h : c ∈ Nat.toDigits 10 n) : isDigit c = true :=
  isDigit_iff.mpr (Char.isDigit_iff_toNat.mp (Nat.isDigit_of_mem_toDigits (by decide) (by decide) h))

/-- The digits of a number with any number of zeros before them. -/
def paddedDigits (zeros n : Nat) : List Char :=
  List.replicate zeros '0' ++ Nat.toDigits 10 n

section PaddedDigits

variable {zeros n : Nat}

theorem isDigit_of_mem_paddedDigits {c : Char} (h : c ∈ paddedDigits zeros n) : isDigit c = true := by
  obtain h | h := List.mem_append.mp h
  · rw [List.eq_of_mem_replicate h]
    rfl
  · exact isDigit_of_mem_toDigits h

theorem paddedDigits_ne_nil (zeros n : Nat) : paddedDigits zeros n ≠ [] := by
  simp [paddedDigits, Nat.toDigits_ne_nil]

theorem digitsValue?_paddedDigits (zeros n : Nat) : digitsValue? (paddedDigits zeros n) = some n := by
  have hall : (paddedDigits zeros n).all isDigit = true :=
    List.all_eq_true.mpr fun _ => isDigit_of_mem_paddedDigits
  have hempty : (paddedDigits zeros n).isEmpty = false := by
    simpa using paddedDigits_ne_nil zeros n
  rw [digitsValue?, hall, hempty, paddedDigits, Nat.ofDigitChars_append, Nat.ofDigitChars_replicate_zero]
  simp [Nat.ofDigitChars_ten_toDigits]

theorem readInteger?_paddedDigits (zeros n : Nat) : readInteger? (paddedDigits zeros n) = some (n : Int) := by
  have hvalue := digitsValue?_paddedDigits zeros n
  cases h : paddedDigits zeros n with
  | nil => exact (paddedDigits_ne_nil zeros n h).elim
  | cons c cs =>
    have hdigit : isDigit c = true := isDigit_of_mem_paddedDigits (h ▸ List.mem_cons_self)
    rw [h] at hvalue
    -- A digit is no sign.
    unfold readInteger?
    split
    next heq =>
      cases heq
      cases hdigit
    next heq =>
      cases heq
      cases hdigit
    next =>
      rw [hvalue]
      rfl

end PaddedDigits

theorem toList_zeroPadded (width n : Nat) :
    (zeroPadded width n).toList = paddedDigits (width - (Nat.toDigits 10 n).length) n := by
  have hneg : ¬ (n : Int) < 0 := by omega
  simp [zeroPadded, hneg, paddedDigits, ← String.length_toList, Nat.toList_repr]

theorem toList_decimal_nat (n : Nat) : (decimal n).toList = paddedDigits 0 n := by
  have hneg : ¬ (n : Int) < 0 := by omega
  simp [decimal, hneg, paddedDigits, Nat.toList_repr]

theorem toList_decimal_neg {n : Int} (h : n < 0) : (decimal n).toList = '-' :: paddedDigits 0 n.natAbs := by
  simp [decimal, h, paddedDigits, Nat.toList_repr]

theorem readInteger?_zeroPadded (width n : Nat) : readInteger? (zeroPadded width n).toList = some (n : Int) := by
  rw [toList_zeroPadded]
  exact readInteger?_paddedDigits _ n

theorem readInteger?_decimal (n : Int) : readInteger? (decimal n).toList = some n := by
  by_cases h : n < 0
  · rw [toList_decimal_neg h, readInteger?, digitsValue?_paddedDigits]
    change some (-(n.natAbs : Int)) = some n
    congr 1
    omega
  · obtain ⟨k, rfl⟩ := Int.eq_ofNat_of_zero_le (Int.not_lt.mp h)
    rw [toList_decimal_nat]
    exact readInteger?_paddedDigits 0 k

theorem zeroPadded_injective {width m n : Nat} (h : zeroPadded width m = zeroPadded width n) : m = n := by
  have hread := readInteger?_zeroPadded width m
  rw [h, readInteger?_zeroPadded, Option.some.injEq] at hread
  omega

end Text

namespace Word

theorem ofInt?_eq_some {n : Int} (hlow : -9223372036854775808 ≤ n) (hhigh : n ≤ 9223372036854775807) :
    ofInt? n = some (Int64.ofInt n) := by
  rw [ofInt?, if_pos ⟨hlow, hhigh⟩]

theorem ofInt?_toInt (w : Word) : ofInt? w.toInt = some w := by
  have hlow := w.le_toInt
  have hhigh := w.toInt_lt
  rw [ofInt?_eq_some (by omega) (by omega), Int64.ofInt_toInt]

theorem read?_text (w : Word) : read? w.text.toList = some w := by
  rw [read?, text, Text.readInteger?_decimal, Option.bind_some, ofInt?_toInt]

end Word
end StackMachine
