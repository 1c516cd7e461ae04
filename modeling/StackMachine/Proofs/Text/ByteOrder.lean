import StackMachine.Text.Bytes

/-!
# Texts compare like their bytes

The first byte of a character tells how many follow and holds its highest bits, each of the others holds six more. So
the bytes of the smaller of two characters come first, and texts have the order of their UTF-8 forms.
-/

set_option autoImplicit false

namespace StackMachine.Bytes

/-! ## Characters -/

/-- How many bytes follow the first one of a character. -/
def following (n : Nat) : Nat :=
  if n < 128 then 0 else if n < 2048 then 1 else if n < 65536 then 2 else 3

/-- The first byte of a character. -/
def leading (n : Nat) : Nat :=
  if n < 128 then n else if n < 2048 then n / 64 + 192 else if n < 65536 then n / 4096 + 224 else n / 262144 + 240

/-- The last `k` groups of six bits, each marked and in a byte of its own. -/
def sextets : Nat → Nat → Bytes
  | 0, _ => []
  | k + 1, n => UInt8.ofNat (n / Nat.pow 64 k % 64 + 128) :: sextets k n

theorem form_cases (n : Nat) :
    (n < 128 ∧ following n = 0 ∧ leading n = n) ∨
    (128 ≤ n ∧ n < 2048 ∧ following n = 1 ∧ leading n = n / 64 + 192) ∨
    (2048 ≤ n ∧ n < 65536 ∧ following n = 2 ∧ leading n = n / 4096 + 224) ∨
    (65536 ≤ n ∧ following n = 3 ∧ leading n = n / 262144 + 240) := by
  unfold following leading
  split
  · omega
  split
  · omega
  split <;> omega

theorem toNat_lt_char (c : Char) : c.toNat < 1114112 := by
  obtain h | ⟨-, h⟩ := c.valid
  · exact Nat.lt_trans h (by decide)
  · exact h

theorem utf8EncodeChar_eq (c : Char) :
    String.utf8EncodeChar c = UInt8.ofNat (leading c.toNat) :: sextets (following c.toNat) c.toNat := by
  have hlimit := toNat_lt_char c
  have hpow : Nat.pow 64 0 = 1 ∧ Nat.pow 64 1 = 64 ∧ Nat.pow 64 2 = 4096 := by decide
  have hval : c.val.toNat = c.toNat := rfl
  unfold String.utf8EncodeChar
  obtain ⟨h, hf, hl⟩ | ⟨h, h', hf, hl⟩ | ⟨h, h', hf, hl⟩ | ⟨h, hf, hl⟩ := form_cases c.toNat
  · rw [hf, hl]
    simp only [hval, sextets, Nat.le_of_lt_succ h, if_true]
  · have hmod : c.toNat / 64 % 32 = c.toNat / 64 := by omega
    rw [hf, hl]
    simp only [hval, sextets, hpow, Nat.div_one, hmod]
    rw [if_neg (by omega), if_pos (by omega)]
  · have hmod : c.toNat / 4096 % 16 = c.toNat / 4096 := by omega
    rw [hf, hl]
    simp only [hval, sextets, hpow, Nat.div_one, hmod]
    rw [if_neg (by omega), if_neg (by omega), if_pos (by omega)]
  · have hmod : c.toNat / 262144 % 8 = c.toNat / 262144 := by omega
    rw [hf, hl]
    simp only [hval, sextets, hpow, Nat.div_one, hmod]
    rw [if_neg (by omega), if_neg (by omega), if_neg (by omega)]

/-- Of two characters the smaller has the smaller first byte, or the same with as many bytes to follow. -/
theorem leading_lt_or {m n : Nat} (h : m < n) :
    leading m < leading n ∨
      leading m = leading n ∧ following m = following n ∧
        m / Nat.pow 64 (following m) = n / Nat.pow 64 (following m) := by
  have hpow : Nat.pow 64 0 = 1 ∧ Nat.pow 64 1 = 64 ∧ Nat.pow 64 2 = 4096 ∧ Nat.pow 64 3 = 262144 := by decide
  have hn := form_cases n
  obtain ⟨hm, hf, hl⟩ | ⟨hm, hm', hf, hl⟩ | ⟨hm, hm', hf, hl⟩ | ⟨hm, hf, hl⟩ := form_cases m <;>
    rw [hf] <;> simp only [hpow] <;> omega

theorem sextets_lt {k m n : Nat} (hdiv : m / Nat.pow 64 k = n / Nat.pow 64 k) (hlt : m < n) (xs ys : Bytes) :
    sextets k m ++ xs < sextets k n ++ ys := by
  induction k with
  | zero =>
    have hone : Nat.pow 64 0 = 1 := rfl
    rw [hone, Nat.div_one, Nat.div_one] at hdiv
    omega
  | succ k ih =>
    have hsplit : ∀ a, a / Nat.pow 64 (k + 1) = a / Nat.pow 64 k / 64 := by
      intro a
      rw [Nat.div_div_eq_div_mul]
      rfl
    have hle : m / Nat.pow 64 k ≤ n / Nat.pow 64 k := Nat.div_le_div_right (Nat.le_of_lt hlt)
    rw [hsplit, hsplit] at hdiv
    simp only [sextets, List.cons_append, List.cons_lt_cons_iff, UInt8.lt_iff_toNat_lt, ← UInt8.toNat_inj,
      UInt8.toNat_ofNat']
    -- The two numbers differ in this group of bits, or only in later ones.
    by_cases hsame : m / Nat.pow 64 k = n / Nat.pow 64 k
    · exact .inr ⟨by rw [hsame], ih hsame⟩
    · exact .inl (by omega)

theorem utf8EncodeChar_lt {c d : Char} (h : c < d) (xs ys : Bytes) :
    String.utf8EncodeChar c ++ xs < String.utf8EncodeChar d ++ ys := by
  have hlt : c.toNat < d.toNat := h
  have hlimit := toNat_lt_char d
  rw [utf8EncodeChar_eq, utf8EncodeChar_eq]
  simp only [List.cons_append, List.cons_lt_cons_iff, UInt8.lt_iff_toNat_lt, ← UInt8.toNat_inj, UInt8.toNat_ofNat']
  obtain hlead | ⟨hlead, hfollowing, hdiv⟩ := leading_lt_or hlt
  · have hbyte : leading d.toNat < 256 := by
      have hcases := form_cases d.toNat
      omega
    exact .inl (by omega)
  · rw [hlead, ← hfollowing]
    exact .inr ⟨rfl, sextets_lt hdiv hlt xs ys⟩

/-! ## Texts -/

theorem ofText_eq_flatMap (s : String) : ofText s = s.toList.flatMap String.utf8EncodeChar := by
  have hbytes : s.toByteArray = s.toList.utf8Encode := by
    rw [← String.toByteArray_ofList, String.ofList_toList]
  rw [ofText, String.toUTF8_eq_toByteArray, hbytes, List.utf8Encode, List.data_toByteArray]

theorem flatMap_utf8EncodeChar_lt {cs ds : List Char} (h : cs < ds) :
    cs.flatMap String.utf8EncodeChar < ds.flatMap String.utf8EncodeChar := by
  induction cs generalizing ds with
  | nil =>
    cases ds with
    | nil => cases h
    | cons d ds =>
      rw [List.flatMap_cons, utf8EncodeChar_eq]
      exact List.nil_lt_cons _ _
  | cons c cs ih =>
    cases ds with
    | nil => cases h
    | cons d ds =>
      rw [List.flatMap_cons, List.flatMap_cons]
      obtain hlt | ⟨rfl, hlt⟩ := List.cons_lt_cons_iff.mp h
      · exact utf8EncodeChar_lt hlt _ _
      · exact List.append_left_lt (ih hlt)

theorem ofText_lt {s t : String} (h : s < t) : ofText s < ofText t := by
  rw [ofText_eq_flatMap, ofText_eq_flatMap]
  exact flatMap_utf8EncodeChar_lt (String.lt_iff.mp h)

theorem ofText_lt_iff {s t : String} : ofText s < ofText t ↔ s < t := by
  constructor
  · intro h
    refine Decidable.not_not.mp fun hnot => ?_
    by_cases hgt : t < s
    · exact List.lt_asymm h (ofText_lt hgt)
    · cases String.le_antisymm (String.not_lt.mp hgt) (String.not_lt.mp hnot)
      exact List.lt_irrefl _ h
  · exact ofText_lt

end StackMachine.Bytes
