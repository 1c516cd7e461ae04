import StackMachine.Assembly.Line
import StackMachine.Listing
import StackMachine.Proofs.Text.Blank
import StackMachine.Proofs.Text.Decimal

/-!
# Lines of a listing as assembler text

The address before an instruction and the name before a function are labels, what is said about functions at the
start is a comment, and an instruction is read as the statement it was listed from.
-/

set_option autoImplicit false

namespace StackMachine.Assembly

/-! ## Plain characters -/

/-- A character that is part of a word wherever it stands. -/
structure Plain (c : Char) : Prop where
  blank : Text.isBlank c = false
  colon : c ≠ ':'
  semicolon : c ≠ ';'
  hash : c ≠ '#'

instance : DecidablePred Plain := fun c =>
  decidable_of_iff (Text.isBlank c = false ∧ c ≠ ':' ∧ c ≠ ';' ∧ c ≠ '#')
    ⟨fun ⟨hb, hc, hs, hh⟩ => ⟨hb, hc, hs, hh⟩, fun ⟨hb, hc, hs, hh⟩ => ⟨hb, hc, hs, hh⟩⟩

theorem Plain.not_comment {c : Char} (h : Plain c) : isCommentStart c = false := by
  simp [isCommentStart, h.semicolon, h.hash]

theorem plain_of_isDigit {c : Char} (h : Text.isDigit c = true) : Plain c := by
  obtain ⟨hlow, hhigh⟩ := Text.isDigit_iff.mp h
  refine ⟨?_, ?_, ?_, ?_⟩
  · simp only [Text.isBlank, Bool.or_eq_false_iff, Bool.and_eq_false_iff, decide_eq_false_iff_not,
      beq_eq_false_iff_ne]
    omega
  all_goals
    rintro rfl
    cases h

theorem plain_decimal (n : Int) : ∀ c ∈ (Text.decimal n).toList, Plain c := by
  intro c hc
  by_cases hn : n < 0
  · rw [Text.toList_decimal_neg hn] at hc
    obtain rfl | hc := List.mem_cons.mp hc
    · decide
    · exact plain_of_isDigit (Text.isDigit_of_mem_paddedDigits hc)
  · obtain ⟨k, rfl⟩ := Int.eq_ofNat_of_zero_le (Int.not_lt.mp hn)
    rw [Text.toList_decimal_nat] at hc
    exact plain_of_isDigit (Text.isDigit_of_mem_paddedDigits hc)

theorem plain_zeroPadded (width n : Nat) : ∀ c ∈ (Text.zeroPadded width n).toList, Plain c := by
  intro c hc
  rw [Text.toList_zeroPadded] at hc
  exact plain_of_isDigit (Text.isDigit_of_mem_paddedDigits hc)

/-! ## Words -/

/-- Text that is read as one word. -/
structure IsWord (s : String) : Prop where
  ne_nil : s.toList ≠ []
  plain : ∀ c ∈ s.toList, Plain c

instance (s : String) : Decidable (IsWord s) :=
  decidable_of_iff (s.toList.isEmpty = false ∧ s.toList.all (fun c => decide (Plain c)) = true)
    ⟨fun ⟨hne, hall⟩ => ⟨List.isEmpty_eq_false_iff.mp hne,
        fun c hc => of_decide_eq_true (List.all_eq_true.mp hall c hc)⟩,
      fun h => ⟨List.isEmpty_eq_false_iff.mpr h.ne_nil,
        List.all_eq_true.mpr fun c hc => decide_eq_true (h.plain c hc)⟩⟩

namespace IsWord

variable {s : String}

theorem isLabel (h : IsWord s) : isLabel s = true := by
  have hne : s ≠ "" := by
    rintro rfl
    exact h.ne_nil rfl
  have hall : (s.toList.all fun c => c != ' ' && c != '\t') = true := by
    rw [List.all_eq_true]
    intro c hc
    have hblank := (h.plain c hc).blank
    have hspace : c ≠ ' ' := by
      rintro rfl
      cases hblank
    have htab : c ≠ '\t' := by
      rintro rfl
      cases hblank
    simp [hspace, htab]
  simp [Assembly.isLabel, hne, hall]

/-- A word after blanks, followed by a blank or by nothing. -/
theorem fieldTexts (h : IsWord s) {blanks : List Char} (hblanks : ∀ c ∈ blanks, Text.isBlank c = true)
    {rest : List Char} (hrest : ∀ c ∈ rest.head?, Text.isBlank c = true) :
    fieldTexts (blanks ++ (s.toList ++ rest)) = s :: fieldTexts rest := by
  have hword : ∀ c ∈ s.toList, Text.isBlank c = false := fun c hc => (h.plain c hc).blank
  rw [Assembly.fieldTexts, Text.fields_word hblanks hword h.ne_nil hrest, List.map_cons, String.ofList_toList]
  rfl

theorem decimal (n : Int) : IsWord (Text.decimal n) where
  ne_nil := by
    by_cases hn : n < 0
    · rw [Text.toList_decimal_neg hn]
      exact List.cons_ne_nil _ _
    · obtain ⟨k, rfl⟩ := Int.eq_ofNat_of_zero_le (Int.not_lt.mp hn)
      rw [Text.toList_decimal_nat]
      exact Text.paddedDigits_ne_nil 0 k
  plain := plain_decimal n

theorem zeroPadded (width n : Nat) : IsWord (Text.zeroPadded width n) where
  ne_nil := by
    rw [Text.toList_zeroPadded]
    exact Text.paddedDigits_ne_nil _ n
  plain := plain_zeroPadded width n

theorem mnemonic (op : Opcode) : IsWord op.mnemonic := by
  cases op <;> decide

end IsWord

/-! ## Taking lines apart -/

/-- A line without label and instruction. -/
def blankLine : Line where
  label := none
  fields := []

theorem ofChars_comment (cs : List Char) : Line.ofChars (';' :: cs) = blankLine := rfl

section Parts

variable {label body remark : List Char} (hbody : ∀ c ∈ body, isCommentStart c = false)
  (hremark : ∀ c ∈ remark.head?, isCommentStart c = true)

include hbody hremark

/-- The code of a line is what stands before its comment. -/
theorem takeWhile_code : (body ++ remark).takeWhile (fun c => !isCommentStart c) = body := by
  have hkeep : ∀ c ∈ body, (!isCommentStart c) = true := fun c hc => by rw [hbody c hc]; rfl
  have hstop : remark.takeWhile (fun c => !isCommentStart c) = [] := by
    cases remark with
    | nil => rfl
    | cons c text => simp [hremark c rfl]
  rw [List.takeWhile_append_of_pos hkeep, hstop, List.append_nil]

/-- Without a colon all of the code is an instruction. -/
theorem ofChars_unlabelled (hcolon : ':' ∉ body) :
    Line.ofChars (body ++ remark) = { label := none, fields := fieldTexts body } := by
  have hdrop : (Text.trim body).dropWhile (· != ':') = [] := by
    rw [List.dropWhile_eq_nil_iff]
    intro c hc
    rw [bne_iff_ne]
    rintro rfl
    exact hcolon (Text.mem_of_mem_trim hc)
  simp only [Line.ofChars, takeWhile_code hbody hremark, hdrop, fieldTexts, Text.fields_trim]

/-- The first colon parts the label from the instruction. -/
theorem ofChars_labelled (hlabel : ∀ c ∈ label, isCommentStart c = false) (hcolon : ':' ∉ label) :
    Line.ofChars (label ++ ':' :: (body ++ remark)) =
      { label := some (String.ofList (Text.trim label)), fields := fieldTexts body } := by
  have hcode : ∀ c ∈ label ++ ':' :: body, isCommentStart c = false :=
    List.forall_mem_append.mpr ⟨hlabel, List.forall_mem_cons.mpr ⟨rfl, hbody⟩⟩
  have hbefore : ∀ c ∈ Text.trimLeft label, (c != ':') = true := by
    intro c hc
    rw [bne_iff_ne]
    rintro rfl
    exact hcolon ((List.dropWhile_sublist _).subset hc)
  have htake : (label ++ ':' :: (body ++ remark)).takeWhile (fun c => !isCommentStart c) = label ++ ':' :: body := by
    rw [← List.cons_append, ← List.append_assoc, takeWhile_code hcode hremark]
  simp only [Line.ofChars, htake, Text.trim_append_cons (show Text.isBlank ':' = false from rfl),
    List.dropWhile_append_of_pos hbefore, List.takeWhile_append_of_pos hbefore]
  simp [Text.trim_trimLeft, fieldTexts, Text.fields_trimRight]

end Parts

/-- A word, a colon, and what stands after it. -/
theorem ofChars_label {label : String} (hlabel : IsWord label) {rest : List Char}
    (hrest : ∀ c ∈ rest, isCommentStart c = false) :
    Line.ofChars (label.toList ++ ':' :: rest) = { label := some label, fields := fieldTexts rest } := by
  have htrim : Text.trim label.toList = label.toList := by
    apply Text.trim_eq_self
    · exact fun c hc => (hlabel.plain c (List.mem_of_mem_head? hc)).blank
    · exact fun c hc => (hlabel.plain c (List.mem_of_mem_getLast? hc)).blank
  have hcomment : ∀ c ∈ label.toList, isCommentStart c = false := fun c hc => (hlabel.plain c hc).not_comment
  have hcolon : ':' ∉ label.toList := fun hc => (hlabel.plain _ hc).colon rfl
  have hparts := @ofChars_labelled label.toList rest [] hrest (by simp) hcomment hcolon
  rwa [List.append_nil, htrim, String.ofList_toList] at hparts

/-! ## Instructions -/

/-- Names that stand for functions: words that are no integers. -/
structure IsName (s : String) : Prop extends IsWord s where
  not_integer : Word.read? s.toList = none

instance (s : String) : Decidable (IsName s) :=
  decidable_of_iff (IsWord s ∧ (Word.read? s.toList).isNone = true)
    ⟨fun ⟨hword, hnone⟩ => ⟨hword, Option.isNone_iff_eq_none.mp hnone⟩,
      fun h => ⟨h.toIsWord, Option.isNone_iff_eq_none.mpr h.not_integer⟩⟩

/-- The function that a call is listed with. -/
def callee? (table : Option FunctionTable) : Instr → Option Descriptor
  | .call id => table.bind (·.lookup? id)
  | _ => none

/-- The statement that is read from the line of an instruction. -/
def listed (table : Option FunctionTable) (i : Instr) : Statement :=
  match callee? table i with
  | some d => .callByName d.name
  | none =>
    match i.operand? with
    | none => .plain i.opcode
    | some w => .literal i.opcode w

theorem operandText_eq (table : Option FunctionTable) (i : Instr) (w : Word) :
    Listing.operandText table i w = ((callee? table i).map (·.name)).getD w.text := by
  cases i
  case call id =>
    cases table with
    | none => rfl
    | some t =>
      simp only [Listing.operandText, callee?, Option.bind_some]
      cases t.lookup? id <;> rfl
  all_goals rfl

theorem lowerChar_of_small {c : Char} (hlow : 97 ≤ c.toNat) (hhigh : c.toNat ≤ 122) : Text.lowerChar c = c := by
  have hrows : ∀ r ∈ Text.lowerRows, r.2.1 < 97 ∨ 122 < r.1 := by decide +kernel
  have hnone : (Text.lowerRows.find? fun r => r.1 ≤ c.toNat && c.toNat ≤ r.2.1 && (c.toNat - r.1) % r.2.2.1 == 0) =
      none := by
    rw [List.find?_eq_none]
    intro r hr hmatch
    have hrow := hrows r hr
    simp only [Bool.and_eq_true, decide_eq_true_eq] at hmatch
    omega
  simp only [Text.lowerChar, hnone]

theorem small_mnemonic (op : Opcode) :
    (op.mnemonic.toList.all fun c => 97 ≤ c.toNat && c.toNat ≤ 122) = true := by
  cases op <;> rfl

theorem lower_mnemonic (op : Opcode) : Text.lower op.mnemonic = op.mnemonic := by
  have hmap : op.mnemonic.toList.map Text.lowerChar = op.mnemonic.toList.map id := by
    apply List.map_congr_left
    intro c hc
    have hsmall := List.all_eq_true.mp (small_mnemonic op) c hc
    rw [Bool.and_eq_true, decide_eq_true_iff, decide_eq_true_iff] at hsmall
    exact lowerChar_of_small hsmall.1 hsmall.2
  rw [Text.lower, hmap, List.map_id, String.ofList_toList]

theorem ofMnemonic?_mnemonic (op : Opcode) : Opcode.ofMnemonic? op.mnemonic = some op := by
  cases op <;> rfl

section Body

variable {table : Option FunctionTable} {i : Instr}

theorem operands_opcode (i : Instr) : i.opcode.operands = i.operand?.toList.length := by
  cases i <;> rfl

theorem fieldTexts_mnemonic (op : Opcode) : fieldTexts ('\t' :: op.mnemonic.toList) = [op.mnemonic] := by
  have htab : ∀ c ∈ ['\t'], Text.isBlank c = true := List.forall_mem_singleton.mpr rfl
  calc
    fieldTexts ('\t' :: op.mnemonic.toList) = fieldTexts (['\t'] ++ (op.mnemonic.toList ++ [])) := by simp
    _ = [op.mnemonic] := (IsWord.mnemonic op).fieldTexts htab (by simp)

theorem fieldTexts_operand (op : Opcode) {arg : String} (harg : IsWord arg) :
    fieldTexts ('\t' :: (Text.padRight 11 op.mnemonic ++ arg).toList) = [op.mnemonic, arg] := by
  have htab : ∀ c ∈ ['\t'], Text.isBlank c = true := List.forall_mem_singleton.mpr rfl
  -- No mnemonic fills the width, so there is a blank before the operand.
  obtain ⟨gap, hgap⟩ : ∃ gap, 11 - op.mnemonic.length = gap + 1 := ⟨10 - op.mnemonic.length, by cases op <;> rfl⟩
  have hpad : ∀ c ∈ List.replicate (gap + 1) ' ', Text.isBlank c = true := by
    intro c hc
    rw [List.eq_of_mem_replicate hc]
    rfl
  calc
    fieldTexts ('\t' :: (Text.padRight 11 op.mnemonic ++ arg).toList) =
        fieldTexts (['\t'] ++ (op.mnemonic.toList ++ (List.replicate (gap + 1) ' ' ++ (arg.toList ++ [])))) := by
      simp [Text.padRight, hgap]
    _ = op.mnemonic :: fieldTexts (List.replicate (gap + 1) ' ' ++ (arg.toList ++ [])) :=
      (IsWord.mnemonic op).fieldTexts htab (by simp [List.replicate_succ]; rfl)
    _ = [op.mnemonic, arg] := congrArg _ (harg.fieldTexts hpad (by simp))

theorem callee?_eq_some {d : Descriptor} (h : callee? table i = some d) :
    ∃ id t, i = .call id ∧ table = some t ∧ t.lookup? id = some d := by
  cases i
  case call id =>
    obtain ⟨t, ht, hd⟩ := Option.bind_eq_some_iff.mp h
    exact ⟨id, t, rfl, ht, hd⟩
  all_goals cases h

/-- The names in a table can be told from numbers. -/
structure Listable (t : FunctionTable) : Prop where
  names : ∀ d ∈ t.entries, IsName d.name
  distinct : (t.entries.toList.map (·.name)).Nodup

variable (htable : ∀ t, table = some t → Listable t)

include htable

theorem isWord_operandText (w : Word) : IsWord (Listing.operandText table i w) := by
  rw [operandText_eq]
  cases hcallee : callee? table i with
  | none => exact IsWord.decimal w.toInt
  | some d =>
    obtain ⟨id, t, rfl, ht, hd⟩ := callee?_eq_some hcallee
    exact ((htable t ht).names d (FunctionTable.mem_of_lookup? hd)).toIsWord

theorem readOperand_listed {w : Word} (hoperand : i.operand? = some w) :
    readOperand table.isSome i.opcode (Listing.operandText table i w) = .ok (listed table i) := by
  rw [operandText_eq, listed]
  cases hcallee : callee? table i with
  | some d =>
    obtain ⟨id, t, rfl, rfl, hd⟩ := callee?_eq_some hcallee
    have hname := (htable t rfl).names d (FunctionTable.mem_of_lookup? hd)
    simp only [Option.map_some, Option.getD_some, readOperand, hname.not_integer]
    rfl
  | none =>
    simp only [Option.map_none, Option.getD_none, readOperand, Word.read?_text, hoperand]

theorem readStatement_listed (i : Instr) :
    readStatement table.isSome (fieldTexts ('\t' :: (Listing.body table (.instr i)).toList)) =
      .ok (some (listed table i)) := by
  have hcount := operands_opcode i
  cases hoperand : i.operand? with
  | none =>
    have hcallee : callee? table i = none := by
      cases hcallee : callee? table i with
      | none => rfl
      | some d =>
        obtain ⟨id, t, rfl, -⟩ := callee?_eq_some hcallee
        cases hoperand
    rw [hoperand] at hcount
    simp [Listing.body, listed, hoperand, hcallee, fieldTexts_mnemonic, readStatement, lower_mnemonic,
      ofMnemonic?_mnemonic, hcount]
  | some w =>
    rw [hoperand] at hcount
    simp only [Listing.body, hoperand, fieldTexts_operand _ (isWord_operandText htable w), readStatement,
      lower_mnemonic, ofMnemonic?_mnemonic, hcount, readOperand_listed htable hoperand]
    rfl

/-- What is written after an address: words with blanks between them. -/
theorem plain_body (i : Instr) : ∀ c ∈ (Listing.body table (.instr i)).toList, Plain c ∨ c = ' ' := by
  intro c hc
  cases hoperand : i.operand? with
  | none =>
    simp only [Listing.body, hoperand] at hc
    exact .inl ((IsWord.mnemonic _).plain c hc)
  | some w =>
    simp only [Listing.body, hoperand, String.toList_append, Text.padRight, String.toList_ofList] at hc
    obtain hc | hc := List.mem_append.mp hc
    · obtain hc | hc := List.mem_append.mp hc
      · exact .inl ((IsWord.mnemonic _).plain c hc)
      · exact .inr (List.eq_of_mem_replicate hc)
    · exact .inl ((isWord_operandText htable w).plain c hc)

theorem ofChars_instruction (addr : Nat) (i : Instr) :
    Line.ofChars (Listing.mark addr ++ Listing.body table (.instr i)).toList =
      { label := some (Text.zeroPadded 4 addr),
        fields := fieldTexts ('\t' :: (Listing.body table (.instr i)).toList) } := by
  have hmark : (Listing.mark addr ++ Listing.body table (.instr i)).toList =
      (Text.zeroPadded 4 addr).toList ++ ':' :: ('\t' :: (Listing.body table (.instr i)).toList) := by
    simp [Listing.mark]
  rw [hmark, ofChars_label (IsWord.zeroPadded 4 addr)]
  intro c hc
  obtain rfl | hc := List.mem_cons.mp hc
  · rfl
  · obtain hc | rfl := plain_body htable i c hc
    · exact hc.not_comment
    · rfl

omit htable in
theorem ofChars_name {name : String} (h : IsWord name) :
    Line.ofChars (name ++ ":").toList = { label := some name, fields := [] } := by
  rw [String.toList_append]
  exact ofChars_label h (by simp)

end Body

/-! ## Ends of lines -/

section Newlines

variable {table : Option FunctionTable} {s : String}

theorem IsWord.not_newline (h : IsWord s) : '\n' ∉ s.toList := by
  intro hmem
  have hblank := (h.plain _ hmem).blank
  cases hblank

theorem newline_not_mem_text {d : Descriptor} (hd : d.Nonneg) (hname : IsWord d.name) : '\n' ∉ d.text.toList := by
  obtain ⟨addr, haddr⟩ := Int.eq_ofNat_of_zero_le (Int64.le_iff_toInt_le.mp hd.2.2)
  have hargs := (IsWord.decimal d.args.toInt).not_newline
  have hlocals := (IsWord.decimal d.locals.toInt).not_newline
  have hzeros := (IsWord.zeroPadded 4 addr).not_newline
  simp [Descriptor.text, Word.text, hname.not_newline, hargs, hlocals, haddr, hzeros]

/-- What is said about the functions takes whole lines, and all of them are comments. -/
theorem of_mem_header {t : FunctionTable} (ht : Listable t) {l : String} (hl : l ∈ Listing.header t) :
    '\n' ∉ l.toList ∧ Line.ofChars l.toList = blankLine := by
  simp only [Listing.header, List.cons_append, List.mem_cons, List.mem_append, List.mem_mapIdx, List.not_mem_nil,
    or_false] at hl
  obtain rfl | ⟨id, hid, rfl⟩ | rfl := hl
  · have hsize := (IsWord.decimal t.size).not_newline
    constructor
    · simp [hsize]
    · rw [String.toList_append, String.toList_append]
      exact ofChars_comment _
  · have hd := Array.mem_toList_iff.mp (List.getElem_mem hid)
    have htext := newline_not_mem_text (t.nonneg _ hd) (ht.names _ hd).toIsWord
    have hdigits := (IsWord.decimal id).not_newline
    constructor
    · simpa [Text.padLeft, hdigits] using htext
    · simp only [String.toList_append]
      exact ofChars_comment _
  · exact ⟨by simp, rfl⟩

end Newlines

end StackMachine.Assembly
