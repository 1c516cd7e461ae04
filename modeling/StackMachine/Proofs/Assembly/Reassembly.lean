import Mathlib.Data.List.Nodup
import StackMachine.Proofs.Assembly.ListedLines
import StackMachine.Proofs.Assembly.TwoPass
import StackMachine.Proofs.Listing.Coverage

/-!
# Listings assemble to the code they show

Code that decodes is a list of instructions. Its listing names each of them by its address, and functions by their
names, so that assembling the listing finds every instruction again and a label for every address.
-/

set_option autoImplicit false

namespace StackMachine.Assembly

/-! ## Code as a list of instructions -/

/-- Instructions with their addresses, the first of which is `addr`. -/
def placed (addr : Nat) : List Instr → List (Nat × Instr)
  | [] => []
  | i :: is => (addr, i) :: placed (addr + i.size) is

/-- Every opcode that the walk meets is valid, and no operand is missing. -/
def Decodes (code : Array Word) : Prop :=
  ∀ p ∈ Verification.walk code, ∃ i, p.2 = .instr i

section Placed

variable {code : Array Word} {table : Option FunctionTable} {addr : Nat} {is : List Instr} {p : Nat × Instr}

theorem located_instrs (addr : Nat) (is : List Instr) :
    Verification.located addr (is.map .instr) = (placed addr is).map fun p => (p.1, .instr p.2) := by
  induction is generalizing addr with
  | nil => rfl
  | cons i is ih =>
    rw [List.map_cons, Verification.located, ih]
    rfl

theorem placed_increasing (addr : Nat) (is : List Instr) : (placed addr is).Pairwise fun p q => p.1 < q.1 := by
  have hincreasing := Verification.located_increasing addr (is.map .instr)
  rw [located_instrs, List.pairwise_map] at hincreasing
  exact hincreasing

/-- The lines of an instruction: those of the functions that start there, and its own. -/
def linesAt (table : Option FunctionTable) (p : Nat × Instr) : List String :=
  (Listing.namesAt table p.1).map (· ++ ":") ++ [Listing.mark p.1 ++ Listing.body table (.instr p.2)]

theorem exists_placed_from (h : ∀ p ∈ Verification.walkFrom code addr, ∃ i, p.2 = .instr i) :
    ∃ is, code.toList.drop addr = is.flatMap Instr.encode ∧
      Verification.walkFrom code addr = (placed addr is).map (fun p => (p.1, .instr p.2)) := by
  fun_induction Verification.walkFrom code addr with
  | case1 addr hnone =>
    refine ⟨[], ?_, rfl⟩
    simpa using fetch?_eq_none_iff.mp hnone
  | case2 addr op hop =>
    obtain ⟨i, hi⟩ := h _ List.mem_cons_self
    cases hi
  | case3 addr f hne hf ih =>
    obtain ⟨i, rfl⟩ := h _ List.mem_cons_self
    obtain ⟨is, hdrop, hwalk⟩ := ih fun p hp => h p (List.mem_cons_of_mem _ hp)
    change code.toList.drop (addr + i.size) = _ at hdrop
    refine ⟨i :: is, ?_, ?_⟩
    · rw [drop_of_fetch? hf, hdrop, List.flatMap_cons]
    · rw [hwalk, placed, List.map_cons]
      rfl

/-- Code that decodes, its walk and its listing, by one list of instructions. -/
theorem exists_placed (table : Option FunctionTable) (h : Decodes code) :
    ∃ is, code.toList = is.flatMap Instr.encode ∧
      Verification.starts code = (placed 0 is).map Prod.fst ∧
      Listing.linesFrom code table 0 = (placed 0 is).flatMap (linesAt table) := by
  obtain ⟨is, hcode, hwalk⟩ := exists_placed_from h
  refine ⟨is, hcode, ?_, ?_⟩
  · rw [Verification.starts, Verification.walk, hwalk, List.map_map]
    rfl
  · rw [Listing.linesFrom_eq_blocks, hwalk, List.flatMap_map]
    rfl

end Placed

/-! ## Labels -/

/-- The labels of an address: the names of the functions there, and its own text. -/
def labelsAt (table : Option FunctionTable) (addr : Nat) : List String :=
  Listing.namesAt table addr ++ [Text.zeroPadded 4 addr]

section Labels

variable {table : Option FunctionTable} {addr other : Nat} {label : String}

theorem mem_namesAt : label ∈ Listing.namesAt table addr ↔
    ∃ t, table = some t ∧ ∃ d ∈ t.entries, d.name = label ∧ d.address.toInt = addr := by
  cases table with
  | none => simp [Listing.namesAt]
  | some t =>
    simp only [Listing.namesAt, List.mem_map, List.mem_filter, Array.mem_toList_iff, beq_iff_eq, Option.some.injEq,
      exists_eq_left']
    constructor
    · rintro ⟨d, ⟨hd, haddr⟩, hname⟩
      exact ⟨d, hd, hname, haddr⟩
    · rintro ⟨d, hd, hname, haddr⟩
      exact ⟨d, ⟨hd, haddr⟩, hname⟩

theorem read?_zeroPadded {n : Nat} (h : (n : Int) ≤ Int64.maxValue.toInt) (width : Nat) :
    Word.read? (Text.zeroPadded width n).toList = some (Int64.ofInt n) := by
  rw [Int64.toInt_maxValue] at h
  rw [Word.read?, Text.readInteger?_zeroPadded, Option.bind_some, Word.ofInt?_eq_some (by omega) (by omega)]

variable (htable : ∀ t, table = some t → Listable t)

include htable

theorem isName_of_mem_namesAt (h : label ∈ Listing.namesAt table addr) : IsName label := by
  obtain ⟨t, ht, d, hd, rfl, -⟩ := mem_namesAt.mp h
  exact (htable t ht).names d hd

/-- The text of an address is no name. -/
theorem zeroPadded_not_mem_namesAt (h : (addr : Int) ≤ Int64.maxValue.toInt) (other : Nat) :
    Text.zeroPadded 4 addr ∉ Listing.namesAt table other := by
  intro hmem
  have hname := (isName_of_mem_namesAt htable hmem).not_integer
  rw [read?_zeroPadded h] at hname
  cases hname

theorem labelsAt_unique (haddr : (addr : Int) ≤ Int64.maxValue.toInt) (hother : (other : Int) ≤ Int64.maxValue.toInt)
    (h : label ∈ labelsAt table addr) (h' : label ∈ labelsAt table other) : addr = other := by
  obtain h | h := List.mem_append.mp h
  · obtain h' | h' := List.mem_append.mp h'
    · obtain ⟨t, ht, d, hd, hname, hd'⟩ := mem_namesAt.mp h
      obtain ⟨t', ht', e, he, hname', he'⟩ := mem_namesAt.mp h'
      cases ht.symm.trans ht'
      have hsame : d = e := List.inj_on_of_nodup_map (htable t ht).distinct (Array.mem_toList_iff.mpr hd)
        (Array.mem_toList_iff.mpr he) (hname.trans hname'.symm)
      subst hsame
      omega
    · obtain rfl := List.mem_singleton.mp h'
      exact (zeroPadded_not_mem_namesAt htable hother addr h).elim
  · obtain rfl := List.mem_singleton.mp h
    obtain h' | h' := List.mem_append.mp h'
    · exact (zeroPadded_not_mem_namesAt htable haddr other h').elim
    · exact Text.zeroPadded_injective (List.mem_singleton.mp h')

theorem nodup_labelsAt (haddr : (addr : Int) ≤ Int64.maxValue.toInt) : (labelsAt table addr).Nodup := by
  have hnames : (Listing.namesAt table addr).Nodup := by
    cases table with
    | none => exact List.nodup_nil
    | some t => exact (htable t rfl).distinct.sublist (List.filter_sublist.map _)
  refine List.nodup_append.mpr ⟨hnames, List.nodup_singleton _, ?_⟩
  rintro name hname label hlabel rfl
  obtain rfl := List.mem_singleton.mp hlabel
  exact zeroPadded_not_mem_namesAt htable haddr addr hname

theorem nodup_labels {is : List Instr} (h : ∀ p ∈ placed addr is, (p.1 : Int) ≤ Int64.maxValue.toInt) :
    ((placed addr is).flatMap fun p => labelsAt table p.1).Nodup := by
  refine List.pairwise_flatMap.mpr ⟨fun p hp => nodup_labelsAt htable (h p hp), ?_⟩
  refine (placed_increasing addr is).imp_of_mem ?_
  rintro p q hp hq hlt label hlabel other hother rfl
  have heq := labelsAt_unique htable (h p hp) (h q hq) hlabel hother
  omega

end Labels

/-! ## The first pass over a listing -/

section Surveyed

variable {hasTable : Bool} {s : Survey} {number : Nat} {rest : List Line}

theorem lines_blanks (s : Survey) (number count : Nat) (rest : List Line) :
    s.lines hasTable number (List.replicate count blankLine ++ rest) = s.lines hasTable (number + count) rest := by
  induction count generalizing number with
  | zero => rfl
  | succ count ih =>
    rw [List.replicate_succ, List.cons_append, Nat.add_comm count 1, ← Nat.add_assoc, ← ih]
    rfl

theorem lookup_eq_none {label : String} {labels : List (String × Nat)} (others : List String)
    (h : (labels.map Prod.fst ++ label :: others).Nodup) : labels.lookup label = none := by
  rw [List.lookup_eq_none_iff]
  intro x hx
  have hne := (List.nodup_append.mp h).2.2 x.1 (List.mem_map_of_mem hx) label List.mem_cons_self
  simpa using hne.symm

/-- A line with a new label and perhaps a statement. -/
theorem lines_label {label : String} {fields : List String} {st : Option Statement} (hlabel : IsWord label)
    (hnew : s.labels.lookup label = none) (hread : readStatement hasTable fields = .ok st) :
    s.lines hasTable number ({ label := some label, fields := fields } :: rest) =
      Survey.lines hasTable
        { program := s.program ++ st.toList.map (number, ·), labels := s.labels ++ [(label, s.program.size)] }
        (number + 1) rest := by
  have hdefine : s.defineLabel label = .ok { s with labels := s.labels ++ [(label, s.program.size)] } := by
    simp [Survey.defineLabel, hlabel.isLabel, hnew]
  have hinstruction : Survey.instruction hasTable { s with labels := s.labels ++ [(label, s.program.size)] } number
      fields = .ok { program := s.program ++ st.toList.map (number, ·),
                     labels := s.labels ++ [(label, s.program.size)] } := by
    cases st <;> simp [Survey.instruction, hread]
  have hline : s.line hasTable number { label := some label, fields := fields } =
      .ok { program := s.program ++ st.toList.map (number, ·), labels := s.labels ++ [(label, s.program.size)] } := by
    rw [Survey.line, Survey.labelled, hdefine]
    exact hinstruction
  rw [Survey.lines, hline]

theorem lines_names {names : List String} (hnames : ∀ name ∈ names, IsWord name)
    (hnew : (s.labels.map Prod.fst ++ names).Nodup) :
    s.lines hasTable number (names.map (fun name => { label := some name, fields := [] }) ++ rest) =
      Survey.lines hasTable { s with labels := s.labels ++ names.map (·, s.program.size) } (number + names.length)
        rest := by
  induction names generalizing s number with
  | nil => simp
  | cons name names ih =>
    have hfirst := hnames name List.mem_cons_self
    have hread : readStatement hasTable [] = .ok none := rfl
    rw [List.map_cons, List.cons_append, lines_label hfirst (lookup_eq_none names hnew) hread,
      ih fun name hname => hnames name (List.mem_cons_of_mem _ hname)]
    · simp [Nat.add_comm 1, Nat.add_assoc]
    · simpa using hnew

end Surveyed

section Listed

variable {table : Option FunctionTable} {addr : Nat}

/-- What is read from the lines of an instruction. -/
def readAt (table : Option FunctionTable) (p : Nat × Instr) : List Line :=
  (Listing.namesAt table p.1).map (fun name => { label := some name, fields := [] }) ++
    [{ label := some (Text.zeroPadded 4 p.1),
       fields := fieldTexts ('\t' :: (Listing.body table (.instr p.2)).toList) }]

/-- The labels of a listing with their addresses. -/
def labelled (table : Option FunctionTable) (ps : List (Nat × Instr)) : List (String × Nat) :=
  ps.flatMap fun p => (labelsAt table p.1).map (·, p.1)

theorem size_listed (table : Option FunctionTable) (i : Instr) : (listed table i).size = i.size := by
  unfold listed
  cases hcallee : callee? table i with
  | some d =>
    obtain ⟨id, t, rfl, -⟩ := callee?_eq_some hcallee
    rfl
  | none => cases i <;> rfl

variable (htable : ∀ t, table = some t → Listable t)

include htable

/-- The lines of one instruction. -/
theorem lines_readAt (s : Survey) (number : Nat) (i : Instr) (rest : List Line)
    (hnew : (s.labels.map Prod.fst ++ labelsAt table s.program.size).Nodup) :
    s.lines table.isSome number (readAt table (s.program.size, i) ++ rest) =
      Survey.lines table.isSome
        { program := s.program ++ [(number + (Listing.namesAt table s.program.size).length, listed table i)],
          labels := s.labels ++ (labelsAt table s.program.size).map (·, s.program.size) }
        (number + (Listing.namesAt table s.program.size).length + 1) rest := by
  have hnames : ∀ name ∈ Listing.namesAt table s.program.size, IsWord name :=
    fun name hname => (isName_of_mem_namesAt htable hname).toIsWord
  rw [labelsAt, ← List.append_assoc] at hnew
  have hself : (s.labels ++ (Listing.namesAt table s.program.size).map (·, s.program.size)).lookup
      (Text.zeroPadded 4 s.program.size) = none :=
    lookup_eq_none [] (by simpa [Function.comp_def] using hnew)
  rw [readAt, List.append_assoc, lines_names hnames (List.nodup_append.mp hnew).1, List.singleton_append,
    lines_label (IsWord.zeroPadded 4 _) hself (readStatement_listed htable i)]
  simp [labelsAt]

theorem lines_listing (s : Survey) (number : Nat) (is : List Instr) (rest : List Line)
    (hnew : (s.labels.map Prod.fst ++ (placed s.program.size is).flatMap fun p => labelsAt table p.1).Nodup) :
    ∃ program number', program.map Prod.snd = is.map (listed table) ∧
      s.lines table.isSome number ((placed s.program.size is).flatMap (readAt table) ++ rest) =
        Survey.lines table.isSome
          { program := s.program ++ program, labels := s.labels ++ labelled table (placed s.program.size is) }
          number' rest := by
  induction is generalizing s number with
  | nil => exact ⟨[], number, rfl, by simp [placed, labelled]⟩
  | cons i is ih =>
    rw [placed, List.flatMap_cons, ← List.append_assoc] at hnew
    rw [placed, List.flatMap_cons, List.append_assoc, lines_readAt htable _ _ _ _ (List.nodup_append.mp hnew).1]
    generalize number + (Listing.namesAt table s.program.size).length = here
    have hsize : Program.size (s.program ++ [(here, listed table i)]) = s.program.size + i.size := by
      simp [Program.size_append, Program.size, size_listed]
    obtain ⟨program, last, hprogram, hlines⟩ := ih
      { program := s.program ++ [(here, listed table i)],
        labels := s.labels ++ (labelsAt table s.program.size).map (·, s.program.size) } (here + 1)
      (by simpa [hsize, Function.comp_def] using hnew)
    rw [hsize] at hlines
    refine ⟨(here, listed table i) :: program, last, by simp [hprogram], ?_⟩
    rw [hlines]
    simp [labelled]

theorem newline_not_mem_linesAt (p : Nat × Instr) : ∀ l ∈ linesAt table p, '\n' ∉ l.toList := by
  intro l hl
  obtain hl | hl := List.mem_append.mp hl
  · obtain ⟨name, hname, rfl⟩ := List.mem_map.mp hl
    have hname := (isName_of_mem_namesAt htable hname).toIsWord.not_newline
    simp [hname]
  · have hmark := (IsWord.zeroPadded 4 p.1).not_newline
    have hbody : '\n' ∉ (Listing.body table (.instr p.2)).toList := by
      intro hmem
      obtain hplain | hspace := plain_body htable p.2 _ hmem
      · cases hplain.blank
      · cases hspace
    rw [List.mem_singleton.mp hl, String.toList_append, List.mem_append, Listing.mark]
    simp [hmark, hbody]

theorem ofChars_linesAt (p : Nat × Instr) :
    (linesAt table p).map (fun l => Line.ofChars l.toList) = readAt table p := by
  have hnames : ((Listing.namesAt table p.1).map (· ++ ":")).map (fun l => Line.ofChars l.toList) =
      (Listing.namesAt table p.1).map fun name => { label := some name, fields := [] } := by
    rw [List.map_map]
    apply List.map_congr_left
    intro name hname
    rw [Function.comp_apply, ofChars_name (isName_of_mem_namesAt htable hname).toIsWord]
  rw [linesAt, List.map_append, hnames, List.map_singleton, ofChars_instruction htable, readAt]

/-- Before the code there are only comments. -/
theorem exists_preamble (code : Array Word) :
    ∃ pre, Listing.lines code table = pre ++ Listing.linesFrom code table 0 ∧
      ∀ l ∈ pre, '\n' ∉ l.toList ∧ Line.ofChars l.toList = blankLine := by
  have hcode : '\n' ∉ "; Code:".toList ∧ Line.ofChars "; Code:".toList = blankLine := ⟨by simp, rfl⟩
  cases table with
  | none =>
    refine ⟨["; Code:"], rfl, ?_⟩
    intro l hl
    rwa [List.mem_singleton.mp hl]
  | some t =>
    refine ⟨Listing.header t ++ ["; Code:"], by simp [Listing.lines], ?_⟩
    intro l hl
    obtain hl | hl := List.mem_append.mp hl
    · exact of_mem_header (htable t rfl) hl
    · rwa [List.mem_singleton.mp hl]

theorem sourceLines_text {code : Array Word} {is : List Instr}
    (hlines : Listing.linesFrom code table 0 = (placed 0 is).flatMap (linesAt table)) :
    ∃ count, sourceLines (Listing.text code table) =
      List.replicate count blankLine ++ ((placed 0 is).flatMap (readAt table) ++ [blankLine]) := by
  obtain ⟨pre, hpre, hcomments⟩ := exists_preamble htable code
  rw [hlines] at hpre
  have hends : ∀ l ∈ (Listing.lines code table).map String.toList, '\n' ∉ l := by
    intro l hl
    obtain ⟨text, htext, rfl⟩ := List.mem_map.mp hl
    rw [hpre] at htext
    obtain hpart | hpart := List.mem_append.mp htext
    · exact (hcomments text hpart).1
    · obtain ⟨p, -, hline⟩ := List.mem_flatMap.mp hpart
      exact newline_not_mem_linesAt htable p text hline
  have htext : (Listing.text code table).toList =
      ((Listing.lines code table).map String.toList).flatMap (· ++ ['\n']) := by
    rw [Listing.text, String.toList_join, List.flatMap_map, List.flatMap_map]
    simp
  have hpreamble : pre.map (fun l => Line.ofChars l.toList) = List.replicate pre.length blankLine :=
    List.map_eq_replicate_iff.mpr fun l hl => (hcomments l hl).2
  refine ⟨pre.length, ?_⟩
  calc
    sourceLines (Listing.text code table) =
        (Listing.lines code table).map (fun l => Line.ofChars l.toList) ++ [blankLine] := by
      rw [sourceLines, htext, Text.splitAt_flatMap hends, List.map_append, List.map_map]
      rfl
    _ = _ := by
      rw [hpre, List.map_append, hpreamble, List.map_flatMap, List.append_assoc]
      simp only [ofChars_linesAt htable]

end Listed

/-! ## The second pass over a listing -/

/-- The builder in which the functions of a table were mentioned in the order of their ids. -/
def reserved (table : Option FunctionTable) : Option TableBuilder :=
  table.map fun t => TableBuilder.empty.reserve (t.entries.toList.map (·.name))

section Resolved

variable {table : Option FunctionTable}

/-- A function of a table is found under the id it has there. -/
theorem find?_reserve_name {t : FunctionTable} (ht : Listable t) {id : Word} {d : Descriptor}
    (h : t.lookup? id = some d) :
    ∃ n, (TableBuilder.empty.reserve (t.entries.toList.map (·.name))).find? d.name = some n ∧ Int64.ofNat n = id := by
  obtain ⟨n, hn, hd⟩ := Option.bind_eq_some_iff.mp h
  obtain ⟨hid, -⟩ := Word.index?_eq_some_iff.mp hn
  have hnames : (TableBuilder.empty.reserve (t.entries.toList.map (·.name))).mentioned =
      t.entries.toList.map (·.name) := TableBuilder.mentioned_reserve ht.distinct
  refine ⟨n, TableBuilder.find?_of_getElem? ?_ ?_, ?_⟩
  · rw [hnames]
    exact ht.distinct
  · rw [hnames, List.getElem?_map, Array.getElem?_toList, hd]
    rfl
  · rw [← Int64.ofInt_eq_ofNat, ← hid, Int64.ofInt_toInt]

variable (htable : ∀ t, table = some t → Listable t)

include htable

theorem resolve_statement (labels : List (String × Nat)) (number : Nat) (i : Instr) :
    (listed table i).resolve labels (reserved table) number = .ok i.encode := by
  unfold listed
  cases hcallee : callee? table i with
  | some d =>
    obtain ⟨id, t, rfl, rfl, hd⟩ := callee?_eq_some hcallee
    obtain ⟨n, hn, rfl⟩ := find?_reserve_name (htable t rfl) hd
    simp only [Statement.resolve, reserved, Option.map_some, Option.bind_some, hn]
    rfl
  | none =>
    cases hoperand : i.operand? with
    | none => simp only [Statement.resolve, Instr.encode, hoperand, Option.toList_none]
    | some w => simp only [Statement.resolve, Instr.encode, hoperand, Option.toList_some]

theorem resolve_listing (labels : List (String × Nat)) {program : Program} {is : List Instr}
    (h : program.map Prod.snd = is.map (listed table)) :
    program.resolve labels (reserved table) = .ok (is.flatMap Instr.encode) := by
  induction is generalizing program with
  | nil =>
    cases List.map_eq_nil_iff.mp h
    rfl
  | cons i is ih =>
    obtain ⟨⟨number, st⟩, rest, rfl, rfl, hrest⟩ := List.map_eq_cons_iff.mp h
    rw [Program.resolve, resolve_statement htable, ih hrest]
    rfl

/-- The calls of a listing mention no function that the builder does not know. -/
theorem reserve_listing {program : Program} {is : List Instr} (h : program.map Prod.snd = is.map (listed table)) :
    (reserved table).map (fun b => b.reserve program.mentioned) = reserved table := by
  cases table with
  | none => rfl
  | some t =>
    refine congrArg some (TableBuilder.reserve_of_found ?_)
    intro name hname
    obtain ⟨s, hs, hmentioned⟩ := List.mem_flatMap.mp hname
    obtain ⟨i, -, hi⟩ := List.mem_map.mp (h ▸ List.mem_map_of_mem hs)
    rw [← hi, listed] at hmentioned
    cases hcallee : callee? (some t) i with
    | none =>
      rw [hcallee] at hmentioned
      cases hoperand : i.operand? <;> simp [hoperand, Statement.mentioned] at hmentioned
    | some d =>
      obtain ⟨id, t', rfl, ht, hd⟩ := callee?_eq_some hcallee
      cases ht
      obtain ⟨n, hn, -⟩ := find?_reserve_name (htable t rfl) hd
      simp only [hcallee, Statement.mentioned, List.mem_singleton] at hmentioned
      exact ⟨n, hmentioned ▸ hn⟩

end Resolved

/-! ## Assembling a listing -/

theorem lookup_of_mem {label : String} {addr : Nat} {labels : List (String × Nat)}
    (hnodup : (labels.map Prod.fst).Nodup) (h : (label, addr) ∈ labels) : labels.lookup label = some addr := by
  obtain ⟨before, after, rfl⟩ := List.append_of_mem h
  rw [List.map_append, List.map_cons] at hnodup
  rw [List.lookup_append, lookup_eq_none _ hnodup, Option.none_or, List.lookup_cons_self]

theorem map_fst_labelled (table : Option FunctionTable) (ps : List (Nat × Instr)) :
    (labelled table ps).map Prod.fst = ps.flatMap fun p => labelsAt table p.1 := by
  simp [labelled, List.map_flatMap, Function.comp_def]

open Verification (lt_size_of_mem_starts)

/-- The listing of code that decodes is assembled to the same code. Every address of an instruction is found under
its text, and so are the functions that start at instructions under their names. Addresses have to fit in a word: the
text of a larger one could be a function's name. -/
theorem listing_reassembles (code : Array Word) (table : Option FunctionTable)
    (hsize : (code.size : Int) ≤ Int64.maxValue.toInt) (hcode : Decodes code)
    (htable : ∀ t, table = some t → Listable t) :
    ∃ r, assemble (Listing.text code table) (reserved table) = (.ok r, reserved table) ∧ r.code = code ∧
      (∀ a ∈ Verification.starts code, r.labels.lookup (Text.zeroPadded 4 a) = some a) ∧
      ∀ t, table = some t → ∀ d ∈ t.entries, ∀ a ∈ Verification.starts code, d.address.toInt = a →
        r.labels.lookup d.name = some a := by
  obtain ⟨is, hwords, hstarts, hlines⟩ := exists_placed table hcode
  have hbound : ∀ p ∈ placed 0 is, (p.1 : Int) ≤ Int64.maxValue.toInt := by
    intro p hp
    have hlt := lt_size_of_mem_starts (hstarts ▸ List.mem_map_of_mem hp)
    omega
  have hnodup := nodup_labels htable hbound
  have hlookup : ∀ a ∈ Verification.starts code, ∀ label ∈ labelsAt table a,
      (labelled table (placed 0 is)).lookup label = some a := by
    intro a ha label hlabel
    rw [hstarts] at ha
    obtain ⟨p, hp, rfl⟩ := List.mem_map.mp ha
    apply lookup_of_mem
    · rwa [map_fst_labelled]
    · exact List.mem_flatMap.mpr ⟨p, hp, List.mem_map_of_mem hlabel⟩
  obtain ⟨count, hsource⟩ := sourceLines_text htable hlines
  obtain ⟨program, number, hprogram, hsurvey⟩ := lines_listing htable {} (1 + count) is [blankLine] hnodup
  have hpass : Survey.lines (reserved table).isSome {} 1 (sourceLines (Listing.text code table)) =
      ({ program := program, labels := labelled table (placed 0 is) }, none) := by
    rw [reserved, Option.isSome_map, hsource, lines_blanks]
    exact hsurvey
  refine ⟨{ code := code, labels := labelled table (placed 0 is) }, ?_, rfl, ?_, ?_⟩
  · have horder : ∀ ps : List Pending, (id ps).Perm ps := fun ps => List.Perm.refl ps
    rw [assemble, assembleIn_eq horder, twoPass, hpass]
    simp only [reserve_listing htable hprogram, resolve_listing htable _ hprogram, ← hwords]
    rfl
  · intro a ha
    exact hlookup a ha _ (List.mem_append_right _ (List.mem_singleton_self _))
  · intro t ht d hd a ha haddr
    exact hlookup a ha _ (List.mem_append_left _ (mem_namesAt.mpr ⟨t, ht, d, hd, rfl, haddr⟩))

/-- A function at an instruction, and one at an operand. -/
def tallyTable : FunctionTable where
  entries := #[{ name := "main" }, { name := "tally/2", args := 2, address := 3 },
    { name := "stray", locals := 1, address := 4 }]
  size_pos := by decide
  nonneg := by decide

/-- Calls a function of the table by its name, and one that is not there by its number. -/
def tallyCode : Array Word :=
  #[16, 1, 18, 9, -5, 16, 7, 17]

theorem tally_reassembles :
    (tallyCode.size : Int) ≤ Int64.maxValue.toInt ∧ Decodes tallyCode ∧ Listable tallyTable ∧
    ∃ r, assemble (Listing.text tallyCode (some tallyTable)) (reserved (some tallyTable)) =
        (.ok r, reserved (some tallyTable)) ∧
      r.code = tallyCode ∧ r.labels.lookup "0005" = some 5 ∧ r.labels.lookup "tally/2" = some 3 := by
  have hsize : (tallyCode.size : Int) ≤ Int64.maxValue.toInt := by decide
  have hwalk : Verification.walk tallyCode = [(0, .instr (.call 1)), (2, .instr .halt), (3, .instr (.iconst (-5))),
      (5, .instr (.call 7)), (7, .instr .ret)] := by
    cbv
  have hstarts : Verification.starts tallyCode = [0, 2, 3, 5, 7] := by
    rw [Verification.starts, hwalk]
    rfl
  have hcode : Decodes tallyCode := by
    intro p hp
    rw [hwalk] at hp
    simp only [List.mem_cons, List.not_mem_nil, or_false] at hp
    rcases hp with rfl | rfl | rfl | rfl | rfl <;> exact ⟨_, rfl⟩
  have htable : Listable tallyTable := by
    refine ⟨?_, by decide⟩
    intro d hd
    simp only [tallyTable, List.mem_toArray, List.mem_cons, List.not_mem_nil, or_false] at hd
    rcases hd with rfl | rfl | rfl <;> decide
  obtain ⟨r, hr, hsame, haddresses, hfunctions⟩ := listing_reassembles tallyCode (some tallyTable) hsize hcode
    (by rintro t ⟨⟩; exact htable)
  refine ⟨hsize, hcode, htable, r, hr, hsame, ?_, ?_⟩
  · exact haddresses 5 (by rw [hstarts]; decide)
  · exact hfunctions tallyTable rfl { name := "tally/2", args := 2, address := 3 } (by simp [tallyTable]) 3
      (by rw [hstarts]; decide) rfl

end StackMachine.Assembly
