import Mathlib.Logic.Relation
import StackMachine.Proofs.Assembly.ListedLines
import StackMachine.Proofs.Assembly.TwoPass
import StackMachine.Proofs.Success

/-!
# Layout does not matter

A text is read as a list of items, its labels and statements in order. Whether it is assembled, and to what, depends on
the items alone: the lines they stand on are only mentioned in errors. Blanks, comments, empty lines, the case of a
mnemonic and the line break after a label are not part of any item, so edits of these leave the result as it is.
-/

set_option autoImplicit false

namespace StackMachine.Assembly

/-! ## Items -/

inductive Item where
  | label (name : String)
  | statement (st : Statement)

/-- The items of a line, if its instruction can be read. -/
def Line.items (hasTable : Bool) (l : Line) : Option (List Item) :=
  (readStatement hasTable l.fields).toOption.map fun st => l.label.toList.map .label ++ st.toList.map .statement

def items (hasTable : Bool) : List Line → Option (List Item)
  | [] => some []
  | l :: rest => (l.items hasTable).bind fun is => (items hasTable rest).map fun js => is ++ js

section Items

variable {hasTable : Bool}

theorem items_singleton (l : Line) : items hasTable [l] = l.items hasTable := by
  cases h : l.items hasTable <;> simp [items, h]

theorem items_append (ls ls' : List Line) :
    items hasTable (ls ++ ls') =
      (items hasTable ls).bind fun is => (items hasTable ls').map fun js => is ++ js := by
  induction ls with
  | nil => simp [items]
  | cons l ls ih =>
    rw [List.cons_append, items, items, ih]
    cases l.items hasTable with
    | none => rfl
    | some first =>
      cases items hasTable ls with
      | none => rfl
      | some others => cases items hasTable ls' <;> simp

end Items

/-! ## Assembling items -/

def Program.unnumbered (p : Program) : Program :=
  p.map fun s => (0, s.2)

theorem Program.size_unnumbered (p : Program) : p.unnumbered.size = p.size := by
  induction p with
  | nil => rfl
  | cons s p ih =>
    rw [unnumbered] at ih
    rw [unnumbered, List.map_cons, size, size, ih]

theorem Program.mentioned_unnumbered (p : Program) : p.unnumbered.mentioned = p.mentioned :=
  List.flatMap_map _ _ p

theorem Statement.resolve_unnumbered (labels : List (String × Nat)) (builder : Option TableBuilder) (number : Nat)
    (st : Statement) : (st.resolve labels builder 0).toOption = (st.resolve labels builder number).toOption := by
  cases st with
  | plain op | literal op w => rfl
  | branch op label =>
    simp only [resolve]
    cases labels.lookup label <;> rfl
  | callByName name =>
    simp only [resolve]
    cases builder.bind (·.find? name) <;> rfl

theorem Program.resolve_unnumbered (labels : List (String × Nat)) (builder : Option TableBuilder) (p : Program) :
    (p.unnumbered.resolve labels builder).toOption = (p.resolve labels builder).toOption := by
  induction p with
  | nil => rfl
  | cons s p ih =>
    rw [unnumbered] at ih
    simp only [unnumbered, List.map_cons, resolve, toOption_bind, ih, Statement.resolve_unnumbered _ _ s.1]

namespace Survey

/-- What the first pass has found, without the lines it found it on. -/
def unnumbered (s : Survey) : Survey :=
  { s with program := s.program.unnumbered }

def item (s : Survey) : Item → Option Survey
  | .label name => (s.defineLabel name).toOption
  | .statement st => some { s with program := s.program ++ [(0, st)] }

def run (s : Survey) (is : List Item) : Option Survey :=
  is.foldlM item s

theorem run_append (s : Survey) (is js : List Item) : s.run (is ++ js) = (s.run is).bind fun t => t.run js :=
  List.foldlM_append

theorem unnumbered_labelled (s : Survey) (label : Option String) :
    (s.labelled label).toOption.map unnumbered = s.unnumbered.run (label.toList.map .label) := by
  cases label with
  | none => rfl
  | some label =>
    simp only [labelled, run, Option.toList_some, List.map_cons, List.map_nil, List.foldlM_cons, List.foldlM_nil, item,
      defineLabel, unnumbered, Program.size_unnumbered]
    split
    next => rfl
    next =>
      split
      next => rfl
      next => rfl

theorem unnumbered_instruction (hasTable : Bool) (s : Survey) (number : Nat) (fields : List String) :
    (s.instruction hasTable number fields).toOption.map unnumbered =
      (readStatement hasTable fields).toOption.bind fun st => s.unnumbered.run (st.toList.map .statement) := by
  unfold instruction
  cases readStatement hasTable fields with
  | error cause => rfl
  | ok st =>
    cases st with
    | none => rfl
    | some st =>
      simp only [Except.toOption, Option.map_some, Option.bind_some, unnumbered, Program.unnumbered, List.map_append]
      rfl

/-- A line is taken in by its items. -/
theorem unnumbered_line (hasTable : Bool) (s : Survey) (number : Nat) (l : Line) :
    (s.line hasTable number l).toOption.map unnumbered = (l.items hasTable).bind s.unnumbered.run := by
  have hlabelled := s.unnumbered_labelled l.label
  rw [line, Line.items, toOption_bind]
  simp only [Option.bind_map, Function.comp_def, run_append, ← hlabelled]
  cases (s.labelled l.label).toOption with
  | none =>
    -- The label is refused, so it does not matter whether the instruction can be read.
    cases (readStatement hasTable l.fields).toOption <;> rfl
  | some t => exact t.unnumbered_instruction hasTable number l.fields

/-- The survey, if all lines were fine. -/
def complete? : Survey × Option Error → Option Survey
  | (s, none) => some s
  | (_, some _) => none

theorem unnumbered_lines (hasTable : Bool) (s : Survey) (number : Nat) (ls : List Line) :
    (complete? (s.lines hasTable number ls)).map unnumbered = (items hasTable ls).bind s.unnumbered.run := by
  induction ls generalizing number s with
  | nil => rfl
  | cons l ls ih =>
    have hline := s.unnumbered_line hasTable number l
    rw [lines, items]
    cases h : s.line hasTable number l with
    | error cause =>
      rw [h] at hline
      cases hitems : l.items hasTable with
      | none => rfl
      | some is =>
        rw [hitems] at hline
        have hstuck : s.unnumbered.run is = none := hline.symm
        cases items hasTable ls <;> simp [complete?, run_append, hstuck]
    | ok t =>
      rw [h] at hline
      cases hitems : l.items hasTable with
      | none =>
        rw [hitems] at hline
        cases hline
      | some is =>
        rw [hitems] at hline
        have hnext : s.unnumbered.run is = some t.unnumbered := hline.symm
        simp only [ih, Option.bind_some, Option.bind_map, Function.comp_def, run_append, hnext]

/-- What the second pass makes of a survey, if it succeeds. -/
def finish? (s : Survey) (builder : Option TableBuilder) : Option (Assembled × Option TableBuilder) :=
  let builder := builder.map fun b => b.reserve s.program.mentioned
  (s.program.resolve s.labels builder).toOption.map fun words =>
    ({ code := words.toArray, labels := s.labels }, builder)

theorem finish?_unnumbered (s : Survey) (builder : Option TableBuilder) :
    s.unnumbered.finish? builder = s.finish? builder := by
  simp only [finish?, unnumbered, Program.mentioned_unnumbered, Program.resolve_unnumbered]

end Survey

/-- Whether and to what a text is assembled depends on its items alone. -/
theorem twoPass_eq_ok_iff {source : String} {builder builder' : Option TableBuilder} {r : Assembled} :
    twoPass source builder = (.ok r, builder') ↔
      ((items builder.isSome (sourceLines source)).bind fun is => (Survey.run {} is).bind (·.finish? builder)) =
        some (r, builder') := by
  have hlines := Survey.unnumbered_lines builder.isSome {} 1 (sourceLines source)
  have hempty : Survey.unnumbered {} = {} := rfl
  rw [hempty] at hlines
  rw [← Option.bind_assoc, ← hlines, twoPass]
  generalize Survey.lines builder.isSome {} 1 (sourceLines source) = first
  obtain ⟨s, error⟩ := first
  cases error with
  | some e => simp [Survey.complete?]
  | none =>
    simp only [Survey.complete?, Option.map_some, Option.bind_some, Survey.finish?_unnumbered]
    rw [Survey.finish?]
    generalize builder.map (fun b => b.reserve s.program.mentioned) = b
    cases s.program.resolve s.labels b <;> simp [Except.map, Except.toOption]

/-! ## Lines and their parts -/

/-- White space within a line. -/
def isGap (cs : List Char) : Bool :=
  cs.all fun c => Text.isBlank c && c != '\n'

def isField (cs : List Char) : Bool :=
  !cs.isEmpty && cs.all fun c => !Text.isBlank c

/-- Text of a line outside its comment. -/
def isCode (cs : List Char) : Bool :=
  cs.all fun c => !isCommentStart c && c != '\n'

/-- What may follow the code of a line: a comment, or nothing. -/
def isRemark : List Char → Bool
  | [] => true
  | c :: text => isCommentStart c && text.all (· != '\n')

theorem all_and_ne_iff {keep : Char → Bool} {d : Char} {cs : List Char} :
    (cs.all fun c => keep c && c != d) = true ↔ (∀ c ∈ cs, keep c = true) ∧ d ∉ cs := by
  simp only [List.all_eq_true, Bool.and_eq_true, bne_iff_ne]
  constructor
  · intro h
    exact ⟨fun c hc => (h c hc).1, fun hd => (h d hd).2 rfl⟩
  · rintro ⟨hkeep, hd⟩ c hc
    exact ⟨hkeep c hc, fun heq => hd (heq ▸ hc)⟩

theorem isGap_iff {cs : List Char} : isGap cs = true ↔ (∀ c ∈ cs, Text.isBlank c = true) ∧ '\n' ∉ cs :=
  all_and_ne_iff

theorem isField_iff {cs : List Char} : isField cs = true ↔ cs ≠ [] ∧ ∀ c ∈ cs, Text.isBlank c = false := by
  simp [isField]

theorem isCode_iff {cs : List Char} : isCode cs = true ↔ (∀ c ∈ cs, isCommentStart c = false) ∧ '\n' ∉ cs := by
  rw [isCode, all_and_ne_iff]
  simp only [Bool.not_eq_true']

theorem isRemark_iff {cs : List Char} :
    isRemark cs = true ↔ (∀ c ∈ cs.head?, isCommentStart c = true) ∧ '\n' ∉ cs := by
  cases cs with
  | nil => simp [isRemark]
  | cons c text =>
    simp only [isRemark, List.all_eq_true, Bool.and_eq_true, bne_iff_ne, List.head?_cons, Option.mem_some,
      forall_eq', List.mem_cons, not_or]
    constructor
    · rintro ⟨hc, htext⟩
      refine ⟨hc, ?_, fun hmem => htext _ hmem rfl⟩
      rintro rfl
      cases hc
    · rintro ⟨hc, -, htext⟩
      exact ⟨hc, fun d hd heq => htext (heq ▸ hd)⟩

/-- A line taken apart: a label before a colon, an instruction and a comment, of which each may be missing. Only after
a label the instruction may have a colon in it. -/
structure Spelling where
  label : Option (List Char) := none
  body : List Char := []
  remark : List Char := []
  label_code : (label.all fun cs => isCode cs && !cs.contains ':') = true := by decide
  body_code : isCode body = true := by decide
  body_colon : (label.isSome || !body.contains ':') = true := by decide
  remark_comment : isRemark remark = true := by decide

namespace Spelling

def text (p : Spelling) : List Char :=
  match p.label with
  | none => p.body ++ p.remark
  | some label => label ++ ':' :: (p.body ++ p.remark)

theorem code_of_label (p : Spelling) {label : List Char} (h : p.label = some label) :
    isCode label = true ∧ ':' ∉ label := by
  simpa [h] using p.label_code

theorem colon_not_mem (p : Spelling) (h : p.label = none) : ':' ∉ p.body := by
  simpa [h] using p.body_colon

theorem ofChars_text (p : Spelling) :
    Line.ofChars p.text =
      { label := p.label.map fun cs => String.ofList (Text.trim cs), fields := fieldTexts p.body } := by
  have hbody := (isCode_iff.mp p.body_code).1
  have hremark := (isRemark_iff.mp p.remark_comment).1
  rw [text]
  cases h : p.label with
  | none => exact ofChars_unlabelled hbody hremark (p.colon_not_mem h)
  | some label =>
    obtain ⟨hlabel, hcolon⟩ := p.code_of_label h
    exact ofChars_labelled hbody hremark (isCode_iff.mp hlabel).1 hcolon

theorem newline_not_mem (p : Spelling) : '\n' ∉ p.text := by
  have hbody := (isCode_iff.mp p.body_code).2
  have hremark := (isRemark_iff.mp p.remark_comment).2
  rw [text]
  cases h : p.label with
  | none => simp [hbody, hremark]
  | some label =>
    have hlabel := (isCode_iff.mp (p.code_of_label h).1).2
    simp [hlabel, hbody, hremark]

end Spelling

/-! ## Edits -/

/-- The same fields with other gaps around and between them. -/
inductive Respaced : List Char → List Char → Prop
  | gap {gap gap' : List Char} (hgap : isGap gap = true) (hgap' : isGap gap' = true) : Respaced gap gap'
  | field {gap gap' field rest rest' : List Char} (hgap : isGap gap = true) (hgap' : isGap gap' = true)
      (hfield : isField field = true) (happart : rest.head?.all Text.isBlank = true)
      (happart' : rest'.head?.all Text.isBlank = true) (h : Respaced rest rest') :
      Respaced (gap ++ (field ++ rest)) (gap' ++ (field ++ rest'))

/-- The same label, if any, with other gaps around it. -/
inductive RespacedLabel : Option (List Char) → Option (List Char) → Prop
  | none : RespacedLabel none none
  | some {before after before' after' : List Char} (label : List Char) (hbefore : isGap before = true)
      (hafter : isGap after = true) (hbefore' : isGap before' = true) (hafter' : isGap after' = true) :
      RespacedLabel (some (before ++ (label ++ after))) (some (before' ++ (label ++ after')))

/-- The same instruction with letters of its mnemonic in another case. -/
inductive Recased : List Char → List Char → Prop
  | mnemonic {gap word word' rest : List Char} (hgap : isGap gap = true) (hword : isField word = true)
      (happart : rest.head?.all Text.isBlank = true) (hcase : word'.map Char.toLower = word.map Char.toLower) :
      Recased (gap ++ (word ++ rest)) (gap ++ (word' ++ rest))

/-- An edit of one line, and the lines that it leaves. -/
inductive LineEdit : List Char → List (List Char) → Prop
  | insertBefore (l : List Char) {new : Spelling} (hlabel : new.label = none) (hbody : isGap new.body = true) :
      LineEdit l [new.text, l]
  | insertAfter (l : List Char) {new : Spelling} (hlabel : new.label = none) (hbody : isGap new.body = true) :
      LineEdit l [l, new.text]
  | comment (l : List Char) {c : Char} {text : List Char} (hc : isCommentStart c = true) (htext : '\n' ∉ text) :
      LineEdit l [l ++ c :: text]
  | respace {p p' : Spelling} (hlabel : RespacedLabel p.label p'.label) (hbody : Respaced p.body p'.body)
      (hremark : p'.remark = p.remark) : LineEdit p.text [p'.text]
  | recase {p p' : Spelling} (hlabel : p'.label = p.label) (hbody : Recased p.body p'.body)
      (hremark : p'.remark = p.remark) : LineEdit p.text [p'.text]
  | move {p : Spelling} {label left right : List Char} (hlabel : p.label = some label) (hcolon : ':' ∉ p.body)
      (hremark : left = [] ∧ right = p.remark ∨ left = p.remark ∧ right = []) :
      LineEdit p.text [label ++ ':' :: left, p.body ++ right]

/-- The text with the given lines. -/
def textOf (lines : List (List Char)) : String :=
  String.ofList (['\n'].intercalate lines)

/-- An edit of a text at one of its lines. -/
inductive Edit : String → String → Prop
  | line (before after : List (List Char)) {l : List Char} {lines : List (List Char)}
      (hlines : ∀ m ∈ before ++ l :: after, '\n' ∉ m) (h : LineEdit l lines) :
      Edit (textOf (before ++ l :: after)) (textOf (before ++ (lines ++ after)))

/-! ## Edits keep the items -/

theorem fields_gap {gap : List Char} (h : isGap gap = true) : Text.fields gap = [] := by
  rw [← List.append_nil gap, Text.fields_blanks_append (isGap_iff.mp h).1]
  rfl

theorem apart_iff {rest : List Char} :
    rest.head?.all Text.isBlank = true ↔ ∀ c ∈ rest.head?, Text.isBlank c = true := by
  cases rest <;> simp

theorem fields_field {gap field rest : List Char} (hgap : isGap gap = true) (hfield : isField field = true)
    (happart : rest.head?.all Text.isBlank = true) :
    Text.fields (gap ++ (field ++ rest)) = field :: Text.fields rest := by
  obtain ⟨hne, hword⟩ := isField_iff.mp hfield
  exact Text.fields_word (isGap_iff.mp hgap).1 hword hne (apart_iff.mp happart)

theorem Respaced.fields_eq {body body' : List Char} (h : Respaced body body') :
    Text.fields body' = Text.fields body := by
  induction h with
  | gap hgap hgap' => rw [fields_gap hgap, fields_gap hgap']
  | field hgap hgap' hfield happart happart' _ ih =>
    rw [fields_field hgap hfield happart, fields_field hgap' hfield happart', ih]

theorem RespacedLabel.trim_eq {label label' : Option (List Char)} (h : RespacedLabel label label') :
    label'.map Text.trim = label.map Text.trim := by
  cases h with
  | none => rfl
  | some label hbefore hafter hbefore' hafter' =>
    simp only [Option.map_some, Text.trim_blanks_append (isGap_iff.mp hbefore).1,
      Text.trim_blanks_append (isGap_iff.mp hbefore').1, Text.trim_append_blanks (isGap_iff.mp hafter).1,
      Text.trim_append_blanks (isGap_iff.mp hafter').1]

theorem toLower_cases (c : Char) :
    c.toLower = c ∨ 65 ≤ c.toNat ∧ c.toNat ≤ 90 ∧ c.toLower.toNat = c.toNat + 32 := by
  unfold Char.toLower
  split
  next h =>
    right
    obtain ⟨hlow, hhigh⟩ := h
    have hlow : 65 ≤ c.val.toNat := UInt32.le_iff_toNat_le.mp hlow
    have hhigh : c.val.toNat ≤ 90 := UInt32.le_iff_toNat_le.mp hhigh
    refine ⟨hlow, hhigh, ?_⟩
    change (c.val + 32).toNat = c.val.toNat + 32
    rw [UInt32.toNat_add]
    change (c.val.toNat + 32) % 4294967296 = _
    omega
  next => exact .inl rfl

theorem isBlank_toLower (c : Char) : Text.isBlank c.toLower = Text.isBlank c := by
  obtain h | ⟨hlow, hhigh, hlower⟩ := toLower_cases c
  · rw [h]
  · have hblank : ∀ d : Char, 65 ≤ d.toNat → d.toNat ≤ 122 → Text.isBlank d = false := by
      intro d hd hd'
      simp only [Text.isBlank, Bool.or_eq_false_iff, Bool.and_eq_false_iff, decide_eq_false_iff_not,
        beq_eq_false_iff_ne]
      omega
    rw [hblank c hlow (by omega), hblank c.toLower (by omega) (by omega)]

theorem lowerChar_toLower (c : Char) : Text.lowerChar c.toLower = Text.lowerChar c := by
  obtain h | ⟨hlow, hhigh, hlower⟩ := toLower_cases c
  · rw [h]
  · have hfind : (Text.lowerRows.find? fun r => r.1 ≤ c.toNat && c.toNat ≤ r.2.1 && (c.toNat - r.1) % r.2.2.1 == 0) =
        some (0x41, 0x5a, 1, 32) := by
      rw [Text.lowerRows]
      apply List.find?_cons_of_pos
      simp [hlow, hhigh, Nat.mod_one]
    have hrow : Text.lowerChar c = Char.ofNat (c.toNat + 32) := by
      simp only [Text.lowerChar, hfind]
      rfl
    rw [lowerChar_of_small (by omega) (by omega), hrow, ← hlower, Char.ofNat_toNat]

section Recased

variable {word word' : List Char} (hcase : word'.map Char.toLower = word.map Char.toLower)

include hcase

theorem isField_recased (hword : isField word = true) : isField word' = true := by
  obtain ⟨hne, hblank⟩ := isField_iff.mp hword
  rw [isField_iff]
  constructor
  · rintro rfl
    exact hne (List.map_eq_nil_iff.mp hcase.symm)
  · intro c hc
    have hmem : c.toLower ∈ word.map Char.toLower := hcase ▸ List.mem_map_of_mem hc
    obtain ⟨d, hd, heq⟩ := List.mem_map.mp hmem
    rw [← isBlank_toLower, ← heq, isBlank_toLower, hblank d hd]

theorem lower_recased : Text.lower (String.ofList word') = Text.lower (String.ofList word) := by
  have hlower : ∀ w : List Char, (w.map Char.toLower).map Text.lowerChar = w.map Text.lowerChar := by
    intro w
    rw [List.map_map]
    exact List.map_congr_left fun c _ => lowerChar_toLower c
  rw [Text.lower, Text.lower, String.toList_ofList, String.toList_ofList, ← hlower, hcase, hlower]

end Recased

section Lines

variable {hasTable : Bool}

theorem readStatement_of_lower {word word' : String} (h : Text.lower word' = Text.lower word) (args : List String) :
    (readStatement hasTable (word' :: args)).toOption = (readStatement hasTable (word :: args)).toOption := by
  simp only [readStatement, h]
  cases Opcode.ofMnemonic? (Text.lower word) <;> rfl

theorem Recased.readStatement_eq {body body' : List Char} (h : Recased body body') :
    (readStatement hasTable (fieldTexts body')).toOption = (readStatement hasTable (fieldTexts body)).toOption := by
  cases h with
  | mnemonic hgap hword happart hcase =>
    rw [fieldTexts, fieldTexts, fields_field hgap hword happart,
      fields_field hgap (isField_recased hcase hword) happart]
    exact readStatement_of_lower (lower_recased hcase) _

theorem ofChars_idle {new : Spelling} (hlabel : new.label = none) (hbody : isGap new.body = true) :
    Line.ofChars new.text = blankLine := by
  rw [new.ofChars_text, hlabel, fieldTexts, fields_gap hbody]
  rfl

theorem items_blankLine : blankLine.items hasTable = some [] := rfl

theorem ofChars_append_comment (l : List Char) {c : Char} (hc : isCommentStart c = true) (text : List Char) :
    Line.ofChars (l ++ c :: text) = Line.ofChars l := by
  have htake : (l ++ c :: text).takeWhile (fun c => !isCommentStart c) = l.takeWhile fun c => !isCommentStart c := by
    induction l with
    | nil => simp [hc]
    | cons d l ih => simp [List.takeWhile_cons, ih]
  simp only [Line.ofChars, htake]

theorem isRemark_moved {p : Spelling} {left right : List Char}
    (h : left = [] ∧ right = p.remark ∨ left = p.remark ∧ right = []) :
    isRemark left = true ∧ isRemark right = true := by
  obtain ⟨rfl, rfl⟩ | ⟨rfl, rfl⟩ := h
  · exact ⟨rfl, p.remark_comment⟩
  · exact ⟨p.remark_comment, rfl⟩

/-- A label and an instruction are the same items on one line and on two. -/
theorem items_moved (label : String) (fields : List String) :
    items hasTable [{ label := some label, fields := [] }, { label := none, fields := fields }] =
      Line.items hasTable { label := some label, fields := fields } := by
  rw [items, items_singleton]
  simp only [Line.items, readStatement, Except.toOption, Option.map_some, Option.bind_some, Option.map_map]
  rfl

theorem LineEdit.items_eq {l : List Char} {lines : List (List Char)} (h : LineEdit l lines) :
    items hasTable (lines.map Line.ofChars) = (Line.ofChars l).items hasTable := by
  cases h with
  | insertBefore l hlabel hbody =>
    rw [List.map_cons, ofChars_idle hlabel hbody, items, items_blankLine, List.map_singleton, items_singleton]
    simp
  | insertAfter l hlabel hbody =>
    rw [List.map_cons, List.map_singleton, ofChars_idle hlabel hbody, items, items_singleton, items_blankLine]
    simp
  | comment l hc htext => rw [List.map_singleton, items_singleton, ofChars_append_comment l hc]
  | @respace p p' hlabel hbody hremark =>
    have htrim := congrArg (Option.map String.ofList) hlabel.trim_eq
    simp only [Option.map_map, Function.comp_def] at htrim
    rw [List.map_singleton, items_singleton, p.ofChars_text, p'.ofChars_text, htrim, fieldTexts, fieldTexts,
      hbody.fields_eq]
  | @recase p p' hlabel hbody hremark =>
    rw [List.map_singleton, items_singleton, p.ofChars_text, p'.ofChars_text, hlabel, Line.items, Line.items,
      hbody.readStatement_eq]
  | @move p label left right hlabel hcolon hremark =>
    obtain ⟨hcode, hfree⟩ := p.code_of_label hlabel
    obtain ⟨hleft, hright⟩ := isRemark_moved hremark
    have hbody := (isCode_iff.mp p.body_code).1
    have hfirst : Line.ofChars (label ++ ':' :: left) =
        { label := some (String.ofList (Text.trim label)), fields := [] } :=
      @ofChars_labelled label [] left (by simp) (isRemark_iff.mp hleft).1 (isCode_iff.mp hcode).1 hfree
    have hsecond := ofChars_unlabelled hbody (isRemark_iff.mp hright).1 hcolon
    rw [List.map_cons, List.map_singleton, hfirst, hsecond, p.ofChars_text, hlabel]
    exact items_moved _ _

end Lines

theorem LineEdit.ne_nil {l : List Char} {lines : List (List Char)} (h : LineEdit l lines) : lines ≠ [] := by
  cases h <;> exact List.cons_ne_nil _ _

theorem LineEdit.newline_not_mem {l : List Char} {lines : List (List Char)} (h : LineEdit l lines) (hl : '\n' ∉ l) :
    ∀ l' ∈ lines, '\n' ∉ l' := by
  cases h with
  | @insertBefore _ new _ _ => simpa using ⟨new.newline_not_mem, hl⟩
  | @insertAfter _ new _ _ => simpa using ⟨hl, new.newline_not_mem⟩
  | @comment _ c text hc htext =>
    have hne : '\n' ≠ c := by
      rintro rfl
      cases hc
    simpa using ⟨hl, hne, htext⟩
  | @respace _ p' _ _ _ | @recase _ p' _ _ _ => simpa using p'.newline_not_mem
  | @move p label left right hlabel hcolon hremark =>
    obtain ⟨hleft, hright⟩ := isRemark_moved hremark
    have hlabel := (isCode_iff.mp (p.code_of_label hlabel).1).2
    have hbody := (isCode_iff.mp p.body_code).2
    have hleft := (isRemark_iff.mp hleft).2
    have hright := (isRemark_iff.mp hright).2
    simp [hlabel, hbody, hleft, hright]

theorem sourceLines_textOf {lines : List (List Char)} (hne : lines ≠ []) (h : ∀ l ∈ lines, '\n' ∉ l) :
    sourceLines (textOf lines) = lines.map Line.ofChars := by
  rw [sourceLines, textOf, String.toList_ofList, Text.splitAt_intercalate hne h]

theorem Edit.items_eq {source source' : String} (h : Edit source source') (hasTable : Bool) :
    items hasTable (sourceLines source') = items hasTable (sourceLines source) := by
  cases h with
  | @line before after l lines hlines hedit =>
    obtain ⟨hbefore, hrest⟩ := List.forall_mem_append.mp hlines
    obtain ⟨hl, hafter⟩ := List.forall_mem_cons.mp hrest
    have hnew : ∀ m ∈ before ++ (lines ++ after), '\n' ∉ m :=
      List.forall_mem_append.mpr ⟨hbefore, List.forall_mem_append.mpr ⟨hedit.newline_not_mem hl, hafter⟩⟩
    rw [sourceLines_textOf (by simp) hlines, sourceLines_textOf (by simp [hedit.ne_nil]) hnew]
    simp only [List.map_append, List.map_cons, items_append, items, hedit.items_eq]

theorem items_of_edits {source source' : String} (h : Relation.ReflTransGen Edit source source') (hasTable : Bool) :
    items hasTable (sourceLines source') = items hasTable (sourceLines source) := by
  induction h with
  | refl => rfl
  | tail _ hedit ih => rw [hedit.items_eq, ih]

/-- However often the layout of a text is edited, the text is assembled exactly if it was before, to the same code and
labels and with the same ids of functions. The branches that are left may be looked through in another order each
time. -/
theorem layout_immaterial {source source' : String} (h : Relation.ReflTransGen Edit source source')
    (order order' : List Pending → List Pending) (horder : ∀ ps, (order ps).Perm ps)
    (horder' : ∀ ps, (order' ps).Perm ps) (builder builder' : Option TableBuilder) (r : Assembled) :
    assembleIn order source builder = (.ok r, builder') ↔ assembleIn order' source' builder = (.ok r, builder') := by
  rw [assembleIn_eq horder, assembleIn_eq horder', twoPass_eq_ok_iff, twoPass_eq_ok_iff, items_of_edits h]

namespace Errand

/-- A branch to a line with a call. -/
def text : String :=
  "top: br end\nend: call f"

/-- The same with comments, with the branch on a line of its own, and with other letters and blanks. -/
def relaid : String :=
  "# :\n top :\n\tBr  end;a:b\nend: call f"

def branch : Spelling where
  label := some ['t', 'o', 'p']
  body := [' ', 'b', 'r', ' ', 'e', 'n', 'd']

def spaced : Spelling where
  label := some [' ', 't', 'o', 'p', ' ']
  body := ['\t', 'b', 'r', ' ', ' ', 'e', 'n', 'd']

def raised : Spelling :=
  { spaced with body := ['\t', 'B', 'r', ' ', ' ', 'e', 'n', 'd'] }

def heading : Spelling where
  remark := ['#', ' ', ':']

def call : List Char :=
  ['e', 'n', 'd', ':', ' ', 'c', 'a', 'l', 'l', ' ', 'f']

theorem branch_spaced : LineEdit branch.text [spaced.text] := by
  have hlabel : RespacedLabel branch.label spaced.label :=
    @RespacedLabel.some [] [] [' '] [' '] ['t', 'o', 'p'] rfl rfl rfl rfl
  have hend : Respaced [' ', 'e', 'n', 'd'] [' ', ' ', 'e', 'n', 'd'] :=
    @Respaced.field [' '] [' ', ' '] ['e', 'n', 'd'] [] [] rfl rfl rfl rfl rfl (.gap rfl rfl)
  have hbody : Respaced branch.body spaced.body :=
    @Respaced.field [' '] ['\t'] ['b', 'r'] _ _ rfl rfl rfl rfl rfl hend
  exact .respace hlabel hbody rfl

theorem spaced_raised : LineEdit spaced.text [raised.text] := by
  have hbody : Recased spaced.body raised.body :=
    @Recased.mnemonic ['\t'] ['b', 'r'] ['B', 'r'] _ rfl rfl rfl rfl
  exact .recase rfl hbody rfl

theorem raised_moved : LineEdit raised.text [[' ', 't', 'o', 'p', ' ', ':'], raised.body] :=
  .move (p := raised) rfl (by decide) (.inl ⟨rfl, rfl⟩)

theorem heading_inserted (l : List Char) : LineEdit l [heading.text, l] :=
  .insertBefore l rfl rfl

theorem raised_explained : LineEdit raised.body [['\t', 'B', 'r', ' ', ' ', 'e', 'n', 'd', ';', 'a', ':', 'b']] :=
  @LineEdit.comment _ ';' ['a', ':', 'b'] rfl (by decide)

theorem edits : Relation.ReflTransGen Edit text relaid := by
  refine .head (.line [] [call] (by decide) branch_spaced) ?_
  refine .head (.line [] [call] (by decide) spaced_raised) ?_
  refine .head (.line [] [call] (by decide) raised_moved) ?_
  refine .head (.line [] [raised.body, call] (by decide) (heading_inserted _)) ?_
  exact .single (.line [heading.text, [' ', 't', 'o', 'p', ' ', ':']] [call] (by decide) raised_explained)

theorem relaid_assembled :
    Relation.ReflTransGen Edit text relaid ∧ (∀ ps : List Pending, ps.reverse.Perm ps) ∧
    assembleIn List.reverse text (some .empty) =
      (.ok { code := #[6, 2, 16, 0], labels := [("top", 0), ("end", 2)] }, some (TableBuilder.empty.insert "f")) ∧
    assembleIn id relaid (some .empty) =
      (.ok { code := #[6, 2, 16, 0], labels := [("top", 0), ("end", 2)] }, some (TableBuilder.empty.insert "f")) := by
  have hassembled : assembleIn List.reverse text (some .empty) =
      (.ok { code := #[6, 2, 16, 0], labels := [("top", 0), ("end", 2)] }, some (TableBuilder.empty.insert "f")) := rfl
  refine ⟨edits, List.reverse_perm, hassembled, ?_⟩
  exact (layout_immaterial edits List.reverse id List.reverse_perm (fun ps => .refl ps) _ _ _).mp hassembled

end Errand

end StackMachine.Assembly
