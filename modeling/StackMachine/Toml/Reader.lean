import StackMachine.Toml.Number

/-!
# Reading TOML

Text to statements. Each function takes what it reads off the front of the text and returns the rest. Line
ends are a line feed, alone or after a carriage return; other control characters than the tab are refused
everywhere.
-/

set_option autoImplicit false

namespace StackMachine.Toml

def isSpace (c : Char) : Bool :=
  c == ' ' || c == '\t'

def skipSpace (cs : List Char) : List Char :=
  cs.dropWhile isSpace

/-- Skips blanks, line ends and comments. -/
def skipTrivia (inComment : Bool) : List Char → List Char
  | [] => []
  | c :: cs =>
    if inComment then skipTrivia (c != '\n') cs
    else if isSpace c || c == '\n' || c == '\r' then skipTrivia false cs
    else if c == '#' then skipTrivia true cs
    else c :: cs

def isBareKeyChar (c : Char) : Bool :=
  c.isAlphanum || c == '_' || c == '-'

/-! ### Strings -/

/-- A character by its number in `width` hexadecimal digits. -/
def readCodePoint (width : Nat) (cs : List Char) : Option (Char × List Char) :=
  if (cs.take width).length = width then (Text.codePoint? (cs.take width)).map (·, cs.drop width) else none

/-- The character after a backslash. -/
def readEscape : List Char → Option (Char × List Char)
  | 'b' :: cs => some ('\x08', cs)
  | 't' :: cs => some ('\t', cs)
  | 'n' :: cs => some ('\n', cs)
  | 'f' :: cs => some ('\x0c', cs)
  | 'r' :: cs => some ('\r', cs)
  | 'e' :: cs => some ('\x1b', cs)
  | '"' :: cs => some ('"', cs)
  | '\\' :: cs => some ('\\', cs)
  | 'x' :: cs => readCodePoint 2 cs
  | 'u' :: cs => readCodePoint 4 cs
  | 'U' :: cs => readCodePoint 8 cs
  | _ => none

/-- The rest of a one-line string with escapes; `done` holds its characters so far, last first. -/
def readBasic : Nat → List Char → List Char → Option (String × List Char)
  | 0, _, _ => none
  | fuel + 1, done, cs =>
    match cs with
    | [] => none
    | '"' :: cs => some (String.ofList done.reverse, cs)
    | '\n' :: _ => none
    | '\\' :: cs => do
      let (c, cs) ← readEscape cs
      readBasic fuel (c :: done) cs
    | c :: cs => readBasic fuel (c :: done) cs

/-- The rest of a one-line string without escapes. -/
def readLiteral (cs : List Char) : Option (String × List Char) :=
  match cs.dropWhile fun c => c != '\'' && c != '\n' with
  | '\'' :: rest => some (String.ofList (cs.takeWhile fun c => c != '\'' && c != '\n'), rest)
  | _ => none

/-- A line end right after the opening quotes does not count. -/
def dropFirstLineEnd : List Char → List Char
  | '\n' :: cs => cs
  | '\r' :: '\n' :: cs => cs
  | cs => cs

def isFold (c : Char) : Bool :=
  c == ' ' || c == '\t' || c == '\r' || c == '\n'

/-- The rest of a string over several lines, closed by three `quote`s. Up to two more belong to its end. With
`escapes`, a backslash at the end of a line removes the line end and the blanks after it. -/
def readMultiline (quote : Char) (escapes : Bool) :
    Nat → List Char → List Char → Option (String × List Char)
  | 0, _, _ => none
  | fuel + 1, done, cs =>
    match cs with
    | [] => none
    | c :: rest =>
      if c = quote then
        let quotes := cs.takeWhile (· == quote)
        if quotes.length < 3 then readMultiline quote escapes fuel (c :: done) rest
        else if quotes.length ≤ 5 then
          some (String.ofList (quotes.drop 3 ++ done).reverse, cs.dropWhile (· == quote))
        else none
      else if escapes && c == '\\' then
        if (rest.takeWhile isFold).contains '\n' then
          readMultiline quote escapes fuel done (rest.dropWhile isFold)
        else do
          let (e, rest) ← readEscape rest
          readMultiline quote escapes fuel (e :: done) rest
      else readMultiline quote escapes fuel (c :: done) rest

/-! ### Keys -/

def readKey (cs : List Char) : Option (String × List Char) :=
  match cs with
  | '"' :: cs => readBasic (cs.length + 1) [] cs
  | '\'' :: cs => readLiteral cs
  | cs =>
    if (cs.takeWhile isBareKeyChar).isEmpty then none
    else some (String.ofList (cs.takeWhile isBareKeyChar), cs.dropWhile isBareKeyChar)

/-- Keys with dots between them, blanks around all of them. -/
def readPath : Nat → List Char → Option (Path × List Char)
  | 0, _ => none
  | fuel + 1, cs => do
    let (key, cs) ← readKey (skipSpace cs)
    match skipSpace cs with
    | '.' :: cs =>
      let (path, cs) ← readPath fuel cs
      return (key :: path, cs)
    | cs => return ([key], cs)

/-! ### Values -/

def isWordChar (c : Char) : Bool :=
  c.isAlphanum || c == '+' || c == '-' || c == '.' || c == '_' || c == ':'

/-- The run of characters of a number, truth value or date; a blank may divide a date from its time. -/
def readWord (cs : List Char) : Option (Expr × List Char) :=
  let run := cs.takeWhile isWordChar
  let rest := cs.dropWhile isWordChar
  match rest with
  | ' ' :: d :: rest' =>
    if Text.isDigit d && afterDate run == some [] then
      let time := (d :: rest').takeWhile isWordChar
      (word? (run ++ ' ' :: time)).map fun v => (v, (d :: rest').dropWhile isWordChar)
    else (word? run).map fun v => (v, rest)
  | _ => (word? run).map fun v => (v, rest)

mutual

def readValue : Nat → List Char → Option (Expr × List Char)
  | 0, _ => none
  | fuel + 1, cs =>
    match cs with
    | '"' :: '"' :: '"' :: cs =>
      (readMultiline '"' true (cs.length + 1) [] (dropFirstLineEnd cs)).map fun (s, cs) => (.string s, cs)
    | '\'' :: '\'' :: '\'' :: cs =>
      (readMultiline '\'' false (cs.length + 1) [] (dropFirstLineEnd cs)).map fun (s, cs) => (.string s, cs)
    | '"' :: cs => (readBasic (cs.length + 1) [] cs).map fun (s, cs) => (.string s, cs)
    | '\'' :: cs => (readLiteral cs).map fun (s, cs) => (.string s, cs)
    | '[' :: cs => (readItems fuel [] cs).map fun (items, cs) => (.array items, cs)
    | '\x7b' :: cs => (readEntries fuel [] cs).map fun (entries, cs) => (.inline entries, cs)
    | cs => readWord cs

/-- The rest of an array; `done` holds the earlier items, last first. -/
def readItems : Nat → List Expr → List Char → Option (List Expr × List Char)
  | 0, _, _ => none
  | fuel + 1, done, cs =>
    match skipTrivia false cs with
    | ']' :: cs => some (done.reverse, cs)
    | cs => do
      let (v, cs) ← readValue fuel cs
      match skipTrivia false cs with
      | ',' :: cs => readItems fuel (v :: done) cs
      | ']' :: cs => return ((v :: done).reverse, cs)
      | _ => none

/-- The rest of an inline table; `done` holds the earlier entries, last first. -/
def readEntries : Nat → List (Path × Expr) → List Char → Option (List (Path × Expr) × List Char)
  | 0, _, _ => none
  | fuel + 1, done, cs =>
    match skipTrivia false cs with
    | '\x7d' :: cs => some (done.reverse, cs)
    | cs => do
      let (path, cs) ← readPath (cs.length + 1) cs
      let cs ← expect '=' cs
      let (v, cs) ← readValue fuel (skipSpace cs)
      match skipTrivia false cs with
      | ',' :: cs => readEntries fuel ((path, v) :: done) cs
      | '\x7d' :: cs => return (((path, v) :: done).reverse, cs)
      | _ => none

end

/-! ### Statements -/

def readStatement (cs : List Char) : Option (Statement × List Char) :=
  match cs with
  | '[' :: '[' :: cs => do
    let (path, cs) ← readPath (cs.length + 1) cs
    match cs with
    | ']' :: ']' :: cs => return (.element path, cs)
    | _ => none
  | '[' :: cs => do
    let (path, cs) ← readPath (cs.length + 1) cs
    let cs ← expect ']' cs
    return (.table path, cs)
  | cs => do
    let (path, cs) ← readPath (cs.length + 1) cs
    let cs ← expect '=' cs
    let (v, cs) ← readValue (cs.length + 1) (skipSpace cs)
    return (.assign path v, cs)

/-- Nothing but blanks and a comment may follow a statement on its line. -/
def isLineEnd (cs : List Char) : Bool :=
  match skipSpace cs with
  | [] => true
  | c :: _ => c == '\n' || c == '\r' || c == '#'

def readStatements : Nat → List Char → Option (List Statement)
  | 0, _ => none
  | fuel + 1, cs =>
    match skipTrivia false cs with
    | [] => some []
    | cs => do
      let (s, cs) ← readStatement cs
      if isLineEnd cs then
        let rest ← readStatements fuel cs
        return s :: rest
      else none

/-- Tabs, line feeds, and carriage returns before a line feed are the only control characters. -/
def isClean : List Char → Bool
  | [] => true
  | '\r' :: cs => cs.head? == some '\n' && isClean cs
  | c :: cs => (c == '\t' || c == '\n' || (0x20 ≤ c.toNat && c != '\x7f')) && isClean cs

def statements (text : String) : Option (List Statement) :=
  let cs := text.toList
  if isClean cs then readStatements (cs.length + 1) cs else none

end StackMachine.Toml
