import StackMachine.CommandLine.Options
import StackMachine.Listing
import StackMachine.Manifest.Load
import StackMachine.RunStore.Basic
import StackMachine.Service

/-!
# The command

Runs, lists or compiles one program file. Only the program's output and listings go to standard output;
traces, dumps, statistics and errors go to standard error. Tracing, dumping, counting and recording look at
a run and do not change it.
-/

set_option autoImplicit false

namespace StackMachine.CommandLine

/-- Why no run store could be opened. -/
inductive OpenError where
  | unreachable
  | notStore
  deriving DecidableEq, Repr

def OpenError.message : OpenError → String
  | unreachable => "setting busy timeout: unable to open database file: out of memory (14)"
  | notStore => "creating tables: file is not a database (26)"

/-- What the command finds around it. -/
structure Host where
  read : FileReader
  /-- Why a file cannot be written, if it cannot. -/
  refuses : String → Option FileError
  openStore : String → Except OpenError RunStore
  /-- The identity and the times of a run. -/
  occasion : Occasion

inductive CommandError where
  | store (e : OpenError)
  | arguments
  | offline (flag : String)
  | load (e : LoadError)
  | image (e : ImageError)
  | table (e : TableError)
  | write (path : String) (e : FileError)
  | machine (e : Image.MachineError)
  | run (f : Machine.Failure)
  | record (e : StoreError)
  deriving DecidableEq, Repr

namespace CommandError

def message : CommandError → String
  | store e => e.message
  | arguments => "expected exactly one program file"
  | offline flag => "-" ++ flag ++ " needs a network, which this command does not use"
  | load e => e.message
  | image e => e.message
  | table e => e.message
  | write path e => "cannot write " ++ path ++ ": " ++ e.message
  | machine e => e.message
  | run f => f.message
  | record e => e.message

/-- The exit status; a machine that had to be abandoned takes the command with it. -/
def status : CommandError → Nat
  | run (.abandoned _) => 2
  | _ => 1

/-- The last line on standard error. -/
def line (e : CommandError) : String :=
  match e with
  | run (.abandoned a) => "panic: " ++ a.message ++ "\n"
  | e => "stackvm: " ++ e.message ++ "\n"

end CommandError

/-- What a command did: its output, what it reported, how it failed, and what it left behind. -/
structure Report where
  stdout : String := ""
  diagnostics : String := ""
  error : Option CommandError := none
  /-- A file to write. -/
  written : Option (String × Bytes) := none
  /-- The run store afterwards, if one was opened. -/
  store : Option RunStore := none

/-- The counters of a run and its five most frequent opcodes. -/
def statsText (s : Stats) : String :=
  let counters := "cycles=" ++ Text.decimal s.cycles ++ " calls=" ++ Text.decimal s.calls ++
    " returns=" ++ Text.decimal s.returns ++ " max-depth=" ++ Text.decimal s.maxDepth ++ "\n"
  let top := (s.top 5).map fun t => t.1.mnemonic ++ "=" ++ Text.decimal t.2
  if top.isEmpty then counters else counters ++ "top: " ++ " ".intercalate top ++ "\n"

def contextOf (o : Options) : Context :=
  if 0 < o.timeout then .within o.timeout else .unlimited

/-- The record of a run. -/
def recordOf (img : Image) (m : Machine) (failure : Option Machine.Failure) (o : Occasion) : RunRecord where
  id := o.runId
  imageHash := img.hash
  halted := failure.isNone
  fault := match failure with
    | some f => f.message
    | none => ""
  cycles := UInt64.ofNat m.state.stats.cycles
  output := m.state.sink.taken
  startedAt := o.startedAt
  duration := o.duration

/-- Stores the image and the record of a run. -/
def keep (st : RunStore) (img : Image) (r : RunRecord) : Except StoreError RunStore := do
  let (_, st) ← st.put img
  st.record r

/-- What a run reports on standard error besides its failure. -/
def diagnosticsOf (o : Options) (m : Machine) : String :=
  m.state.trace ++
    (if o.dump then String.join m.state.dump else "") ++
    (if o.stats then statsText m.state.stats else "")

/-- What is reported of a run that was abandoned. -/
def abandonedReport (a : Abandoned) (m : Machine) (st : Option RunStore) : Report where
  stdout := m.state.sink.taken
  diagnostics := m.state.trace
  error := some (.run (.abandoned a))
  store := st

/-- What is reported of a run that has come to an end. -/
def reportOf (o : Options) (m : Machine) (failure : Option Machine.Failure) (st : Option RunStore) : Report where
  stdout := m.state.sink.taken
  diagnostics := diagnosticsOf o m
  error := failure.map .run
  store := st

/-- Runs an image here. A machine that is abandoned, even while it is made, takes the command with it. -/
def runLocal (h : Host) (o : Options) (img : Image) (st : Option RunStore) : Report :=
  match img.machine { tracing := o.trace } with
  | .error (.setup (.abandoned a)) => { error := some (.run (.abandoned a)), store := st }
  | .error e => { error := some (.machine e), store := st }
  | .ok m =>
    match img.execute (contextOf o) m with
    | (m, some (.abandoned a)) => abandonedReport a m st
    | (m, failure) =>
      match st with
      | none => reportOf o m failure none
      | some st =>
        match keep st img (recordOf img m failure h.occasion) with
        | .ok st => reportOf o m failure (some st)
        | .error e => { reportOf o m failure (some st) with error := some (.record e) }

/-- Writes the encoded image to a file. -/
def compileTo (h : Host) (path : String) (img : Image) (st : Option RunStore) : Report :=
  match h.refuses path with
  | some e => { error := some (.write path e), store := st }
  | none =>
    { stdout := img.hash ++ " " ++ path ++ " (" ++ Text.decimal img.encode.length ++ " bytes)\n"
      written := some (path, img.encode)
      store := st }

def disassemble (img : Image) (st : Option RunStore) : Report :=
  match img.table with
  | .error e => { error := some (.table e), store := st }
  | .ok t => { stdout := Listing.text img.words (some t), store := st }

/-- The image of a program file, started at the function that the options name. -/
def imageOf (h : Host) (o : Options) (path : String) : Except CommandError Image := do
  let img ← (Image.load h.read path).mapError .load
  if o.entry = "" then return img
  else
    let img := { img with entry := o.entry }
    img.validate.mapError .image
    return img

/-- Carries out the command with an open store or none. -/
def perform (h : Host) (o : Options) (arguments : List String) (st : Option RunStore) : Report :=
  if o.serve then { error := some (.offline "serve"), store := st }
  else
    match arguments with
    | [path] =>
      match imageOf h o path with
      | .error e => { error := some e, store := st }
      | .ok img =>
        if o.disasm then disassemble img st
        else if o.compile ≠ "" then compileTo h o.compile img st
        else if o.remote ≠ "" then { error := some (.offline "remote"), store := st }
        else runLocal h o img st
    | _ => { diagnostics := usage, error := some .arguments, store := st }

/-- Opens the store that the options name and carries out the command. -/
def performWith (h : Host) (o : Options) (arguments : List String) : Report :=
  if o.store = "" then perform h o arguments none
  else
    match h.openStore o.store with
    | .error e => { error := some (.store e) }
    | .ok st => perform h o arguments (some st)

/-- What is seen of a command from outside, and what it leaves behind. -/
structure Outcome where
  exit : Nat
  stdout : String
  stderr : String
  written : Option (String × Bytes) := none
  /-- The run store afterwards and its path. -/
  stored : Option (String × RunStore) := none

def Report.outcome (r : Report) (storePath : String) : Outcome where
  exit := match r.error with
    | some e => e.status
    | none => 0
  stdout := r.stdout
  stderr := r.diagnostics ++
    (match r.error with
    | some e => e.line
    | none => "")
  written := r.written
  stored := r.store.map (storePath, ·)

/-- The outcome of the command with the given arguments. -/
def run (h : Host) (arguments : List String) : Outcome :=
  match parse {} arguments with
  | .error e => { exit := if e = .help then 0 else 2, stdout := "", stderr := e.message ++ usage }
  | .ok (o, rest) => (performWith h o rest).outcome o.store

end StackMachine.CommandLine
