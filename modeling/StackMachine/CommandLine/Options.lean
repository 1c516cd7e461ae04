import StackMachine.CommandLine.Value
import StackMachine.Text.Quoted

/-!
# Options of the command line

Flags have one or two dashes and take their value after an equals sign or as the next argument; switches
take one only after an equals sign. Flags end at the first argument that is none, or after a bare `--`.
-/

set_option autoImplicit false

namespace StackMachine.CommandLine

structure Options where
  verbosity : Word := 0
  trace : Bool := false
  dump : Bool := false
  stats : Bool := false
  entry : String := ""
  /-- In nanoseconds, zero for no limit. -/
  timeout : Word := 0
  disasm : Bool := false
  compile : String := ""
  store : String := ""
  remote : String := ""
  serve : Bool := false
  port : Word := 7070
  workers : Word := 0
  maxMemory : Word := 0
  deriving DecidableEq, Repr

/-- What a flag takes and which option it sets. -/
inductive FlagKind where
  | switch (set : Options → Bool → Options)
  | text (set : Options → String → Options)
  | number (set : Options → Word → Options)
  | duration (set : Options → Word → Options)

structure Flag where
  name : String
  kind : FlagKind
  help : String

/-- All flags, by name. -/
def flags : List Flag :=
  [ ⟨"compile", .text fun o s => { o with compile := s },
      "Write the program as a CBOR image to this file instead of running"⟩,
    ⟨"disasm", .switch fun o b => { o with disasm := b }, "Print a disassembly listing instead of running"⟩,
    ⟨"dump", .switch fun o b => { o with dump := b }, "Dump global memory to stderr after the run"⟩,
    ⟨"entry", .text fun o s => { o with entry := s },
      "Function to start at (default: the entry descriptor)"⟩,
    ⟨"max-memory", .number fun o n => { o with maxMemory := n },
      "Largest machine, in words, a served image may request (default: 4Mi)"⟩,
    ⟨"port", .number fun o n => { o with port := n },
      "Execution server port (used with -serve) (default 7070)"⟩,
    ⟨"remote", .text fun o s => { o with remote := s }, "Execute on a stackvm server at this URL"⟩,
    ⟨"serve", .switch fun o b => { o with serve := b },
      "Start the execution server (gRPC + Connect HTTP/JSON)"⟩,
    ⟨"stats", .switch fun o b => { o with stats := b }, "Print execution statistics to stderr"⟩,
    ⟨"store", .text fun o s => { o with store := s }, "SQLite database recording images and runs"⟩,
    ⟨"timeout", .duration fun o n => { o with timeout := n },
      "Abort the run after this long (0 = no limit)"⟩,
    ⟨"trace", .switch fun o b => { o with trace := b }, "Trace every cycle to stderr"⟩,
    ⟨"v", .number fun o n => { o with verbosity := n },
      "Log verbosity (0 = quiet, 1 = info, 2 = debug)"⟩,
    ⟨"workers", .number fun o n => { o with workers := n },
      "Concurrent executions when serving (default: GOMAXPROCS)"⟩ ]

def FlagKind.placeholder : FlagKind → String
  | switch _ => ""
  | text _ => " string"
  | number _ => " int"
  | duration _ => " duration"

def usage : String :=
  "Usage: stackvm [options] program.\x7btoml,yaml,cbor\x7d\n\n" ++
  "Runs a stackvm program file or compiled image. Program output goes to\n" ++
  "stdout; traces, memory dumps and statistics go to stderr.\n\n" ++
  "Options:\n" ++
  String.join (flags.map fun f => "  -" ++ f.name ++ f.kind.placeholder ++ "\n    \t" ++ f.help ++ "\n") ++
  "\nExamples:\n" ++
  "  stackvm examples/factorial.toml              # Run a program\n" ++
  "  stackvm -trace -dump examples/loop.toml      # Trace and dump globals\n" ++
  "  stackvm -compile fact.cbor examples/factorial.toml\n" ++
  "  stackvm -serve -port 7070 -store runs.db     # Start the execution server\n" ++
  "  stackvm -remote http://localhost:7070 fact.cbor\n"

inductive FlagError where
  | help
  | malformed (argument : String)
  | undefined (name : String)
  | noArgument (name : String)
  | badSwitch (name value : String)
  | badValue (name value : String) (fault : ValueFault)
  deriving DecidableEq, Repr

/-- The line about an error; a request for help has none. -/
def FlagError.message : FlagError → String
  | help => ""
  | malformed argument => "bad flag syntax: " ++ argument ++ "\n"
  | undefined name => "flag provided but not defined: -" ++ name ++ "\n"
  | noArgument name => "flag needs an argument: -" ++ name ++ "\n"
  | badSwitch name value =>
    "invalid boolean value " ++ Text.quoted value ++ " for -" ++ name ++ ": parse error\n"
  | badValue name value fault =>
    "invalid value " ++ Text.quoted value ++ " for flag -" ++ name ++ ": " ++ fault.text ++ "\n"

/-- How an argument is spelled. -/
inductive Spelling where
  | positional
  | separator
  | malformed
  | flag (name : String) (value : Option String)
  deriving DecidableEq, Repr

/-- The name of a flag and what follows its equals sign. -/
def spellFlag (cs : List Char) : Spelling :=
  match cs with
  | [] => .malformed
  | c :: cs =>
    if c = '-' ∨ c = '=' then .malformed
    else
      let name := String.ofList (c :: cs.takeWhile (· != '='))
      match cs.dropWhile (· != '=') with
      | [] => .flag name none
      | _ :: value => .flag name (some (String.ofList value))

def spell (argument : String) : Spelling :=
  match argument.toList with
  | ['-', '-'] => .separator
  | '-' :: '-' :: cs => spellFlag cs
  | ['-'] => .positional
  | '-' :: cs => spellFlag cs
  | _ => .positional

/-- Sets an option from the text of its value. -/
def Flag.set (f : Flag) (o : Options) (value : String) : Except FlagError Options :=
  match f.kind with
  | .switch set =>
    match truth? value with
    | some b => .ok (set o b)
    | none => .error (.badSwitch f.name value)
  | .text set => .ok (set o value)
  | .number set => ((readInteger value).mapError (.badValue f.name value)).map (set o)
  | .duration set => ((readDuration value).mapError (.badValue f.name value)).map (set o)

def FlagKind.isSwitch : FlagKind → Bool
  | switch _ => true
  | _ => false

/-- Reads the flags; what is left are the arguments after them. -/
def parse (o : Options) (arguments : List String) : Except FlagError (Options × List String) :=
  match arguments with
  | [] => .ok (o, [])
  | argument :: rest =>
    match spell argument with
    | .positional => .ok (o, argument :: rest)
    | .separator => .ok (o, rest)
    | .malformed => .error (.malformed argument)
    | .flag name value =>
      match flags.find? (fun f => f.name == name), value, rest with
      | none, _, _ => .error (if name = "help" ∨ name = "h" then .help else .undefined name)
      | some f, some v, rest =>
        match f.set o v with
        | .ok o => parse o rest
        | .error e => .error e
      | some f, none, [] =>
        if f.kind.isSwitch then
          match f.set o "true" with
          | .ok o => .ok (o, [])
          | .error e => .error e
        else .error (.noArgument name)
      | some f, none, v :: rest =>
        if f.kind.isSwitch then
          match f.set o "true" with
          | .ok o => parse o (v :: rest)
          | .error e => .error e
        else
          match f.set o v with
          | .ok o => parse o rest
          | .error e => .error e
termination_by arguments.length

end StackMachine.CommandLine
