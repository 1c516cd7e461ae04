import StackMachine.Machine.Cycle

/-!
# Runs

Starting a machine, stepping it, and running it until it stops or its context no longer lets it go on. The
context is consulted before a cycle whenever the number of cycles is a multiple of the check interval.
-/

set_option autoImplicit false

namespace StackMachine

/-- What a run consults: it lets the run go on always, or for a number of consultations. -/
inductive Context where
  | unlimited
  | expiring (checks : Nat) (why : Cancellation)
  deriving DecidableEq, Repr

namespace Machine

/-- Why a request to a machine did not end in a normal halt. -/
inductive Failure where
  | run (e : RunError)
  | notRunning
  | noFunction (name : String)
  | abandoned (a : Abandoned)
  deriving DecidableEq, Repr

def Failure.message : Failure → String
  | run e => e.message
  | notRunning => "vm: machine is not running"
  | noFunction name => "vm: no function named " ++ Text.quoted name
  | abandoned a => a.message

/-- Prepares a run from an address: operands, frames and statistics of earlier runs are dropped, global memory
is kept. -/
def begin (c : Setup) (address : Word) : Access Unit := do
  modify fun s => { s with sp := -1, arena := s.arena.reset }
  Access.enter c.table.entry (-1) 0
  modify fun s => { s with
    ip := address.toInt
    stats := { maxDepth := 1 }
    status := .running }

/-- The context's answer before a cycle: the context to go on with, or why not. -/
def consult (c : Setup) (s : State) (ctx : Context) : Except Cancellation Context :=
  if s.stats.cycles % c.limits.checkInterval = 0 then
    match ctx with
    | .unlimited => .ok .unlimited
    | .expiring 0 why => .error why
    | .expiring (n + 1) why => .ok (.expiring n why)
  else .ok ctx

/-- One pass of a run: the context is consulted, and a cycle follows if it allows one. -/
def pass (c : Setup) (ctx : Context) : Access Context := fun s =>
  match consult c s ctx with
  | .error why => .ok ctx (s.fault s.ip 0 (.cancelled why))
  | .ok ctx =>
    match cycle c s with
    | .ok _ t => .ok ctx t
    | .error a t => .error a t

/-- Passes until the machine stops. A run that never ends has no result. -/
def Setup.run (c : Setup) (ctx : Context) (s : State) : Option (State × Option Abandoned) :=
  if s.status.isRunning then
    match pass c ctx s with
    | .ok ctx t => c |>.run ctx t
    | .error a t => some (t, some a)
  else some (s, none)
partial_fixpoint

def start (m : Machine) (address : Word) : Machine :=
  match begin m.setup address m.state with
  | .ok _ s | .error _ s => { m with state := s }

/-- The failure to report for a state that a request ended in. -/
def outcome (s : State) (a : Option Abandoned) : Option Failure :=
  match a with
  | some a => some (.abandoned a)
  | none => s.status.error?.map .run

/-- One cycle of a started machine. -/
def step (m : Machine) : Machine × Option Failure :=
  if m.state.status.isRunning then
    match cycle m.setup m.state with
    | .ok _ s => ({ m with state := s }, outcome s none)
    | .error a s => ({ m with state := s }, some (.abandoned a))
  else (m, some .notRunning)

/-- Starts at an address and runs, if that ever ends. -/
def execute? (m : Machine) (ctx : Context) (address : Word) : Option (Machine × Option Failure) :=
  match begin m.setup address m.state with
  | .ok _ s => (m.setup.run ctx s).map fun (s, a) => ({ m with state := s }, outcome s a)
  | .error a s => some ({ m with state := s }, some (.abandoned a))

/-- Starts at an address and runs. The machine as it was started stands for the result of a run without end. -/
def execute (m : Machine) (ctx : Context) (address : Word) : Machine × Option Failure :=
  (m.execute? ctx address).getD (m.start address, none)

/-- Runs from the entry descriptor's address. -/
def executeEntry (m : Machine) (ctx : Context) : Machine × Option Failure :=
  m.execute ctx m.setup.table.entry.address

/-- Runs from the address of a named function; an unknown name leaves the machine alone. -/
def executeFunction (m : Machine) (ctx : Context) (name : String) : Machine × Option Failure :=
  match (m.setup.table.idOf? name).bind fun id => m.setup.table.entries[id]? with
  | none => (m, some (.noFunction name))
  | some d => m.execute ctx d.address

end Machine
end StackMachine
