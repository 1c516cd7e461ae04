/-!
# The worker pool

A pool runs requests on a fixed number of workers, at least one. A request that breaks down gives its text
as an error and costs no worker. A stopped pool runs nothing.
-/

set_option autoImplicit false

namespace StackMachine

structure WorkerPool where
  workers : Nat
  stopped : Bool := false
  deriving DecidableEq, Repr

/-- What a request may end in besides a value. -/
inductive PoolError where
  | stopped
  | failed (text : String)
  deriving DecidableEq, Repr

def PoolError.message : PoolError → String
  | stopped => "server: worker pool stopped"
  | failed text => text

namespace WorkerPool

def ofSize (n : Int) : WorkerPool where
  workers := (max n 1).toNat

def stop (p : WorkerPool) : WorkerPool :=
  { p with stopped := true }

/-- Runs a request on an idle pool. -/
def submit {α : Type} (p : WorkerPool) (request : Unit → Except String α) : Except PoolError α :=
  if p.stopped then .error .stopped else (request ()).mapError .failed

end WorkerPool
end StackMachine
