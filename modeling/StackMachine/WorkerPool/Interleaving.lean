import StackMachine.WorkerPool.Basic

/-!
# Interleavings of a worker pool

Callers, workers and stoppers of a pool take turns in any order. A caller first waits for room in the queue
and then for its answer; a worker takes the oldest request, starts its function and hands over what the
function has ended in; stopping first gives the signal to quit and then waits for all workers to be gone.
Each constructor of `Step` is one thing that one of them can do next.
-/

set_option autoImplicit false

namespace StackMachine.WorkerPool

/-- Requests that fit into the queue. -/
def capacity : Nat := 64

/-- What a call returns: what its function has ended in, that the pool was stopped, or that its context is
done. -/
inductive Reply (α : Type) where
  | outcome (r : Except String α)
  | stopped
  | cancelled

inductive Phase (α : Type) where
  | sending
  | waiting
  | returned (reply : Reply α)

/-- One call to the pool: whether its context is done, how far it is, and the answer that it was handed and
has not received yet. -/
structure Caller (α : Type) where
  contextDone : Bool := false
  phase : Phase α := .sending
  answer : Option (Except String α) := none

/-- A worker has a request from when it takes it until it has handed over its outcome. -/
inductive Worker (α : Type) where
  | idle
  | holding (caller : Nat)
  | running (caller : Nat)
  | delivering (caller : Nat) (outcome : Except String α)
  | gone

/-- A stopper has given the signal, or has returned. -/
inductive Stopper where
  | waiting
  | returned
  deriving DecidableEq, Repr

/-- Callers and workers are known by their place. `started` are the callers whose functions have started,
`ended` those whose functions have ended, with a value or with the text of a panic, the latest first. -/
structure Situation (α : Type) where
  callers : List (Caller α) := []
  workers : List (Worker α)
  queue : List Nat := []
  quit : Bool := false
  stoppers : List Stopper := []
  started : List Nat := []
  ended : List (Nat × Except String α) := []

namespace Situation

/-- A new pool: every worker is idle. -/
def initial (α : Type) (n : Int) : Situation α where
  workers := List.replicate (WorkerPool.ofSize n).workers .idle

variable {α : Type}

/-- Changes one caller. -/
def modifyCaller (s : Situation α) (i : Nat) (f : Caller α → Caller α) : Situation α :=
  { s with callers := s.callers.modify i f }

def setPhase (s : Situation α) (i : Nat) (p : Phase α) : Situation α :=
  s.modifyCaller i fun c => { c with phase := p }

def setWorker (s : Situation α) (w : Nat) (x : Worker α) : Situation α :=
  { s with workers := s.workers.set w x }

end Situation

open Situation in
/-- One thing that happens in a pool. -/
inductive Step {α : Type} : Situation α → Situation α → Prop where
  /-- A call begins. -/
  | call (s : Situation α) (contextDone : Bool) :
      Step s { s with callers := s.callers ++ [{ contextDone := contextDone }] }
  /-- The context of a call is done. -/
  | cancel (s : Situation α) (i : Nat) :
      Step s (s.modifyCaller i fun c => { c with contextDone := true })
  /-- A call puts its request into the queue. -/
  | send (s : Situation α) (i : Nat) (c : Caller α) (at_i : s.callers[i]? = some c)
      (sending : c.phase = .sending) (room : s.queue.length < capacity) :
      Step s { s.setPhase i .waiting with queue := s.queue ++ [i] }
  /-- A call that is still sending gives up since its context is done. -/
  | giveUp (s : Situation α) (i : Nat) (c : Caller α) (at_i : s.callers[i]? = some c)
      (sending : c.phase = .sending) (done : c.contextDone = true) :
      Step s (s.setPhase i (.returned .cancelled))
  /-- A call that is still sending sees the signal to quit. -/
  | refuse (s : Situation α) (i : Nat) (c : Caller α) (at_i : s.callers[i]? = some c)
      (sending : c.phase = .sending) (quit : s.quit = true) :
      Step s (s.setPhase i (.returned .stopped))
  /-- An idle worker takes the oldest request of the queue. -/
  | take (s : Situation α) (w i : Nat) (rest : List Nat) (idle : s.workers[w]? = some .idle)
      (queued : s.queue = i :: rest) :
      Step s { s.setWorker w (.holding i) with queue := rest }
  /-- A worker starts the function of its request. -/
  | start (s : Situation α) (w i : Nat) (holding : s.workers[w]? = some (.holding i)) :
      Step s { s.setWorker w (.running i) with started := i :: s.started }
  /-- A function ends. -/
  | finish (s : Situation α) (w i : Nat) (r : Except String α) (running : s.workers[w]? = some (.running i)) :
      Step s { s.setWorker w (.delivering i r) with ended := (i, r) :: s.ended }
  /-- A worker hands an outcome over, for which there is one place. -/
  | hand (s : Situation α) (w i : Nat) (r : Except String α) (c : Caller α)
      (delivering : s.workers[w]? = some (.delivering i r)) (at_i : s.callers[i]? = some c)
      (free : c.answer = none) :
      Step s ((s.setWorker w .idle).modifyCaller i fun c => { c with answer := some r })
  /-- An idle worker sees the signal to quit. -/
  | leave (s : Situation α) (w : Nat) (idle : s.workers[w]? = some .idle) (quit : s.quit = true) :
      Step s (s.setWorker w .gone)
  /-- A waiting call receives its answer. -/
  | receive (s : Situation α) (i : Nat) (c : Caller α) (r : Except String α)
      (at_i : s.callers[i]? = some c) (waiting : c.phase = .waiting) (answered : c.answer = some r) :
      Step s (s.modifyCaller i fun c => { c with phase := .returned (.outcome r), answer := none })
  /-- A waiting call sees the signal to quit. -/
  | abandon (s : Situation α) (i : Nat) (c : Caller α) (at_i : s.callers[i]? = some c)
      (waiting : c.phase = .waiting) (quit : s.quit = true) :
      Step s (s.setPhase i (.returned .stopped))
  /-- Stopping begins with the signal to quit. -/
  | stop (s : Situation α) :
      Step s { s with quit := true, stoppers := s.stoppers ++ [.waiting] }
  /-- Stopping ends once every worker is gone. -/
  | stopped (s : Situation α) (k : Nat) (waiting : s.stoppers[k]? = some .waiting)
      (all_gone : ∀ w ∈ s.workers, w = .gone) :
      Step s { s with stoppers := s.stoppers.set k .returned }

/-- What can come of a situation. -/
inductive Reaches {α : Type} : Situation α → Situation α → Prop where
  | refl (s : Situation α) : Reaches s s
  | tail {s t u : Situation α} (before : Reaches s t) (last : Step t u) : Reaches s u

end StackMachine.WorkerPool
