import StackMachine.Image.Footprint
import StackMachine.Listing
import StackMachine.RunStore.Basic
import StackMachine.Text.Scientific
import StackMachine.WorkerPool.Basic

/-!
# The execution service

Runs encoded images within limits on output, memory and time, lists them, and answers which runs were
recorded. A run that faults is a result; only images that cannot be run make a request fail. Numbers in
results travel as doubles.
-/

set_option autoImplicit false

namespace StackMachine

structure Service where
  /-- Time a run may take, in nanoseconds. -/
  timeout : Word
  /-- Bytes a run may print. -/
  maxOutput : Word
  /-- Words a machine may need. -/
  maxMemory : Word
  store : Option RunStore
  pool : WorkerPool

inductive ServiceError where
  | image (e : ImageError)
  | oversized (name : String) (need limit : Word)
  | table (e : TableError)
  | pool (e : PoolError)
  | waiting (why : Cancellation)
  | noStore
  | noHash
  | store (e : StoreError)
  deriving DecidableEq, Repr

/-- The class of an error as a caller sees it. -/
inductive StatusCode where
  | invalidArgument
  | failedPrecondition
  | unavailable
  | deadlineExceeded
  | internal
  deriving DecidableEq, Repr

def StatusCode.name : StatusCode → String
  | invalidArgument => "invalid_argument"
  | failedPrecondition => "failed_precondition"
  | unavailable => "unavailable"
  | deadlineExceeded => "deadline_exceeded"
  | internal => "internal"

namespace ServiceError

def message : ServiceError → String
  | image e => e.message
  | oversized name need limit =>
    "image " ++ Text.quoted name ++ " needs up to " ++ need.text ++ " words, limit is " ++ limit.text
  | table e => e.message
  | pool e => e.message
  | waiting why => "waiting for a worker: " ++ why.text
  | noStore => "no run store configured"
  | noHash => "image hash is required"
  | store e => e.message

def code : ServiceError → StatusCode
  | image _ | oversized _ _ _ | table _ | noHash => .invalidArgument
  | pool .stopped => .unavailable
  | pool (.failed _) => .internal
  | waiting _ => .deadlineExceeded
  | noStore => .failedPrecondition
  | store _ => .internal

end ServiceError

/-- Why a run did not halt normally: there was no machine, or the machine failed. -/
inductive RunFailure where
  | setup (e : Image.MachineError)
  | run (f : Machine.Failure)
  deriving DecidableEq, Repr

namespace RunFailure

def message : RunFailure → String
  | setup e => e.message
  | run f => f.message

def fault? : RunFailure → Option Fault
  | run (.run e) => e.fault?
  | _ => none

end RunFailure

/-- What a run came to, before it is put into an answer. -/
structure RunReport where
  output : String := ""
  failure : Option RunFailure := none
  stats : Stats := {}
  globals : List Word := []

namespace RunReport

def halted (r : RunReport) : Bool :=
  r.failure.isNone

/-- Why the run did not halt normally, empty if it did. -/
def faultText (r : RunReport) : String :=
  match r.failure with
  | some f => f.message
  | none => ""

def fault? (r : RunReport) : Option Fault :=
  r.failure.bind RunFailure.fault?

end RunReport

/-- The answer to a request to run an image. -/
structure RunAnswer where
  runId : String
  imageHash : String
  name : String
  output : String
  halted : Bool
  fault : String
  cycles : Int
  calls : Int
  maxDepth : Int
  globals : List Int
  faultKind : Option FaultKind
  faultIp : Option Int
  deriving DecidableEq, Repr

/-- A recorded run as it is listed. -/
structure RunListing where
  runId : String
  halted : Bool
  fault : String
  cycles : Int
  output : String
  startedAt : Word
  duration : Word
  deriving DecidableEq, Repr

/-- The identity and the times of one request. -/
structure Occasion where
  runId : String
  startedAt : Word := 0
  duration : Word := 0

/-- When the context of a request gives in. -/
structure Patience where
  /-- Why it gives in before a worker is free, if it does. -/
  waiting : Option Cancellation := none
  /-- How often it lets the run go on and why it then ends it. Where nothing is said the time limit decides. -/
  running : Option (Nat × Cancellation) := none

/-- A deadline as the number of times that the context still lets a run go on: once, and once more every
hundred microseconds, which is an estimate of the time between two consultations. No deadline gives more than
12001. Less than ten microseconds are over before a run begins. -/
def Context.within (nanoseconds : Word) : Context :=
  let time := nanoseconds.toInt.toNat
  .expiring (if time < 10000 then 0 else min (time / 100000) 12000 + 1) .deadline

namespace Service

/-- A limit, or its default if it is not positive. -/
def limitOr (default limit : Word) : Word :=
  if limit ≤ 0 then default else limit

def make (workers timeout maxOutput maxMemory : Word) (store : Option RunStore) : Service where
  timeout := limitOr 10000000000 timeout
  maxOutput := limitOr 1048576 maxOutput
  maxMemory := limitOr 4194304 maxMemory
  store := store
  pool := .ofSize workers.toInt

/-- The context that a run is made under. -/
def context (s : Service) (p : Patience) : Context :=
  match p.running with
  | some (n, why) => .expiring n why
  | none => .within s.timeout

/-- The machine that an image is run on. -/
def machine (s : Service) (img : Image) : Except Image.MachineError Machine :=
  img.machine { sink := .capped s.maxOutput.toInt "output limit exceeded" }

/-- What is reported of a machine after its run; one that was abandoned gives its text as an error. -/
def reportOf : Machine × Option Machine.Failure → Except String RunReport
  | (_, some (.abandoned a)) => .error a.message
  | (m, failure) => .ok {
      output := m.state.sink.taken
      failure := failure.map .run
      stats := m.state.stats
      globals := m.state.globals.toList }

/-- Runs an image. A machine that cannot be made is reported, unless making it was abandoned. -/
def run (s : Service) (ctx : Context) (img : Image) : Except String RunReport :=
  match s.machine img with
  | .error (.setup (.abandoned a)) => .error a.message
  | .error e => .ok { failure := some (.setup e) }
  | .ok m => reportOf (img.execute ctx m)

/-- The image that a request holds, if the service may run it. -/
def accept (s : Service) (request : Bytes) : Except ServiceError Image := do
  let img ← (Image.decodeValid request).mapError .image
  if img.footprint > s.maxMemory then throw (.oversized img.name img.footprint s.maxMemory)
  return img

def recordOf (img : Image) (r : RunReport) (o : Occasion) : RunRecord where
  id := o.runId
  imageHash := img.hash
  halted := r.halted
  fault := r.faultText
  cycles := UInt64.ofNat r.stats.cycles
  output := r.output
  startedAt := o.startedAt
  duration := o.duration

/-- Stores an image and the record of its run. What the store refuses is left out. -/
def stored (st : RunStore) (img : Image) (r : RunRecord) : RunStore :=
  match st.put img with
  | .error _ => st
  | .ok (_, st) =>
    match st.record r with
    | .error _ => st
    | .ok st => st

def answerOf (img : Image) (r : RunReport) (o : Occasion) : RunAnswer where
  runId := o.runId
  imageHash := img.hash
  name := img.name
  output := r.output
  halted := r.halted
  fault := r.faultText
  cycles := Text.nearestDouble r.stats.cycles
  calls := Text.nearestDouble r.stats.calls
  maxDepth := Text.nearestDouble r.stats.maxDepth
  globals := r.globals.map fun w => Text.nearestDouble w.toInt
  faultKind := r.fault?.map fun f => f.reason.kind
  faultIp := r.fault?.map fun f => Text.nearestDouble f.ip

/-- Runs the image of a request and records the run. -/
def execute (s : Service) (request : Bytes) (o : Occasion) (p : Patience := {}) :
    Except ServiceError RunAnswer × Service :=
  match s.accept request with
  | .error e => (.error e, s)
  | .ok img =>
    match p.waiting with
    | some why => (.error (.waiting why), s)
    | none =>
      match s.pool.submit fun _ => s.run (s.context p) img with
      | .error e => (.error (.pool e), s)
      | .ok r =>
        (.ok (answerOf img r o), { s with store := s.store.map fun st => stored st img (recordOf img r o) })

/-- The listing of the image of a request, which need not be valid. -/
def disassemble (request : Bytes) : Except ServiceError String := do
  let img ← (Image.decode request).mapError .image
  let table ← img.table.mapError .table
  return Listing.text img.words (some table)

def listingOf (r : RunRecord) : RunListing where
  runId := r.id
  halted := r.halted
  fault := r.fault
  cycles := Text.nearestDouble r.cycles.toNat
  output := r.output
  startedAt := r.startedAt
  duration := r.duration

/-- The recorded runs of an image, oldest first. -/
def runs (s : Service) (hash : String) : Except ServiceError (List RunListing) :=
  match s.store with
  | none => .error .noStore
  | some st =>
    if hash = "" then .error .noHash
    else ((st.runs hash).mapError .store).map (·.map listingOf)

def stop (s : Service) : Service :=
  { s with pool := s.pool.stop }

def closeStore (s : Service) : Service :=
  { s with store := s.store.map RunStore.close }

end Service
end StackMachine
