import StackMachine.Image.Codec

/-!
# The run store

Images by the digest of their encoding, and the records of runs. Putting an image that is there already
changes nothing, a record's id is used once, and nothing is ever removed. A closed store refuses everything.
-/

set_option autoImplicit false

namespace StackMachine

/-- The record of one run; times are in nanoseconds. -/
structure RunRecord where
  id : String
  imageHash : String
  halted : Bool
  /-- Why the run did not halt normally, empty if it did. -/
  fault : String
  cycles : UInt64
  output : String
  startedAt : Word
  duration : Word
  deriving DecidableEq, Repr

/-- A stored record; the number of cycles is kept as a signed number. -/
structure RunRow where
  id : String
  imageHash : String
  halted : Bool
  fault : String
  cycles : Word
  output : String
  startedAt : Word
  duration : Word
  deriving DecidableEq, Repr

def RunRecord.row (r : RunRecord) : RunRow where
  id := r.id
  imageHash := r.imageHash
  halted := r.halted
  fault := r.fault
  cycles := r.cycles.toInt64
  output := r.output
  startedAt := r.startedAt
  duration := r.duration

def RunRow.record (r : RunRow) : RunRecord where
  id := r.id
  imageHash := r.imageHash
  halted := r.halted
  fault := r.fault
  cycles := r.cycles.toUInt64
  output := r.output
  startedAt := r.startedAt
  duration := r.duration

/-- Rows are listed by start time, and those of one time by id. -/
def RunRow.precedes (a b : RunRow) : Bool :=
  a.startedAt < b.startedAt || (a.startedAt == b.startedAt && decide (a.id ≤ b.id))

structure RunStore where
  /-- Encoded images by their digest. -/
  images : List (String × Bytes) := []
  /-- In the order of recording. -/
  rows : List RunRow := []
  closed : Bool := false

inductive StoreError where
  | notStored (hash : String)
  | notLoaded (hash : String)
  | notFound (hash : String)
  | notListed
  | notRecorded (id : String)
  | image (e : ImageError)
  deriving DecidableEq, Repr

/-- Storing, loading and listing fail on a closed store only. -/
def StoreError.message : StoreError → String
  | notStored hash => "storing image " ++ hash ++ ": sql: database is closed"
  | notLoaded hash => "loading image " ++ hash ++ ": sql: database is closed"
  | notFound hash => "image " ++ hash ++ ": store: not found"
  | notListed => "listing runs: sql: database is closed"
  | notRecorded id => "recording run " ++ id
  | image e => e.message

namespace RunStore

/-- Stores an image under its digest. -/
def put (s : RunStore) (img : Image) : Except StoreError (String × RunStore) :=
  if s.closed then .error (.notStored img.hash)
  else if (s.images.lookup img.hash).isSome then .ok (img.hash, s)
  else .ok (img.hash, { s with images := (img.hash, img.encode) :: s.images })

def get (s : RunStore) (hash : String) : Except StoreError Image :=
  if s.closed then .error (.notLoaded hash)
  else
    match s.images.lookup hash with
    | none => .error (.notFound hash)
    | some encoded => (Image.decode encoded).mapError .image

/-- The record with an id of its own, or with `fresh` if it has none. -/
def identified (r : RunRecord) (fresh : String) : RunRecord :=
  if r.id = "" then { r with id := fresh } else r

/-- Adds a record; one whose id is used already is refused. -/
def record (s : RunStore) (r : RunRecord) : Except StoreError RunStore :=
  if s.closed || s.rows.any (fun row => row.id = r.id) then .error (.notRecorded r.id)
  else .ok { s with rows := s.rows ++ [r.row] }

/-- The runs of an image, oldest first. -/
def runs (s : RunStore) (hash : String) : Except StoreError (List RunRecord) :=
  if s.closed then .error .notListed
  else .ok (((s.rows.filter fun row => row.imageHash = hash).mergeSort RunRow.precedes).map RunRow.record)

def close (s : RunStore) : RunStore :=
  { s with closed := true }

end RunStore
end StackMachine
