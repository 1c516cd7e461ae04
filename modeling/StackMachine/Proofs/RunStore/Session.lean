import StackMachine.Proofs.Session
import StackMachine.RunStore.Basic

/-!
# Sessions with a run store

What can be asked of a store and what it answers. A store stays open, images are only ever added, and so are rows.
-/

set_option autoImplicit false

namespace StackMachine.RunStore

/-- A record that comes without an id is given the one that is new. -/
inductive Request where
  | put (img : Image)
  | get (hash : String)
  | record (r : RunRecord) (new : String)
  | runs (hash : String)

/-- A record is returned with its id, also if it was refused. -/
inductive Reply where
  | stored (outcome : Except StoreError String)
  | loaded (outcome : Except StoreError Image)
  | recorded (r : RunRecord) (refusal : Option StoreError)
  | listed (outcome : Except StoreError (List RunRecord))

def answer (s : RunStore) : Request → Reply × RunStore
  | .put img =>
    match s.put img with
    | .ok (hash, s) => (.stored (.ok hash), s)
    | .error e => (.stored (.error e), s)
  | .get hash => (.loaded (s.get hash), s)
  | .record r new =>
    match s.record (identified r new) with
    | .ok s => (.recorded (identified r new) none, s)
    | .error e => (.recorded (identified r new) (some e), s)
  | .runs hash => (.listed (s.runs hash), s)

section Answer

variable {s : RunStore}

/-- The store with an image more, if it does not have it yet. -/
def adding (s : RunStore) (img : Image) : RunStore :=
  if (s.images.lookup img.hash).isSome then s else { s with images := (img.hash, img.encode) :: s.images }

@[simp] theorem adding_rows (s : RunStore) (img : Image) : (s.adding img).rows = s.rows := by
  unfold adding
  split <;> rfl

@[simp] theorem adding_closed (s : RunStore) (img : Image) : (s.adding img).closed = s.closed := by
  unfold adding
  split <;> rfl

theorem put_eq (h : s.closed = false) (img : Image) : s.put img = .ok (img.hash, s.adding img) := by
  rw [put, if_neg (by simp [h]), adding]
  split <;> rfl

theorem answer_put (h : s.closed = false) (img : Image) :
    s.answer (.put img) = (.stored (.ok img.hash), s.adding img) := by
  rw [answer, put_eq h]

end Answer

def exchanges (s : RunStore) (qs : List Request) : List (Request × Reply) :=
  Session.exchanges answer s qs

def after (s : RunStore) (qs : List Request) : RunStore :=
  Session.after answer s qs

def Request.submitted? : Request → Option RunRecord
  | .record r new => some (identified r new)
  | _ => none

def Reply.recorded? : Reply → Option RunRecord
  | .recorded r none => some r
  | _ => none

/-- The records that a store is asked to keep. -/
def submitted (qs : List Request) : List RunRecord :=
  qs.filterMap Request.submitted?

/-- The records that a store has taken. -/
def recorded (log : List (Request × Reply)) : List RunRecord :=
  log.filterMap fun e => e.2.recorded?

theorem exchanges_cons (s : RunStore) (q : Request) (qs : List Request) :
    s.exchanges (q :: qs) = (q, (s.answer q).1) :: (s.answer q).2.exchanges qs :=
  rfl

theorem submitted_cons (q : Request) (qs : List Request) :
    submitted (q :: qs) = q.submitted?.toList ++ submitted qs := by
  cases h : q.submitted? <;> simp [submitted, h]

theorem recorded_cons (e : Request × Reply) (log : List (Request × Reply)) :
    recorded (e :: log) = e.2.recorded?.toList ++ recorded log := by
  cases h : e.2.recorded? <;> simp [recorded, h]

theorem recorded_append (log more : List (Request × Reply)) : recorded (log ++ more) = recorded log ++ recorded more :=
  List.filterMap_append

end StackMachine.RunStore
