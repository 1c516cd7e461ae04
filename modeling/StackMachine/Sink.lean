/-!
# Output sinks

Where printed lines go. A sink takes a piece of text whole or refuses it with a reason, depending on what
it has taken so far.
-/

set_option autoImplicit false

namespace StackMachine

structure Sink where
  /-- The reason for refusing a piece of text after what was taken, if there is one. -/
  refuses : (taken piece : String) → Option String
  taken : String := ""

namespace Sink

def unlimited : Sink where
  refuses := fun _ _ => none

/-- Refuses what would take the total past `limit` bytes. -/
def capped (limit : Int) (reason : String) : Sink where
  refuses := fun taken piece =>
    if taken.utf8ByteSize + piece.utf8ByteSize > limit then some reason else none

def write (s : Sink) (piece : String) : Except String Sink :=
  match s.refuses s.taken piece with
  | some reason => .error reason
  | none => .ok { s with taken := s.taken ++ piece }

/-- Writes pieces up to the first refusal. -/
def writeAll (s : Sink) : List String → Sink × Option String
  | [] => (s, none)
  | piece :: rest =>
    match s.write piece with
    | .error reason => (s, some reason)
    | .ok s => s.writeAll rest

end Sink
end StackMachine
