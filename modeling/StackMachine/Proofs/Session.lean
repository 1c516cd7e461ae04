/-!
# Sessions

Whoever answers requests may change by each of them. A session is a sequence of requests, each made to what the one
before has left.
-/

set_option autoImplicit false

namespace StackMachine.Session

variable {σ ρ α : Type} {answer : σ → ρ → α × σ}

/-- The requests of a session with their answers. -/
def exchanges (answer : σ → ρ → α × σ) (s : σ) : List ρ → List (ρ × α)
  | [] => []
  | q :: qs => (q, (answer s q).1) :: exchanges answer (answer s q).2 qs

/-- What a session leaves. -/
def after (answer : σ → ρ → α × σ) (s : σ) : List ρ → σ
  | [] => s
  | q :: qs => after answer (answer s q).2 qs

theorem after_append (s : σ) (qs rs : List ρ) :
    after answer s (qs ++ rs) = after answer (after answer s qs) rs := by
  induction qs generalizing s with
  | nil => rfl
  | cons q qs ih => simp [after, ih]

theorem map_fst_exchanges (s : σ) (qs : List ρ) : (exchanges answer s qs).map Prod.fst = qs := by
  induction qs generalizing s with
  | nil => rfl
  | cons q qs ih => simp [exchanges, ih]

/-- What holds of the exchanges so far and of what they have left, and is kept by every exchange, holds at the end. -/
theorem invariant {I : List (ρ × α) → σ → Prop}
    (hstep : ∀ log s q, I log s → I (log ++ [(q, (answer s q).1)]) (answer s q).2) {log : List (ρ × α)} {s : σ}
    (h : I log s) (qs : List ρ) : I (log ++ exchanges answer s qs) (after answer s qs) := by
  induction qs generalizing log s with
  | nil => simpa [exchanges, after] using h
  | cons q qs ih => simpa [exchanges, after] using ih (hstep log s q h)

end StackMachine.Session
