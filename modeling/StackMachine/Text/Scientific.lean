/-!
# Decimal numbers with an exponent

A number `digits · 10^exponent` as a double sees it: whether it is in range, and its whole part after
rounding to the nearest double, ties to even. All arithmetic is exact.
-/

set_option autoImplicit false

namespace StackMachine.Text

structure Scientific where
  minus : Bool := false
  digits : Nat
  exponent : Int
  deriving DecidableEq, Repr

def twoTo (n : Nat) : Nat :=
  Nat.pow 2 n

def tenTo (n : Nat) : Nat :=
  Nat.pow 10 n

/-- The quotient rounded to the nearest whole number, a half to the even one. -/
def roundDiv (p q : Nat) : Nat :=
  let n := p / q
  let twice := 2 * (p % q)
  if twice < q ∨ twice = q ∧ n % 2 = 0 then n else n + 1

namespace Scientific

/-- The decimal digits before the point, negative if zeros follow it first. -/
def magnitude (x : Scientific) : Int :=
  (Nat.toDigits 10 x.digits).length + x.exponent

/-- Whether the nearest double is finite. -/
def isFinite (x : Scientific) : Bool :=
  x.digits = 0 || x.magnitude < 308 ||
    (x.magnitude < 311 &&
      x.digits * tenTo x.exponent.toNat < (twoTo 1024 - twoTo 970) * tenTo (-x.exponent).toNat)

/-- The whole part of the double nearest to `p / q`. -/
def wholePart (p q : Nat) : Nat :=
  let n := p / q
  if n = 0 then roundDiv (p * twoTo 53) q / twoTo 53
  else if n < twoTo 53 then
    let k := 52 - n.log2
    roundDiv (p * twoTo k) q / twoTo k
  else
    let k := n.log2 - 52
    roundDiv p (q * twoTo k) * twoTo k

/-- The nearest double, cut to a whole number. -/
def truncated (x : Scientific) : Int :=
  let n :=
    if x.digits = 0 ∨ x.magnitude < -1 then 0
    else wholePart (x.digits * tenTo x.exponent.toNat) (tenTo (-x.exponent).toNat)
  if x.minus then -(n : Int) else n

end Scientific

/-- The double nearest to `p / q` as a quotient, in the range where doubles have 53 digits of base two. -/
def roundedQuotient (p q : Nat) : Nat × Nat :=
  if p = 0 then (0, 1)
  else
    let up := 53 + q.log2 - p.log2
    let down := p.log2 - (53 + q.log2)
    let p := p * twoTo up
    let q := q * twoTo down
    let extra := if p / q < twoTo 53 then 0 else 1
    (roundDiv p (q * twoTo extra) * twoTo (down + extra), twoTo up)

/-- The double nearest to a whole number. -/
def nearestDouble (n : Int) : Int :=
  let size : Int := Scientific.wholePart n.natAbs 1
  if n < 0 then -size else size

end StackMachine.Text
