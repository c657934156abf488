import Mathlib.Data.Rat.Defs

/-!
# Double-precision arithmetic on exact rationals

A finite double is a rational, so a Python float is modelled by the rational
it denotes, and each operation by the exact operation followed by rounding
to the nearest double, ties to even (53 significant bits). The exponent
range is not bounded: the products taken here (a token budget times a
fraction) are far from overflow and underflow.

`trunc` is Python's `int()` on a float: truncation towards zero.
-/
namespace ContextBroker.Binary64

/-- `n / d` to the nearest integer, ties to even. -/
def roundHalfEven (n d : Nat) : Nat :=
  let q := n / d
  let r := n % d
  if 2 * r < d then q else if d < 2 * r then q + 1 else if q % 2 = 0 then q else q + 1

/-- The exponent `e` of the binade of `n / d`: `2^e ≤ n / d < 2^(e+1)`. -/
def binade (n d : Nat) : Int :=
  let e : Int := (Nat.log2 n : Int) - Nat.log2 d
  if n * Nat.pow 2 (-e).toNat < d * Nat.pow 2 e.toNat then e - 1 else e

/-- The double nearest to `q`. -/
def ofRat (q : Rat) : Rat :=
  if q.num = 0 then 0
  else
    let n := q.num.natAbs
    let ulp := binade n q.den - 52
    let m : Int := roundHalfEven (n * Nat.pow 2 (-ulp).toNat) (q.den * Nat.pow 2 ulp.toNat)
    mkRat (q.num.sign * m * Nat.pow 2 ulp.toNat) (Nat.pow 2 (-ulp).toNat)

def add (a b : Rat) : Rat := ofRat (a + b)

def mul (a b : Rat) : Rat := ofRat (a * b)

def trunc (q : Rat) : Int := q.num.tdiv q.den

/-- `100 * 0.29` is `28.999999999999996` as doubles, so `int()` gives 28. -/
example : trunc (mul 100 (ofRat (29 / 100))) = 28 := by decide +kernel

end ContextBroker.Binary64
