import EnsembleCompiler.Binary.Basic

/-!
# Rounding to a binary format

Quotients of natural numbers are rounded to the nearest value of a format, and to the even one
of two that are equally near. All arithmetic on values rounds an exact result once.
-/

namespace EnsembleCompiler

/-- The natural number nearest to `n / d`, the even one of two that are equally near. -/
def roundHalfEven (n d : Nat) : Nat :=
  let q := n / d
  let r := n % d
  if 2 * r < d then q
  else if d < 2 * r then q + 1
  else q + q % 2

namespace FloatFormat

/-- The rank whose magnitude is nearest to `n / d` units. Below the second binade a rank is its
own number of units; above, the last bit of the significand is worth `2 ^ shift` units. -/
def nearestRank (f : FloatFormat) (n d : Nat) : Nat :=
  let shift := (n / d).log2 + 1 - f.precision
  shift * f.binade + roundHalfEven n (d * Nat.pow 2 shift)

end FloatFormat

namespace Binary

variable {f : FloatFormat}

/-- The value nearest to `n / d`, with the given sign. -/
def round (f : FloatFormat) (negative : Bool) (n d : Nat) : Binary f :=
  ofRank f negative (f.nearestRank (n * f.unit) d)

/-- The value nearest to a natural number. -/
def ofNat (f : FloatFormat) (n : Nat) : Binary f := round f false n 1

/-- The value nearest to an integer; zero is unsigned. -/
def ofInt (f : FloatFormat) (n : Int) : Binary f := round f (n < 0) n.natAbs 1

/-- The nearest value of another format. -/
def convert (g : FloatFormat) : Binary f → Binary g
  | .nan => .nan
  | .infinite negative => .infinite negative
  | .finite negative rank => round g negative (f.units rank) f.unit

/-- The product, rounded once. -/
def mul : Binary f → Binary f → Binary f
  | .finite s a, .finite t b => round f (s != t) (f.units a * f.units b) (f.unit * f.unit)
  | x, y =>
    if x.isNaN || y.isNaN || x.isZero || y.isZero then .nan
    else .infinite (x.isNegative != y.isNegative)

/-- The quotient, rounded once. -/
def div : Binary f → Binary f → Binary f
  | .finite s a, .finite t b =>
    if b.val = 0 then
      if a.val = 0 then .nan else .infinite (s != t)
    else round f (s != t) (f.units a) (f.units b)
  | .finite s _, .infinite t => zero f (s != t)
  | .infinite s, .finite t _ => .infinite (s != t)
  | _, _ => .nan

end Binary

end EnsembleCompiler
