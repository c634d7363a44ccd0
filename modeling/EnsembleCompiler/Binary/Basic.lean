/-!
# Binary floating-point values

A value of a binary interchange format is held exactly: a finite one by its sign and its *rank*,
the number of smaller magnitudes of the format. Ranks are ordered as magnitudes are, rank 0 is
zero, and the first rank that is too large is infinity's. Every finite value is a whole multiple
of the smallest positive one, so that sums, products and comparisons are arithmetic on `Nat`.
-/

namespace EnsembleCompiler

/-- A binary interchange format: how many bits a significand has, the leading one included, how
many bits an exponent has, and the `u` for which the smallest positive value is `2 ^ -u`. -/
structure FloatFormat where
  precision : Nat
  exponentBits : Nat
  unitShift : Nat
  deriving DecidableEq, Repr

namespace FloatFormat

/-- The 32-bit format. -/
def single : FloatFormat := ⟨24, 8, 149⟩

/-- The 64-bit format. -/
def double : FloatFormat := ⟨53, 11, 1074⟩

/-- The number of ranks that share one exponent. -/
def binade (f : FloatFormat) : Nat := Nat.pow 2 (f.precision - 1)

/-- The number of finite magnitudes: the first rank that stands for infinity. -/
def infinityRank (f : FloatFormat) : Nat := (Nat.pow 2 f.exponentBits - 1) * f.binade

/-- The magnitude of a rank, as a multiple of the smallest positive value. In the first two
binades the step is one; it doubles with each further binade. -/
def units (f : FloatFormat) (rank : Nat) : Nat :=
  if rank < f.binade then rank
  else (f.binade + rank % f.binade) * Nat.pow 2 (rank / f.binade - 1)

/-- The smallest positive value is `1 / f.unit`. -/
def unit (f : FloatFormat) : Nat := Nat.pow 2 f.unitShift

end FloatFormat

/-- A value of the format `f`. All not-a-number values are one, since nothing tells them apart. -/
inductive Binary (f : FloatFormat) where
  | nan
  | infinite (negative : Bool)
  | finite (negative : Bool) (rank : Fin f.infinityRank)
  deriving DecidableEq

/-- Values of the 32-bit format. -/
abbrev Binary32 := Binary .single

/-- Values of the 64-bit format. -/
abbrev Binary64 := Binary .double

namespace Binary

variable {f : FloatFormat}

/-- The value of the given sign and rank; ranks past the finite ones are infinity. -/
def ofRank (f : FloatFormat) (negative : Bool) (rank : Nat) : Binary f :=
  if h : rank < f.infinityRank then .finite negative ⟨rank, h⟩ else .infinite negative

/-- Zero with the given sign. -/
def zero (f : FloatFormat) (negative : Bool) : Binary f := ofRank f negative 0

instance : Inhabited (Binary f) := ⟨zero f false⟩

def isNaN : Binary f → Bool
  | .nan => true
  | _ => false

def isInfinite : Binary f → Bool
  | .infinite _ => true
  | _ => false

def isZero : Binary f → Bool
  | .finite _ rank => rank.val == 0
  | _ => false

/-- The sign bit; not-a-number counts as unsigned. -/
def isNegative : Binary f → Bool
  | .nan => false
  | .infinite negative => negative
  | .finite negative _ => negative

/-- The value with the other sign. -/
def neg : Binary f → Binary f
  | .nan => .nan
  | .infinite negative => .infinite (!negative)
  | .finite negative rank => .finite (!negative) rank

/-- Where a value stands in the order of the format; zeros of both signs share one place and
not-a-number has none. -/
def place : Binary f → Option Int
  | .nan => none
  | .infinite negative => some (signed negative f.infinityRank)
  | .finite negative rank => some (signed negative rank.val)
where
  signed (negative : Bool) (rank : Nat) : Int := if negative then -(rank : Int) else rank

/-- Comparison of values: false as soon as one side is not a number. -/
def lt (x y : Binary f) : Bool :=
  match x.place, y.place with
  | some a, some b => a < b
  | _, _ => false

end Binary

end EnsembleCompiler
