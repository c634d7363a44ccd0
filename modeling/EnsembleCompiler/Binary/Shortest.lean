import EnsembleCompiler.Binary.Decimal

/-!
# The shortest decimal of a binary value

A finite value is written with the fewest digits that read back as it. For each number of digits
the two decimals around the value are tried, and of two that read back the nearer is taken. So
the decimal that is chosen reads back by its very choice.
-/

namespace EnsembleCompiler

/-- Which of two equally near decimals is written. -/
inductive TieRule where
  | upward
  | toEven
  deriving DecidableEq, Repr

namespace Decimal

/-- The decimal without trailing zeros in its digits. -/
def strip (d : Decimal) : Decimal :=
  if h : d.digits ≠ 0 ∧ d.digits % 10 = 0 then strip ⟨d.digits / 10, d.exponent + 1⟩ else d
termination_by d.digits
decreasing_by omega

end Decimal

namespace Binary

variable {f : FloatFormat}

/-- Whether `10 ^ e ≤ n / d`. -/
def powerAtMost (e : Int) (n d : Nat) : Bool :=
  if 0 ≤ e then Nat.pow 10 e.toNat * d ≤ n else d ≤ n * Nat.pow 10 (-e).toNat

/-- The exponent of the first digit of `n / d`: the largest `e` with `10 ^ e ≤ n / d`. The
logarithm to base two, times a logarithm of two to base ten that is a little small, falls short of
it by two at most. -/
def firstExponent (n d : Nat) : Int :=
  let e := ((n.log2 : Int) - d.log2 - 1) * 78913 / 262144
  if powerAtMost (e + 1) n d then
    if powerAtMost (e + 2) n d then e + 2 else e + 1
  else e

/-- The exact decimal of the magnitude of `rank`: a quotient by `2 ^ u` is one by `10 ^ u` times
`5 ^ u`. -/
def exactDecimal (f : FloatFormat) (rank : Nat) : Decimal :=
  Decimal.strip ⟨f.units rank * Nat.pow 5 f.unitShift, -(f.unitShift : Int)⟩

/-- A decimal of `count` digits next to the magnitude of `rank` that reads back as it: of the
largest one below and the smallest one above, the only one that does, or the nearer. -/
def nearDecimal? (f : FloatFormat) (tie : TieRule) (rank : Fin f.infinityRank) (count : Nat) :
    Option Decimal :=
  let n := f.units rank
  let last := firstExponent n f.unit + 1 - count
  let num := if 0 ≤ last then n else n * Nat.pow 10 (-last).toNat
  let den := if 0 ≤ last then f.unit * Nat.pow 10 last.toNat else f.unit
  let below : Decimal := ⟨num / den, last⟩
  let above : Decimal := ⟨num / den + 1, last⟩
  let readsBack (d : Decimal) : Bool := ofDecimal f false d = .finite false rank
  let twice := 2 * (num % den)
  let preferAbove : Bool :=
    if twice = den then
      match tie with
      | .upward => true
      | .toEven => num / den % 2 = 1
    else den < twice
  match readsBack below, readsBack above with
  | true, true => some (if preferAbove then above else below)
  | true, false => some below
  | false, true => some above
  | false, false => none

/-- The shortest decimal that reads back as the magnitude of `rank`. Seventeen digits tell all
values of the 64-bit format apart; past them the exact decimal would be written. -/
def shortestDecimal (f : FloatFormat) (tie : TieRule) (rank : Fin f.infinityRank) : Decimal :=
  if rank.val = 0 then ⟨0, 0⟩
  else
    match (List.range 17).findSome? fun n => nearDecimal? f tie rank (n + 1) with
    | some d => d.strip
    | none => exactDecimal f rank

end Binary

end EnsembleCompiler
