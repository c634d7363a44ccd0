import EnsembleCompiler.Binary.Layout

/-!
# JSON numbers

A number is held as a natural number or a negative integer where it is written as one and fits 64
bits, and as a floating-point value otherwise.
-/

namespace EnsembleCompiler.Json

inductive Number where
  | natural (n : UInt64)
  | negative (n : Int64)
  | real (x : Binary64)
  deriving DecidableEq

/-- Floating-point numbers in messages: positional from `10 ^ -5` to below `10 ^ 16`, always with a
fractional part there, and a plus sign before a positive exponent. -/
def numberLayout : FloatLayout := ⟨fun e => -5 ≤ e && e < 16, true, true, .toEven⟩

/-- The magnitude of the least signed integer of 64 bits. -/
def leastMagnitude : UInt64 := 0x8000000000000000

namespace Number

def text : Number → String
  | natural n => Nat.repr n.toNat
  | negative n => Int.repr n.toInt
  | real x => numberLayout.text x

/-- The value as a floating-point one. -/
def toReal : Number → Binary64
  | natural n => Binary.ofNat .double n.toNat
  | negative n => Binary.ofInt .double n.toInt
  | real x => x

/-- The value as a signed integer of 64 bits, if it is written as one. -/
def toInteger? : Number → Option Int64
  | natural n => if n < leastMagnitude then some n.toInt64 else none
  | negative n => some n
  | real _ => none

/-- The number written as digits with the given value; a negative zero, and integers that do not
fit, are floating-point numbers. -/
def ofDigits (isNegative : Bool) (n : UInt64) : Number :=
  if !isNegative then natural n
  else if 0 < n && n ≤ leastMagnitude then negative (Int64.ofInt (-(n.toNat : Int)))
  else real (Binary.ofNat .double n.toNat).neg

end Number

/-- A value scaled by a power of ten, a step of `10 ^ 308` at a time. Zero stays as it is. -/
def scaleDown (x : Binary64) (exponent : Nat) : Binary64 :=
  if exponent ≤ 308 then x.div (Binary.ofNat .double (Nat.pow 10 exponent))
  else if x.isZero then x
  else scaleDown (x.div (Binary.ofNat .double (Nat.pow 10 308))) (exponent - 308)
termination_by exponent
decreasing_by omega

/-- The value of a significand and a power of ten, computed with one rounding for the significand
and one for each step of scaling; nothing if it is too large. -/
def ofParts? (isNegative : Bool) (significand : UInt64) (exponent : Int) : Option Binary64 :=
  let x := Binary.ofNat .double significand.toNat
  let scaled :=
    if exponent < 0 then some (scaleDown x exponent.natAbs)
    else if 308 < exponent then (if x.isZero then some x else none)
    else
      let y := x.mul (Binary.ofNat .double (Nat.pow 10 exponent.toNat))
      if y.isInfinite then none else some y
  scaled.map fun y => if isNegative then y.neg else y

end EnsembleCompiler.Json
