import EnsembleCompiler.Binary.Rounding

/-!
# Decimal numerals as binary values

A decimal is a natural number times a power of ten. Its value in a binary format is the nearest
one. `Binary.ofText?` reads the written forms: an optional sign, then digits with an optional
point and an optional exponent, or a name of infinity or of not-a-number in any case.
-/

namespace EnsembleCompiler

/-- The number `digits * 10 ^ exponent`. -/
structure Decimal where
  digits : Nat
  exponent : Int
  deriving DecidableEq, Repr

namespace Binary

variable {f : FloatFormat}

/-- The value nearest to a decimal. Decimals of `10 ^ 309` and more, and those below `10 ^ -324`,
are past the range of the formats here, so their powers of ten are never formed. -/
def ofDecimal (f : FloatFormat) (negative : Bool) (d : Decimal) : Binary f :=
  let length : Int := (Nat.toDigits 10 d.digits).length
  if d.digits = 0 then zero f negative
  else if 310 ≤ length + d.exponent then .infinite negative
  else if length + d.exponent ≤ -324 then zero f negative
  else if 0 ≤ d.exponent then round f negative (d.digits * Nat.pow 10 d.exponent.toNat) 1
  else round f negative d.digits (Nat.pow 10 (-d.exponent).toNat)

end Binary

namespace Decimal

/-- The exponent of a numeral: an optional sign and at least one digit, to the end. -/
def readExponent? (cs : List Char) : Option Int :=
  match cs with
  | '-' :: rest => (magnitude? rest).map (-·)
  | '+' :: rest => magnitude? rest
  | rest => magnitude? rest
where
  magnitude? (cs : List Char) : Option Int :=
    if !cs.isEmpty && cs.all Char.isDigit then some (Nat.ofDigitChars 10 cs 0) else none

/-- A numeral without sign: digits with at most one point, at least one digit on either side of
it, and an optional exponent. -/
def ofChars? (cs : List Char) : Option Decimal :=
  let whole := cs.takeWhile Char.isDigit
  let afterWhole := cs.dropWhile Char.isDigit
  let fraction :=
    match afterWhole with
    | '.' :: rest => rest.takeWhile Char.isDigit
    | _ => []
  let afterFraction :=
    match afterWhole with
    | '.' :: rest => rest.dropWhile Char.isDigit
    | rest => rest
  if whole.isEmpty && fraction.isEmpty then none
  else
    let digits := Nat.ofDigitChars 10 (whole ++ fraction) 0
    let scale : Int := -(fraction.length : Int)
    match afterFraction with
    | [] => some ⟨digits, scale⟩
    | e :: rest =>
      if e = 'e' || e = 'E' then (readExponent? rest).map fun x => ⟨digits, scale + x⟩ else none

end Decimal

namespace Binary

/-- A value without sign: a numeral, or a name of infinity or not-a-number. -/
def ofUnsignedText? (f : FloatFormat) (negative : Bool) (cs : List Char) : Option (Binary f) :=
  let name := String.ofList (cs.map Char.toLower)
  if name = "inf" || name = "infinity" then some (.infinite negative)
  else if name = "nan" then some .nan
  else (Decimal.ofChars? cs).map (ofDecimal f negative)

/-- The value that a text names. -/
def ofChars? (f : FloatFormat) (cs : List Char) : Option (Binary f) :=
  match cs with
  | '-' :: rest => ofUnsignedText? f true rest
  | '+' :: rest => ofUnsignedText? f false rest
  | rest => ofUnsignedText? f false rest

/-- The value that a string names. -/
def ofText? (f : FloatFormat) (text : String) : Option (Binary f) := ofChars? f text.toList

end Binary

end EnsembleCompiler
