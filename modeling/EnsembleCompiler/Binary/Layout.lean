import EnsembleCompiler.Binary.Shortest

/-!
# Layouts of floating-point text

The digits of a value are the shortest that read back. A layout decides the rest: which
exponents are written positionally, whether a whole number keeps a fractional part, and how an
exponent is written.
-/

namespace EnsembleCompiler

/-- How the digits of a finite value are laid out. -/
structure FloatLayout where
  /-- Whether a value whose first digit has this exponent is written positionally. -/
  positional : Int → Bool
  /-- Whether a whole number written positionally ends in `.0`. -/
  wholePoint : Bool
  /-- Whether an exponent that is not negative has a plus sign. -/
  plusSign : Bool
  tie : TieRule

namespace FloatLayout

/-- Digits around a decimal point; `first` is the exponent of the first digit. -/
def positionalChars (layout : FloatLayout) (digits : List Char) (first : Int) : List Char :=
  if first < 0 then
    '0' :: '.' :: List.replicate (-first - 1).toNat '0' ++ digits
  else
    let whole := first.toNat + 1
    if digits.length ≤ whole then
      digits ++ List.replicate (whole - digits.length) '0'
        ++ (if layout.wholePoint then ['.', '0'] else [])
    else digits.take whole ++ '.' :: digits.drop whole

/-- One digit, the others after a point, and the exponent of the first. -/
def exponentialChars (layout : FloatLayout) (digits : List Char) (first : Int) : List Char :=
  let mantissa :=
    match digits with
    | d :: e :: rest => d :: '.' :: e :: rest
    | short => short
  let sign := if first < 0 then ['-'] else if layout.plusSign then ['+'] else []
  mantissa ++ 'e' :: sign ++ Nat.toDigits 10 first.natAbs

/-- The text of a decimal. -/
def decimalChars (layout : FloatLayout) (d : Decimal) : List Char :=
  let digits := Nat.toDigits 10 d.digits
  let first := d.exponent + digits.length - 1
  if layout.positional first then layout.positionalChars digits first
  else layout.exponentialChars digits first

/-- The text of a value; not-a-number is written without sign. -/
def chars {f : FloatFormat} (layout : FloatLayout) : Binary f → List Char
  | .nan => "NaN".toList
  | .infinite negative => signChars negative ++ "inf".toList
  | .finite negative rank =>
    signChars negative ++ layout.decimalChars (Binary.shortestDecimal f layout.tie rank)
where
  signChars (negative : Bool) : List Char := if negative then ['-'] else []

/-- The text of a value. -/
def text {f : FloatFormat} (layout : FloatLayout) (x : Binary f) : String :=
  String.ofList (layout.chars x)

end FloatLayout

end EnsembleCompiler
