import EnsembleCompiler.Json.Reader

/-!
# JSON numerals

The written form of numbers: a sign, digits without leading zeros, and optionally a fraction and
an exponent. Digits are collected as long as their number fits 64 bits; the others count only for
the power of ten. So values are not always rounded correctly, as `serde_json` documents of its
default.
-/

namespace EnsembleCompiler.Json

/-- Collects digits into a number as long as it stays within a bound, and gives the digits left. -/
def collectDigits (bound : Nat) (n : Nat) (digits : List Char) : Nat × List Char :=
  match digits with
  | [] => (n, [])
  | c :: rest =>
    let m := 10 * n + (c.toNat - '0'.toNat)
    if m ≤ bound then collectDigits bound m rest else (n, c :: rest)

/-- The bound of significands: the largest integer of 64 bits. -/
def significandBound : Nat := UInt64.size - 1

/-- The bound of exponents: the largest signed integer of 32 bits. -/
def exponentBound : Nat := Int32.maxValue.toInt.toNat

/-- An exponent within 32 bits. -/
def clampExponent (e : Int) : Int := max Int32.minValue.toInt (min e Int32.maxValue.toInt)

/-- Whether a character begins an exponent. -/
def isExponentMark (c : Option Char) : Bool := c = some 'e' || c = some 'E'

namespace Reader

def digits : Reader (List Char) := takeWhile Char.isDigit

/-- The value of the parts of a number, at the end of its text. -/
def ofParts (isNegative : Bool) (significand : Nat) (exponent : Int) : Reader Number := do
  match ofParts? isNegative significand.toUInt64 exponent with
  | some x => return .real x
  | none => failHere .numberOutOfRange

/-- The sign of an exponent: whether it is negative. -/
def exponentSign : Reader Bool := do
  match ← peek with
  | some '+' =>
    shift
    return false
  | some '-' =>
    shift
    return true
  | _ => return false

/-- An exponent and what it makes of a number. An exponent past 32 bits is too large, or makes
the number zero. -/
def exponentPart (isNegative : Bool) (significand : Nat) (exponent : Int) : Reader Number := do
  shift
  let isDown ← exponentSign
  match ← peek with
  | none => failHere .endOfValue
  | some c => if !c.isDigit then failPast .invalidNumber
  let (e, left) := collectDigits exponentBound 0 (← digits)
  if left.isEmpty then
    ofParts isNegative significand (clampExponent (if isDown then exponent - e else exponent + e))
  else if significand ≠ 0 && !isDown then
    failAt .numberOutOfRange fun c => c.index - left.length + 1
  else return .real (Binary.zero .double isNegative)

/-- A number from its exponent on, if it has one. -/
def exponentOrEnd (isNegative : Bool) (significand : Nat) (exponent : Int) : Reader Number := do
  if isExponentMark (← peek) then exponentPart isNegative significand exponent
  else ofParts isNegative significand exponent

/-- A number from its point on. -/
def fractionPart (isNegative : Bool) (significand : Nat) (exponent : Int) : Reader Number := do
  shift
  let fraction ← digits
  if fraction.isEmpty then
    match ← peek with
    | none => failNext .endOfValue
    | some _ => failNext .invalidNumber
  let (significand, left) := collectDigits significandBound significand fraction
  exponentOrEnd isNegative significand (exponent - (fraction.length - left.length : Nat))

/-- The first digits of a number: a zero alone, or digits that begin with another. -/
def wholeDigits : Reader (List Char) := do
  match ← peek with
  | none => failHere .endOfValue
  | some '0' =>
    shift
    match ← peek with
    | some c => if c.isDigit then failNext .invalidNumber else return ['0']
    | none => return ['0']
  | some c => if c.isDigit then digits else failPast .invalidNumber

/-- A number after its sign. -/
def unsigned (isNegative : Bool) : Reader Number := do
  let whole ← wholeDigits
  let (significand, left) := collectDigits significandBound 0 whole
  match ← peek with
  | some '.' => fractionPart isNegative significand left.length
  | c =>
    if isExponentMark c then exponentPart isNegative significand left.length
    else if left.isEmpty then return Number.ofDigits isNegative significand.toUInt64
    else ofParts isNegative significand left.length

/-- A number. -/
def number : Reader Number := do
  if (← peek) = some '-' then
    shift
    unsigned true
  else unsigned false

/-- An exponent whose value is not wanted. -/
def skipExponent : Reader Unit := do
  shift
  let _ ← exponentSign
  match ← peek with
  | none => failHere .invalidNumber
  | some c =>
    if !c.isDigit then failPast .invalidNumber
    let _ ← digits

/-- The first digits of a number whose value is not wanted. -/
def skipWhole : Reader Unit := do
  match ← peek with
  | none => failHere .invalidNumber
  | some '0' =>
    shift
    match ← peek with
    | some c => if c.isDigit then failNext .invalidNumber
    | none => return ()
  | some c =>
    if !c.isDigit then failPast .invalidNumber
    let _ ← digits

/-- A fraction, if there is one, whose value is not wanted. -/
def skipFraction : Reader Unit := do
  if (← peek) = some '.' then
    shift
    if (← digits).isEmpty then failNext .invalidNumber

/-- A number whose value is not wanted: its form alone is checked. -/
def skipNumber : Reader Unit := do
  if (← peek) = some '-' then shift
  skipWhole
  skipFraction
  if isExponentMark (← peek) then skipExponent

end Reader

/-- Whether a number begins with this character. -/
def startsNumber (c : Char) : Bool := c = '-' || c.isDigit

end EnsembleCompiler.Json
