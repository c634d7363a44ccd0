import EnsembleCompiler.Binary.Decimal
import EnsembleCompiler.Target.Fault
import EnsembleCompiler.Target.Lexeme

/-!
# Number literals

A number is its digits and, after them, the name of a numeric type. Decimal digits may have a
fraction and an exponent, which make a floating-point literal, and so does a floating-point type
after them; integers are also written to the radix 16, 8 or 2. Underscores may stand among the
digits. A point that begins a range or a method call does not belong to the number.
-/

namespace EnsembleCompiler.Target

/-- The names of the integer types. -/
def integerTypes : List String :=
  ["i8", "i16", "i32", "i64", "i128", "isize", "u8", "u16", "u32", "u64", "u128", "usize"]

/-- The names of the floating-point types. -/
def floatTypes : List String := ["f32", "f64"]

/-- A lexeme read from the front of a text: how many bytes it takes, what follows, and its
faults, whose spans count from its first byte. -/
structure Scanned where
  lexeme : Lexeme
  width : Nat
  rest : List Char
  faults : List LocatedFault

/-- Characters that go on with a run of decimal digits. -/
def continuesDigits (c : Char) : Bool := c.isDigit || c = '_'

/-- The fraction that follows a whole number, with its point, and what is left. A point at the
end of a number belongs to it unless another point or a word follows. -/
def splitFraction (cs : List Char) : List Char × List Char :=
  match cs with
  | '.' :: [] => (['.'], [])
  | '.' :: c :: rest =>
    if c.isDigit then
      ('.' :: (c :: rest).takeWhile continuesDigits, (c :: rest).dropWhile continuesDigits)
    else if c = '.' || startsWord c then ([], cs)
    else (['.'], c :: rest)
  | _ => ([], cs)

/-- Digits that begin with a digit, or nothing. -/
def splitExponentDigits (cs : List Char) : List Char × List Char :=
  match cs with
  | c :: _ =>
    if c.isDigit then (cs.takeWhile continuesDigits, cs.dropWhile continuesDigits) else ([], cs)
  | [] => ([], [])

/-- The sign of an exponent, or nothing. -/
def splitSign (cs : List Char) : List Char × List Char :=
  match cs with
  | '+' :: rest => (['+'], rest)
  | '-' :: rest => (['-'], rest)
  | _ => ([], cs)

/-- The exponent that follows a number, and what is left. Without digits there is none. -/
def splitExponent (cs : List Char) : List Char × List Char :=
  match cs with
  | e :: rest =>
    if e = 'e' || e = 'E' then
      let sign := splitSign rest
      let digits := splitExponentDigits sign.2
      if digits.1.isEmpty then ([], cs) else (e :: sign.1 ++ digits.1, digits.2)
    else ([], cs)
  | [] => ([], [])

/-- The word that follows a number, and what is left. -/
def splitSuffix (cs : List Char) : Option String × List Char :=
  match cs with
  | c :: _ =>
    if startsWord c then
      (some (String.ofList (cs.takeWhile continuesWord)), cs.dropWhile continuesWord)
    else (none, cs)
  | [] => (none, [])

/-- The fault of a suffix after decimal digits. -/
def decimalSuffixFault (isFloat : Bool) (suffix : Option String) : List LexicalFault :=
  match suffix with
  | some s =>
    if s ∈ floatTypes || (!isFloat && s ∈ integerTypes) then [] else [.numberSuffix s]
  | none => []

/-- The lexeme of decimal digits, and the fault of its value. -/
def decimalLexeme (isFloat : Bool) (digits : List Char) (suffix : Option String) :
    Lexeme × List LexicalFault :=
  let text := digits.filter (· ≠ '_')
  if isFloat || suffix.any (· ∈ floatTypes) then
    let numeral := (text.reverse.dropWhile (· = '.')).reverse
    match Binary.ofChars? .double numeral with
    | some value => (.float value suffix, [])
    | none => (.float (Binary.zero .double false) suffix, [.malformedFloat (String.ofList text)])
  else
    let value := Nat.ofDigitChars 10 text 0
    if value < integerBound then (.integer value suffix, [])
    else (.integer 0 suffix, [.integerTooLarge (String.ofList text)])

/-- Reads a number to the radix ten. -/
def scanDecimal (cs : List Char) : Scanned :=
  let whole := cs.takeWhile continuesDigits
  let fraction := splitFraction (cs.dropWhile continuesDigits)
  let exponent := splitExponent fraction.2
  let suffix := splitSuffix exponent.2
  let isFloat := !(fraction.1.isEmpty && exponent.1.isEmpty)
  let digits := whole ++ fraction.1 ++ exponent.1
  let width := digits.length + (suffix.1.getD "").length
  let (lexeme, faults) := decimalLexeme isFloat digits suffix.1
  ⟨lexeme, width, suffix.2,
    (decimalSuffixFault isFloat suffix.1 ++ faults).map (⟨·, ⟨0, width⟩⟩)⟩

/-- The digit that a character stands for, in either case. -/
def digitValue (c : Char) : Nat :=
  if c.isDigit then c.toNat - '0'.toNat
  else if 'a' ≤ c && c ≤ 'z' then c.toNat - 'a'.toNat + 10
  else if 'A' ≤ c && c ≤ 'Z' then c.toNat - 'A'.toNat + 10
  else 36

/-- Characters that go on with digits of a radix. -/
def continuesRadix (radix : Nat) (c : Char) : Bool := digitValue c < radix || c = '_'

/-- The number that digits of a radix stand for. -/
def radixValue (radix : Nat) (digits : List Char) : Nat :=
  digits.foldl (fun value c => radix * value + digitValue c) 0

/-- The fault of a suffix after digits of another radix than ten. -/
def radixSuffixFault (suffix : Option String) : List LexicalFault :=
  match suffix with
  | some s => if s ∈ integerTypes then [] else [.integerSuffix s]
  | none => []

/-- Reads an integer to the given radix; `mark` is the letter between the zero and the digits. -/
def scanRadix (radix : Nat) (mark : Char) (cs : List Char) : Scanned :=
  let written := cs.takeWhile (continuesRadix radix)
  let suffix := splitSuffix (cs.dropWhile (continuesRadix radix))
  let digits := written.filter (· ≠ '_')
  let value := radixValue radix digits
  let width := 2 + written.length + (suffix.1.getD "").length
  let text := String.ofList ('0' :: mark :: written) ++ suffix.1.getD ""
  let isGood : Bool := !digits.isEmpty && value < integerBound
  let faults := radixSuffixFault suffix.1 ++ if isGood then [] else [.malformedInteger text]
  ⟨.integer (if isGood then value else 0) suffix.1, width, suffix.2,
    faults.map (⟨·, ⟨0, width⟩⟩)⟩

/-- Reads a number. The text begins with a digit. -/
def scanNumber (cs : List Char) : Scanned :=
  match cs with
  | '0' :: 'x' :: rest => scanRadix 16 'x' rest
  | '0' :: 'o' :: rest => scanRadix 8 'o' rest
  | '0' :: 'b' :: rest => scanRadix 2 'b' rest
  | _ => scanDecimal cs

theorem length_splitFraction_le (cs : List Char) : (splitFraction cs).2.length ≤ cs.length := by
  unfold splitFraction
  split
  · simp
  · next c rest =>
    have := (List.dropWhile_suffix continuesDigits (l := c :: rest)).length_le
    split
    · simp only [List.length_cons] at *; omega
    · split <;> simp
  · simp

theorem length_splitExponentDigits_le (cs : List Char) :
    (splitExponentDigits cs).2.length ≤ cs.length := by
  unfold splitExponentDigits
  split
  · split
    · exact (List.dropWhile_suffix _).length_le
    · simp
  · simp

theorem length_splitSign_le (cs : List Char) : (splitSign cs).2.length ≤ cs.length := by
  unfold splitSign
  split <;> simp

theorem length_splitExponent_le (cs : List Char) : (splitExponent cs).2.length ≤ cs.length := by
  unfold splitExponent
  split
  · next e rest =>
    have h₁ := length_splitSign_le rest
    have h₂ := length_splitExponentDigits_le (splitSign rest).2
    split
    · dsimp only
      split
      · simp
      · simp only [List.length_cons]; omega
    · simp
  · simp

theorem length_splitSuffix_le (cs : List Char) : (splitSuffix cs).2.length ≤ cs.length := by
  unfold splitSuffix
  split
  · split
    · exact (List.dropWhile_suffix _).length_le
    · simp
  · simp

theorem length_scanRadix_le (radix : Nat) (mark : Char) (cs : List Char) :
    (scanRadix radix mark cs).rest.length ≤ cs.length := by
  have h₁ := (List.dropWhile_suffix (continuesRadix radix) (l := cs)).length_le
  have h₂ := length_splitSuffix_le (cs.dropWhile (continuesRadix radix))
  simp only [scanRadix]
  omega

theorem length_scanDecimal_lt {c : Char} {cs : List Char} (h : c.isDigit = true) :
    (scanDecimal (c :: cs)).rest.length < (c :: cs).length := by
  have hc : continuesDigits c = true := by simp [continuesDigits, h]
  have h₁ := (List.dropWhile_suffix continuesDigits (l := cs)).length_le
  have h₂ := length_splitFraction_le (cs.dropWhile continuesDigits)
  have h₃ := length_splitExponent_le (splitFraction (cs.dropWhile continuesDigits)).2
  have h₄ := length_splitSuffix_le
    (splitExponent (splitFraction (cs.dropWhile continuesDigits)).2).2
  simp only [scanDecimal, List.dropWhile_cons, hc, if_true, List.length_cons]
  omega

/-- A number takes at least its first digit. -/
theorem length_scanNumber_lt {c : Char} {cs : List Char} (h : c.isDigit = true) :
    (scanNumber (c :: cs)).rest.length < (c :: cs).length := by
  unfold scanNumber
  split
  · exact Nat.lt_of_le_of_lt (length_scanRadix_le 16 'x' _) (by grind)
  · exact Nat.lt_of_le_of_lt (length_scanRadix_le 8 'o' _) (by grind)
  · exact Nat.lt_of_le_of_lt (length_scanRadix_le 2 'b' _) (by grind)
  · exact length_scanDecimal_lt h

end EnsembleCompiler.Target
