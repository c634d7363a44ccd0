import EnsembleCompiler.Proofs.Target.NumberForms
import EnsembleCompiler.Proofs.Target.Tiling
import EnsembleCompiler.Proofs.Target.TokenFaults

/-!
# Number tokens

What the number tokens of a text stand for. The text of a number, which is the token without its
suffix, says all: its radix, its digits and with them its value, whether it is an integer, and which
suffixes may stand behind it. Faults at a number are about its suffix or about its value, and it has
them exactly where its text and its suffix give cause for them.
-/

namespace EnsembleCompiler.Target

/-! ### What a number spells -/

/-- The radix of a number, which a letter behind a leading zero names. -/
def radixOf (text : List Char) : Nat :=
  match text with
  | '0' :: 'x' :: _ => 16
  | '0' :: 'o' :: _ => 8
  | '0' :: 'b' :: _ => 2
  | _ => 10

/-- The digits of a number, without the mark of its radix and without underscores. -/
def digitsOf (text : List Char) : List Char :=
  dense (if radixOf text = 10 then text else text.drop 2)

/-- The number that the digits spell, the last of them being that of the ones. -/
def spelledValue (text : List Char) : Nat :=
  Nat.ofDigits (radixOf text) ((digitsOf text).reverse.map digitValue)

/-- Whether a decimal number has a fraction, or a point at least, or an exponent. -/
def isFractional (text : List Char) : Bool :=
  radixOf text = 10 && text.any (· ∈ ['.', 'e', 'E'])

/-- Whether a number is an integer: it has neither a fraction nor an exponent, and no floating-point
type behind decimal digits. -/
def isIntegral (text : List Char) (suffix : Option String) : Bool :=
  radixOf text ≠ 10 || !(isFractional text || suffix.any (· ∈ floatTypes))

/-- What may stand behind a number: an integer type where there is neither a fraction nor an
exponent, and a floating-point type behind decimal digits. -/
def admitsSuffix (text : List Char) (suffix : Option String) : Bool :=
  suffix.all fun s =>
    (!isFractional text && s ∈ integerTypes) || (radixOf text = 10 && s ∈ floatTypes)

/-- The faults of a suffix. -/
def suffixFaults (text : List Char) (suffix : Option String) : List LexicalFault :=
  if admitsSuffix text suffix then []
  else if radixOf text = 10 then [.numberSuffix (suffix.getD "")]
  else [.integerSuffix (suffix.getD "")]

/-- The faults of a value: only integers have one, without digits or beyond the bound. -/
def valueFaults (text : List Char) (suffix : Option String) : List LexicalFault :=
  if isIntegral text suffix && (integerBound ≤ spelledValue text || digitsOf text = []) then
    if radixOf text = 10 then [.integerTooLarge (String.ofList (dense text))]
    else [.malformedInteger (String.ofList text ++ suffix.getD "")]
  else []

/-- A word that does not begin with a digit of the radix, as it may be behind digits. -/
def SuffixWord (radix : Nat) (word : String) : Prop :=
  ∃ c tail, word.toList = c :: tail ∧ startsWord c = true ∧ radix ≤ digitValue c ∧
    ∀ d ∈ tail, continuesWord d = true

/-- What the scanner reads from the front of a text is the number with the given text and suffix. -/
structure Scanned.ReadsNumber (s : Scanned) (cs text : List Char) (suffix : Option String) :
    Prop where
  split : SplitsOff (text ++ suffixChars suffix) s.rest cs
  width : s.width = (text ++ suffixChars suffix).length
  word : ∀ s ∈ suffix, SuffixWord (radixOf text) s
  faults : s.faults =
    (suffixFaults text suffix ++ valueFaults text suffix).map (⟨·, ⟨0, s.width⟩⟩)
  integer : isIntegral text suffix → (∀ c ∈ digitsOf text, digitValue c < radixOf text) ∧
    s.lexeme = .integer (if valueFaults text suffix = [] then spelledValue text else 0) suffix
  float : isIntegral text suffix = false → ∃ value, s.lexeme = .float value suffix ∧
    Binary.ofChars? .double (numeralOf text) = some value

/-- The word behind digits where the next character is no digit of the radix. -/
theorem suffixWord_splitSuffix {radix : Nat} {cs : List Char}
    (h : NextChar (fun c => startsWord c = true → radix ≤ digitValue c) cs) :
    ∀ s ∈ (splitSuffix cs).1, SuffixWord radix s := by
  intro s hs
  by_cases hnone : NextChar (fun c => startsWord c = false) cs
  · rw [splitSuffix_none hnone] at hs
    cases hs
  cases cs with
  | nil => exact absurd (by simp [NextChar]) hnone
  | cons c rest =>
    have hword : startsWord c = true := by simpa [NextChar] using hnone
    rw [splitSuffix_word hword] at hs
    cases hs
    exact ⟨c, _, String.toList_ofList, hword, h c rfl hword, fun d hd => List.mem_takeWhile_imp hd⟩

/-! ### Numbers to another radix -/

theorem radixSuffixFault_eq {text : List Char} (h : radixOf text ≠ 10) (suffix : Option String) :
    radixSuffixFault suffix = suffixFaults text suffix := by
  cases suffix with
  | none => simp [radixSuffixFault, suffixFaults, admitsSuffix]
  | some s => simp [radixSuffixFault, suffixFaults, admitsSuffix, isFractional, h]

section

variable {radix : Nat} {mark : Char} {written : List Char}

theorem digitsOf_marked (h : radixOf ('0' :: mark :: written) ≠ 10) :
    digitsOf ('0' :: mark :: written) = dense written := by
  simp [digitsOf, h]

theorem spelledValue_marked (h : radixOf ('0' :: mark :: written) = radix) (hten : radix ≠ 10) :
    spelledValue ('0' :: mark :: written) = radixValue radix (dense written) := by
  rw [spelledValue, digitsOf_marked (h ▸ hten), h, radixValue_eq_ofDigits]

/-- A number to another radix is at fault if it has no digits or exceeds the bound. -/
theorem valueFaults_marked (h : radixOf ('0' :: mark :: written) = radix) (hten : radix ≠ 10)
    (suffix : Option String) :
    valueFaults ('0' :: mark :: written) suffix =
      if !(dense written).isEmpty && radixValue radix (dense written) < integerBound then []
      else [.malformedInteger (String.ofList ('0' :: mark :: written) ++ suffix.getD "")] := by
  have hcause : (decide (integerBound ≤ radixValue radix (dense written)) ||
      decide (dense written = [])) =
      !(!(dense written).isEmpty && decide (radixValue radix (dense written) < integerBound)) := by
    rw [Bool.eq_iff_iff]
    simp [List.isEmpty_iff, or_comm]
  rw [valueFaults, spelledValue_marked h hten, digitsOf_marked (h ▸ hten), hcause]
  simp only [isIntegral, h, hten, ne_eq, not_false_eq_true, decide_true, Bool.true_or,
    Bool.true_and, if_false]
  cases !(dense written).isEmpty && decide (radixValue radix (dense written) < integerBound) <;> rfl

end

theorem readsNumber_radix {radix : Nat} (hradix : radix ≤ 36) {mark : Char}
    (hmark : mark.utf8Size = 1) (hof : ∀ cs, radixOf ('0' :: mark :: cs) = radix) (hten : radix ≠ 10)
    (cs : List Char) :
    (scanRadix radix mark cs).ReadsNumber ('0' :: mark :: cs)
      ('0' :: mark :: cs.takeWhile (continuesRadix radix))
      (splitSuffix (cs.dropWhile (continuesRadix radix))).1 := by
  have hwritten := splitsOff_while (continuesRadix radix)
    (fun _ => utf8Size_of_continuesRadix hradix) cs
  have htext := hof (cs.takeWhile (continuesRadix radix))
  have hfaults := valueFaults_marked htext hten
    (splitSuffix (cs.dropWhile (continuesRadix radix))).1
  have hne : radixOf ('0' :: mark :: cs.takeWhile (continuesRadix radix)) ≠ 10 := by rwa [htext]
  constructor
  case split => exact ((hwritten.append (splitsOff_suffix _)).cons hmark).cons rfl
  case width =>
    simp only [scanRadix, suffixChars, List.length_cons, List.length_append, String.length_toList]
    omega
  case word =>
    rw [htext]
    refine suffixWord_splitSuffix ((nextChar_dropWhile (continuesRadix radix) cs).mono ?_)
    intro c hc _
    rw [continuesRadix, Bool.or_eq_false_iff] at hc
    simpa using hc.1
  case faults =>
    rw [hfaults, ← radixSuffixFault_eq hne]
    rfl
  -- the lexeme has the value of the digits if there are any and they are below the bound
  case integer =>
    intro _
    rw [digitsOf_marked hne, htext, spelledValue_marked htext hten, hfaults]
    constructor
    · intro c hc
      obtain ⟨hmem, hc⟩ := List.mem_filter.1 hc
      have hcontinues := List.mem_takeWhile_imp hmem
      simp only [continuesRadix, Bool.or_eq_true, decide_eq_true_eq] at hcontinues
      exact hcontinues.resolve_right (by simpa using hc)
    · have hlexeme : (scanRadix radix mark cs).lexeme = .integer
          (if !(dense (cs.takeWhile (continuesRadix radix))).isEmpty &&
              radixValue radix (dense (cs.takeWhile (continuesRadix radix))) < integerBound then
            radixValue radix (dense (cs.takeWhile (continuesRadix radix))) else 0)
          (splitSuffix (cs.dropWhile (continuesRadix radix))).1 := rfl
      rw [hlexeme]
      cases !(dense (cs.takeWhile (continuesRadix radix))).isEmpty &&
        decide (radixValue radix (dense (cs.takeWhile (continuesRadix radix))) < integerBound) <;> rfl
  case float =>
    intro h
    simp [isIntegral, hne] at h

/-! ### Decimal numbers -/

theorem digitValue_lt_of_isDigit {c : Char} (h : c.isDigit = true) : digitValue c < 10 := by
  have hle := toNat_le_of_isDigit h
  have hzero : '0'.toNat = 48 := rfl
  rw [digitValue, if_pos h]
  omega

/-- Letters are digits to a greater radix than ten. -/
theorem le_digitValue_of_startsWord {c : Char} (h : startsWord c = true) : 10 ≤ digitValue c := by
  have hdigit : ¬ c.isDigit = true := fun hdigit => by
    rw [not_startsWord_of_isDigit hdigit] at h
    cases h
  unfold digitValue
  split_ifs <;> omega

namespace DecimalForm

variable {whole fraction exponent : List Char} {suffix : Option String}

theorem isFractional_eq (h : DecimalForm whole fraction exponent)
    (hten : radixOf (whole ++ fraction ++ exponent) = 10) :
    isFractional (whole ++ fraction ++ exponent) = !(fraction.isEmpty && exponent.isEmpty) := by
  have hwhole : whole.any (· ∈ ['.', 'e', 'E']) = false := by
    rw [List.any_eq_false]
    intro c hc
    have hcontinues := h.wholeRun.continues c hc
    rintro hmem
    have hmem : c = '.' ∨ c = 'e' ∨ c = 'E' := by simpa using hmem
    rcases hmem with rfl | rfl | rfl <;> exact absurd hcontinues (by decide)
  have hfraction : fraction.any (· ∈ ['.', 'e', 'E']) = !fraction.isEmpty := by
    cases h.fractionForm <;> simp
  have hexponent : exponent.any (· ∈ ['.', 'e', 'E']) = !exponent.isEmpty := by
    cases h.exponentForm with
    | none => rfl
    | digits he => rcases he with rfl | rfl <;> simp
  simp only [isFractional, hten, decide_true, Bool.true_and, List.any_append, hwhole, hfraction,
    hexponent, Bool.false_or, Bool.not_and]

theorem isIntegral_eq (h : DecimalForm whole fraction exponent)
    (hten : radixOf (whole ++ fraction ++ exponent) = 10) (suffix : Option String) :
    isIntegral (whole ++ fraction ++ exponent) suffix =
      !(!(fraction.isEmpty && exponent.isEmpty) || suffix.any (· ∈ floatTypes)) := by
  simp only [isIntegral, hten, h.isFractional_eq hten, ne_eq, not_true_eq_false, decide_false,
    Bool.false_or]

theorem decimalSuffixFault_eq (h : DecimalForm whole fraction exponent)
    (hten : radixOf (whole ++ fraction ++ exponent) = 10) (suffix : Option String) :
    decimalSuffixFault (!(fraction.isEmpty && exponent.isEmpty)) suffix =
      suffixFaults (whole ++ fraction ++ exponent) suffix := by
  cases suffix with
  | none => simp [decimalSuffixFault, suffixFaults, admitsSuffix]
  | some s =>
    simp only [decimalSuffixFault, suffixFaults, admitsSuffix, h.isFractional_eq hten, hten]
    simp [or_comm]

/-- A floating-point number has a value, and no fault of it. -/
theorem decimalLexeme_float (h : DecimalForm whole fraction exponent)
    (hten : radixOf (whole ++ fraction ++ exponent) = 10)
    (hfloat : isIntegral (whole ++ fraction ++ exponent) suffix = false) :
    ∃ value, decimalLexeme (!(fraction.isEmpty && exponent.isEmpty))
        (whole ++ fraction ++ exponent) suffix = (.float value suffix, []) ∧
      Binary.ofChars? .double (numeralOf (whole ++ fraction ++ exponent)) = some value := by
  obtain ⟨value, hvalue⟩ := h.exists_value .double
  have htrim := h.trim_eq_numeralOf
  refine ⟨value, ?_, hvalue⟩
  have hcase : (!(fraction.isEmpty && exponent.isEmpty) || suffix.any (· ∈ floatTypes)) = true := by
    rwa [h.isIntegral_eq hten, Bool.not_eq_false'] at hfloat
  have hread : Binary.ofChars? .double
      (((whole ++ fraction ++ exponent).filter (· ≠ '_')).reverse.dropWhile (· = '.')).reverse =
        some value := by
    rw [← hvalue, ← htrim]
    rfl
  rw [decimalLexeme, if_pos hcase]
  simp only [hread]

/-- A decimal integer has its value, or the fault that it exceeds the bound. -/
theorem decimalLexeme_integer (h : DecimalForm whole fraction exponent)
    (hten : radixOf (whole ++ fraction ++ exponent) = 10)
    (hinteger : isIntegral (whole ++ fraction ++ exponent) suffix = true) :
    Digits (digitsOf (whole ++ fraction ++ exponent)) ∧
      decimalLexeme (!(fraction.isEmpty && exponent.isEmpty)) (whole ++ fraction ++ exponent) suffix =
        (.integer (if valueFaults (whole ++ fraction ++ exponent) suffix = [] then
            spelledValue (whole ++ fraction ++ exponent) else 0) suffix,
          valueFaults (whole ++ fraction ++ exponent) suffix) := by
  have hcase : (!(fraction.isEmpty && exponent.isEmpty) || suffix.any (· ∈ floatTypes)) = false := by
    rwa [h.isIntegral_eq hten, Bool.not_eq_true'] at hinteger
  obtain ⟨rfl, rfl⟩ : fraction = [] ∧ exponent = [] := by
    simpa [List.isEmpty_iff] using (Bool.or_eq_false_iff.1 hcase).1
  simp only [List.append_nil] at hten hinteger ⊢
  have hdense := h.wholeRun.digits
  have hdigits : digitsOf whole = dense whole := by rw [digitsOf, if_pos hten]
  have hvalue : spelledValue whole = Nat.ofDigitChars 10 (dense whole) 0 := by
    rw [spelledValue, hten, hdigits, ← radixValue_eq_ofDigits,
      ofDigitChars_eq_radixValue hdense.isDigit]
  -- there are digits, so the bound is the only way to fail
  have hfaults : valueFaults whole suffix =
      if Nat.ofDigitChars 10 (dense whole) 0 < integerBound then []
      else [.integerTooLarge (String.ofList (dense whole))] := by
    simp only [valueFaults, hinteger, hvalue, hdigits, hten, hdense.ne_nil, decide_false,
      Bool.or_false, Bool.true_and, decide_eq_true_eq, if_true]
    split <;> split <;> first | rfl | omega
  refine ⟨hdigits ▸ hdense, ?_⟩
  rw [decimalLexeme, if_neg (by rw [hcase]; decide), hfaults, hvalue]
  change (if Nat.ofDigitChars 10 (dense whole) 0 < integerBound then
    (Lexeme.integer (Nat.ofDigitChars 10 (dense whole) 0) suffix, [])
    else (Lexeme.integer 0 suffix, [LexicalFault.integerTooLarge (String.ofList (dense whole))])) = _
  split <;> rfl

/-- What is read of parts of these forms is the number that they make. -/
theorem readsNumber (h : DecimalForm whole fraction exponent)
    (hten : radixOf (whole ++ fraction ++ exponent) = 10) {rest cs : List Char}
    (hsplit : SplitsOff (whole ++ fraction ++ exponent ++ suffixChars suffix) rest cs)
    (hword : ∀ s ∈ suffix, SuffixWord 10 s)
    {isFloat : Bool} (hfloat : isFloat = !(fraction.isEmpty && exponent.isEmpty)) {width : Nat}
    (hwidth : width = (whole ++ fraction ++ exponent).length + (suffix.getD "").length) :
    Scanned.ReadsNumber
      ⟨(decimalLexeme isFloat (whole ++ fraction ++ exponent) suffix).1, width, rest,
        (decimalSuffixFault isFloat suffix ++
          (decimalLexeme isFloat (whole ++ fraction ++ exponent) suffix).2).map (⟨·, ⟨0, width⟩⟩)⟩
      cs (whole ++ fraction ++ exponent) suffix := by
  subst hfloat
  have hlength : width = (whole ++ fraction ++ exponent ++ suffixChars suffix).length := by
    rw [hwidth]
    simp only [List.length_append, suffixChars, String.length_toList]
  cases hinteger : isIntegral (whole ++ fraction ++ exponent) suffix with
  | true =>
    obtain ⟨hdigits, hlexeme⟩ := h.decimalLexeme_integer hten hinteger
    rw [hlexeme, h.decimalSuffixFault_eq hten]
    refine ⟨hsplit, hlength, hten ▸ hword, rfl, fun _ => ⟨fun c hc => ?_, rfl⟩, fun hnot => ?_⟩
    · rw [hten]
      exact digitValue_lt_of_isDigit (hdigits.isDigit c hc)
    · rw [hinteger] at hnot
      cases hnot
  | false =>
    obtain ⟨value, hlexeme, hvalue⟩ := h.decimalLexeme_float hten hinteger
    have hnone : valueFaults (whole ++ fraction ++ exponent) suffix = [] := by
      rw [valueFaults, hinteger, Bool.false_and, if_neg (by decide)]
    rw [hlexeme, h.decimalSuffixFault_eq hten]
    refine ⟨hsplit, hlength, hten ▸ hword, by rw [hnone], fun hnot => ?_, fun _ => ⟨value, rfl, hvalue⟩⟩
    rw [hinteger] at hnot
    cases hnot

end DecimalForm

/-! ### Numbers -/

theorem radixOf_eq_ten {c : Char} {text : List Char}
    (h : c = '0' → NextChar (fun c => namesRadix c = false) text) : radixOf (c :: text) = 10 := by
  unfold radixOf
  split
  · next heq =>
    obtain ⟨rfl, rfl⟩ := List.cons.inj heq
    exact absurd (h rfl 'x' rfl) (by decide)
  · next heq =>
    obtain ⟨rfl, rfl⟩ := List.cons.inj heq
    exact absurd (h rfl 'o' rfl) (by decide)
  · next heq =>
    obtain ⟨rfl, rfl⟩ := List.cons.inj heq
    exact absurd (h rfl 'b' rfl) (by decide)
  · rfl

theorem exists_readsNumber_decimal {c : Char} (hc : c.isDigit = true) {cs : List Char}
    (hradix : c = '0' → NextChar (fun c => namesRadix c = false) cs) :
    ∃ text suffix, (scanDecimal (c :: cs)).ReadsNumber (c :: cs) text suffix := by
  have hform := decimalForm_split hc cs
  have hwhole := splitsOff_while continuesDigits (fun _ => utf8Size_of_continuesDigits) (c :: cs)
  have hsplit := ((hwhole.append (splitsOff_fraction _)).append (splitsOff_exponent _)).append
    (splitsOff_suffix _)
  refine ⟨_, _, hform.readsNumber ?_ hsplit
    (suffixWord_splitSuffix fun _ _ hword => le_digitValue_of_startsWord hword) rfl rfl⟩
  -- what follows a leading zero in the number follows it in the text
  have htext := hsplit.text
  rw [List.takeWhile_cons, if_pos (continuesDigits_of_isDigit hc)] at htext ⊢
  simp only [List.cons_append, List.cons.injEq, true_and] at htext ⊢
  rw [List.append_assoc] at htext
  exact radixOf_eq_ten fun hzero => nextChar_of_append (htext ▸ hradix hzero)

/-- What begins with a digit is read as a number. -/
theorem exists_readsNumber {c : Char} (hc : c.isDigit = true) (cs : List Char) :
    ∃ text suffix, (scanNumber (c :: cs)).ReadsNumber (c :: cs) text suffix := by
  rcases namesRadix_cases c cs with hradix | ⟨rfl, cs, rfl | rfl | rfl⟩
  · rw [scanNumber_decimal hradix]
    exact exists_readsNumber_decimal hc hradix
  · exact ⟨_, _, readsNumber_radix (by decide) rfl (fun _ => rfl) (by decide) cs⟩
  · exact ⟨_, _, readsNumber_radix (by decide) rfl (fun _ => rfl) (by decide) cs⟩
  · exact ⟨_, _, readsNumber_radix (by decide) rfl (fun _ => rfl) (by decide) cs⟩

/-! ### Faults of numbers -/

/-- Whether a fault is about the suffix of a number. -/
def LexicalFault.concernsSuffix : LexicalFault → Bool
  | .numberSuffix _ | .integerSuffix _ => true
  | _ => false

section

variable {text : List Char} {suffix : Option String}

theorem suffixFaults_cases (text : List Char) (suffix : Option String) :
    (admitsSuffix text suffix = true ∧ suffixFaults text suffix = []) ∨
      (admitsSuffix text suffix = false ∧
        ∃ fault, suffixFaults text suffix = [fault] ∧ fault.concernsSuffix = true) := by
  unfold suffixFaults
  cases admitsSuffix text suffix with
  | true => exact .inl ⟨rfl, rfl⟩
  | false =>
    refine .inr ⟨rfl, ?_⟩
    split
    · next h => cases h
    · split <;> exact ⟨_, rfl, rfl⟩

theorem valueFaults_cases (text : List Char) (suffix : Option String) :
    valueFaults text suffix = [] ∨
      ((∃ digits, valueFaults text suffix = [.integerTooLarge digits]) ∨
        ∃ shown, valueFaults text suffix = [.malformedInteger shown]) := by
  unfold valueFaults
  split
  · split
    · exact .inr (.inl ⟨_, rfl⟩)
    · exact .inr (.inr ⟨_, rfl⟩)
  · exact .inl rfl

theorem valueFaults_eq_nil_iff (hinteger : isIntegral text suffix = true) :
    valueFaults text suffix = [] ↔ spelledValue text < 2 ^ 128 ∧ digitsOf text ≠ [] := by
  have hbound : integerBound = 2 ^ 128 := rfl
  rw [valueFaults, hinteger, hbound]
  split
  · next h =>
    simp only [Bool.true_and, Bool.or_eq_true, decide_eq_true_eq] at h
    refine iff_of_false ?_ fun hgood => ?_
    · split <;> simp
    · rcases h with h | h
      · omega
      · exact hgood.2 h
  · next h =>
    simp only [Bool.true_and, Bool.or_eq_true, decide_eq_true_eq, not_or, Nat.not_le] at h
    exact iff_of_true rfl h

/-- The faults of a number are about its suffix exactly where it does not admit the suffix. -/
theorem concernsSuffix_iff (text : List Char) (suffix : Option String) :
    (∀ fault ∈ suffixFaults text suffix ++ valueFaults text suffix, fault.concernsSuffix = false) ↔
      admitsSuffix text suffix = true := by
  have hvalue : ∀ fault ∈ valueFaults text suffix, fault.concernsSuffix = false := by
    rcases valueFaults_cases text suffix with h | ⟨digits, h⟩ | ⟨shown, h⟩ <;>
      simp [h, LexicalFault.concernsSuffix]
  rw [List.forall_mem_append, and_iff_left hvalue]
  rcases suffixFaults_cases text suffix with ⟨hadmits, h⟩ | ⟨hadmits, fault, h, hfault⟩
  · simp [h, hadmits]
  · simp [h, hadmits, hfault]

end

/-- What a number stands for by its text and its suffix, given the faults that are found at it. -/
structure Lexeme.StandsFor (lexeme : Lexeme) (text : List Char) (suffix : Option String)
    (found : List LexicalFault) : Prop where
  word : ∀ s ∈ suffix, SuffixWord (radixOf text) s
  /-- An integer has digits of its radix and, without faults, their value. -/
  integer : isIntegral text suffix = true → (∀ c ∈ digitsOf text, digitValue c < radixOf text) ∧
    ∃ value, lexeme = .integer value suffix ∧
      (found = [] → value = spelledValue text ∧ value < 2 ^ 128)
  bounded : isIntegral text suffix = true → 2 ^ 128 ≤ spelledValue text ∨ digitsOf text = [] →
    found ≠ []
  /-- The digits of a floating-point number are a numeral, the one of its value. -/
  float : isIntegral text suffix = false → ∃ value, lexeme = .float value suffix ∧
    Binary.ofChars? .double (numeralOf text) = some value
  suffixed : (∀ fault ∈ found, fault.concernsSuffix = false) ↔ admitsSuffix text suffix = true

theorem Scanned.ReadsNumber.standsFor {s : Scanned} {cs text : List Char} {suffix : Option String}
    (h : s.ReadsNumber cs text suffix) :
    s.lexeme.StandsFor text suffix (suffixFaults text suffix ++ valueFaults text suffix) where
  word := h.word
  integer := by
    intro hinteger
    obtain ⟨hdigits, hlexeme⟩ := h.integer hinteger
    refine ⟨hdigits, _, hlexeme, fun hnone => ?_⟩
    have hvalue := (List.append_eq_nil_iff.1 hnone).2
    rw [if_pos hvalue]
    exact ⟨rfl, ((valueFaults_eq_nil_iff hinteger).1 hvalue).1⟩
  bounded := by
    intro hinteger hcause hnone
    obtain ⟨hvalue, hdigits⟩ :=
      (valueFaults_eq_nil_iff hinteger).1 (List.append_eq_nil_iff.1 hnone).2
    rcases hcause with hlarge | hempty
    · omega
    · exact hdigits hempty
  float := h.float
  suffixed := concernsSuffix_iff text suffix

/-! ### Number tokens -/

/-- A token is the text of its number and the suffix, and the faults at it are theirs. -/
theorem Token.ReadsIn.number {source : String} {t : Token}
    (h : t.ReadsIn source.toList (scan source).faults) (ht : t.lexeme.isNumber = true) :
    ∃ text suffix, t.span.slice source = String.ofList (text ++ suffixChars suffix) ∧
      t.lexeme.StandsFor text suffix ((scan source).faultsAt t.span) := by
  obtain ⟨before, c, rest, s, htext, hs, rfl, hfaults⟩ := h
  obtain ⟨hdigit, rfl⟩ := scanLexeme?_of_isNumber hs ht
  obtain ⟨text, suffix, hreads⟩ := exists_readsNumber hdigit rest
  have hlength : byteLength (text ++ suffixChars suffix) = (scanNumber (c :: rest)).width := by
    rw [hreads.width, byteLength_eq_length hreads.split.ascii]
  have hat : (scan source).faultsAt
      ⟨byteLength before, byteLength before + (scanNumber (c :: rest)).width⟩ =
      suffixFaults text suffix ++ valueFaults text suffix := by
    rw [Scan.faultsAt, hfaults, hreads.faults, List.filter_eq_self.2, List.map_map, List.map_map]
    · exact List.map_id _
    · intro f hf
      obtain ⟨fault, -, rfl⟩ := List.mem_map.1 hf
      simp
  refine ⟨text, suffix, ?_, hat ▸ hreads.standsFor⟩
  rw [← hlength]
  exact slice_of_append before _ _ (by rw [htext, hreads.split.text])

/-- The digits of a number that is read are a numeral, so that they are never at fault. -/
theorem Scanned.ReadsNumber.fault {s : Scanned} {cs text : List Char} {suffix : Option String}
    (h : s.ReadsNumber cs text suffix) (digits : String) :
    ∀ f ∈ s.faults, f.fault ≠ .malformedFloat digits := by
  rw [h.faults, List.forall_mem_map]
  intro fault hfault
  rcases List.mem_append.1 hfault with hfault | hfault
  · rcases suffixFaults_cases text suffix with ⟨-, h⟩ | ⟨-, other, h, hother⟩
    · simp [h] at hfault
    · obtain rfl : fault = other := by simpa [h] using hfault
      rintro rfl
      cases hother
  · rcases valueFaults_cases text suffix with h | ⟨shown, h⟩ | ⟨shown, h⟩ <;>
      simp_all

theorem fault_scanLexeme? {c : Char} {rest : List Char} {s : Scanned}
    (h : scanLexeme? c rest = some s) (digits : String) :
    ∀ f ∈ s.faults, f.fault ≠ .malformedFloat digits := by
  unfold scanLexeme? at h
  split at h
  · cases h
    simp [scanWord]
  · split at h
    · next hdigit =>
      cases h
      obtain ⟨text, suffix, hreads⟩ := exists_readsNumber hdigit rest
      exact hreads.fault digits
    · split at h
      · cases h
        exact fault_scanString (P := (· ≠ .malformedFloat digits)) (by simp) (by simp) (by simp)
      · obtain ⟨sign, width, behind, -, rfl⟩ := eq_of_scanSymbol? h
        simp

/-- **Numbers mean what they spell.** No text has a number whose digits are no numeral, and every
number token of a text is the text of a number and its suffix, and stands for them. -/
theorem scan_numbers (source : String) :
    (∀ f ∈ (scan source).faults, ∀ digits, f.fault ≠ .malformedFloat digits) ∧
      ∀ t ∈ (scan source).tokens, t.lexeme.isNumber = true →
        ∃ text suffix, t.span.slice source = String.ofList (text ++ suffixChars suffix) ∧
          t.lexeme.StandsFor text suffix ((scan source).faultsAt t.span) := by
  refine ⟨fun f hf digits => ?_, fun t ht hnumber => (readsIn_scan source t ht).number hnumber⟩
  exact fault_scan (P := (· ≠ .malformedFloat digits)) (by simp) (by simp)
    (fun hs => fault_scanLexeme? hs digits) source f hf

theorem scan_numbers_binary : ∃ t ∈ (scan "0b1_01u8").tokens, t.lexeme.isNumber = true ∧
    ∃ text suffix, t.span.slice "0b1_01u8" = String.ofList (text ++ suffixChars suffix) ∧
      t.lexeme.StandsFor text suffix ((scan "0b1_01u8").faultsAt t.span) :=
  ⟨⟨.integer 5 (some "u8"), ⟨0, 8⟩⟩, by decide +kernel, rfl,
    (scan_numbers "0b1_01u8").2 _ (by decide +kernel) rfl⟩

end EnsembleCompiler.Target
