import EnsembleCompiler.Proofs.Target.Lookahead
import EnsembleCompiler.Proofs.Target.Numbers
import Mathlib.Data.List.Basic
import Mathlib.Data.Nat.Digits.Defs

/-!
# Forms of decimal numbers

What the scanner splits off as the digits of a decimal number: a run of digits, perhaps a point or a
fraction behind it, perhaps an exponent. Without its underscores and without a point at its end it
is a numeral, so that it has a floating-point value whatever its digits are.
-/

namespace EnsembleCompiler.Target

/-! ### Runs of digits -/

/-- Digits and underscores, a digit first. -/
structure DigitRun (cs : List Char) : Prop where
  starts : ∃ c tail, cs = c :: tail ∧ c.isDigit = true
  continues : ∀ c ∈ cs, continuesDigits c = true

/-- A text without its underscores. -/
def dense (cs : List Char) : List Char := cs.filter (· ≠ '_')

theorem dense_append (cs ds : List Char) : dense (cs ++ ds) = dense cs ++ dense ds :=
  List.filter_append ..

theorem dense_cons {c : Char} (h : c ≠ '_') (cs : List Char) : dense (c :: cs) = c :: dense cs := by
  simp [dense, h]

theorem digitRun_takeWhile {c : Char} (hc : c.isDigit = true) (cs : List Char) :
    DigitRun ((c :: cs).takeWhile continuesDigits) := by
  have hcontinues := continuesDigits_of_isDigit hc
  refine ⟨⟨c, cs.takeWhile continuesDigits, ?_, hc⟩, fun d hd => List.mem_takeWhile_imp hd⟩
  rw [List.takeWhile_cons, if_pos hcontinues]

theorem DigitRun.digits {cs : List Char} (h : DigitRun cs) : Digits (dense cs) := by
  obtain ⟨c, tail, rfl, hc⟩ := h.starts
  have hne : c ≠ '_' := by rintro rfl; exact absurd hc (by decide)
  refine ⟨by simp [dense_cons hne], fun d hd => ?_⟩
  obtain ⟨hmem, hd⟩ := List.mem_filter.1 hd
  have hcontinues := h.continues d hmem
  simp only [continuesDigits, Bool.or_eq_true, decide_eq_true_eq] at hcontinues
  exact hcontinues.resolve_right (by simpa using hd)

/-! ### Fractions and exponents -/

/-- What may stand behind the whole part of a number. -/
inductive FractionForm : List Char → Prop
  | none : FractionForm []
  | point : FractionForm ['.']
  | digits {run : List Char} : DigitRun run → FractionForm ('.' :: run)

inductive ExponentForm : List Char → Prop
  | none : ExponentForm []
  | digits {e : Char} {sign run : List Char} : e = 'e' ∨ e = 'E' →
    sign = [] ∨ sign = ['+'] ∨ sign = ['-'] → DigitRun run → ExponentForm (e :: (sign ++ run))

/-- The digits of a decimal number by their parts. Behind a mere point there is no exponent. -/
structure DecimalForm (whole fraction exponent : List Char) : Prop where
  wholeRun : DigitRun whole
  fractionForm : FractionForm fraction
  exponentForm : ExponentForm exponent
  point : fraction = ['.'] → exponent = []

theorem fractionForm_split (cs : List Char) : FractionForm (splitFraction cs).1 ∧
    ((splitFraction cs).1 = ['.'] → NextChar (fun c => startsWord c = false) (splitFraction cs).2) := by
  unfold splitFraction
  split
  · exact ⟨.point, fun _ => by simp [NextChar]⟩
  · next c rest =>
    split
    · next hc =>
      exact ⟨.digits (digitRun_takeWhile hc rest), fun h => by
        simp [continuesDigits_of_isDigit hc] at h⟩
    · split
      · exact ⟨.none, fun h => by simp at h⟩
      · next hword =>
        rw [Bool.or_eq_true, not_or] at hword
        exact ⟨.point, fun _ => .cons (by simpa using hword.2)⟩
  · exact ⟨.none, fun h => by simp at h⟩

theorem splitSign_cases (cs : List Char) :
    (splitSign cs).1 = [] ∨ (splitSign cs).1 = ['+'] ∨ (splitSign cs).1 = ['-'] := by
  unfold splitSign
  split <;> simp

theorem digitRun_exponentDigits {cs : List Char} (h : (splitExponentDigits cs).1 ≠ []) :
    DigitRun (splitExponentDigits cs).1 := by
  unfold splitExponentDigits at h ⊢
  split at h
  · next c rest =>
    split at h
    · next hc =>
      rw [if_pos hc]
      exact digitRun_takeWhile hc rest
    · exact absurd rfl h
  · exact absurd rfl h

theorem exponentForm_split (cs : List Char) : ExponentForm (splitExponent cs).1 := by
  rcases splitExponent_cases cs with hnone | ⟨e, rest, rfl, he, hdigits⟩
  · rw [hnone]
    exact .none
  · rw [splitExponent_digits he hdigits]
    exact .digits he (splitSign_cases rest) (digitRun_exponentDigits hdigits)

/-- The scanner splits a number into parts of these forms. -/
theorem decimalForm_split {c : Char} (hc : c.isDigit = true) (cs : List Char) :
    DecimalForm ((c :: cs).takeWhile continuesDigits)
      (splitFraction ((c :: cs).dropWhile continuesDigits)).1
      (splitExponent (splitFraction ((c :: cs).dropWhile continuesDigits)).2).1 := by
  obtain ⟨hfraction, hpoint⟩ := fractionForm_split ((c :: cs).dropWhile continuesDigits)
  refine ⟨digitRun_takeWhile hc cs, hfraction, exponentForm_split _, fun h => ?_⟩
  have hnext := (hpoint h).mono (q := fun c => c ≠ 'e' ∧ c ≠ 'E') fun c hc =>
    ⟨by rintro rfl; exact absurd hc (by decide), by rintro rfl; exact absurd hc (by decide)⟩
  rw [splitExponent_none hnext]

/-! ### Numerals -/

/-- What follows the whole part of a numeral, without underscores. -/
theorem ExponentForm.dense_cases {exponent : List Char} (h : ExponentForm exponent) :
    dense exponent = [] ∨ ∃ e sign ds, dense exponent = e :: (sign ++ ds) ∧ (e = 'e' ∨ e = 'E') ∧
      (sign = [] ∨ sign = ['+'] ∨ sign = ['-']) ∧ Digits ds := by
  cases h with
  | none => exact .inl rfl
  | @digits e sign run he hsign hrun =>
    refine .inr ⟨e, sign, dense run, ?_, he, hsign, hrun.digits⟩
    rw [dense_cons (by rcases he with rfl | rfl <;> decide), dense_append]
    rcases hsign with rfl | rfl | rfl <;> rfl

theorem exists_readExponent? {sign ds : List Char}
    (hsign : sign = [] ∨ sign = ['+'] ∨ sign = ['-']) (h : Digits ds) :
    ∃ x, Decimal.readExponent? (sign ++ ds) = some x := by
  rcases hsign with rfl | rfl | rfl
  · exact ⟨_, Numeral.readExponent?_eq false h⟩
  · exact ⟨_, Numeral.magnitude?_eq h⟩
  · exact ⟨_, Numeral.readExponent?_eq true h⟩

namespace DecimalForm

variable {whole fraction exponent : List Char}

/-- Without its underscores a number that does not end in a point is a numeral. -/
theorem exists_decimal (h : DecimalForm whole fraction exponent) (hpoint : fraction ≠ ['.']) :
    ∃ d, Decimal.ofChars? (dense (whole ++ fraction ++ exponent)) = some d := by
  have hwhole := h.wholeRun.digits
  have hexponent : NextChar (fun c => c.isDigit = false) (dense exponent) := by
    rcases h.exponentForm.dense_cases with hnil | ⟨e, sign, ds, heq, he, -, -⟩
    · simp [hnil, NextChar]
    · rw [heq]
      exact .cons (by rcases he with rfl | rfl <;> decide)
  have hne := hwhole.ne_nil
  rw [dense_append, dense_append, List.append_assoc]
  -- without a fraction, and with one; the exponent follows in both
  cases h.fractionForm with
  | none =>
    have htake := takeWhile_append_of_next hwhole.isDigit hexponent
    have hdrop := dropWhile_append_of_next hwhole.isDigit hexponent
    simp only [Decimal.ofChars?, show dense [] = [] from rfl, List.nil_append, htake, hdrop]
    rcases h.exponentForm.dense_cases with hnil | ⟨e, sign, ds, heq, he, hsign, hds⟩
    · simp [hnil, hne]
    · obtain ⟨x, hx⟩ := exists_readExponent? hsign hds
      rcases he with rfl | rfl <;> simp [heq, hne, hx]
  | point => exact absurd rfl hpoint
  | @digits run hrun =>
    have hnext : NextChar (fun c => c.isDigit = false) ('.' :: (dense run ++ dense exponent)) :=
      .cons (by decide)
    have htake := takeWhile_append_of_next hwhole.isDigit hnext
    have hdrop := dropWhile_append_of_next hwhole.isDigit hnext
    have htake' := takeWhile_append_of_next hrun.digits.isDigit hexponent
    have hdrop' := dropWhile_append_of_next hrun.digits.isDigit hexponent
    rw [dense_cons (by decide), List.cons_append]
    simp only [Decimal.ofChars?, htake, hdrop, htake', hdrop']
    rcases h.exponentForm.dense_cases with hnil | ⟨e, sign, ds, heq, he, hsign, hds⟩
    · simp [hnil, hne]
    · obtain ⟨x, hx⟩ := exists_readExponent? hsign hds
      rcases he with rfl | rfl <;> simp [heq, hne, hx]

/-- Digits are the last of a number that does not end in a point. -/
theorem exists_last (h : DecimalForm whole fraction exponent) (hpoint : fraction ≠ ['.']) :
    ∃ body ds, dense (whole ++ fraction ++ exponent) = body ++ ds ∧ Digits ds := by
  rw [dense_append, dense_append]
  rcases h.exponentForm.dense_cases with hnil | ⟨e, sign, ds, heq, -, -, hds⟩
  · rw [hnil, List.append_nil]
    cases h.fractionForm with
    | none => exact ⟨[], dense whole, by simp [dense], h.wholeRun.digits⟩
    | point => exact absurd rfl hpoint
    | @digits run hrun =>
      exact ⟨dense whole ++ ['.'], dense run, by simp [dense_cons], hrun.digits⟩
  · exact ⟨dense whole ++ dense fraction ++ e :: sign, ds, by simp [heq], hds⟩

end DecimalForm

/-- The numeral of a number: its text without underscores and without a point at its end. -/
def numeralOf (text : List Char) : List Char :=
  if (dense text).getLast? = some '.' then (dense text).dropLast else dense text

theorem trim_digits (body : List Char) {ds : List Char} (h : Digits ds) :
    ((body ++ ds).reverse.dropWhile (· = '.')).reverse = body ++ ds := by
  obtain ⟨front, c, rfl⟩ := (List.eq_nil_or_concat' ds).resolve_left h.ne_nil
  have hc : c ≠ '.' := by
    rintro rfl
    exact absurd (h.isDigit '.' (by simp)) (by decide)
  simp [hc]

namespace DecimalForm

variable {whole fraction exponent : List Char}

/-- A numeral is that of a number that does not end in a point; trimming points off the end gives it
too. -/
theorem numeralOf_eq (h : DecimalForm whole fraction exponent) :
    ∃ fraction' exponent', DecimalForm whole fraction' exponent' ∧ fraction' ≠ ['.'] ∧
      numeralOf (whole ++ fraction ++ exponent) = dense (whole ++ fraction' ++ exponent') ∧
      ((dense (whole ++ fraction ++ exponent)).reverse.dropWhile (· = '.')).reverse =
        dense (whole ++ fraction' ++ exponent') := by
  -- only a number that ends in its point loses a character
  by_cases hpoint : fraction = ['.']
  · have hdense : dense (whole ++ fraction ++ exponent) = dense whole ++ ['.'] := by
      rw [hpoint, h.point hpoint, List.append_nil, dense_append]
      rfl
    have htrim := trim_digits [] h.wholeRun.digits
    refine ⟨[], [], ⟨h.wholeRun, .none, .none, fun _ => rfl⟩, by simp, ?_, ?_⟩
    · rw [numeralOf, hdense]
      simp
    · rw [hdense]
      simpa using htrim
  · obtain ⟨body, ds, heq, hds⟩ := h.exists_last hpoint
    have hlast : (body ++ ds).getLast? ≠ some '.' := by
      intro hlast
      rw [List.getLast?_append_of_ne_nil _ hds.ne_nil] at hlast
      exact absurd (hds.isDigit '.' (List.mem_of_getLast? hlast)) (by decide)
    refine ⟨fraction, exponent, h, hpoint, ?_, ?_⟩
    · rw [numeralOf, heq, if_neg hlast]
    · rw [heq, trim_digits body hds]

theorem trim_eq_numeralOf (h : DecimalForm whole fraction exponent) :
    ((dense (whole ++ fraction ++ exponent)).reverse.dropWhile (· = '.')).reverse =
      numeralOf (whole ++ fraction ++ exponent) := by
  obtain ⟨fraction', exponent', -, -, hnumeral, htrim⟩ := h.numeralOf_eq
  rw [htrim, hnumeral]

/-- The numeral of a number has a floating-point value. -/
theorem exists_value (h : DecimalForm whole fraction exponent) (f : FloatFormat) :
    ∃ value, Binary.ofChars? f (numeralOf (whole ++ fraction ++ exponent)) = some value := by
  obtain ⟨fraction', exponent', h', hpoint, hnumeral, -⟩ := h.numeralOf_eq
  obtain ⟨d, hd⟩ := h'.exists_decimal hpoint
  obtain ⟨c, tail, hwhole, hc⟩ := h.wholeRun.digits.exists_cons
  rw [hnumeral]
  rw [dense_append, dense_append, hwhole, List.cons_append, List.cons_append] at hd ⊢
  exact ⟨_, by rw [Numeral.ofChars?_of_isDigit hc, hd]; rfl⟩

end DecimalForm

/-! ### Values of digits -/

/-- Digits are read as the number that they spell in their radix. -/
theorem radixValue_eq_ofDigits (radix : Nat) (digits : List Char) :
    radixValue radix digits = Nat.ofDigits radix (digits.reverse.map digitValue) := by
  rw [radixValue, Nat.ofDigits_eq_foldr, List.map_reverse, List.foldr_reverse, List.foldl_map]
  simp [Nat.add_comm]

theorem ofDigitChars_eq_radixValue {digits : List Char} (h : ∀ c ∈ digits, c.isDigit = true) :
    Nat.ofDigitChars 10 digits 0 = radixValue 10 digits := by
  rw [Nat.ofDigitChars_eq_foldl, radixValue]
  refine List.foldl_ext _ _ _ fun value c hc => ?_
  simp [digitValue, h c hc]

end EnsembleCompiler.Target
