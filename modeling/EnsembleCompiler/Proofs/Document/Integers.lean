import EnsembleCompiler.Model.Document
import EnsembleCompiler.Proofs.Json.Meaning

/-!
# Integers as numbers and as text

A numeral without fraction and exponent is a number of JSON and may also stand in a string. Both
readings give the same signed integer of 64 bits, or none, for every such numeral but the negative
zero, which is a floating-point number outside of strings.
-/

namespace EnsembleCompiler

namespace Json

/-! ### Digits within a bound -/

theorem le_ofDigitChars (ds : List Char) (n : Nat) : n ≤ Nat.ofDigitChars 10 ds n := by
  rw [Nat.ofDigitChars_eq_ofDigitChars_zero]
  have hpos : 0 < 10 ^ ds.length := Nat.pow_pos (by omega)
  exact Nat.le_trans (Nat.le_mul_of_pos_left n hpos) (Nat.le_add_right _ _)

theorem collectDigits_of_le {bound n : Nat} {ds : List Char}
    (h : Nat.ofDigitChars 10 ds n ≤ bound) :
    collectDigits bound n ds = (Nat.ofDigitChars 10 ds n, []) := by
  induction ds generalizing n with
  | nil => rfl
  | cons c ds ih =>
    rw [Nat.ofDigitChars_cons] at h ⊢
    have hle := le_ofDigitChars ds (10 * n + (c.toNat - '0'.toNat))
    have hfirst : 10 * n + (c.toNat - '0'.toNat) ≤ bound := by omega
    simp only [collectDigits, hfirst, if_true]
    exact ih h

/-- If the number is too large, some digit is left. -/
theorem collectDigits_ne_nil {bound n : Nat} {ds : List Char} (hn : n ≤ bound)
    (h : bound < Nat.ofDigitChars 10 ds n) : (collectDigits bound n ds).2 ≠ [] := by
  induction ds generalizing n with
  | nil =>
    rw [Nat.ofDigitChars_nil] at h
    omega
  | cons c ds ih =>
    rw [Nat.ofDigitChars_cons] at h
    simp only [collectDigits]
    split
    · next hle => exact ih hle h
    · simp

namespace Numeral

/-- Whether a numeral has neither a fraction nor an exponent. -/
structure IsInteger (n : Numeral) : Prop where
  fraction : n.fraction = none
  exponent : n.exponent = none

/-- The number that the digits in front of the point spell. -/
def magnitude (n : Numeral) : Nat := Nat.ofDigitChars 10 n.whole 0

variable {n : Numeral}

theorem IsInteger.text_eq (h : n.IsInteger) : n.text = n.signText ++ n.whole := by
  simp [text, fractionText, h.fraction, exponentText, h.exponent]

/-- Digits alone are read by their number if it fits 64 bits, and scaled otherwise. -/
theorem on_unsigned_whole (n : Numeral) (isNegative : Bool) :
    (Reader.unsigned isNegative).on n.whole =
      if (collectDigits significandBound 0 n.whole).2.isEmpty then
        some (Number.ofDigits isNegative (collectDigits significandBound 0 n.whole).1.toUInt64, [])
      else (ofParts? isNegative (collectDigits significandBound 0 n.whole).1.toUInt64
        (collectDigits significandBound 0 n.whole).2.length).map fun x => (Number.real x, []) := by
  have hwhole := Reader.on_wholeDigits n (show NoDigit [] from fun c hc => absurd hc (by simp))
  have hend : isExponentMark none = false := rfl
  rw [List.append_nil] at hwhole
  simp only [Reader.unsigned, Reader.on_bind, hwhole, Option.bind_some, Reader.on_peek,
    List.head?_nil, hend, Bool.false_eq_true, if_false]
  split
  · rfl
  · exact Reader.on_ofParts _ _ _ _

theorem IsInteger.value?_eq (h : n.IsInteger) :
    n.value? = ((Reader.unsigned n.isNegative).on n.whole).map Prod.fst := by
  obtain ⟨c, tail, hwhole, hc⟩ := n.whole_digits.exists_cons
  have hminus : c ≠ '-' := by rintro rfl; exact absurd hc (by decide)
  rw [value?, h.text_eq, signText]
  cases n.isNegative with
  | true => simp [Reader.number]
  | false => simp [Reader.number, hwhole, hminus]

/-- A numeral whose digits fit 64 bits is read by them. -/
theorem IsInteger.value?_of_le (h : n.IsInteger) (hle : n.magnitude ≤ significandBound) :
    n.value? = some (Number.ofDigits n.isNegative n.magnitude.toUInt64) := by
  rw [h.value?_eq, n.on_unsigned_whole, collectDigits_of_le hle]
  rfl

/-- A numeral that is too large is a floating-point number, or past its range. -/
theorem IsInteger.value?_of_lt (h : n.IsInteger) (hlt : significandBound < n.magnitude) :
    ∀ x ∈ n.value?, ∃ y, x = .real y := by
  have hne := collectDigits_ne_nil (Nat.zero_le _) hlt
  intro x hx
  rw [h.value?_eq, n.on_unsigned_whole, if_neg (by simpa using hne)] at hx
  simp only [Option.map_map, Option.mem_def, Option.map_eq_some_iff] at hx
  obtain ⟨y, -, hy⟩ := hx
  exact ⟨y, hy.symm⟩

end Numeral

end Json

namespace Document

open Json (Number)

theorem integerOfText?_text {n : Json.Numeral} (h : n.IsInteger) :
    integerOfText? n.text = integerOfText?.within
      (if n.isNegative then -(n.magnitude : Int) else n.magnitude) := by
  obtain ⟨c, tail, hwhole, hc⟩ := n.whole_digits.exists_cons
  have hminus : c ≠ '-' := by rintro rfl; exact absurd hc (by decide)
  have hplus : c ≠ '+' := by rintro rfl; exact absurd hc (by decide)
  have hmagnitude : integerOfText?.magnitude? n.whole = some n.magnitude := by
    have hall : n.whole.all Char.isDigit = true := List.all_eq_true.2 n.whole_digits.isDigit
    simp [integerOfText?.magnitude?, hall, n.whole_digits.ne_nil, Json.Numeral.magnitude]
  rw [h.text_eq, Json.Numeral.signText]
  cases n.isNegative with
  | true => simp [integerOfText?, hmagnitude]
  | false =>
    rw [hwhole] at hmagnitude ⊢
    unfold integerOfText?
    simp only [Bool.false_eq_true, if_false, List.nil_append]
    split
    · next heq => simp_all
    · next heq => simp_all
    · simp [hmagnitude]

/-- The integers of 64 bits that have a sign. -/
theorem within_eq (i : Int) : integerOfText?.within i =
    if -9223372036854775808 ≤ i ∧ i ≤ 9223372036854775807 then some (Int64.ofInt i) else none := rfl

theorem toInteger?_ofDigits (isNegative : Bool) {m : Nat} (hm : m ≤ Json.significandBound)
    (hne : ¬ (isNegative = true ∧ m = 0)) :
    (Number.ofDigits isNegative m.toUInt64).toInteger? =
      integerOfText?.within (if isNegative then -(m : Int) else m) := by
  have hm' : m < 2 ^ 64 := Nat.lt_succ_of_le hm
  have hnat : m.toUInt64.toNat = m := UInt64.toNat_ofNat_of_lt' hm'
  have hleast : Json.leastMagnitude.toNat = 9223372036854775808 := rfl
  rw [within_eq]
  -- both sides compare the magnitude with the same bound, which only a negative integer may reach
  cases isNegative with
  | false =>
    have hlt : m.toUInt64 < Json.leastMagnitude ↔ m < 9223372036854775808 := by
      rw [UInt64.lt_iff_toNat_lt, hnat, hleast]
    have hof : m.toUInt64.toInt64 = Int64.ofInt m := by rw [Int64.ofInt_eq_ofNat]; rfl
    simp only [Number.ofDigits, Bool.not_false, if_true, Number.toInteger?, Bool.false_eq_true,
      if_false, hlt, hof]
    by_cases hsmall : m < 9223372036854775808
    · rw [if_pos hsmall, if_pos (by omega)]
    · rw [if_neg hsmall, if_neg (by omega)]
  | true =>
    have hpos : 0 < m.toUInt64 ↔ 0 < m := by rw [UInt64.lt_iff_toNat_lt, hnat]; rfl
    have hle : m.toUInt64 ≤ Json.leastMagnitude ↔ m ≤ 9223372036854775808 := by
      rw [UInt64.le_iff_toNat_le, hnat, hleast]
    have hm0 : 0 < m := Nat.pos_of_ne_zero fun h => hne ⟨rfl, h⟩
    simp only [Number.ofDigits, Bool.not_true, Bool.false_eq_true, if_false, hpos, hle, hm0,
      decide_true, Bool.true_and, decide_eq_true_eq, if_true, hnat]
    by_cases hsmall : m ≤ 9223372036854775808
    · rw [if_pos hsmall, if_pos (by omega)]
      rfl
    · rw [if_neg hsmall, if_neg (by omega)]
      rfl

/-- The digits of zero are a zero alone. -/
theorem whole_of_magnitude_eq_zero {n : Json.Numeral} (h : n.magnitude = 0) : n.whole = ['0'] := by
  obtain ⟨c, tail, hwhole, hc⟩ := n.whole_digits.exists_cons
  rw [Json.Numeral.magnitude, hwhole, Nat.ofDigitChars_cons] at h
  have hle := Json.le_ofDigitChars tail (10 * 0 + (c.toNat - '0'.toNat))
  have hzero : c.toNat - '0'.toNat = 0 := by omega
  have hc0 : c = '0' := by
    have hge := (Char.isDigit_iff_toNat.1 hc).1
    have : c.toNat = '0'.toNat := by omega
    exact Char.toNat_inj.1 this
  subst hc0
  rw [hwhole, n.zero_alone hwhole]

/-- A numeral without fraction and exponent stands for the same integer in a string, unless it is
the negative zero. -/
theorem integerOfText?_eq_toInteger? {n : Json.Numeral} (h : n.IsInteger)
    (hne : n.text ≠ ['-', '0']) :
    integerOfText? n.text = n.value?.bind Number.toInteger? := by
  rw [integerOfText?_text h]
  by_cases hle : n.magnitude ≤ Json.significandBound
  · have hzero : ¬ (n.isNegative = true ∧ n.magnitude = 0) := by
      rintro ⟨hnegative, hmagnitude⟩
      refine hne ?_
      rw [h.text_eq, Json.Numeral.signText, hnegative, whole_of_magnitude_eq_zero hmagnitude]
      rfl
    rw [h.value?_of_le hle, Option.bind_some, toInteger?_ofDigits _ hle hzero]
  · have hlt : Json.significandBound < n.magnitude := by omega
    have hbound : Json.significandBound = 18446744073709551615 := rfl
    have hnone : n.value?.bind Number.toInteger? = none := by
      cases hvalue : n.value? with
      | none => rfl
      | some x =>
        obtain ⟨y, rfl⟩ := h.value?_of_lt hlt x hvalue
        rfl
    rw [hnone, within_eq, if_neg]
    split <;> omega

/-! ### Canonical numerals -/

/-- The canonical text of an integer. -/
def canonical (i : Int) : List Char := (Int.repr i).toList

theorem canonical_eq (i : Int) : canonical i =
    if i < 0 then '-' :: Nat.toDigits 10 i.natAbs else Nat.toDigits 10 i.natAbs := by
  cases i with
  | ofNat m =>
    simp [canonical, Int.repr, Nat.repr]
  | negSucc m =>
    simp [canonical, Int.repr, Nat.repr, Int.natAbs]

theorem mem_canonical {i : Int} {c : Char} (h : c ∈ canonical i) :
    c = '-' ∨ c.isDigit = true := by
  rw [canonical_eq] at h
  split at h
  · rcases List.mem_cons.1 h with rfl | h
    · exact .inl rfl
    · exact .inr ((digits_toDigits _).isDigit c h)
  · exact .inr ((digits_toDigits _).isDigit c h)

theorem integerOfText?_canonical (i : Int) :
    integerOfText? (canonical i) = integerOfText?.within i := by
  obtain ⟨c, tail, hdigits, hc⟩ := (digits_toDigits i.natAbs).exists_cons
  have hminus : c ≠ '-' := by rintro rfl; exact absurd hc (by decide)
  have hplus : c ≠ '+' := by rintro rfl; exact absurd hc (by decide)
  have hmagnitude : integerOfText?.magnitude? (Nat.toDigits 10 i.natAbs) = some i.natAbs := by
    have hall : (Nat.toDigits 10 i.natAbs).all Char.isDigit = true :=
      List.all_eq_true.2 (digits_toDigits _).isDigit
    simp [integerOfText?.magnitude?, hall]
  rw [canonical_eq]
  -- a canonical text has a minus sign or none at all, and begins with a digit where it has none
  split
  · next hneg =>
    have hi : -(i.natAbs : Int) = i := by omega
    simp only [integerOfText?, hmagnitude, Option.bind_eq_bind, Option.bind_some, hi]
  · next hpos =>
    have hi : (i.natAbs : Int) = i := by omega
    rw [hdigits] at hmagnitude ⊢
    unfold integerOfText?
    split
    · next heq => simp_all
    · next heq => simp_all
    · simp only [hmagnitude, Option.bind_eq_bind, Option.bind_some, hi]

theorem isInteger_of_mem_text {n : Json.Numeral} (h : ∀ c ∈ n.text, c = '-' ∨ c.isDigit = true) :
    n.IsInteger := by
  constructor
  · cases hfraction : n.fraction with
    | none => rfl
    | some ds =>
      have hpoint := h '.' (by simp [Json.Numeral.text, Json.Numeral.fractionText, hfraction])
      exact absurd hpoint (by decide)
  · cases hexponent : n.exponent with
    | none => rfl
    | some e =>
      have hmark := h e.mark (by
        simp [Json.Numeral.text, Json.Numeral.exponentText, hexponent, Json.Exponent.text])
      cases hupper : e.isUpper <;> simp [Json.Exponent.mark, hupper] at hmark

theorem canonical_ne_negativeZero (i : Int) : canonical i ≠ ['-', '0'] := by
  rw [canonical_eq]
  split
  · next hneg =>
    intro h
    have hzero : Nat.ofDigitChars 10 (Nat.toDigits 10 i.natAbs) 0 = 0 := by
      rw [(List.cons.inj h).2]
      rfl
    rw [Nat.ofDigitChars_ten_toDigits] at hzero
    omega
  · intro h
    have hdigit := (digits_toDigits i.natAbs).isDigit '-' (by simp [h])
    exact absurd hdigit (by decide)

theorem toInteger?_of_canonical {n : Json.Numeral} {i : Int} (h : n.text = canonical i) :
    n.value?.bind Number.toInteger? = integerOfText?.within i := by
  have hint : n.IsInteger := isInteger_of_mem_text fun c hc => mem_canonical (h ▸ hc)
  have hne : n.text ≠ ['-', '0'] := fun htext => canonical_ne_negativeZero i (h ▸ htext)
  rw [← integerOfText?_eq_toInteger? hint hne, h, integerOfText?_canonical]

end Document

end EnsembleCompiler
