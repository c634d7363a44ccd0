import EnsembleCompiler.Emission.Literal
import EnsembleCompiler.Proofs.Text.Runs
import Mathlib.Algebra.Group.Nat.Defs

/-!
# Decimal numerals

The form of a written decimal: digits, an optional fraction, an optional exponent. Every text that
the layout of literals writes has this form, and reading a numeral gives the decimal that its
parts spell.
-/

namespace EnsembleCompiler

/-- The parts of a numeral without sign. The exponent says whether it is negative. -/
structure Numeral where
  whole : List Char
  fraction : Option (List Char)
  exponent : Option (Bool × List Char)
  whole_digits : Digits whole
  fraction_digits : ∀ ds ∈ fraction, Digits ds
  exponent_digits : ∀ e ∈ exponent, Digits e.2

namespace Numeral

variable (n : Numeral)

def fractionChars : List Char :=
  match n.fraction with
  | some ds => '.' :: ds
  | none => []

def exponentChars : List Char :=
  match n.exponent with
  | some (negative, ds) => 'e' :: ((if negative then ['-'] else []) ++ ds)
  | none => []

/-- The numeral as it is written. -/
def chars : List Char := n.whole ++ n.fractionChars ++ n.exponentChars

def exponentValue : Int :=
  match n.exponent with
  | some (negative, ds) =>
    let magnitude : Int := Nat.ofDigitChars 10 ds 0
    if negative then -magnitude else magnitude
  | none => 0

/-- The decimal that the parts spell. -/
def decimal : Decimal :=
  ⟨Nat.ofDigitChars 10 (n.whole ++ n.fraction.getD []) 0,
    -((n.fraction.getD []).length : Int) + n.exponentValue⟩

theorem magnitude?_eq {ds : List Char} (h : Digits ds) :
    Decimal.readExponent?.magnitude? ds = some (Nat.ofDigitChars 10 ds 0 : Int) := by
  have hall : ds.all Char.isDigit = true := List.all_eq_true.2 h.isDigit
  simp [Decimal.readExponent?.magnitude?, hall, h.ne_nil]

theorem readExponent?_eq (negative : Bool) {ds : List Char} (h : Digits ds) :
    Decimal.readExponent? ((if negative then ['-'] else []) ++ ds) =
      some (if negative then -(Nat.ofDigitChars 10 ds 0 : Int) else Nat.ofDigitChars 10 ds 0) := by
  obtain ⟨c, tail, rfl, hc⟩ := h.exists_cons
  cases negative with
  | true =>
    show (Decimal.readExponent?.magnitude? (c :: tail)).map (-·) = _
    rw [magnitude?_eq h]
    rfl
  | false =>
    have hminus : c ≠ '-' := by rintro rfl; exact absurd hc (by decide)
    have hplus : c ≠ '+' := by rintro rfl; exact absurd hc (by decide)
    have hread : Decimal.readExponent? (c :: tail) =
        Decimal.readExponent?.magnitude? (c :: tail) := by
      unfold Decimal.readExponent?
      split <;> simp_all
    simp only [Bool.false_eq_true, if_false, List.nil_append, hread, magnitude?_eq h]

theorem nextChar_exponentChars : NextChar (fun c => c = 'e') n.exponentChars := by
  unfold exponentChars NextChar
  split <;> simp

theorem nextChar_fractionChars :
    NextChar (fun c => c = '.' ∨ c = 'e') (n.fractionChars ++ n.exponentChars) := by
  unfold fractionChars
  split
  · exact .cons (.inl rfl)
  · exact n.nextChar_exponentChars.mono fun c hc => .inr hc

/-- A numeral reads as the decimal that its parts spell. -/
theorem ofChars?_chars : Decimal.ofChars? n.chars = some n.decimal := by
  have hexp : NextChar (fun c => c.isDigit = false) n.exponentChars :=
    n.nextChar_exponentChars.mono fun c hc => by rw [hc]; decide
  have htail : NextChar (fun c => c.isDigit = false) (n.fractionChars ++ n.exponentChars) :=
    n.nextChar_fractionChars.mono fun c hc => by rcases hc with rfl | rfl <;> decide
  have hwhole : n.chars.takeWhile Char.isDigit = n.whole := by
    rw [chars, List.append_assoc, takeWhile_append_of_next n.whole_digits.isDigit htail]
  have hrest : n.chars.dropWhile Char.isDigit = n.fractionChars ++ n.exponentChars := by
    rw [chars, List.append_assoc, dropWhile_append_of_next n.whole_digits.isDigit htail]
  have hne := n.whole_digits.ne_nil
  unfold Decimal.ofChars?
  rw [hwhole, hrest]
  clear hwhole hrest htail
  obtain ⟨whole, fraction, exponent, hw, hf, he⟩ := n
  -- the digits in front of the point are read; what follows depends on the parts that are there
  cases fraction with
  | none =>
    cases exponent with
    | none => simpa [fractionChars, exponentChars, decimal, exponentValue] using hne
    | some e =>
      have hread := readExponent?_eq e.1 (he e rfl)
      simpa [fractionChars, exponentChars, decimal, exponentValue, hread] using hne
  | some ds =>
    have htake := takeWhile_append_of_next (hf ds rfl).isDigit hexp
    have hdrop := dropWhile_append_of_next (hf ds rfl).isDigit hexp
    cases exponent with
    | none =>
      simp only [exponentChars] at htake hdrop
      simp only [fractionChars, exponentChars, List.cons_append, htake, hdrop]
      simp [decimal, exponentValue, hne]
    | some e =>
      have hread := readExponent?_eq e.1 (he e rfl)
      simp only [exponentChars] at htake hdrop
      simp only [fractionChars, exponentChars, List.cons_append, htake, hdrop]
      simp [decimal, exponentValue, hread, hne]

end Numeral

/-! ### The layout of literals -/

/-- A numeral that spells a decimal, up to zeros at the end of its digits. -/
def Spelt (cs : List Char) (d : Decimal) : Prop :=
  ∃ (n : Numeral) (zeros : Nat), cs = n.chars ∧
    n.decimal = ⟨d.digits * 10 ^ zeros, d.exponent - zeros⟩

theorem digits_zero : Digits ['0'] := ⟨by simp, by simp⟩

theorem digits_replicate_zero (n : Nat) : ∀ c ∈ List.replicate n '0', c.isDigit = true := by
  intro c hc
  rw [(List.mem_replicate.1 hc).2]
  decide

theorem ofDigitChars_append_zeros (ds : List Char) (n : Nat) :
    Nat.ofDigitChars 10 (ds ++ List.replicate n '0') 0 = Nat.ofDigitChars 10 ds 0 * 10 ^ n := by
  rw [Nat.ofDigitChars_append, Nat.ofDigitChars_replicate_zero, Nat.mul_comm]

theorem spelt_belowOne {d : Decimal} (first : Int)
    (hfirst : first = d.exponent + (Nat.toDigits 10 d.digits).length - 1) (h : first < 0) :
    Spelt (literalLayout.positionalChars (Nat.toDigits 10 d.digits) first) d := by
  have hds := digits_toDigits d.digits
  let ds := List.replicate (-first - 1).toNat '0' ++ Nat.toDigits 10 d.digits
  have hfraction : Digits ds := by
    refine ⟨by simp [ds, hds.ne_nil], fun c hc => ?_⟩
    rcases List.mem_append.1 hc with hc | hc
    · exact digits_replicate_zero _ c hc
    · exact hds.isDigit c hc
  refine ⟨⟨['0'], some ds, none, ⟨by simp, by simp⟩, by simpa using hfraction, by simp⟩, 0, ?_, ?_⟩
  · rw [FloatLayout.positionalChars, if_pos h]
    simp [Numeral.chars, Numeral.fractionChars, Numeral.exponentChars, ds]
  · have hvalue : Nat.ofDigitChars 10 (['0'] ++ ds) 0 = d.digits := by
      simp [ds, Nat.ofDigitChars_append, Nat.ofDigitChars_replicate_zero, Nat.ofDigitChars_cons]
    have hlength : ds.length = (-first - 1).toNat + (Nat.toDigits 10 d.digits).length := by
      simp [ds]
    simp only [Numeral.decimal, Numeral.exponentValue, Option.getD_some, hvalue, hlength]
    simp
    omega

theorem spelt_whole {d : Decimal} (first : Int)
    (hfirst : first = d.exponent + (Nat.toDigits 10 d.digits).length - 1) (h : ¬ first < 0)
    (hshort : (Nat.toDigits 10 d.digits).length ≤ first.toNat + 1) :
    Spelt (literalLayout.positionalChars (Nat.toDigits 10 d.digits) first) d := by
  have hds := digits_toDigits d.digits
  let zeros := first.toNat + 1 - (Nat.toDigits 10 d.digits).length
  have hwhole : Digits (Nat.toDigits 10 d.digits ++ List.replicate zeros '0') :=
    hds.append (digits_replicate_zero zeros)
  refine ⟨⟨_, some ['0'], none, hwhole, by simpa using digits_zero, by simp⟩, zeros + 1, ?_, ?_⟩
  · rw [FloatLayout.positionalChars, if_neg h]
    simp [Numeral.chars, Numeral.fractionChars, Numeral.exponentChars, zeros, hshort, literalLayout]
  · have hvalue : Nat.ofDigitChars 10
        (Nat.toDigits 10 d.digits ++ List.replicate zeros '0' ++ ['0']) 0 =
          d.digits * 10 ^ (zeros + 1) := by
      rw [List.append_assoc, show ['0'] = List.replicate 1 '0' from rfl,
        List.replicate_append_replicate, ofDigitChars_append_zeros, Nat.ofDigitChars_ten_toDigits]
    have hpos := List.length_pos_iff.2 hds.ne_nil
    simp only [Numeral.decimal, Numeral.exponentValue, Option.getD_some, hvalue]
    simp
    omega

theorem spelt_split {d : Decimal} (first : Int)
    (hfirst : first = d.exponent + (Nat.toDigits 10 d.digits).length - 1) (h : ¬ first < 0)
    (hlong : ¬ (Nat.toDigits 10 d.digits).length ≤ first.toNat + 1) :
    Spelt (literalLayout.positionalChars (Nat.toDigits 10 d.digits) first) d := by
  have hds := digits_toDigits d.digits
  let whole := (Nat.toDigits 10 d.digits).take (first.toNat + 1)
  let fraction := (Nat.toDigits 10 d.digits).drop (first.toNat + 1)
  have hwhole : Digits whole :=
    ⟨by simp [whole, hds.ne_nil], fun c hc => hds.isDigit c (List.mem_of_mem_take hc)⟩
  have hfraction : Digits fraction := by
    refine ⟨?_, fun c hc => hds.isDigit c (List.mem_of_mem_drop hc)⟩
    simpa [fraction] using Nat.lt_of_not_le hlong
  refine ⟨⟨whole, some fraction, none, hwhole, by simpa using hfraction, by simp⟩, 0, ?_, ?_⟩
  · rw [FloatLayout.positionalChars, if_neg h]
    simp [Numeral.chars, Numeral.fractionChars, Numeral.exponentChars, whole, fraction, hlong]
  · simp only [Numeral.decimal, Numeral.exponentValue, Option.getD_some, whole, fraction,
      List.take_append_drop, Nat.ofDigitChars_ten_toDigits, List.length_drop]
    simp
    omega

/-- The exponent of a numeral that is written with its sign and the digits of its magnitude. -/
theorem exponentValue_toDigits {n : Numeral} {x : Int}
    (h : n.exponent = some (decide (x < 0), Nat.toDigits 10 x.natAbs)) : n.exponentValue = x := by
  unfold Numeral.exponentValue
  rw [h]
  by_cases hneg : x < 0
  · simp only [hneg, decide_true, if_true, Nat.ofDigitChars_ten_toDigits]
    omega
  · simp only [hneg, decide_false, Bool.false_eq_true, if_false, Nat.ofDigitChars_ten_toDigits]
    omega

theorem spelt_exponential {d : Decimal} (first : Int)
    (hfirst : first = d.exponent + (Nat.toDigits 10 d.digits).length - 1) :
    Spelt (literalLayout.exponentialChars (Nat.toDigits 10 d.digits) first) d := by
  have hds := digits_toDigits d.digits
  have hexponent := digits_toDigits first.natAbs
  obtain ⟨c, tail, htext, hc⟩ := hds.exists_cons
  have hwhole : Digits [c] := ⟨by simp, by simpa using hc⟩
  have hvalue : Nat.ofDigitChars 10 (c :: tail) 0 = d.digits := by
    rw [← htext, Nat.ofDigitChars_ten_toDigits]
  let exponent := some (decide (first < 0), Nat.toDigits 10 first.natAbs)
  -- a single digit is written without a point, further digits behind one
  cases tail with
  | nil =>
    let numeral : Numeral :=
      ⟨[c], none, exponent, hwhole, by simp, by simpa [exponent] using hexponent⟩
    have hfirstValue : numeral.exponentValue = first := exponentValue_toDigits rfl
    refine ⟨numeral, 0, ?_, ?_⟩
    · rw [htext]
      simp [FloatLayout.exponentialChars, Numeral.chars, Numeral.fractionChars,
        Numeral.exponentChars, numeral, exponent, literalLayout]
    · rw [htext, List.length_singleton] at hfirst
      simp only [Numeral.decimal, hfirstValue, numeral, Option.getD_none, List.append_nil,
        hvalue, List.length_nil, Nat.pow_zero, Nat.mul_one, Decimal.mk.injEq, true_and]
      omega
  | cons e rest =>
    have hfraction : Digits (e :: rest) :=
      ⟨by simp, fun d hd => hds.isDigit d (by rw [htext]; exact List.mem_cons_of_mem c hd)⟩
    let numeral : Numeral :=
      ⟨[c], some (e :: rest), exponent, hwhole, by simpa using hfraction,
        by simpa [exponent] using hexponent⟩
    have hfirstValue : numeral.exponentValue = first := exponentValue_toDigits rfl
    refine ⟨numeral, 0, ?_, ?_⟩
    · rw [htext]
      simp [FloatLayout.exponentialChars, Numeral.chars, Numeral.fractionChars,
        Numeral.exponentChars, numeral, exponent, literalLayout]
    · rw [htext, List.length_cons] at hfirst
      simp only [Numeral.decimal, hfirstValue, numeral, Option.getD_some, List.cons_append,
        List.nil_append, hvalue, Nat.pow_zero, Nat.mul_one, Decimal.mk.injEq, true_and]
      omega

/-- The layout of literals writes every decimal as a numeral that spells it. -/
theorem spelt_decimalChars (d : Decimal) : Spelt (literalLayout.decimalChars d) d := by
  let first := d.exponent + (Nat.toDigits 10 d.digits).length - 1
  show Spelt (if literalLayout.positional first then
    literalLayout.positionalChars (Nat.toDigits 10 d.digits) first
    else literalLayout.exponentialChars (Nat.toDigits 10 d.digits) first) d
  split
  · by_cases hneg : first < 0
    · exact spelt_belowOne first rfl hneg
    · by_cases hshort : (Nat.toDigits 10 d.digits).length ≤ first.toNat + 1
      · exact spelt_whole first rfl hneg hshort
      · exact spelt_split first rfl hneg hshort
  · exact spelt_exponential first rfl

end EnsembleCompiler
