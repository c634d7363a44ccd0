import EnsembleCompiler.Binary.Decimal
import EnsembleCompiler.Proofs.Text.Runs
import Mathlib.Tactic.Ring

/-!
# Rounding

Rounding a quotient depends on its value alone, and not on how it is written: neither a common
factor nor zeros at the end of a decimal change the result.
-/

namespace EnsembleCompiler

theorem roundHalfEven_mul (n d : Nat) {c : Nat} (hc : 0 < c) :
    roundHalfEven (n * c) (d * c) = roundHalfEven n d := by
  have hquot : n * c / (d * c) = n / d := Nat.mul_div_mul_right n d hc
  have hrem : n * c % (d * c) = n % d * c := Nat.mul_mod_mul_right c n d
  have hbelow : 2 * (n % d * c) < d * c ↔ 2 * (n % d) < d := by
    rw [← Nat.mul_assoc]
    exact Nat.mul_lt_mul_right hc
  have habove : d * c < 2 * (n % d * c) ↔ d < 2 * (n % d) := by
    rw [← Nat.mul_assoc]
    exact Nat.mul_lt_mul_right hc
  simp only [roundHalfEven, hquot, hrem, hbelow, habove]

theorem FloatFormat.nearestRank_mul (f : FloatFormat) (n d : Nat) {c : Nat} (hc : 0 < c) :
    f.nearestRank (n * c) (d * c) = f.nearestRank n d := by
  have hquot : n * c / (d * c) = n / d := Nat.mul_div_mul_right n d hc
  simp only [FloatFormat.nearestRank, hquot]
  rw [Nat.mul_right_comm d c, roundHalfEven_mul _ _ hc]

namespace Binary

variable {f : FloatFormat}

theorem round_mul (f : FloatFormat) (negative : Bool) (n d : Nat) {c : Nat} (hc : 0 < c) :
    round f negative (n * c) (d * c) = round f negative n d := by
  rw [round, Nat.mul_right_comm, f.nearestRank_mul _ _ hc]
  rfl

theorem length_toDigits_mul_ten {m : Nat} (hm : m ≠ 0) :
    (Nat.toDigits 10 (m * 10)).length = (Nat.toDigits 10 m).length + 1 := by
  have happend := Nat.toDigits_append_toDigits (b := 10) (n := m) (d := 0) (by omega)
    (by omega) (by omega)
  rw [Nat.add_zero, Nat.mul_comm] at happend
  rw [← happend, List.length_append]
  rfl

/-- A zero at the end of the digits is worth one in the exponent. -/
theorem ofDecimal_mul_ten (f : FloatFormat) (negative : Bool) (m : Nat) (e : Int) :
    ofDecimal f negative ⟨m * 10, e - 1⟩ = ofDecimal f negative ⟨m, e⟩ := by
  by_cases hm : m = 0
  · simp [ofDecimal, hm]
  have hlength : ((Nat.toDigits 10 (m * 10)).length : Int) + (e - 1) =
      (Nat.toDigits 10 m).length + e := by
    rw [length_toDigits_mul_ten hm]
    omega
  have hround : (if 0 ≤ e - 1 then round f negative (m * 10 * Nat.pow 10 (e - 1).toNat) 1
      else round f negative (m * 10) (Nat.pow 10 (-(e - 1)).toNat)) =
        if 0 ≤ e then round f negative (m * Nat.pow 10 e.toNat) 1
        else round f negative m (Nat.pow 10 (-e).toNat) := by
    -- the power of ten is a factor of the numerator or of the denominator; at zero it changes sides
    by_cases hpos : 0 ≤ e - 1
    · obtain ⟨k, rfl⟩ : ∃ k : Nat, e = k + 1 := ⟨(e - 1).toNat, by omega⟩
      have hk : ((k : Int) + 1 - 1).toNat = k := by omega
      have hk' : ((k : Int) + 1).toNat = k + 1 := by omega
      rw [if_pos hpos, if_pos (by omega), hk, hk', Nat.pow_eq, Nat.pow_eq, Nat.pow_succ]
      congr 1
      ring
    · by_cases hzero : e = 0
      · subst hzero
        have hone := round_mul f negative m 1 (c := 10) (by omega)
        simpa using hone
      · obtain ⟨k, rfl⟩ : ∃ k : Nat, e = -(k + 1 : Int) := ⟨(-e - 1).toNat, by omega⟩
        have hk : (-(-((k : Int) + 1) - 1)).toNat = k + 1 + 1 := by omega
        have hk' : (-(-((k : Int) + 1))).toNat = k + 1 := by omega
        rw [if_neg hpos, if_neg (by omega), hk, hk', Nat.pow_eq, Nat.pow_eq, Nat.pow_succ,
          round_mul f negative _ _ (by omega)]
  simp only [ofDecimal, hlength, hround, Nat.mul_eq_zero, hm, false_or, if_false,
    show ¬ (10 : Nat) = 0 by omega]

/-- Zeros at the end of the digits change nothing. -/
theorem ofDecimal_mul_pow (f : FloatFormat) (negative : Bool) (d : Decimal) (zeros : Nat) :
    ofDecimal f negative ⟨d.digits * 10 ^ zeros, d.exponent - zeros⟩ = ofDecimal f negative d := by
  induction zeros with
  | zero => simp
  | succ zeros ih =>
    have hexponent : d.exponent - ((zeros + 1 : Nat) : Int) = d.exponent - zeros - 1 := by omega
    rw [Nat.pow_succ, ← Nat.mul_assoc, ← ih, hexponent, ofDecimal_mul_ten]

end Binary

end EnsembleCompiler
