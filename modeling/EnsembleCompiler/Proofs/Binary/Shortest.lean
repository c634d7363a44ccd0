import EnsembleCompiler.Binary.Shortest
import EnsembleCompiler.Proofs.Binary.Rounding

/-!
# Exact values

A value of a format is its own rounding, and the shortest decimal of a value reads back as it.
-/

namespace EnsembleCompiler

/-! ### Ranks -/

theorem roundHalfEven_one (n : Nat) : roundHalfEven n 1 = n := by
  simp [roundHalfEven, Nat.mod_one]

namespace FloatFormat

variable {f : FloatFormat}

theorem binade_pos (f : FloatFormat) : 0 < f.binade := Nat.pow_pos (by decide)

/-- The magnitude of a rank is nearest to that rank. -/
theorem nearestRank_units (hf : 0 < f.precision) (rank : Nat) :
    f.nearestRank (f.units rank) 1 = rank := by
  have hbinade : f.binade = 2 ^ (f.precision - 1) := rfl
  have hpos := f.binade_pos
  rw [nearestRank, Nat.div_one]
  -- below the first binade a rank is its number of units; above it, every binade doubles the step
  by_cases hrank : rank < f.binade
  · have hlog : rank.log2 + 1 - f.precision = 0 := by
      by_cases hzero : rank = 0
      · subst hzero
        rw [Nat.log2_zero]
        omega
      · have hlt : rank.log2 < f.precision - 1 := (Nat.log2_lt hzero).2 (hbinade ▸ hrank)
        omega
    rw [units, if_pos hrank, hlog]
    simp [roundHalfEven_one]
  · have hquot : 0 < rank / f.binade := Nat.div_pos (by omega) hpos
    have hmod := Nat.mod_lt rank hpos
    have hunits : f.units rank ≠ 0 := by
      rw [units, if_neg hrank]
      exact Nat.mul_ne_zero (by omega) (Nat.pos_iff_ne_zero.1 (Nat.two_pow_pos _))
    have hlog : (f.units rank).log2 = f.precision - 1 + (rank / f.binade - 1) := by
      rw [Nat.log2_eq_iff hunits, units, if_neg hrank, Nat.pow_eq]
      constructor
      · rw [Nat.pow_add, ← hbinade]
        exact Nat.mul_le_mul_right _ (by omega)
      · rw [show f.precision - 1 + (rank / f.binade - 1) + 1 =
          f.precision - 1 + 1 + (rank / f.binade - 1) by omega, Nat.pow_add, Nat.pow_succ, ← hbinade]
        exact Nat.mul_lt_mul_of_pos_right (by omega) (Nat.two_pow_pos _)
    have hshift : (f.units rank).log2 + 1 - f.precision = rank / f.binade - 1 := by omega
    rw [hshift, units, if_neg hrank, Nat.pow_eq,
      roundHalfEven_mul (f.binade + rank % f.binade) 1 (Nat.two_pow_pos _), roundHalfEven_one,
      ← Nat.add_assoc, ← Nat.succ_mul, Nat.succ_eq_add_one, Nat.sub_add_cancel hquot,
      Nat.mul_comm]
    exact Nat.div_add_mod rank f.binade

/-- Finite magnitudes are bounded by the exponents of the format. -/
theorem units_lt (hf : 0 < f.precision) {rank : Nat} (h : rank < f.infinityRank) :
    f.units rank < 2 ^ (f.precision + (2 ^ f.exponentBits - 3)) := by
  have hbinade : 2 * f.binade = 2 ^ f.precision := by
    rw [binade, Nat.pow_eq, ← Nat.pow_succ', Nat.succ_eq_add_one, Nat.sub_add_cancel hf]
  have hpos := f.binade_pos
  rw [Nat.pow_add, ← hbinade]
  by_cases hrank : rank < f.binade
  · rw [units, if_pos hrank]
    have hle := Nat.mul_le_mul_left (2 * f.binade) (Nat.two_pow_pos (2 ^ f.exponentBits - 3))
    omega
  · have hmod := Nat.mod_lt rank hpos
    have hquot : rank / f.binade < 2 ^ f.exponentBits - 1 := Nat.div_lt_of_lt_mul (by
      rw [Nat.mul_comm]
      exact h)
    have hpow : 2 ^ (rank / f.binade - 1) ≤ 2 ^ (2 ^ f.exponentBits - 3) :=
      Nat.pow_le_pow_right (by decide) (by omega)
    rw [units, if_neg hrank, Nat.pow_eq]
    calc (f.binade + rank % f.binade) * 2 ^ (rank / f.binade - 1)
        < 2 * f.binade * 2 ^ (rank / f.binade - 1) :=
          Nat.mul_lt_mul_of_pos_right (by omega) (Nat.two_pow_pos _)
      _ ≤ 2 * f.binade * 2 ^ (2 ^ f.exponentBits - 3) := Nat.mul_le_mul_left _ hpow

end FloatFormat

namespace Binary

variable {f : FloatFormat}

/-- A magnitude is rounded to itself. -/
theorem round_units (hf : 0 < f.precision) (negative : Bool) (rank : Nat) :
    round f negative (f.units rank) f.unit = ofRank f negative rank := by
  have hunit : 0 < f.unit := Nat.two_pow_pos _
  have hscaled : f.nearestRank (f.units rank * f.unit) f.unit = f.nearestRank (f.units rank) 1 := by
    have hmul := f.nearestRank_mul (f.units rank) 1 hunit
    rwa [Nat.one_mul] at hmul
  rw [round, hscaled, FloatFormat.nearestRank_units hf]

theorem ofRank_fin (negative : Bool) (rank : Fin f.infinityRank) :
    ofRank f negative rank = .finite negative rank := by
  rw [ofRank, dif_pos rank.isLt]

/-- A value is its own nearest value. -/
theorem convert_self (hf : 0 < f.precision) (x : Binary f) : x.convert f = x := by
  cases x with
  | nan => rfl
  | infinite negative => rfl
  | finite negative rank => rw [convert, round_units hf, ofRank_fin]

/-! ### Decimals that read back -/

/-- Zeros at the end of the digits are worth as much in the exponent. -/
theorem ofDecimal_strip (f : FloatFormat) (negative : Bool) (d : Decimal) :
    ofDecimal f negative d.strip = ofDecimal f negative d := by
  fun_induction Decimal.strip d with
  | case1 d h ih =>
    have hten := ofDecimal_mul_ten f negative (d.digits / 10) (d.exponent + 1)
    rw [ih, ← hten, Nat.div_mul_cancel (Nat.dvd_of_mod_eq_zero h.2)]
    congr 2
    omega
  | case2 d h => rfl

/-- Of two decimals, one that passes a test is chosen. -/
theorem passes_of_chosen (test : Decimal → Bool) {below above d : Decimal} {preferAbove : Bool}
    (h : (match test below, test above with
      | true, true => some (if preferAbove then above else below)
      | true, false => some below
      | false, true => some above
      | false, false => none) = some d) : test d = true := by
  cases hbelow : test below <;> cases habove : test above <;> cases preferAbove <;>
    simp_all

theorem nearDecimal?_readsBack {tie : TieRule} {rank : Fin f.infinityRank} {count : Nat}
    {d : Decimal} (h : nearDecimal? f tie rank count = some d) :
    ofDecimal f false d = .finite false rank :=
  of_decide_eq_true (passes_of_chosen (fun d => ofDecimal f false d = .finite false rank) h)

/-- The formats of generated code: their exact decimals are in the range of decimals that are
read digit by digit. -/
def IsStandard (f : FloatFormat) : Prop := f = .single ∨ f = .double

theorem IsStandard.precision_pos (hf : IsStandard f) : 0 < f.precision := by
  rcases hf with rfl | rfl <;> decide

theorem IsStandard.exact_lt (hf : IsStandard f) :
    2 ^ (f.precision + (2 ^ f.exponentBits - 3)) * 5 ^ f.unitShift < 10 ^ (309 + f.unitShift) := by
  rcases hf with rfl | rfl <;> decide +kernel

theorem IsStandard.lt_exact (hf : IsStandard f) : 10 ^ (f.unitShift - 324) ≤ 5 ^ f.unitShift := by
  rcases hf with rfl | rfl <;> decide +kernel

theorem IsStandard.unitShift_pos (hf : IsStandard f) : 0 < f.unitShift := by
  rcases hf with rfl | rfl <;> decide

theorem units_ne_zero (hf : IsStandard f) {rank : Nat} (h : rank ≠ 0) : f.units rank ≠ 0 := by
  intro hzero
  have hrank := FloatFormat.nearestRank_units hf.precision_pos rank
  have hnone : f.nearestRank 0 1 = 0 := by
    rw [FloatFormat.nearestRank, Nat.zero_div, Nat.log2_zero]
    have hshift : 0 + 1 - f.precision = 0 := by
      have hpos := hf.precision_pos
      omega
    simp [hshift, roundHalfEven]
  rw [hzero, hnone] at hrank
  exact h hrank.symm

theorem ofDecimal_exactDecimal (hf : IsStandard f) {rank : Fin f.infinityRank} (h : rank.val ≠ 0) :
    ofDecimal f false (exactDecimal f rank) = .finite false rank := by
  have hunits : 0 < f.units rank := Nat.pos_of_ne_zero (units_ne_zero hf h)
  have hfive : 0 < 5 ^ f.unitShift := Nat.pow_pos (by decide)
  have hdigits : f.units rank * 5 ^ f.unitShift ≠ 0 := Nat.mul_ne_zero hunits.ne' hfive.ne'
  -- the digits are too few for the guard against overflow and too many for the one against
  -- underflow
  have hhigh : (Nat.toDigits 10 (f.units rank * 5 ^ f.unitShift)).length ≤ 309 + f.unitShift := by
    refine (Nat.length_toDigits_le_iff (by decide) (by omega)).2 ?_
    have hlt := FloatFormat.units_lt hf.precision_pos rank.isLt
    exact Nat.lt_of_le_of_lt (Nat.mul_le_mul_right _ hlt.le) hf.exact_lt
  have hlow : f.unitShift < (Nat.toDigits 10 (f.units rank * 5 ^ f.unitShift)).length + 324 := by
    by_contra hle
    have hlength : 0 < (Nat.toDigits 10 (f.units rank * 5 ^ f.unitShift)).length :=
      Nat.length_toDigits_pos
    have hshort : (Nat.toDigits 10 (f.units rank * 5 ^ f.unitShift)).length ≤ f.unitShift - 324 := by
      omega
    have hlt := (Nat.length_toDigits_le_iff (by decide) (by omega)).1 hshort
    have hge := Nat.mul_le_mul_right (5 ^ f.unitShift) hunits
    have hten := hf.lt_exact
    omega
  have hnegative : ¬ 0 ≤ -(f.unitShift : Int) := by
    have hpos := hf.unitShift_pos
    omega
  have hexponent : (-(-(f.unitShift : Int))).toNat = f.unitShift := by omega
  have hten : 10 ^ f.unitShift = f.unit * 5 ^ f.unitShift := by
    rw [FloatFormat.unit, Nat.pow_eq, ← Nat.mul_pow]
  rw [exactDecimal, ofDecimal_strip, ofDecimal]
  dsimp only
  simp only [Nat.pow_eq] at *
  rw [if_neg hdigits, if_neg (by omega), if_neg (by omega), if_neg hnegative, hexponent, hten,
    round_mul f false _ _ hfive, round_units hf.precision_pos, ofRank_fin]

/-- The shortest decimal of a magnitude reads back as it. -/
theorem ofDecimal_shortestDecimal (hf : IsStandard f) (tie : TieRule)
    (rank : Fin f.infinityRank) :
    ofDecimal f false (shortestDecimal f tie rank) = .finite false rank := by
  rw [shortestDecimal]
  by_cases hzero : rank.val = 0
  · rw [if_pos hzero, ofDecimal, if_pos rfl, zero, ← hzero, ofRank_fin]
  · rw [if_neg hzero]
    cases hfound : (List.range 17).findSome? fun n => nearDecimal? f tie rank (n + 1) with
    | none => exact ofDecimal_exactDecimal hf hzero
    | some d =>
      obtain ⟨n, -, hd⟩ := List.exists_of_findSome?_eq_some hfound
      show ofDecimal f false d.strip = _
      rw [ofDecimal_strip, nearDecimal?_readsBack hd]

end Binary

end EnsembleCompiler
