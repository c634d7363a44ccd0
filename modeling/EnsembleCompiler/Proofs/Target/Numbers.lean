import EnsembleCompiler.Proofs.Binary.Numeral
import EnsembleCompiler.Proofs.Binary.Rounding
import EnsembleCompiler.Proofs.Target.Lexing

/-!
# Numbers of a generated text

A numeral with the name of a floating-point type behind it is read as the binary value of its
decimal, and the digits of a natural number as that number, wherever the text goes on with neither
a word nor a point.
-/

namespace EnsembleCompiler

/-! ### Values of numerals -/

theorem toNat_le_of_isDigit {c : Char} (h : c.isDigit = true) : c.toNat ≤ 57 := by
  simp only [Char.isDigit, Bool.and_eq_true, decide_eq_true_eq, UInt32.le_iff_toNat_le] at h
  exact h.2

theorem toLower_of_isDigit {c : Char} (h : c.isDigit = true) : c.toLower = c := by
  have hle := toNat_le_of_isDigit h
  have hnot : ¬ (c.val ≥ 'A'.val ∧ c.val ≤ 'Z'.val) := by
    rintro ⟨hupper, -⟩
    have hge : 65 ≤ c.toNat := UInt32.le_iff_toNat_le.1 hupper
    omega
  unfold Char.toLower
  rw [dif_neg hnot]

namespace Numeral

variable (n : Numeral)

theorem exists_cons : ∃ c tail, n.chars = c :: tail ∧ c.isDigit = true := by
  obtain ⟨c, tail, htext, hc⟩ := n.whole_digits.exists_cons
  refine ⟨c, tail ++ n.fractionChars ++ n.exponentChars, ?_, hc⟩
  simp [chars, htext]

/-- A text that begins with a digit names neither infinity nor not-a-number. -/
theorem ofUnsignedText?_of_isDigit {f : FloatFormat} {c : Char} {tail : List Char}
    (hc : c.isDigit = true) :
    Binary.ofUnsignedText? f false (c :: tail) =
      (Decimal.ofChars? (c :: tail)).map (Binary.ofDecimal f false) := by
  have hlower := toLower_of_isDigit hc
  have hne : ∀ name : String, name.toList.head? = some 'i' ∨ name.toList.head? = some 'n' →
      String.ofList ((c :: tail).map Char.toLower) ≠ name := by
    rintro name hhead rfl
    have hhead : c = 'i' ∨ c = 'n' := by simpa [hlower] using hhead
    rcases hhead with rfl | rfl <;> exact absurd hc (by decide)
  unfold Binary.ofUnsignedText?
  simp only [hne "inf" (.inl rfl), hne "infinity" (.inl rfl), hne "nan" (.inr rfl), decide_false,
    Bool.or_self, Bool.false_eq_true, if_false]

theorem ofChars?_of_isDigit {f : FloatFormat} {c : Char} {tail : List Char} (hc : c.isDigit = true) :
    Binary.ofChars? f (c :: tail) =
      (Decimal.ofChars? (c :: tail)).map (Binary.ofDecimal f false) := by
  have hminus : c ≠ '-' := by rintro rfl; exact absurd hc (by decide)
  have hplus : c ≠ '+' := by rintro rfl; exact absurd hc (by decide)
  have hsign : Binary.ofChars? f (c :: tail) = Binary.ofUnsignedText? f false (c :: tail) := by
    unfold Binary.ofChars?
    split <;> simp_all
  rw [hsign, ofUnsignedText?_of_isDigit hc]

/-- A numeral is read as the binary value of its decimal. -/
theorem binary_ofChars? (f : FloatFormat) :
    Binary.ofChars? f n.chars = some (Binary.ofDecimal f false n.decimal) := by
  have hread := n.ofChars?_chars
  obtain ⟨c, tail, htext, hc⟩ := n.exists_cons
  rw [htext] at hread ⊢
  rw [ofChars?_of_isDigit hc, hread]
  rfl

end Numeral

theorem Spelt.binary_ofChars? {cs : List Char} {d : Decimal} (f : FloatFormat) (h : Spelt cs d) :
    Binary.ofChars? f cs = some (Binary.ofDecimal f false d) := by
  obtain ⟨n, zeros, rfl, hdecimal⟩ := h
  rw [n.binary_ofChars?, hdecimal, Binary.ofDecimal_mul_pow]

namespace Target

/-! ### Digits in front of other text -/

theorem continuesDigits_of_isDigit {c : Char} (h : c.isDigit = true) : continuesDigits c = true := by
  simp [continuesDigits, h]

theorem not_continuesDigits_of_not_continuesWord {c : Char} (h : continuesWord c = false) :
    continuesDigits c = false := by
  simp only [continuesWord, Char.isAlphanum, Bool.or_eq_false_iff] at h
  simp [continuesDigits, h.1.2, h.2]

variable (n : Numeral) {tail rest : List Char}

/-- A type behind a numeral begins with the letter f. -/
theorem nextChar_exponentChars_append :
    NextChar (fun c => c = 'e' ∨ c = 'f') (n.exponentChars ++ 'f' :: tail) := by
  unfold Numeral.exponentChars
  split <;> simp [NextChar]

theorem splitFraction_chars :
    splitFraction (n.fractionChars ++ (n.exponentChars ++ 'f' :: tail)) =
      (n.fractionChars, n.exponentChars ++ 'f' :: tail) := by
  have hnext : NextChar _ (n.exponentChars ++ 'f' :: tail) := nextChar_exponentChars_append n
  unfold Numeral.fractionChars
  split
  · next ds hds =>
    have hdigits := n.fraction_digits ds hds
    have hrun : ∀ c ∈ ds, continuesDigits c = true :=
      fun c hc => continuesDigits_of_isDigit (hdigits.isDigit c hc)
    have hend : NextChar (fun c => continuesDigits c = false) (n.exponentChars ++ 'f' :: tail) :=
      hnext.mono fun c hc => by rcases hc with rfl | rfl <;> decide
    have htake := takeWhile_append_of_next hrun hend
    have hdrop := dropWhile_append_of_next hrun hend
    obtain ⟨c, ds', rfl, hc⟩ := hdigits.exists_cons
    rw [List.cons_append] at htake hdrop
    simp only [List.cons_append, splitFraction, hc, if_true, htake, hdrop]
  · rw [List.nil_append]
    cases hcs : n.exponentChars ++ 'f' :: tail with
    | nil => rfl
    | cons c cs =>
      rw [hcs] at hnext
      rcases hnext c (by simp) with rfl | rfl <;> rfl

theorem splitSign_chars {negative : Bool} {ds : List Char} (h : Digits ds) :
    splitSign ((if negative then ['-'] else []) ++ (ds ++ rest)) =
      (if negative then ['-'] else [], ds ++ rest) := by
  obtain ⟨c, ds', rfl, hc⟩ := h.exists_cons
  cases negative with
  | true => rfl
  | false =>
    have hminus : c ≠ '-' := by rintro rfl; exact absurd hc (by decide)
    have hplus : c ≠ '+' := by rintro rfl; exact absurd hc (by decide)
    unfold splitSign
    split <;> simp_all

theorem splitExponent_chars :
    splitExponent (n.exponentChars ++ 'f' :: tail) = (n.exponentChars, 'f' :: tail) := by
  unfold Numeral.exponentChars
  split
  · next negative ds hds =>
    have hdigits := n.exponent_digits _ hds
    have hrun : ∀ c ∈ ds, continuesDigits c = true :=
      fun c hc => continuesDigits_of_isDigit (hdigits.isDigit c hc)
    have hend : NextChar (fun c => continuesDigits c = false) ('f' :: tail) := .cons (by decide)
    have htake := takeWhile_append_of_next hrun hend
    have hdrop := dropWhile_append_of_next hrun hend
    have hsplit : splitExponentDigits (ds ++ 'f' :: tail) = (ds, 'f' :: tail) := by
      obtain ⟨c, ds', rfl, hc⟩ := hdigits.exists_cons
      rw [List.cons_append] at htake hdrop
      simp only [List.cons_append, splitExponentDigits, hc, if_true, htake, hdrop]
    simp only [List.cons_append, List.append_assoc, splitExponent, splitSign_chars hdigits, hsplit]
    simp [hdigits.ne_nil]
  · rfl

theorem splitSuffix_typeName (p : Precision)
    (hrest : NextChar (fun c => continuesWord c = false) rest) :
    splitSuffix (p.typeName.toList ++ rest) = (some p.typeName, rest) := by
  have hall : p.typeName.toList.all continuesWord = true := by cases p <;> decide
  have hrun := List.all_eq_true.1 hall
  have htake := takeWhile_append_of_next hrun hrest
  have hdrop := dropWhile_append_of_next hrun hrest
  have hhead : ∃ cs, p.typeName.toList = 'f' :: cs := by cases p <;> exact ⟨_, rfl⟩
  obtain ⟨cs, hcs⟩ := hhead
  have hname : String.ofList ('f' :: cs) = p.typeName := by rw [← hcs, String.ofList_toList]
  rw [hcs, List.cons_append] at htake hdrop ⊢
  simp only [splitSuffix, show startsWord 'f' = true from rfl, if_true, htake, hdrop, hname]

/-! ### Literals -/

/-- Without the letter of another radix behind its first digit, a number has the radix ten. -/
theorem scanNumber_eq_scanDecimal {c : Char} {cs : List Char}
    (h : NextChar (fun d => d ∉ ['x', 'o', 'b']) cs) : scanNumber (c :: cs) = scanDecimal (c :: cs) := by
  unfold scanNumber
  split
  · next heq =>
    obtain ⟨-, rfl⟩ := List.cons.inj heq
    exact absurd (h 'x' rfl) (by simp)
  · next heq =>
    obtain ⟨-, rfl⟩ := List.cons.inj heq
    exact absurd (h 'o' rfl) (by simp)
  · next heq =>
    obtain ⟨-, rfl⟩ := List.cons.inj heq
    exact absurd (h 'b' rfl) (by simp)
  · rfl

theorem notRadix_of_isDigit {c : Char} (h : c.isDigit = true) : c ∉ ['x', 'o', 'b'] := by
  intro hmem
  simp only [List.mem_cons, List.not_mem_nil, or_false] at hmem
  rcases hmem with rfl | rfl | rfl <;> exact absurd h (by decide)

/-- Digits in front of a letter that marks no radix are a number of the radix ten. -/
theorem scanNumber_digits {ds : List Char} (hds : Digits ds)
    (hrest : NextChar (fun c => c ∉ ['x', 'o', 'b']) rest) :
    scanNumber (ds ++ rest) = scanDecimal (ds ++ rest) := by
  obtain ⟨c, tail, htext, -⟩ := hds.exists_cons
  have hall := hds.isDigit
  rw [htext] at hall ⊢
  refine scanNumber_eq_scanDecimal ?_
  cases tail with
  | nil => exact hrest
  | cons d tail => exact .cons (notRadix_of_isDigit (hall d (by simp)))

theorem splitFraction_of_ne {cs : List Char} (h : NextChar (· ≠ '.') cs) :
    splitFraction cs = ([], cs) := by
  unfold splitFraction
  split
  · exact absurd rfl (h '.' rfl)
  · exact absurd rfl (h '.' rfl)
  · rfl

theorem splitExponent_none {cs : List Char} (h : NextChar (fun c => c ≠ 'e' ∧ c ≠ 'E') cs) :
    splitExponent cs = ([], cs) := by
  cases cs with
  | nil => rfl
  | cons c cs => simp [splitExponent, h c rfl]

theorem splitSuffix_none {cs : List Char} (h : NextChar (fun c => startsWord c = false) cs) :
    splitSuffix cs = (none, cs) := by
  cases cs with
  | nil => rfl
  | cons c cs => simp [splitSuffix, h c rfl]

theorem mem_chars {c : Char} (h : c ∈ n.chars) : c.isDigit = true ∨ c ∈ ['.', 'e', '-'] := by
  simp only [Numeral.chars, List.mem_append] at h
  rcases h with (h | h) | h
  · exact .inl (n.whole_digits.isDigit c h)
  · unfold Numeral.fractionChars at h
    split at h
    · next ds hds =>
      rcases List.mem_cons.1 h with rfl | h
      · exact .inr (by simp)
      · exact .inl ((n.fraction_digits ds hds).isDigit c h)
    · exact absurd h (by simp)
  · unfold Numeral.exponentChars at h
    split at h
    · next negative ds hds =>
      rcases List.mem_cons.1 h with rfl | h
      · exact .inr (by simp)
      · rcases List.mem_append.1 h with h | h
        · cases negative with
          | true => exact .inr (by simp_all)
          | false => exact absurd h (by simp)
        · exact .inl ((n.exponent_digits _ hds).isDigit c h)
    · exact absurd h (by simp)

/-- No underscore stands in a numeral. -/
theorem filter_chars : n.chars.filter (· ≠ '_') = n.chars := by
  refine List.filter_eq_self.2 fun c hc => ?_
  rcases mem_chars n hc with h | h
  · exact decide_eq_true (by rintro rfl; exact absurd h (by decide))
  · exact decide_eq_true (by rintro rfl; exact absurd h (by decide))

/-- A numeral ends in a digit. -/
theorem reverse_dropWhile_chars : (n.chars.reverse.dropWhile (· = '.')).reverse = n.chars := by
  have hdigits : ∀ ds, Digits ds → NextChar (fun c => decide (c = '.') = false) ds.reverse := by
    intro ds hds c hc
    have hmem : c ∈ ds := List.mem_reverse.1 (List.mem_of_head? hc)
    exact decide_eq_false (by rintro rfl; exact absurd (hds.isDigit '.' hmem) (by decide))
  have hends : ∀ front ds, Digits ds →
      NextChar (fun c => decide (c = '.') = false) (front ++ ds).reverse := by
    intro front ds hds
    rw [List.reverse_append]
    exact (hdigits ds hds).append (by simp [hds.ne_nil])
  -- the last part that is there ends in a digit
  have hlast : NextChar (fun c => decide (c = '.') = false) n.chars.reverse := by
    unfold Numeral.chars Numeral.exponentChars
    split
    · next negative ds hds =>
      rw [← List.cons_append, ← List.append_assoc]
      exact hends _ ds (n.exponent_digits _ hds)
    · rw [List.append_nil]
      unfold Numeral.fractionChars
      split
      · next ds hds =>
        rw [← List.singleton_append, ← List.append_assoc]
        exact hends _ ds (n.fraction_digits ds hds)
      · rw [List.append_nil]
        exact hdigits _ n.whole_digits
  have hdrop : ([] ++ n.chars.reverse).dropWhile (· = '.') = n.chars.reverse :=
    dropWhile_append_of_next (by simp) hlast
  rw [List.nil_append] at hdrop
  rw [hdrop, List.reverse_reverse]

theorem decimalLexeme_chars (p : Precision) (isFloat : Bool) :
    decimalLexeme isFloat n.chars (some p.typeName) =
      (.float (Binary.ofDecimal .double false n.decimal) (some p.typeName), []) := by
  have hfloat : (isFloat || (some p.typeName).any (· ∈ floatTypes)) = true := by
    cases p <;> simp [floatTypes, Precision.typeName]
  unfold decimalLexeme
  rw [filter_chars]
  simp only [hfloat, if_true, reverse_dropWhile_chars, n.binary_ofChars?]

theorem decimalSuffixFault_typeName (p : Precision) (isFloat : Bool) :
    decimalSuffixFault isFloat (some p.typeName) = [] := by
  cases p <;> rfl

/-- A numeral with a floating-point type is the value of its decimal. -/
theorem scanNumber_float (p : Precision)
    (hrest : NextChar (fun c => continuesWord c = false) rest) :
    ∃ width, scanNumber (n.chars ++ (p.typeName.toList ++ rest)) =
      ⟨.float (Binary.ofDecimal .double false n.decimal) (some p.typeName), width, rest, []⟩ := by
  obtain ⟨tail, htail⟩ : ∃ tail, p.typeName.toList ++ rest = 'f' :: tail := by
    cases p <;> exact ⟨_, rfl⟩
  have hsuffix := splitSuffix_typeName p hrest
  have hnext : NextChar (fun c => c ∈ ['.', 'e', 'f'])
      (n.fractionChars ++ (n.exponentChars ++ 'f' :: tail)) := by
    unfold Numeral.fractionChars
    split
    · exact .cons (by simp)
    · exact (nextChar_exponentChars_append n).mono fun c hc => by rcases hc with rfl | rfl <;> simp
  have hassoc : n.chars ++ 'f' :: tail =
      n.whole ++ (n.fractionChars ++ (n.exponentChars ++ 'f' :: tail)) := by
    simp [Numeral.chars]
  -- a leading zero is not followed by the letter of a radix
  have hradix : NextChar (fun c => c ∉ ['x', 'o', 'b'])
      (n.fractionChars ++ (n.exponentChars ++ 'f' :: tail)) :=
    hnext.mono fun c hc => by simp at hc ⊢; rcases hc with rfl | rfl | rfl <;> decide
  have hend : NextChar (fun c => continuesDigits c = false)
      (n.fractionChars ++ (n.exponentChars ++ 'f' :: tail)) :=
    hnext.mono fun c hc => by simp at hc; rcases hc with rfl | rfl | rfl <;> decide
  have hrun : ∀ c ∈ n.whole, continuesDigits c = true :=
    fun c hc => continuesDigits_of_isDigit (n.whole_digits.isDigit c hc)
  have htake := takeWhile_append_of_next hrun hend
  have hdrop := dropWhile_append_of_next hrun hend
  have hchars : n.whole ++ n.fractionChars ++ n.exponentChars = n.chars := rfl
  rw [htail] at hsuffix ⊢
  rw [hassoc, scanNumber_digits n.whole_digits hradix, scanDecimal]
  simp only [htake, hdrop, splitFraction_chars, splitExponent_chars, hsuffix, hchars,
    decimalLexeme_chars, decimalSuffixFault_typeName]
  exact ⟨_, rfl⟩

/-- The digits of a natural number that is not too large are that number. -/
theorem scanNumber_integer {m : Nat} (hm : m < integerBound) (hrest : Stops rest) :
    ∃ width, scanNumber (Nat.toDigits 10 m ++ rest) = ⟨.integer m none, width, rest, []⟩ := by
  have hdigits := digits_toDigits m
  have hend : NextChar (fun c => continuesDigits c = false) rest :=
    hrest.mono fun c hc => not_continuesDigits_of_not_continuesWord hc.1
  have hrun : ∀ c ∈ Nat.toDigits 10 m, continuesDigits c = true :=
    fun c hc => continuesDigits_of_isDigit (hdigits.isDigit c hc)
  have htake := takeWhile_append_of_next hrun hend
  have hdrop := dropWhile_append_of_next hrun hend
  -- no letter stands behind the digits, so they are all there is of the number
  have hother : ∀ c, continuesWord c = true → NextChar (· ≠ c) rest := by
    rintro c hc d hd rfl
    exact absurd (hrest d hd).1 (by simp [hc])
  have hradix : NextChar (fun c => c ∉ ['x', 'o', 'b']) rest := by
    intro d hd hmem
    simp only [List.mem_cons, List.not_mem_nil, or_false] at hmem
    rcases hmem with rfl | rfl | rfl <;> exact hother _ (by decide) _ hd rfl
  have hfraction := splitFraction_of_ne (hrest.mono fun c hc => hc.2)
  have hexponent : splitExponent rest = ([], rest) :=
    splitExponent_none fun d hd => ⟨hother 'e' (by decide) d hd, hother 'E' (by decide) d hd⟩
  have hsuffix : splitSuffix rest = (none, rest) := by
    refine splitSuffix_none fun d hd => ?_
    by_contra hstart
    have hword := continuesWord_of_startsWord (Bool.eq_true_of_not_eq_false hstart)
    exact hother d hword d hd rfl
  have hfilter : (Nat.toDigits 10 m).filter (· ≠ '_') = Nat.toDigits 10 m :=
    List.filter_eq_self.2 fun c hc =>
      decide_eq_true (by rintro rfl; exact absurd (hdigits.isDigit '_' hc) (by decide))
  rw [scanNumber_digits hdigits hradix, scanDecimal]
  simp only [htake, hdrop, hfraction, hexponent, hsuffix, List.append_nil, decimalLexeme, hfilter,
    Nat.ofDigitChars_ten_toDigits, hm]
  exact ⟨_, rfl⟩

/-! ### Numbers as pieces of a text -/

theorem not_startsWord_of_isDigit {c : Char} (h : c.isDigit = true) : startsWord c = false := by
  have hle := toNat_le_of_isDigit h
  have hupper : ¬ 65 ≤ c.toNat := by omega
  have hlower : ¬ 97 ≤ c.toNat := by omega
  have hunderscore : c ≠ '_' := by
    rintro rfl
    exact absurd h (by decide)
  unfold startsWord Char.isAlpha Char.isUpper Char.isLower
  simp [UInt32.le_iff_toNat_le, hupper, hlower, hunderscore]

theorem Spells.number {c : Char} {cs : List Char} {lexeme : Lexeme} {width : Nat}
    {ls : List Lexeme} (hc : c.isDigit = true)
    (hscan : scanNumber (c :: cs) = ⟨lexeme, width, rest, []⟩) (h : Spells rest ls) :
    Spells (c :: cs) (lexeme :: ls) := by
  have hword := not_startsWord_of_isDigit hc
  have hlexeme : scanLexeme? c cs = some ⟨lexeme, width, rest, []⟩ := by
    rw [scanLexeme?, hword, hc, if_neg (by simp), if_pos rfl, hscan]
  exact .lexeme (s := ⟨lexeme, width, rest, []⟩)
    (startsLexeme_of_continuesWord (continuesWord_of_isDigit hc) cs) hlexeme rfl h

theorem nextChar_of_isDigit {c : Char} {cs : List Char} (hc : c.isDigit = true) :
    NextChar (fun d => d ∉ [':', '=', '&', '|', '>']) (c :: cs) := by
  refine .cons fun hmem => ?_
  simp only [List.mem_cons, List.not_mem_nil, or_false] at hmem
  rcases hmem with rfl | rfl | rfl | rfl | rfl <;> exact absurd hc (by decide)

theorem Piece.readsAs_float {cs : List Char} {d : Decimal} (p : Precision) (h : Spelt cs d) :
    Piece.ReadsAs (cs ++ p.typeName.toList)
      [.float (Binary.ofDecimal .double false d) (some p.typeName)] := by
  obtain ⟨n, zeros, rfl, hdecimal⟩ := h
  have hvalue : Binary.ofDecimal .double false n.decimal = Binary.ofDecimal .double false d := by
    rw [hdecimal, Binary.ofDecimal_mul_pow]
  obtain ⟨c, tail, htext, hc⟩ := n.exists_cons
  refine ⟨by simp [htext], ?_, fun rest more hrest h => ?_⟩
  · rw [htext]
    exact nextChar_of_isDigit hc
  · obtain ⟨width, hscan⟩ := scanNumber_float n p (hrest.mono fun c hc => hc.1)
    rw [List.append_assoc]
    rw [htext, List.cons_append] at hscan ⊢
    rw [hvalue] at hscan
    exact .number hc hscan h

theorem Piece.readsAs_negative {cs : List Char} {ls : List Lexeme} (h : Piece.ReadsAs cs ls) :
    Piece.ReadsAs ('-' :: cs) (.symbol .minus :: ls) := by
  obtain ⟨hne, hnext, hreads⟩ := h
  refine ⟨by simp, .cons (by decide), fun rest more hrest hmore => ?_⟩
  refine Spells.symbol (s := .minus) rfl (fun c hc => ?_) (hreads rest more hrest hmore)
  exact (hnext.mono fun d hd => doubleSymbol?_eq_none hd).append hne

theorem Piece.readsAs_integer {m : Nat} (hm : m < integerBound) :
    Piece.ReadsAs (Nat.repr m).toList [.integer m none] := by
  rw [Nat.toList_repr]
  obtain ⟨c, tail, htext, hc⟩ := (digits_toDigits m).exists_cons
  refine ⟨by simp [htext], ?_, fun rest more hrest h => ?_⟩
  · rw [htext]
    exact nextChar_of_isDigit hc
  · obtain ⟨width, hscan⟩ := scanNumber_integer hm hrest
    rw [htext, List.cons_append] at hscan
    rw [htext, List.cons_append]
    exact .number hc hscan h

end Target

end EnsembleCompiler
