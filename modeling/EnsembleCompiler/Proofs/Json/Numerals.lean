import EnsembleCompiler.Proofs.Json.Rules
import EnsembleCompiler.Proofs.Json.Syntax

/-!
# Reading JSON numerals

What the readers of numbers make of a numeral in front of the text that may follow a value: they
take the numeral and nothing else, and its value does not depend on the text that follows.
-/

namespace EnsembleCompiler.Json

/-- Whether a character may follow a value: a blank, a comma or a closing bracket. -/
def endsValue (c : Char) : Bool := isJsonBlank c || c = ',' || c = ']' || c = '\x7d'

/-- The text ends, or goes on as it may after a value. -/
abbrev Ends (rest : List Char) : Prop := NextChar (fun c => endsValue c = true) rest

theorem isDigit_of_endsValue {c : Char} (h : endsValue c = true) : c.isDigit = false := by
  simp only [endsValue, isJsonBlank, Bool.or_eq_true, decide_eq_true_eq] at h
  rcases h with (((((rfl | rfl) | rfl) | rfl) | rfl) | rfl) | rfl <;> rfl

theorem continuesNumber_of_endsValue {c : Char} (h : endsValue c = true) :
    c ≠ '.' ∧ c ≠ 'e' ∧ c ≠ 'E' := by
  simp only [endsValue, isJsonBlank, Bool.or_eq_true, decide_eq_true_eq] at h
  rcases h with (((((rfl | rfl) | rfl) | rfl) | rfl) | rfl) | rfl <;> decide

/-- No digit follows. -/
abbrev NoDigit (rest : List Char) : Prop := NextChar (fun c => c.isDigit = false) rest

theorem Ends.noDigit {rest : List Char} (h : Ends rest) : NoDigit rest :=
  h.mono fun _ hc => isDigit_of_endsValue hc

theorem Ends.isExponentMark {rest : List Char} (h : Ends rest) :
    isExponentMark rest.head? = false := by
  cases rest with
  | nil => rfl
  | cons c rest =>
    obtain ⟨-, he, hE⟩ := continuesNumber_of_endsValue (h c rfl)
    simp [Json.isExponentMark, he, hE]

theorem Ends.head?_ne_point {rest : List Char} (h : Ends rest) : rest.head? ≠ some '.' := by
  intro hpoint
  exact (continuesNumber_of_endsValue (h '.' hpoint)).1 rfl

variable {α : Type} {rest : List Char}

theorem Exponent.isExponentMark_head? (e : Exponent) :
    isExponentMark (e.text ++ rest).head? = true := by
  cases hupper : e.isUpper <;> simp [Exponent.text, Exponent.mark, Json.isExponentMark, hupper]

namespace Reader

theorem on_digits {ds : List Char} (hds : Digits ds) (h : NoDigit rest) :
    digits.on (ds ++ rest) = some (ds, rest) := by
  rw [digits, on_takeWhile, takeWhile_append_of_next hds.isDigit h,
    dropWhile_append_of_next hds.isDigit h]

@[simp]
theorem on_ofParts (isNegative : Bool) (significand : Nat) (exponent : Int) (cs : List Char) :
    (ofParts isNegative significand exponent).on cs =
      (ofParts? isNegative significand.toUInt64 exponent).map fun x => (.real x, cs) := by
  unfold ofParts
  cases ofParts? isNegative significand.toUInt64 exponent <;> rfl

theorem on_exponentSign (e : Exponent) :
    exponentSign.on (e.signText ++ (e.digits ++ rest)) =
      some (e.sign.getD false, e.digits ++ rest) := by
  obtain ⟨c, tail, htext, hc⟩ := e.isDigits.exists_cons
  unfold exponentSign Exponent.signText
  cases e.sign with
  | none =>
    rw [htext]
    have hplus : c ≠ '+' := by rintro rfl; exact absurd hc (by decide)
    have hminus : c ≠ '-' := by rintro rfl; exact absurd hc (by decide)
    simp [hplus, hminus]
  | some isMinus => cases isMinus <;> simp

/-- What a reader makes of this text does not depend on what follows the value that it ends: the
reader fails, or takes the text and nothing else. -/
def Settles (p : Reader α) (cs : List Char) : Prop :=
  ∃ result : Option α, ∀ rest, Ends rest → p.on (cs ++ rest) = result.map (·, rest)

theorem Settles.on_append {p : Reader α} {cs : List Char} (hp : p.Settles cs) (h : Ends rest) :
    p.on (cs ++ rest) = (p.on cs).map fun r => (r.1, rest) := by
  obtain ⟨result, hresult⟩ := hp
  have hnil : Ends [] := fun c hc => absurd hc (by simp)
  have hcs := hresult [] hnil
  rw [List.append_nil] at hcs
  rw [hresult rest h, hcs]
  cases result <;> rfl

theorem settles_exponentPart (e : Exponent) (isNegative : Bool) (significand : Nat)
    (exponent : Int) : (exponentPart isNegative significand exponent).Settles e.text := by
  obtain ⟨c, tail, htext, hc⟩ := e.isDigits.exists_cons
  refine ⟨
    if (collectDigits exponentBound 0 e.digits).2.isEmpty then
      (ofParts? isNegative significand.toUInt64 (clampExponent
        (if e.sign.getD false then exponent - (collectDigits exponentBound 0 e.digits).1
          else exponent + (collectDigits exponentBound 0 e.digits).1))).map .real
    else if significand ≠ 0 && !e.sign.getD false then none
    else some (.real (Binary.zero .double isNegative)), fun rest h => ?_⟩
  have hhead : (e.digits ++ rest).head? = some c := by rw [htext]; rfl
  have hdigits := on_digits e.isDigits h.noDigit
  simp only [exponentPart, Exponent.text, List.cons_append, List.append_assoc, on_bind, on_shift,
    on_exponentSign, on_peek, hhead, hc, hdigits, Option.bind_some, Bool.not_true,
    Bool.false_eq_true, if_false]
  split
  · simp [Option.map_map, Function.comp_def]
  · split <;> simp

theorem settles_exponentOrEnd (n : Numeral) (isNegative : Bool) (significand : Nat)
    (exponent : Int) : (exponentOrEnd isNegative significand exponent).Settles n.exponentText := by
  cases hexponent : n.exponent with
  | none =>
    refine ⟨(ofParts? isNegative significand.toUInt64 exponent).map .real, fun rest h => ?_⟩
    simp [exponentOrEnd, Numeral.exponentText, hexponent, h.isExponentMark, Function.comp_def]
  | some e =>
    obtain ⟨result, hresult⟩ := settles_exponentPart e isNegative significand exponent
    refine ⟨result, fun rest h => ?_⟩
    simp only [exponentOrEnd, Numeral.exponentText, hexponent, on_bind, on_peek, Option.bind_some,
      e.isExponentMark_head?, if_true, hresult rest h]

/-- Behind digits there is the fraction or the exponent, or the number has ended. -/
theorem noDigit_exponentText (n : Numeral) (h : Ends rest) : NoDigit (n.exponentText ++ rest) := by
  cases hexponent : n.exponent with
  | none => simpa [Numeral.exponentText, hexponent] using h.noDigit
  | some e =>
    cases hupper : e.isUpper <;>
      simp [Numeral.exponentText, hexponent, Exponent.text, Exponent.mark, hupper, NextChar]

theorem settles_fractionPart (n : Numeral) {ds : List Char} (hds : Digits ds) (isNegative : Bool)
    (significand : Nat) (exponent : Int) :
    (fractionPart isNegative significand exponent).Settles ('.' :: (ds ++ n.exponentText)) := by
  obtain ⟨result, hresult⟩ := settles_exponentOrEnd n isNegative
    (collectDigits significandBound significand ds).1
    (exponent - (ds.length - (collectDigits significandBound significand ds).2.length : Nat))
  refine ⟨result, fun rest h => ?_⟩
  have hdigits := on_digits hds (noDigit_exponentText n h)
  simp [fractionPart, hdigits, hds.ne_nil, hresult rest h]

/-- What follows the digits in front of the point. -/
theorem noDigit_fractionText (n : Numeral) (h : Ends rest) :
    NoDigit (n.fractionText ++ (n.exponentText ++ rest)) := by
  cases hfraction : n.fraction with
  | none => simpa [Numeral.fractionText, hfraction] using noDigit_exponentText n h
  | some ds => simp [Numeral.fractionText, hfraction, NextChar]

theorem on_wholeDigits (n : Numeral) (h : NoDigit rest) :
    wholeDigits.on (n.whole ++ rest) = some (n.whole, rest) := by
  obtain ⟨c, tail, hwhole, hc⟩ := n.whole_digits.exists_cons
  have hdigits := on_digits n.whole_digits h
  have hhead : (n.whole ++ rest).head? = some c := by rw [hwhole]; rfl
  by_cases hzero : c = '0'
  · subst hzero
    have htail := n.zero_alone hwhole
    subst htail
    rw [hwhole]
    cases rest with
    | nil => simp [wholeDigits]
    | cons d rest =>
      have hd : d.isDigit = false := h d rfl
      simp [wholeDigits, hd]
  · simp only [wholeDigits, on_bind, on_peek, hhead, Option.bind_some]
    split <;> simp_all

theorem head?_exponentText_ne_point (n : Numeral) (h : Ends rest) :
    (n.exponentText ++ rest).head? ≠ some '.' := by
  cases hexponent : n.exponent with
  | none => simpa [Numeral.exponentText, hexponent] using h.head?_ne_point
  | some e =>
    cases hupper : e.isUpper <;>
      simp [Numeral.exponentText, hexponent, Exponent.text, Exponent.mark, hupper]

/-- A number that goes on without a fraction. -/
theorem settles_afterWhole (n : Numeral) (isNegative : Bool) (significand : Nat)
    (left : List Char) : Settles (do
      if isExponentMark (← peek) then exponentPart isNegative significand left.length
      else if left.isEmpty then return Number.ofDigits isNegative significand.toUInt64
      else ofParts isNegative significand left.length) n.exponentText := by
  cases hexponent : n.exponent with
  | some e =>
    obtain ⟨result, hresult⟩ := settles_exponentPart e isNegative significand left.length
    refine ⟨result, fun rest h => ?_⟩
    simp only [Numeral.exponentText, hexponent, on_bind, on_peek, Option.bind_some,
      e.isExponentMark_head?, if_true, hresult rest h]
  | none =>
    refine ⟨if left.isEmpty then some (Number.ofDigits isNegative significand.toUInt64)
      else (ofParts? isNegative significand.toUInt64 left.length).map .real, fun rest h => ?_⟩
    simp only [Numeral.exponentText, hexponent, List.nil_append, on_bind, on_peek,
      Option.bind_some, h.isExponentMark, Bool.false_eq_true, if_false]
    split <;> simp [Function.comp_def]

theorem settles_unsigned (n : Numeral) (isNegative : Bool) :
    (unsigned isNegative).Settles (n.whole ++ (n.fractionText ++ n.exponentText)) := by
  have hwhole (rest : List Char) (h : Ends rest) := on_wholeDigits n (noDigit_fractionText n h)
  generalize hcollected : collectDigits significandBound 0 n.whole = collected
  cases hfraction : n.fraction with
  | some ds =>
    obtain ⟨result, hresult⟩ := settles_fractionPart n (n.fraction_digits ds hfraction) isNegative
      collected.1 collected.2.length
    refine ⟨result, fun rest h => ?_⟩
    have hread := hwhole rest h
    have hnext := hresult rest h
    simp only [Numeral.fractionText, hfraction, List.cons_append, List.append_assoc]
      at hread hnext ⊢
    simp [unsigned, hread, hcollected, hnext]
  | none =>
    have hfractionText : n.fractionText = [] := by rw [Numeral.fractionText, hfraction]
    obtain ⟨result, hresult⟩ := settles_afterWhole n isNegative collected.1 collected.2
    refine ⟨result, fun rest h => ?_⟩
    have hread := hwhole rest h
    have hnext := hresult rest h
    simp only [hfractionText, List.nil_append, List.append_assoc] at hread ⊢
    simp only [unsigned, on_bind, hread, Option.bind_some, hcollected, on_peek] at hnext ⊢
    -- without a fraction the next character is no point, for the exponent does not begin with one
    split
    · next hpoint => exact absurd hpoint (head?_exponentText_ne_point n h)
    · exact hnext

/-- The number reader takes a numeral. -/
theorem settles_number (n : Numeral) : number.Settles n.text := by
  obtain ⟨c, tail, hwhole, hc⟩ := n.whole_digits.exists_cons
  obtain ⟨result, hresult⟩ := settles_unsigned n n.isNegative
  refine ⟨result, fun rest h => ?_⟩
  have hread := hresult rest h
  have hminus : c ≠ '-' := by rintro rfl; exact absurd hc (by decide)
  cases hnegative : n.isNegative <;>
    simp_all [number, Numeral.text, Numeral.signText]

theorem on_skipExponent (e : Exponent) (h : NoDigit rest) :
    skipExponent.on (e.text ++ rest) = some ((), rest) := by
  obtain ⟨c, tail, htext, hc⟩ := e.isDigits.exists_cons
  have hhead : (e.digits ++ rest).head? = some c := by rw [htext]; rfl
  have hdigits := on_digits e.isDigits h
  simp [skipExponent, Exponent.text, on_exponentSign, hhead, hc, hdigits]

theorem on_skipWhole (n : Numeral) (h : NoDigit rest) :
    skipWhole.on (n.whole ++ rest) = some ((), rest) := by
  obtain ⟨c, tail, hwhole, hc⟩ := n.whole_digits.exists_cons
  have hdigits := on_digits n.whole_digits h
  have hhead : (n.whole ++ rest).head? = some c := by rw [hwhole]; rfl
  by_cases hzero : c = '0'
  · subst hzero
    have htail := n.zero_alone hwhole
    subst htail
    rw [hwhole]
    cases rest with
    | nil => simp [skipWhole]
    | cons d rest =>
      have hd : d.isDigit = false := h d rfl
      simp [skipWhole, hd]
  · simp only [skipWhole, on_bind, on_peek, hhead, Option.bind_some]
    split <;> simp_all

theorem on_skipFraction (n : Numeral) (h : Ends rest) :
    skipFraction.on (n.fractionText ++ (n.exponentText ++ rest)) =
      some ((), n.exponentText ++ rest) := by
  cases hfraction : n.fraction with
  | none =>
    have hpoint := head?_exponentText_ne_point n h
    simp only [skipFraction, Numeral.fractionText, hfraction, List.nil_append, on_bind, on_peek,
      Option.bind_some, if_neg hpoint, on_pure]
  | some ds =>
    have hds := n.fraction_digits ds hfraction
    have hdigits := on_digits hds (noDigit_exponentText n h)
    simp [skipFraction, Numeral.fractionText, hfraction, hdigits, hds.ne_nil]

/-- A numeral can be skipped. -/
theorem on_skipNumber (n : Numeral) (h : Ends rest) :
    skipNumber.on (n.text ++ rest) = some ((), rest) := by
  obtain ⟨c, tail, hwhole, hc⟩ := n.whole_digits.exists_cons
  have hminus : c ≠ '-' := by rintro rfl; exact absurd hc (by decide)
  have hread := on_skipWhole n (noDigit_fractionText n h)
  have hfraction := on_skipFraction n h
  have hexponent : (do if isExponentMark (← peek) then skipExponent).on (n.exponentText ++ rest) =
      some ((), rest) := by
    cases hexponent : n.exponent with
    | none => simp [Numeral.exponentText, hexponent, h.isExponentMark]
    | some e =>
      simp only [Numeral.exponentText, hexponent, on_bind, on_peek, Option.bind_some,
        e.isExponentMark_head?, if_true, on_skipExponent e h.noDigit]
  cases hnegative : n.isNegative <;>
    simp_all [skipNumber, Numeral.text, Numeral.signText]

end Reader

end EnsembleCompiler.Json
