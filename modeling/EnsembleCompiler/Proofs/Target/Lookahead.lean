import EnsembleCompiler.Proofs.Target.Extents
import EnsembleCompiler.Proofs.Target.Numbers

/-!
# What a lexeme looks at behind its end

A word, a number and a symbol are read as far as they go, so that each looks at the character
behind it, and a number looks at two where a point follows. `SameStop` says that two texts stop a
lexeme alike; a lexeme without a fault that is read in front of one of them is read in front of the
other.
-/

namespace EnsembleCompiler.Target

/-- In front of `other` a lexeme ends as it does in front of `rest`: the text begins with a blank
or is at its end, or it begins as `rest` does, with one more character in common where a point
could begin a range or a method call. -/
inductive SameStop : List Char → List Char → Prop
  | blank {rest other : List Char} :
      NextChar (fun c => isAsciiBlank c = true) other → SameStop rest other
  | next {c : Char} {rest other : List Char} :
      (c = '.' → ∀ d ∈ rest.head?, d = '.' ∨ startsWord d = true → other.head? = some d) →
      SameStop (c :: rest) (c :: other)

theorem SameStop.nextChar {p : Char → Prop} {rest other : List Char} (h : SameStop rest other)
    (hp : NextChar p rest) (hblank : ∀ c, isAsciiBlank c = true → p c) : NextChar p other := by
  cases h with
  | blank hother => exact hother.mono hblank
  | next => exact .cons (hp _ rfl)

/-- A lexeme that does not begin with a point hides what stands behind it. -/
theorem SameStop.behind {part rest other : List Char} (h : SameStop rest other)
    (hpart : NextChar (· ≠ '.') part) : SameStop (part ++ rest) (part ++ other) := by
  cases part with
  | nil => exact h
  | cons c part => exact .next fun hc => absurd hc (hpart c rfl)

theorem SameStop.nextBehind {p : Char → Prop} {part rest other : List Char}
    (h : SameStop rest other) (hp : NextChar p (part ++ rest))
    (hblank : ∀ c, isAsciiBlank c = true → p c) : NextChar p (part ++ other) := by
  cases part with
  | nil => exact h.nextChar hp hblank
  | cons c part => exact .cons (hp c rfl)

theorem nextChar_append {p : Char → Prop} {part rest : List Char} (hpart : NextChar p part)
    (hrest : NextChar p rest) : NextChar p (part ++ rest) := by
  cases part with
  | nil => exact hrest
  | cons c part => exact .cons (hpart c rfl)

theorem nextChar_of_append {p : Char → Prop} {part rest : List Char}
    (h : NextChar p (part ++ rest)) : NextChar p part := by
  cases part with
  | nil => simp [NextChar]
  | cons c part => simpa [NextChar] using h

/-- The same lexeme with another text behind it. -/
def Scanned.inFrontOf (s : Scanned) (other : List Char) : Scanned := { s with rest := other }

/-! ### Words and runs -/

theorem nextChar_dropWhile (p : Char → Bool) (cs : List Char) :
    NextChar (fun c => p c = false) (cs.dropWhile p) := by
  intro c hc
  have h := List.head?_dropWhile_not p cs
  rw [Option.mem_def.1 hc] at h
  simpa using h

/-- A run of characters of one class is read again. -/
theorem takeWhile_append {p : Char → Bool} (cs : List Char) {other : List Char}
    (hother : NextChar (fun c => p c = false) other) :
    (cs.takeWhile p ++ other).takeWhile p = cs.takeWhile p ∧
      (cs.takeWhile p ++ other).dropWhile p = other :=
  have hrun : ∀ c ∈ cs.takeWhile p, p c = true := fun _ hc => List.mem_takeWhile_imp hc
  ⟨takeWhile_append_of_next hrun hother, dropWhile_append_of_next hrun hother⟩

theorem not_startsWord_of_isAsciiBlank {c : Char} (h : isAsciiBlank c = true) :
    startsWord c = false := by
  by_contra hc
  have := continuesWord_of_startsWord (by simpa using hc)
  rw [not_continuesWord_of_isAsciiBlank h] at this
  exact absurd this (by simp)

theorem scanWord_append {cs other : List Char} (h : SameStop (scanWord cs).rest other) :
    scanWord (cs.takeWhile continuesWord ++ other) = (scanWord cs).inFrontOf other := by
  have hnext : NextChar (fun c => continuesWord c = false) other :=
    h.nextChar (nextChar_dropWhile _ _) fun _ => not_continuesWord_of_isAsciiBlank
  obtain ⟨htake, hdrop⟩ := takeWhile_append cs hnext
  simp only [scanWord, htake, hdrop, Scanned.inFrontOf]

/-! ### Parts of a number -/

theorem not_isDigit_of_isAsciiBlank {c : Char} (h : isAsciiBlank c = true) :
    c.isDigit = false := by
  by_contra hc
  have := continuesWord_of_isDigit (by simpa using hc)
  rw [not_continuesWord_of_isAsciiBlank h] at this
  exact absurd this (by simp)

theorem not_continuesDigits_of_isAsciiBlank {c : Char} (h : isAsciiBlank c = true) :
    continuesDigits c = false := by
  simp only [continuesDigits, not_isDigit_of_isAsciiBlank h, Bool.false_or, decide_eq_false_iff_not]
  rintro rfl
  exact absurd h (by decide)

theorem not_continuesRadix_of_isAsciiBlank {radix : Nat} (hradix : radix ≤ 36) {c : Char}
    (h : isAsciiBlank c = true) : continuesRadix radix c = false := by
  simp only [isAsciiBlank, Bool.or_eq_true, decide_eq_true_eq] at h
  rcases h with (((rfl | rfl) | rfl) | rfl) | rfl <;>
    simp [continuesRadix, digitValue, Char.isDigit, Char.le_def] <;> omega

/-- A point that nothing of a number follows ends it. -/
theorem splitFraction_point {cs : List Char}
    (h : NextChar (fun c => c.isDigit = false ∧ c ≠ '.' ∧ startsWord c = false) cs) :
    splitFraction ('.' :: cs) = (['.'], cs) := by
  cases cs with
  | nil => rfl
  | cons c rest =>
    obtain ⟨hdigit, hpoint, hword⟩ := h c rfl
    simp [splitFraction, hdigit, hpoint, hword]

/-- Digits behind a point are the fraction. -/
theorem splitFraction_digits {c : Char} {rest : List Char} (h : c.isDigit = true) :
    splitFraction ('.' :: c :: rest) =
      ('.' :: c :: rest.takeWhile continuesDigits, rest.dropWhile continuesDigits) := by
  simp [splitFraction, continuesDigits, h]

/-- A point in front of another one or of a word is left alone. -/
theorem splitFraction_joined {c : Char} {rest : List Char} (hdigit : c.isDigit = false)
    (h : c = '.' ∨ startsWord c = true) :
    splitFraction ('.' :: c :: rest) = ([], '.' :: c :: rest) := by
  rcases h with h | h <;> simp [splitFraction, hdigit, h]

theorem splitFraction_append {cs other : List Char} (h : SameStop (splitFraction cs).2 other) :
    splitFraction ((splitFraction cs).1 ++ other) = ((splitFraction cs).1, other) := by
  have hblank : ∀ c, isAsciiBlank c = true →
      c.isDigit = false ∧ c ≠ '.' ∧ startsWord c = false := fun c hc =>
    ⟨not_isDigit_of_isAsciiBlank hc, by rintro rfl; exact absurd hc (by decide),
      not_startsWord_of_isAsciiBlank hc⟩
  -- is there a point, does it stand alone, and is it followed by a digit?
  by_cases hpoint : NextChar (· ≠ '.') cs
  · rw [splitFraction_of_ne hpoint] at h ⊢
    exact splitFraction_of_ne (h.nextChar hpoint fun c hc => (hblank c hc).2.1)
  obtain ⟨rest, rfl⟩ : ∃ rest, cs = '.' :: rest := by
    cases cs with
    | nil => exact absurd (by simp [NextChar]) hpoint
    | cons c rest => exact ⟨rest, by simpa [NextChar] using hpoint⟩
  by_cases halone : NextChar (fun c => c.isDigit = false ∧ c ≠ '.' ∧ startsWord c = false) rest
  · rw [splitFraction_point halone] at h ⊢
    exact splitFraction_point (h.nextChar halone hblank)
  obtain ⟨c, rest, rfl⟩ : ∃ c tail, rest = c :: tail := by
    cases rest with
    | nil => exact absurd (by simp [NextChar]) halone
    | cons c tail => exact ⟨c, tail, rfl⟩
  cases hdigit : c.isDigit with
  | true =>
    rw [splitFraction_digits hdigit] at h ⊢
    obtain ⟨htake, hdrop⟩ := takeWhile_append rest
      (h.nextChar (nextChar_dropWhile _ _) fun _ => not_continuesDigits_of_isAsciiBlank)
    rw [List.cons_append, List.cons_append, splitFraction_digits hdigit, htake, hdrop]
  | false =>
    have hjoined : c = '.' ∨ startsWord c = true := by
      by_contra hother
      rw [not_or, Bool.not_eq_true] at hother
      exact halone (.cons ⟨hdigit, hother⟩)
    rw [splitFraction_joined hdigit hjoined] at h ⊢
    cases h with
    | blank hother => exact splitFraction_of_ne (hother.mono fun d hd => (hblank d hd).2.1)
    | @next _ _ tail hpoint =>
      have hhead := hpoint rfl c rfl hjoined
      cases tail with
      | nil => exact absurd hhead (by simp)
      | cons d tail =>
        obtain rfl : d = c := by simpa using hhead
        exact splitFraction_joined hdigit hjoined

theorem splitExponentDigits_digits {c : Char} {rest : List Char} (h : c.isDigit = true) :
    splitExponentDigits (c :: rest) =
      (c :: rest.takeWhile continuesDigits, rest.dropWhile continuesDigits) := by
  simp [splitExponentDigits, continuesDigits, h]

theorem splitExponentDigits_none {cs : List Char} (h : NextChar (fun c => c.isDigit = false) cs) :
    splitExponentDigits cs = ([], cs) := by
  cases cs with
  | nil => rfl
  | cons c cs => simp [splitExponentDigits, h c rfl]

theorem splitExponentDigits_append {cs other : List Char}
    (h : SameStop (splitExponentDigits cs).2 other) :
    splitExponentDigits ((splitExponentDigits cs).1 ++ other) =
      ((splitExponentDigits cs).1, other) := by
  by_cases hnone : NextChar (fun c => c.isDigit = false) cs
  · rw [splitExponentDigits_none hnone] at h ⊢
    exact splitExponentDigits_none (h.nextChar hnone fun _ => not_isDigit_of_isAsciiBlank)
  cases cs with
  | nil => exact absurd (by simp [NextChar]) hnone
  | cons c rest =>
    have hdigit : c.isDigit = true := by simpa [NextChar] using hnone
    rw [splitExponentDigits_digits hdigit] at h ⊢
    obtain ⟨htake, hdrop⟩ := takeWhile_append rest
      (h.nextChar (nextChar_dropWhile _ _) fun _ => not_continuesDigits_of_isAsciiBlank)
    rw [List.cons_append, splitExponentDigits_digits hdigit, htake, hdrop]

theorem splitSign_append (cs : List Char) {other : List Char}
    (h : NextChar (fun c => c ≠ '+' ∧ c ≠ '-') other) :
    splitSign ((splitSign cs).1 ++ other) = ((splitSign cs).1, other) := by
  have hnone : splitSign other = ([], other) := by
    unfold splitSign
    split
    · exact absurd rfl (h '+' rfl).1
    · exact absurd rfl (h '-' rfl).2
    · rfl
  have hcases : (splitSign cs).1 = ['+'] ∨ (splitSign cs).1 = ['-'] ∨ (splitSign cs).1 = [] := by
    unfold splitSign
    split <;> simp
  rcases hcases with hplus | hminus | hnil
  · rw [hplus]; rfl
  · rw [hminus]; rfl
  · rw [hnil]; exact hnone

/-- The exponent digits that are split off begin with a digit. -/
theorem nextChar_exponentDigits (cs : List Char) :
    NextChar (fun c => c.isDigit = true) (splitExponentDigits cs).1 := by
  unfold splitExponentDigits
  split
  · split
    · next c rest hdigit =>
      have hcontinues : continuesDigits c = true := by simp [continuesDigits, hdigit]
      simp [NextChar, hcontinues, hdigit]
    · simp [NextChar]
  · simp [NextChar]

theorem splitExponent_digits {e : Char} {rest : List Char} (he : e = 'e' ∨ e = 'E')
    (h : (splitExponentDigits (splitSign rest).2).1 ≠ []) :
    splitExponent (e :: rest) =
      (e :: ((splitSign rest).1 ++ (splitExponentDigits (splitSign rest).2).1),
        (splitExponentDigits (splitSign rest).2).2) := by
  simp [splitExponent, he, h]

/-- Where an exponent is split off, an `e` with digits behind it begins it. -/
theorem splitExponent_cases (cs : List Char) : splitExponent cs = ([], cs) ∨
    ∃ e rest, cs = e :: rest ∧ (e = 'e' ∨ e = 'E') ∧
      (splitExponentDigits (splitSign rest).2).1 ≠ [] := by
  cases cs with
  | nil => exact .inl rfl
  | cons e rest =>
    by_cases he : e = 'e' ∨ e = 'E'
    · by_cases hdigits : (splitExponentDigits (splitSign rest).2).1 = []
      · exact .inl (by simp [splitExponent, he, hdigits])
      · exact .inr ⟨e, rest, rfl, he, hdigits⟩
    · rw [not_or] at he
      exact .inl (splitExponent_none (.cons he))

theorem splitExponent_append {cs other : List Char} (h : SameStop (splitExponent cs).2 other)
    (hother : NextChar (fun c => c ≠ 'e' ∧ c ≠ 'E') other) :
    splitExponent ((splitExponent cs).1 ++ other) = ((splitExponent cs).1, other) := by
  rcases splitExponent_cases cs with hnone | ⟨e, rest, rfl, he, hdigits⟩
  · rw [hnone]
    exact splitExponent_none hother
  · rw [splitExponent_digits he hdigits] at h ⊢
    have hagain := splitExponentDigits_append h
    have hsign : NextChar (fun c => c ≠ '+' ∧ c ≠ '-')
        ((splitExponentDigits (splitSign rest).2).1 ++ other) := by
      refine .append ((nextChar_exponentDigits _).mono fun c hc => ⟨?_, ?_⟩) hdigits
      all_goals rintro rfl; exact absurd hc (by decide)
    have hsplit := splitSign_append rest hsign
    rw [List.cons_append, List.append_assoc, splitExponent_digits he] <;> rw [hsplit, hagain]
    exact hdigits

/-- The characters of the word behind a number. -/
def suffixChars (suffix : Option String) : List Char := (suffix.getD "").toList

theorem splitSuffix_word {c : Char} {rest : List Char} (h : startsWord c = true) :
    splitSuffix (c :: rest) = (some (String.ofList (c :: rest.takeWhile continuesWord)),
      rest.dropWhile continuesWord) := by
  simp [splitSuffix, h, continuesWord_of_startsWord h]

/-- No word stands behind a number and its suffix. -/
theorem nextChar_splitSuffix (cs : List Char) :
    NextChar (fun c => startsWord c = false) (splitSuffix cs).2 := by
  by_cases hnone : NextChar (fun c => startsWord c = false) cs
  · rw [splitSuffix_none hnone]
    exact hnone
  cases cs with
  | nil => exact absurd (by simp [NextChar]) hnone
  | cons c rest =>
    rw [splitSuffix_word (by simpa [NextChar] using hnone)]
    refine (nextChar_dropWhile continuesWord rest).mono fun d hd => ?_
    by_contra hword
    rw [continuesWord_of_startsWord (by simpa using hword)] at hd
    exact absurd hd (by simp)

theorem splitSuffix_append {cs other : List Char} (h : SameStop (splitSuffix cs).2 other) :
    splitSuffix (suffixChars (splitSuffix cs).1 ++ other) = ((splitSuffix cs).1, other) := by
  by_cases hnone : NextChar (fun c => startsWord c = false) cs
  · rw [splitSuffix_none hnone] at h ⊢
    exact splitSuffix_none (h.nextChar hnone fun _ => not_startsWord_of_isAsciiBlank)
  cases cs with
  | nil => exact absurd (by simp [NextChar]) hnone
  | cons c rest =>
    have hword : startsWord c = true := by simpa [NextChar] using hnone
    rw [splitSuffix_word hword] at h ⊢
    obtain ⟨htake, hdrop⟩ := takeWhile_append rest
      (h.nextChar (nextChar_dropWhile _ _) fun _ => not_continuesWord_of_isAsciiBlank)
    simp only [suffixChars, Option.getD_some, String.toList_ofList, List.cons_append]
    rw [splitSuffix_word hword, htake, hdrop]

/-! ### Numbers -/

/-- `s` is what `reader` finds in front of `cs`, and it finds it again in front of every text that
stops it in the same way. -/
def Scanned.Rereads (s : Scanned) (reader : List Char → Scanned) (cs : List Char) : Prop :=
  ∃ part, cs = part ++ s.rest ∧
    ∀ other, SameStop s.rest other → reader (part ++ other) = s.inFrontOf other

theorem nextChar_suffixChars {p : Char → Prop} {types : List String} {suffix : Option String}
    (h : ∀ s, suffix = some s → s ∈ types) (hp : ∀ s ∈ types, NextChar p s.toList) :
    NextChar p (suffixChars suffix) := by
  cases suffix with
  | none => simp [NextChar, suffixChars]
  | some s => exact hp s (h s rfl)

/-- The name of a numeric type is no exponent and begins with no point. -/
theorem nextChar_numericType {s : String} (h : s ∈ floatTypes ++ integerTypes) :
    NextChar (fun c => c ≠ 'e' ∧ c ≠ 'E' ∧ c ≠ '.') s.toList := by
  have hletter : s.toList.head? = some 'f' ∨ s.toList.head? = some 'i' ∨
      s.toList.head? = some 'u' := by
    revert s
    simp [floatTypes, integerTypes]
  rcases hletter with h | h | h <;> simp [NextChar, h]

theorem mem_types_of_decimalSuffixFault {isFloat : Bool} {suffix : Option String}
    (h : decimalSuffixFault isFloat suffix = []) :
    ∀ s, suffix = some s → s ∈ floatTypes ++ integerTypes := by
  rintro s rfl
  by_contra hs
  rw [List.mem_append, not_or] at hs
  simp [decimalSuffixFault, hs] at h

theorem not_letter_of_isAsciiBlank (c : Char) (h : isAsciiBlank c = true) : c ≠ 'e' ∧ c ≠ 'E' := by
  refine ⟨?_, ?_⟩
  all_goals rintro rfl; exact absurd h (by decide)

/-- Letters that name a radix behind a zero. -/
def namesRadix (c : Char) : Bool := c = 'x' || c = 'o' || c = 'b'

theorem not_namesRadix_of_isAsciiBlank (c : Char) (h : isAsciiBlank c = true) :
    namesRadix c = false := by
  simp only [isAsciiBlank, Bool.or_eq_true, decide_eq_true_eq] at h
  rcases h with (((rfl | rfl) | rfl) | rfl) | rfl <;> rfl

/-- An exponent begins with no point. -/
theorem nextChar_exponent (cs : List Char) : NextChar (· ≠ '.') (splitExponent cs).1 := by
  rcases splitExponent_cases cs with hnone | ⟨e, rest, rfl, he, hdigits⟩
  · rw [hnone]
    simp [NextChar]
  · rw [splitExponent_digits he hdigits]
    refine .cons ?_
    rintro rfl
    exact absurd he (by decide)

theorem rereads_decimal {cs : List Char} (hfaults : (scanDecimal cs).faults = []) :
    (scanDecimal cs).Rereads scanDecimal cs := by
  have hmap := List.map_eq_nil_iff.1 hfaults
  have htypes := mem_types_of_decimalSuffixFault (List.append_eq_nil_iff.1 hmap).1
  have hrest : (scanDecimal cs).rest = (splitSuffix (splitExponent
    (splitFraction (cs.dropWhile continuesDigits)).2).2).2 := rfl
  -- the four parts in order; each is stopped by what the next one begins with
  set behind := cs.dropWhile continuesDigits with hbehind
  set fraction := splitFraction behind with hfraction
  set exponent := splitExponent fraction.2 with hexponent
  set suffix := splitSuffix exponent.2 with hsuffix
  have hletters := nextChar_suffixChars htypes fun s => nextChar_numericType
  have htextFraction : behind = fraction.1 ++ fraction.2 := (splitsOff_fraction behind).text
  have htextExponent : fraction.2 = exponent.1 ++ exponent.2 := (splitsOff_exponent _).text
  have htextSuffix : exponent.2 = suffixChars suffix.1 ++ suffix.2 := (splitsOff_suffix _).text
  refine ⟨cs.takeWhile continuesDigits ++ (fraction.1 ++ (exponent.1 ++ suffixChars suffix.1)),
    ?_, fun other hother => ?_⟩
  · rw [hrest, List.append_assoc, List.append_assoc, List.append_assoc, ← htextSuffix,
      ← htextExponent, ← htextFraction, hbehind, List.takeWhile_append_dropWhile]
  rw [hrest] at hother
  have hsuffixAgain : splitSuffix (suffixChars suffix.1 ++ other) = (suffix.1, other) :=
    splitSuffix_append hother
  -- from the end to the front: if a part is read again, the one in front of it is stopped as before
  have hstopExponent : SameStop exponent.2 (suffixChars suffix.1 ++ other) := by
    rw [htextSuffix]
    exact hother.behind (hletters.mono fun c hc => hc.2.2)
  have hletter : NextChar (fun c => c ≠ 'e' ∧ c ≠ 'E') exponent.2 := by
    rw [htextSuffix]
    refine nextChar_append (hletters.mono fun c hc => ⟨hc.1, hc.2.1⟩)
      ((nextChar_splitSuffix exponent.2).mono fun c hc => ⟨?_, ?_⟩)
    all_goals rintro rfl; exact absurd hc (by decide)
  have hexponentAgain : splitExponent (exponent.1 ++ (suffixChars suffix.1 ++ other)) =
      (exponent.1, suffixChars suffix.1 ++ other) :=
    splitExponent_append hstopExponent (hstopExponent.nextChar hletter not_letter_of_isAsciiBlank)
  have hstopFraction : SameStop fraction.2 (exponent.1 ++ (suffixChars suffix.1 ++ other)) := by
    rw [htextExponent]
    exact hstopExponent.behind (nextChar_exponent _)
  have hfractionAgain := splitFraction_append hstopFraction
  rw [← hfraction] at hfractionAgain
  have hbehindNext : NextChar (fun c => continuesDigits c = false)
      (fraction.1 ++ (exponent.1 ++ (suffixChars suffix.1 ++ other))) := by
    refine hstopFraction.nextBehind ?_ fun _ => not_continuesDigits_of_isAsciiBlank
    rw [← htextFraction]
    exact nextChar_dropWhile continuesDigits cs
  obtain ⟨htake, hdrop⟩ := takeWhile_append cs hbehindNext
  have htext : cs.takeWhile continuesDigits ++
        (fraction.1 ++ (exponent.1 ++ suffixChars suffix.1)) ++ other =
      cs.takeWhile continuesDigits ++
        (fraction.1 ++ (exponent.1 ++ (suffixChars suffix.1 ++ other))) := by
    simp only [List.append_assoc]
  rw [htext]
  simp only [scanDecimal, htake, hdrop, hfractionAgain, hexponentAgain, hsuffixAgain,
    Scanned.inFrontOf, ← hbehind, ← hfraction, ← hexponent, ← hsuffix]

theorem rereads_radix {radix : Nat} (hradix : radix ≤ 36) (mark : Char) (cs : List Char) :
    (scanRadix radix mark cs).Rereads (scanRadix radix mark) cs := by
  set suffix := splitSuffix (cs.dropWhile (continuesRadix radix)) with hsuffix
  have hrest : (scanRadix radix mark cs).rest = suffix.2 := rfl
  have htextSuffix : cs.dropWhile (continuesRadix radix) = suffixChars suffix.1 ++ suffix.2 :=
    (splitsOff_suffix _).text
  refine ⟨cs.takeWhile (continuesRadix radix) ++ suffixChars suffix.1, ?_, fun other hother => ?_⟩
  · rw [hrest, List.append_assoc, ← htextSuffix, List.takeWhile_append_dropWhile]
  rw [hrest] at hother
  have hagain : splitSuffix (suffixChars suffix.1 ++ other) = (suffix.1, other) :=
    splitSuffix_append hother
  have hnext : NextChar (fun c => continuesRadix radix c = false)
      (suffixChars suffix.1 ++ other) := by
    refine hother.nextBehind ?_ fun _ => not_continuesRadix_of_isAsciiBlank hradix
    rw [← htextSuffix]
    exact nextChar_dropWhile (continuesRadix radix) cs
  obtain ⟨htake, hdrop⟩ := takeWhile_append cs hnext
  rw [List.append_assoc]
  simp only [scanRadix, htake, hdrop, hagain, Scanned.inFrontOf, ← hsuffix]

theorem scanNumber_decimal {c : Char} {cs : List Char}
    (h : c = '0' → NextChar (fun c => namesRadix c = false) cs) :
    scanNumber (c :: cs) = scanDecimal (c :: cs) := by
  unfold scanNumber
  split
  · next heq =>
    obtain ⟨rfl, rfl⟩ := List.cons.inj heq
    exact absurd (h rfl 'x' rfl) (by decide)
  · next heq =>
    obtain ⟨rfl, rfl⟩ := List.cons.inj heq
    exact absurd (h rfl 'o' rfl) (by decide)
  · next heq =>
    obtain ⟨rfl, rfl⟩ := List.cons.inj heq
    exact absurd (h rfl 'b' rfl) (by decide)
  · rfl

/-- A number to another radix with its first two characters. -/
theorem Scanned.Rereads.marked {s : Scanned} {reader : List Char → Scanned} {mark : Char}
    {cs : List Char} (h : s.Rereads reader cs)
    (hnumber : ∀ cs, scanNumber ('0' :: mark :: cs) = reader cs) :
    s.Rereads scanNumber ('0' :: mark :: cs) := by
  obtain ⟨part, htext, hagain⟩ := h
  refine ⟨'0' :: mark :: part, by rw [htext]; rfl, fun other hother => ?_⟩
  rw [List.cons_append, List.cons_append, hnumber]
  exact hagain other hother

/-- A reader that takes the first character. -/
theorem Scanned.Rereads.tail {s : Scanned} {reader : List Char → Scanned} {c : Char}
    {cs : List Char} (h : s.Rereads reader (c :: cs)) (hlt : s.rest.length < (c :: cs).length) :
    ∃ part, cs = part ++ s.rest ∧
      ∀ other, SameStop s.rest other → reader (c :: (part ++ other)) = s.inFrontOf other := by
  obtain ⟨part, htext, hagain⟩ := h
  cases part with
  | nil =>
    rw [List.nil_append] at htext
    rw [← htext] at hlt
    exact absurd hlt (Nat.lt_irrefl _)
  | cons d part =>
    obtain ⟨rfl, htail⟩ := List.cons.inj htext
    exact ⟨part, htail, hagain⟩

/-- A decimal number takes its first digit, so that what follows it names no radix either. -/
theorem Scanned.Rereads.decimal {c : Char} {cs : List Char} (hdigit : c.isDigit = true)
    (hradix : c = '0' → NextChar (fun c => namesRadix c = false) cs)
    (h : (scanDecimal (c :: cs)).Rereads scanDecimal (c :: cs)) :
    (scanDecimal (c :: cs)).Rereads scanNumber (c :: cs) := by
  obtain ⟨part, htext, hagain⟩ := h.tail (length_scanDecimal_lt hdigit)
  refine ⟨c :: part, by rw [List.cons_append, ← htext], fun other hother => ?_⟩
  rw [← hagain other hother, List.cons_append]
  refine scanNumber_decimal fun hzero => ?_
  rw [htext] at hradix
  exact hother.nextBehind (hradix hzero) not_namesRadix_of_isAsciiBlank

/-- A number has the mark of a radix behind a leading zero, or nothing in it names a radix. -/
theorem namesRadix_cases (c : Char) (cs : List Char) :
    (c = '0' → NextChar (fun c => namesRadix c = false) cs) ∨
      c = '0' ∧ ∃ rest, cs = 'x' :: rest ∨ cs = 'o' :: rest ∨ cs = 'b' :: rest := by
  refine Classical.or_iff_not_imp_left.2 fun hradix => ?_
  rw [Classical.not_imp] at hradix
  obtain ⟨hzero, hnext⟩ := hradix
  cases cs with
  | nil => exact absurd (by simp [NextChar]) hnext
  | cons mark rest =>
    have hmark : namesRadix mark = true := by simpa [NextChar] using hnext
    simp only [namesRadix, Bool.or_eq_true, decide_eq_true_eq] at hmark
    exact ⟨hzero, rest, by simpa [or_assoc] using hmark⟩

theorem rereads_number {c : Char} {cs : List Char} (hdigit : c.isDigit = true)
    (hfaults : (scanNumber (c :: cs)).faults = []) :
    (scanNumber (c :: cs)).Rereads scanNumber (c :: cs) := by
  rcases namesRadix_cases c cs with hradix | ⟨rfl, cs, rfl | rfl | rfl⟩
  · rw [scanNumber_decimal hradix] at hfaults ⊢
    exact (rereads_decimal hfaults).decimal hdigit hradix
  · exact (rereads_radix (by decide) 'x' cs).marked fun _ => rfl
  · exact (rereads_radix (by decide) 'o' cs).marked fun _ => rfl
  · exact (rereads_radix (by decide) 'b' cs).marked fun _ => rfl

/-! ### Strings and symbols -/

/-- A string literal with a fault keeps it. -/
theorem scanString_faulty {skipping : Bool} {parts : StringParts} (h : parts.faults ≠ [])
    (cs : List Char) : (scanString skipping parts cs).faults ≠ [] := by
  fun_induction scanString skipping parts cs <;>
    simp_all [StringParts.finish, StringParts.finishOpen, StringParts.push, StringParts.faulty]

theorem scanString_char {skipping : Bool} {parts : StringParts} {c : Char} (hc : c ≠ '\\')
    (rest : List Char) : scanString skipping parts (c :: rest) =
      if skipping && isAsciiBlank c then scanString true (parts.push 1 []) rest
      else if c = '"' then (parts.push 1 []).finish rest
      else scanString false (parts.push c.utf8Size [c]) rest := by
  rw [scanString.eq_def]
  split
  · next heq => exact absurd heq (by simp)
  · next heq => exact absurd (List.cons.inj heq).1 hc
  · next heq => exact absurd (List.cons.inj heq).1 hc
  · next heq =>
    obtain ⟨rfl, rfl⟩ := List.cons.inj heq
    rfl

/-- A closed string literal ends at its quote, whatever stands behind it. -/
theorem scanString_again {skipping : Bool} {parts : StringParts} {cs : List Char}
    (h : (scanString skipping parts cs).faults = []) :
    ∃ part, cs = part ++ (scanString skipping parts cs).rest ∧
      ∀ other, scanString skipping parts (part ++ other) =
        (scanString skipping parts cs).inFrontOf other := by
  -- a backslash was dealt with in the cases before, be it the last character or not
  have hplain : ∀ {c : Char} {rest : List Char}, (c = '\\' → rest = [] → False) →
      (∀ e tail, c = '\\' → rest = e :: tail → False) → c ≠ '\\' := by
    intro c rest hlone hescape hc
    cases rest with
    | nil => exact hlone hc rfl
    | cons e tail => exact hescape e tail hc rfl
  fun_induction scanString skipping parts cs with
  | case1 skipping parts => simp [StringParts.finishOpen, StringParts.finish] at h
  | case2 skipping parts => simp [StringParts.finishOpen, StringParts.finish] at h
  | case3 skipping parts rest ih =>
    obtain ⟨part, htext, hagain⟩ := ih h
    refine ⟨'\\' :: '\n' :: part, ?_, fun other => ?_⟩
    · rw [List.cons_append, List.cons_append, ← htext]
    · rw [← hagain other]
      simp [scanString]
  | case4 skipping parts e rest hfeed c hescape ih =>
    obtain ⟨part, htext, hagain⟩ := ih h
    refine ⟨'\\' :: e :: part, ?_, fun other => ?_⟩
    · rw [List.cons_append, List.cons_append, ← htext]
    · rw [← hagain other]
      simp [scanString, hfeed, hescape]
  | case5 skipping parts e rest hfeed hescape ih =>
    exact absurd h (scanString_faulty (by simp [StringParts.faulty]) rest)
  | case6 skipping parts c rest hlone hescape hblank ih =>
    obtain ⟨part, htext, hagain⟩ := ih h
    refine ⟨c :: part, by rw [List.cons_append, ← htext], fun other => ?_⟩
    rw [← hagain other, List.cons_append, scanString_char (hplain hlone hescape), if_pos hblank]
  | case7 skipping parts rest hlone hescape hblank =>
    refine ⟨['"'], rfl, fun other => ?_⟩
    rw [List.singleton_append, scanString_char (by decide), if_neg hblank, if_pos rfl]
    rfl
  | case8 skipping parts c rest hlone hescape hblank hquote ih =>
    obtain ⟨part, htext, hagain⟩ := ih h
    refine ⟨c :: part, by rw [List.cons_append, ← htext], fun other => ?_⟩
    rw [← hagain other, List.cons_append, scanString_char (hplain hlone hescape), if_neg hblank,
      if_neg hquote]

theorem scanSymbol?_again {c : Char} {cs : List Char} {s : Scanned}
    (h : scanSymbol? c cs = some s) :
    ∃ part, cs = part ++ s.rest ∧
      ∀ other, SameStop s.rest other → scanSymbol? c (part ++ other) = some (s.inFrontOf other) := by
  by_cases hdouble : ∃ d tail symbol, cs = d :: tail ∧ doubleSymbol? c d = some symbol
  · obtain ⟨d, tail, symbol, rfl, hcd⟩ := hdouble
    rw [scanSymbol?_double hcd] at h
    cases h
    exact ⟨[d], rfl, fun other _ => scanSymbol?_double hcd⟩
  -- a single symbol is not joined with what follows, here as little as there
  have hnext : NextChar (fun d => doubleSymbol? c d = none) cs := by
    intro d hd
    by_contra hsome
    obtain ⟨symbol, hsymbol⟩ := Option.ne_none_iff_exists'.1 hsome
    obtain ⟨tail, rfl⟩ := List.head?_eq_some_iff.1 hd
    exact hdouble ⟨d, tail, symbol, rfl, hsymbol⟩
  cases hsingle : singleSymbol? c with
  | none =>
    cases cs with
    | nil => simp [scanSymbol?, hsingle] at h
    | cons d tail => simp [scanSymbol?, hsingle, hnext d rfl] at h
  | some symbol =>
    rw [scanSymbol?_single hsingle hnext] at h
    cases h
    refine ⟨[], rfl, fun other hother => scanSymbol?_single hsingle ?_⟩
    exact hother.nextChar hnext fun _ => doubleSymbol?_of_isAsciiBlank

/-- A lexeme without a fault is read again in front of every text that stops it in the same way. -/
theorem scanLexeme?_again {c : Char} {cs : List Char} {s : Scanned}
    (h : scanLexeme? c cs = some s) (hfaults : s.faults = []) :
    ∃ part, cs = part ++ s.rest ∧
      ∀ other, SameStop s.rest other → scanLexeme? c (part ++ other) = some (s.inFrontOf other) := by
  by_cases hword : startsWord c = true
  · have hcontinues : continuesWord c = true := continuesWord_of_startsWord hword
    rw [scanLexeme?, if_pos hword] at h
    cases h
    refine ⟨cs.takeWhile continuesWord, by simp [scanWord, hcontinues], fun other hother => ?_⟩
    have hagain := scanWord_append hother
    rw [List.takeWhile_cons, if_pos hcontinues, List.cons_append] at hagain
    rw [scanLexeme?, if_pos hword, hagain]
  by_cases hdigit : c.isDigit = true
  · rw [scanLexeme?, if_neg hword, if_pos hdigit] at h
    cases h
    obtain ⟨part, htext, hagain⟩ :=
      (rereads_number hdigit hfaults).tail (length_scanNumber_lt hdigit)
    refine ⟨part, htext, fun other hother => ?_⟩
    rw [scanLexeme?, if_neg hword, if_pos hdigit, hagain other hother]
  by_cases hquote : c = '"'
  · rw [scanLexeme?, if_neg hword, if_neg hdigit, if_pos hquote] at h
    cases h
    obtain ⟨part, htext, hagain⟩ := scanString_again hfaults
    refine ⟨part, htext, fun other _ => ?_⟩
    rw [scanLexeme?, if_neg hword, if_neg hdigit, if_pos hquote, hagain other]
  · rw [scanLexeme?, if_neg hword, if_neg hdigit, if_neg hquote] at h
    obtain ⟨part, htext, hagain⟩ := scanSymbol?_again h
    refine ⟨part, htext, fun other hother => ?_⟩
    rw [scanLexeme?, if_neg hword, if_neg hdigit, if_neg hquote, hagain other hother]

end EnsembleCompiler.Target
