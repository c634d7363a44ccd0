import EnsembleCompiler.Proofs.Json.Rules
import EnsembleCompiler.Proofs.Json.Syntax
import Mathlib.Data.List.Forall2

/-!
# Reading JSON strings

A string that is read is taken up to its closing quote, and stands for the characters of its units.
Without a value for them reading fails, but every string can be skipped.
-/

namespace EnsembleCompiler.Json

variable {α : Type} {rest : List Char}

namespace Reader

theorem mapM_eq_some_iff {β : Type} {f : α → Option β} {xs : List α} {ys : List β} :
    xs.mapM f = some ys ↔ List.Forall₂ (fun x y => f x = some y) xs ys := by
  induction xs generalizing ys with
  | nil => simp [eq_comm]
  | cons x xs ih =>
    cases hx : f x with
    | none => cases ys <;> simp [hx]
    | some y =>
      cases hxs : xs.mapM f with
      | none => cases ys <;> simp [hx, hxs, ← ih]
      | some zs => cases ys <;> simp [hx, hxs, ← ih]

theorem length_of_hexValue? {ds : List Char} {n : Nat} (h : hexValue? ds = some n) :
    ds.length = 4 := by
  unfold hexValue? at h
  split at h
  · next hmap => exact (mapM_eq_some_iff.1 hmap).length_eq
  · cases h

theorem on_hexDigits {ds : List Char} {n : Nat} (h : hexValue? ds = some n) :
    hexDigits.on (ds ++ rest) = some (n, rest) := by
  have hlength := length_of_hexValue? h
  have htake : (ds ++ rest).take 4 = ds := by rw [← hlength, List.take_left]
  have hdrop : (ds ++ rest).drop 4 = rest := by rw [← hlength, List.drop_left]
  simp [on, hexDigits, htake, hdrop, h, outcome]

theorem on_escapeLetter {letter c : Char} (h : escaped? letter = some c) :
    escapeLetter.on (letter :: rest) = some (some c, rest) := by
  have hu : letter ≠ 'u' := by rintro rfl; simp [escaped?] at h
  simp [escapeLetter, h]

@[simp]
theorem on_escapeLetter_unicode : escapeLetter.on ('u' :: rest) = some (none, rest) := by
  simp [escapeLetter]

/-- A hexadecimal escape that is no surrogate is a character by itself. -/
theorem on_unicodeEscape {ds : List Char} {high : Nat} (h : hexValue? ds = some high)
    (hlow : ¬ (0xDC00 ≤ high ∧ high ≤ 0xDFFF)) (hhigh : ¬ (0xD800 ≤ high ∧ high ≤ 0xDBFF)) :
    unicodeEscape.on (ds ++ rest) = some (Char.ofNat high, rest) := by
  simp [unicodeEscape, on_hexDigits h, hlow, hhigh]

theorem on_unicodeEscape_low {ds : List Char} {high : Nat} (h : hexValue? ds = some high)
    (hlow : 0xDC00 ≤ high ∧ high ≤ 0xDFFF) : unicodeEscape.on (ds ++ rest) = none := by
  simp [unicodeEscape, on_hexDigits h, hlow]

theorem on_unicodeEscape_pair {ds es : List Char} {high low : Nat} (h : hexValue? ds = some high)
    (hhigh : 0xD800 ≤ high ∧ high ≤ 0xDBFF) (hl : hexValue? es = some low) :
    unicodeEscape.on (ds ++ '\\' :: 'u' :: (es ++ rest)) =
      if low < 0xDC00 || 0xDFFF < low then none
      else some (Char.ofNat (0x10000 + (high - 0xD800) * 0x400 + (low - 0xDC00)), rest) := by
  have hlow : ¬ (0xDC00 ≤ high ∧ high ≤ 0xDFFF) := by omega
  by_cases hout : low < 0xDC00 ∨ 0xDFFF < low <;>
    simp [unicodeEscape, on_hexDigits h, on_hexDigits hl, hlow, hhigh, pairMark, hout]

theorem on_stringTurn_plain {c : Char} (h : c ≠ '"' ∧ c ≠ '\\' ∧ 0x20 ≤ c.toNat)
    (read : List Char) : (stringTurn read).on (c :: rest) = some (.again (c :: read), rest) := by
  obtain ⟨hquote, hslash, hcontrol⟩ := h
  have hlt : ¬ c.toNat < 0x20 := by omega
  simp [stringTurn, hlt]

theorem on_stringTurn_escape {letter c : Char} (h : escaped? letter = some c)
    (read : List Char) :
    (stringTurn read).on ('\\' :: letter :: rest) = some (.again (c :: read), rest) := by
  simp [stringTurn, on_escapeLetter h]

theorem on_stringTurn_unicode (read rest : List Char) :
    (stringTurn read).on ('\\' :: 'u' :: rest) =
      (unicodeEscape.on rest).map fun r => (.again (r.1 :: read), r.2) := by
  simp only [stringTurn, on_bind, on_peek, List.head?_cons, Option.bind_some, on_shift,
    on_escapeLetter_unicode]
  cases unicodeEscape.on rest <;> rfl

theorem on_stringTurn_end (read : List Char) :
    (stringTurn read).on ('"' :: rest) = some (.leave read.reverse, rest) := by
  simp [stringTurn]

/-- A first half of a pair fails without the other half. -/
theorem on_unicodeEscape_alone {ds : List Char} {high : Nat} (h : hexValue? ds = some high)
    (hhigh : 0xD800 ≤ high ∧ high ≤ 0xDBFF) {units : List StringUnit}
    (hunits : ∀ es low hes units', units ≠ .unicode es low hes :: units') :
    unicodeEscape.on (ds ++ (unitsText units ++ '"' :: rest)) = none := by
  have hlow : ¬ (0xDC00 ≤ high ∧ high ≤ 0xDFFF) := by omega
  -- the two marks of another escape are not both there, whatever stands in their place
  have hmark : (pairMark '\\' >>= fun _ => pairMark 'u').on (unitsText units ++ '"' :: rest) =
      none := by
    cases units with
    | nil => simp [unitsText, pairMark]
    | cons unit units =>
      rw [unitsText_cons]
      cases unit with
      | plain c hc => simp [StringUnit.text, pairMark, hc.2.1]
      | escape letter c hc =>
        have hu : letter ≠ 'u' := by rintro rfl; simp [escaped?] at hc
        simp [StringUnit.text, pairMark, hu]
      | unicode es low hes => exact absurd rfl (hunits es low hes units)
  rw [on_bind] at hmark
  cases hslash : (pairMark '\\').on (unitsText units ++ '"' :: rest) with
  | none => simp [unicodeEscape, on_hexDigits h, hlow, hhigh, hslash]
  | some r =>
    have hu : (pairMark 'u').on r.2 = none := by simpa [hslash] using hmark
    simp [unicodeEscape, on_hexDigits h, hlow, hhigh, hslash, hu]

theorem on_stringLoop (units : List StringUnit) (read : List Char) :
    (loop stringTurn read).on (unitsText units ++ '"' :: rest) =
      (unitsValue? units).map fun value => (read.reverse ++ value, rest) := by
  -- the value is defined by what stands next, as a turn of the loop is: halves of a pair go
  -- together
  fun_induction unitsValue? units generalizing read with
  | case1 =>
    rw [unitsText_nil, List.nil_append, on_loop_leave (on_stringTurn_end read)]
    simp
  | case2 c h units ih =>
    rw [unitsText_cons, StringUnit.text, List.append_assoc, List.singleton_append,
      on_loop_again (on_stringTurn_plain h read) (by simp), ih]
    simp [Function.comp_def]
  | case3 letter c h units ih =>
    rw [unitsText_cons, StringUnit.text, List.append_assoc, List.cons_append,
      List.singleton_append, on_loop_again (on_stringTurn_escape h read)
        (by simp only [List.length_cons]; omega), ih]
    simp [Function.comp_def]
  | case4 ds high h units hlow =>
    rw [unitsText_unicode_append, on_loop_none]
    · rfl
    · simp only [Bool.and_eq_true, decide_eq_true_eq] at hlow
      simp [on_stringTurn_unicode, on_unicodeEscape_low h hlow]
  | case5 ds high h hlow hhigh es low he units hout =>
    rw [unitsText_unicode_append, unitsText_unicode_append, on_loop_none]
    · rfl
    · simp only [Bool.and_eq_true, decide_eq_true_eq] at hhigh
      simp [on_stringTurn_unicode, on_unicodeEscape_pair h hhigh he, hout]
  | case6 ds high h hlow hhigh es low he units hout ih =>
    simp only [Bool.and_eq_true, decide_eq_true_eq] at hhigh
    have hturn := on_stringTurn_unicode read
      (ds ++ '\\' :: 'u' :: (es ++ (unitsText units ++ '"' :: rest)))
    rw [on_unicodeEscape_pair h hhigh he, if_neg hout] at hturn
    rw [unitsText_unicode_append, unitsText_unicode_append,
      on_loop_again hturn (by simp; omega), ih]
    simp [Function.comp_def]
  | case7 ds high h units hlow hhigh hne =>
    simp only [Bool.and_eq_true, decide_eq_true_eq] at hhigh
    rw [unitsText_unicode_append, on_loop_none]
    · rfl
    · simp [on_stringTurn_unicode, on_unicodeEscape_alone h hhigh hne]
  | case8 ds high h units hlow hhigh ih =>
    have hturn := on_stringTurn_unicode read (ds ++ (unitsText units ++ '"' :: rest))
    rw [on_unicodeEscape h (by simpa using hlow) (by simpa using hhigh)] at hturn
    rw [unitsText_unicode_append, on_loop_again hturn (by simp; omega), ih]
    simp [Function.comp_def]

/-- A string stands for the characters of its units, or it cannot be read. -/
theorem on_stringBody (units : List StringUnit) :
    stringBody.on (unitsText units ++ '"' :: rest) =
      (unitsValue? units).map fun value => (value, rest) :=
  on_stringLoop units []

theorem on_skipStringTurn (unit : StringUnit) :
    (skipStringTurn ()).on (unit.text ++ rest) = some (.again (), rest) := by
  cases unit with
  | plain c h =>
    have hlt : ¬ c.toNat < 0x20 := by omega
    simp [StringUnit.text, skipStringTurn, h, hlt]
  | escape letter c h => simp [StringUnit.text, skipStringTurn, on_escapeLetter h]
  | unicode ds n h => simp [StringUnit.text, skipStringTurn, on_hexDigits h]

/-- Every string can be skipped. -/
theorem on_skipString (units : List StringUnit) :
    skipString.on (unitsText units ++ '"' :: rest) = some ((), rest) := by
  unfold skipString
  induction units with
  | nil => exact on_loop_leave (by simp [skipStringTurn])
  | cons unit units ih =>
    have hpos := unit.length_text_pos
    rw [unitsText_cons, List.append_assoc,
      on_loop_again (on_skipStringTurn unit) (by simp; omega), ih]

end Reader

end EnsembleCompiler.Json
