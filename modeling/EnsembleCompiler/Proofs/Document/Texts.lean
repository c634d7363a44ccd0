import EnsembleCompiler.Binary.Decimal
import EnsembleCompiler.Proofs.Text.Runs
import EnsembleCompiler.Text.Blank
import Mathlib.Data.List.TakeWhile

/-!
# Texts of numbers

Trimming takes away what stands around a text without blanks at its ends, and a text that names a
number has no blanks and no brackets in it.
-/

namespace EnsembleCompiler

namespace Text

theorem trim_blanks {cs : List Char} (h : ∀ c ∈ cs, isBlank c = true) : trim cs = [] := by
  have hdrop := dropWhile_append_of_next h (show NextChar _ [] from fun c hc => absurd hc (by simp))
  rw [List.append_nil] at hdrop
  rw [trim, hdrop]
  rfl

/-- Trimming takes away the blanks around a text that neither begins nor ends with one. -/
theorem trim_padded {before core after : List Char} (hbefore : ∀ c ∈ before, isBlank c = true)
    (hafter : ∀ c ∈ after, isBlank c = true) (hfirst : ∀ c ∈ core.head?, isBlank c = false)
    (hlast : ∀ c ∈ core.getLast?, isBlank c = false) : trim (before ++ (core ++ after)) = core := by
  by_cases hcore : core = []
  · subst hcore
    rw [List.nil_append, trim_blanks]
    intro c hc
    exact (List.mem_append.1 hc).elim (hbefore c) (hafter c)
  · have hnext : NextChar (fun c => isBlank c = false) (core ++ after) :=
      NextChar.append hfirst hcore
    have hreverse : NextChar (fun c => isBlank c = false) core.reverse := by
      simpa [NextChar] using hlast
    have hafter' : ∀ c ∈ after.reverse, isBlank c = true := fun c hc =>
      hafter c (List.mem_reverse.1 hc)
    rw [trim, dropWhile_append_of_next hbefore hnext, trimEnd, List.reverse_append,
      dropWhile_append_of_next hafter' hreverse, List.reverse_reverse]

end Text

/-- A character of numbers as they are written: it is no blank and no bracket. -/
def Text.IsPlain (c : Char) : Prop := Text.isBlank c = false ∧ c ≠ '[' ∧ c ≠ ']'

theorem Text.isBlank_of_visible {c : Char} (h : 0x21 ≤ c.toNat ∧ c.toNat ≤ 0x7e) :
    Text.isBlank c = false := by
  have h1 : ¬ c.toNat < 0x0009 := by omega
  have h2 : ¬ c.toNat ≤ 0x000D := by omega
  have h3 : ¬ c.toNat < 0x0020 := by omega
  have h4 : ¬ c.toNat ≤ 0x0020 := by omega
  have h5 : c.toNat < 0x0085 := by omega
  simp [Text.isBlank, Text.blankRanges, Text.Ranges.contains, h1, h2, h3, h4, h5]

theorem Text.isPlain_of_isUpper {c : Char} (h : c.isUpper = true) : Text.IsPlain c := by
  have hrange : 65 ≤ c.toNat ∧ c.toNat ≤ 90 := isUpper_iff.1 h
  refine ⟨Text.isBlank_of_visible (by omega), ?_, ?_⟩ <;> rintro rfl <;> exact absurd h (by decide)

theorem Text.isPlain_of_isLower {c : Char} (h : c.isLower = true) : Text.IsPlain c := by
  have hrange : 97 ≤ c.toNat ∧ c.toNat ≤ 122 := isLower_iff.1 h
  refine ⟨Text.isBlank_of_visible (by omega), ?_, ?_⟩ <;> rintro rfl <;> exact absurd h (by decide)

theorem Text.isPlain_of_isDigit {c : Char} (h : c.isDigit = true) : Text.IsPlain c := by
  have hrange : 48 ≤ c.toNat ∧ c.toNat ≤ 57 := by
    simpa [Char.isDigit, UInt32.le_iff_toNat_le] using h
  refine ⟨Text.isBlank_of_visible (by omega), ?_, ?_⟩ <;> rintro rfl <;> exact absurd h (by decide)

theorem Text.isPlain_of_toLower {c : Char} (h : c.toLower.isLower = true) : Text.IsPlain c := by
  by_cases hupper : c.isUpper = true
  · exact Text.isPlain_of_isUpper hupper
  · have hsame : c.toLower = c := by
      unfold Char.toLower
      exact dif_neg fun hle => hupper (isUpper_iff.2 hle)
    exact Text.isPlain_of_isLower (hsame ▸ h)

namespace Decimal

theorem isPlain_of_magnitude? {cs : List Char} {e : Int}
    (h : readExponent?.magnitude? cs = some e) : ∀ c ∈ cs, Text.IsPlain c := by
  unfold readExponent?.magnitude? at h
  split at h
  · next hdigits =>
    simp only [Bool.and_eq_true, List.all_eq_true] at hdigits
    exact fun c hc => Text.isPlain_of_isDigit (hdigits.2 c hc)
  · cases h

/-- An exponent has a sign or not, and digits. -/
theorem isPlain_of_readExponent? {cs : List Char} {e : Int}
    (h : readExponent? cs = some e) : ∀ c ∈ cs, Text.IsPlain c := by
  have hminus : Text.IsPlain '-' := ⟨by decide, by decide, by decide⟩
  have hplus : Text.IsPlain '+' := ⟨by decide, by decide, by decide⟩
  unfold readExponent? at h
  split at h
  · obtain ⟨e', hmagnitude, -⟩ := Option.map_eq_some_iff.1 h
    exact List.forall_mem_cons.2 ⟨hminus, isPlain_of_magnitude? hmagnitude⟩
  · exact List.forall_mem_cons.2 ⟨hplus, isPlain_of_magnitude? h⟩
  · exact isPlain_of_magnitude? h

theorem isPlain_of_mem_takeWhile {cs : List Char} {c : Char}
    (h : c ∈ cs.takeWhile Char.isDigit) : Text.IsPlain c :=
  Text.isPlain_of_isDigit (List.mem_takeWhile_imp h)

/-- What follows the digits of a numeral: nothing, or an exponent. -/
theorem isPlain_of_afterFraction {cs : List Char} {digits : Nat} {scale : Int} {d : Decimal}
    (h : (match cs with
      | [] => some (⟨digits, scale⟩ : Decimal)
      | e :: rest =>
        if e = 'e' || e = 'E' then (readExponent? rest).map fun x => ⟨digits, scale + x⟩
        else none) = some d) : ∀ c ∈ cs, Text.IsPlain c := by
  cases cs with
  | nil => simp
  | cons e rest =>
    simp only at h
    split at h
    · next hmark =>
      obtain ⟨x, hexponent, -⟩ := Option.map_eq_some_iff.1 h
      have he : Text.IsPlain e := by
        simp only [Bool.or_eq_true, decide_eq_true_eq] at hmark
        rcases hmark with rfl | rfl <;> exact ⟨by decide, by decide, by decide⟩
      exact List.forall_mem_cons.2 ⟨he, isPlain_of_readExponent? hexponent⟩
    · cases h

theorem isPlain_of_ofChars? {cs : List Char} {d : Decimal}
    (h : ofChars? cs = some d) : ∀ c ∈ cs, Text.IsPlain c := by
  have hpoint : Text.IsPlain '.' := ⟨by decide, by decide, by decide⟩
  intro c hc
  rw [← List.takeWhile_append_dropWhile (p := Char.isDigit) (l := cs)] at hc
  rcases List.mem_append.1 hc with hc | hc
  · exact isPlain_of_mem_takeWhile hc
  simp only [ofChars?] at h
  cases hafter : cs.dropWhile Char.isDigit with
  | nil => simp [hafter] at hc
  | cons p rest =>
    rw [hafter] at hc
    by_cases hp : p = '.'
    · subst hp
      simp only [hafter] at h
      split at h
      · cases h
      · have hrest := isPlain_of_afterFraction h
        rcases List.mem_cons.1 hc with rfl | hc
        · exact hpoint
        rw [← List.takeWhile_append_dropWhile (p := Char.isDigit) (l := rest)] at hc
        exact (List.mem_append.1 hc).elim isPlain_of_mem_takeWhile (hrest c)
    · simp only [hafter] at h
      split at h
      · next heq => exact absurd (List.cons.inj heq).1 hp
      · split at h
        · cases h
        · have hrest : ∀ c ∈ p :: rest, Text.IsPlain c := isPlain_of_afterFraction h
          exact hrest c hc

end Decimal

namespace Binary

variable {f : FloatFormat}

/-- The letters of a name in any case. -/
theorem isPlain_of_name {cs : List Char} {name : String}
    (h : String.ofList (cs.map Char.toLower) = name) (hname : name.toList.all Char.isLower = true) :
    ∀ c ∈ cs, Text.IsPlain c := by
  intro c hc
  have hlower := List.all_eq_true.1 hname c.toLower (by
    rw [← h, String.toList_ofList]
    exact List.mem_map_of_mem hc)
  exact Text.isPlain_of_toLower hlower

theorem isPlain_of_ofUnsignedText? {negative : Bool} {cs : List Char} {x : Binary f}
    (h : ofUnsignedText? f negative cs = some x) : ∀ c ∈ cs, Text.IsPlain c := by
  simp only [ofUnsignedText?] at h
  split at h
  · next hname =>
    simp only [Bool.or_eq_true, decide_eq_true_eq] at hname
    rcases hname with hname | hname <;> exact isPlain_of_name hname (by decide)
  · split at h
    · next hname => exact isPlain_of_name hname (by decide)
    · obtain ⟨d, hdecimal, -⟩ := Option.map_eq_some_iff.1 h
      exact Decimal.isPlain_of_ofChars? hdecimal

/-- A text that names a number has no blanks and no brackets in it. -/
theorem isPlain_of_ofChars? {cs : List Char} {x : Binary f} (h : ofChars? f cs = some x) :
    ∀ c ∈ cs, Text.IsPlain c := by
  have hminus : Text.IsPlain '-' := ⟨by decide, by decide, by decide⟩
  have hplus : Text.IsPlain '+' := ⟨by decide, by decide, by decide⟩
  unfold ofChars? at h
  split at h
  · exact List.forall_mem_cons.2 ⟨hminus, isPlain_of_ofUnsignedText? h⟩
  · exact List.forall_mem_cons.2 ⟨hplus, isPlain_of_ofUnsignedText? h⟩
  · exact isPlain_of_ofUnsignedText? h

end Binary

end EnsembleCompiler
