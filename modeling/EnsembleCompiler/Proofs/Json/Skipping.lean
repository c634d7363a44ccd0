import EnsembleCompiler.Proofs.Json.Numerals
import EnsembleCompiler.Proofs.Json.Strings

/-!
# Skipping JSON values

The blanks and first characters of values, and the reader that skips a value: it passes over every
value, whatever the depth.
-/

namespace EnsembleCompiler.Json

variable {α : Type} {rest : List Char}

/-! ### What values begin with and what follows them -/

/-- The characters that values begin with. -/
def beginsValue (c : Char) : Bool :=
  c = 'n' || c = 't' || c = 'f' || c = '"' || c = '[' || c = '\x7b' || startsNumber c

/-- No value begins with a blank or with what follows values. -/
theorem endsValue_of_beginsValue {c : Char} (h : beginsValue c = true) : endsValue c = false := by
  cases hends : endsValue c with
  | false => rfl
  | true =>
    simp only [endsValue, isJsonBlank, Bool.or_eq_true, decide_eq_true_eq] at hends
    rcases hends with (((((rfl | rfl) | rfl) | rfl) | rfl) | rfl) | rfl <;>
      simp [beginsValue, startsNumber] at h

theorem isJsonBlank_of_beginsValue {c : Char} (h : beginsValue c = true) :
    isJsonBlank c = false := by
  have hends := endsValue_of_beginsValue h
  simp only [endsValue, Bool.or_eq_false_iff] at hends
  exact hends.1.1.1

theorem Numeral.exists_text_eq_cons (n : Numeral) :
    ∃ c tail, n.text = c :: tail ∧ startsNumber c = true := by
  obtain ⟨c, tail, hwhole, hc⟩ := n.whole_digits.exists_cons
  cases hnegative : n.isNegative with
  | true => exact ⟨'-', _, by rw [text, signText, hnegative]; rfl, rfl⟩
  | false =>
    exact ⟨c, _, by rw [text, signText, hnegative, hwhole]; rfl, by simp [startsNumber, hc]⟩

theorem Value.exists_text_eq_cons (v : Value) :
    ∃ c tail, v.text = c :: tail ∧ beginsValue c = true := by
  cases v with
  | null => exact ⟨'n', _, by rw [text]; rfl, rfl⟩
  | bool value =>
    cases value with
    | true => exact ⟨'t', _, by rw [text]; rfl, rfl⟩
    | false => exact ⟨'f', _, by rw [text]; rfl, rfl⟩
  | number n =>
    obtain ⟨c, tail, htext, hc⟩ := n.exists_text_eq_cons
    exact ⟨c, tail, by rw [text, htext], by simp [beginsValue, hc]⟩
  | string units => exact ⟨'"', _, by rw [text]; rfl, rfl⟩
  | list inside items => exact ⟨'[', _, text_list inside items, rfl⟩
  | object inside members => exact ⟨'\x7b', _, text_object inside members, rfl⟩

theorem Value.length_text_pos (v : Value) : 0 < v.text.length := by
  obtain ⟨c, tail, htext, -⟩ := v.exists_text_eq_cons
  simp [htext]

theorem Blanks.ends_append (b : Blanks) (h : Ends rest) : Ends (b.text ++ rest) := by
  cases hb : b.text with
  | nil => exact h
  | cons c tail => exact .cons (by simp [endsValue, b.blank c (by simp [hb])])

/-- The closing bracket or a comma follows something in brackets. -/
theorem ends_afterItem (bracket : Bracket) (texts : List (List Char)) (rest : List Char) :
    Ends (separated false texts ++ bracket.close :: rest) := by
  cases texts with
  | nil => cases bracket <;> exact .cons rfl
  | cons text texts => exact .cons rfl

namespace Reader

theorem on_peekToken_blanks (b : Blanks) (cs : List Char) :
    peekToken.on (b.text ++ cs) = peekToken.on cs := by
  rw [on_peekToken, on_peekToken, List.dropWhile_append_of_pos b.blank]

@[simp]
theorem on_peekToken_cons {c : Char} (h : isJsonBlank c = false) (cs : List Char) :
    peekToken.on (c :: cs) = some (some c, c :: cs) := by
  simp [on_peekToken, h]

theorem on_skipKey (key : Spaced (List StringUnit)) (cs : List Char) :
    skipKey.on (key.around (quotedText key.value) ++ ':' :: cs) = some ((), cs) := by
  simp [skipKey, colon, Spaced.around, quotedText, on_peekToken_blanks, isJsonBlank, on_skipString]

theorem on_shift_word (c : Char) (letters cs : List Char) :
    (do shift; word letters).on (c :: (letters ++ cs)) = some ((), cs) := by
  simp

theorem skipScalar_of_startsNumber {c : Char} (h : startsNumber c = true) :
    skipScalar c = skipNumber := by
  unfold skipScalar
  split <;> simp_all [startsNumber]

/-- A value that is no list or object is skipped at once. -/
theorem on_skipScalar {v : Value} {c : Char} {tail : List Char} (htext : v.text = c :: tail)
    (hopens : opens? c = none) (h : Ends rest) :
    (skipScalar c).on (c :: (tail ++ rest)) = some ((), rest) := by
  rw [← List.cons_append, ← htext]
  cases v with
  | null =>
    rw [Value.text] at htext ⊢
    cases htext
    exact on_shift_word _ _ _
  | bool value =>
    cases value with
    | true =>
      rw [Value.text] at htext ⊢
      cases htext
      exact on_shift_word _ _ _
    | false =>
      rw [Value.text] at htext ⊢
      cases htext
      exact on_shift_word _ _ _
  | number n =>
    rw [Value.text] at htext ⊢
    obtain ⟨d, tail', hd, hstarts⟩ := n.exists_text_eq_cons
    obtain rfl : c = d := (List.cons.inj (htext.symm.trans hd)).1
    rw [skipScalar_of_startsNumber hstarts, on_skipNumber n h]
  | string units =>
    rw [Value.text] at htext ⊢
    cases htext
    simp [skipScalar, quotedText, on_skipString]
  | list inside items =>
    rw [Value.text_list] at htext
    cases htext
    cases hopens
  | object inside members =>
    rw [Value.text_object] at htext
    cases htext
    cases hopens

theorem on_skipLoop_close (bracket : Bracket) (outer : List Bracket) (b : Blanks) :
    (loop skipTurn (.ended, bracket :: outer)).on (b.text ++ bracket.close :: rest) =
      (loop skipTurn (.ended, outer)).on rest := by
  refine on_loop_again ?_ (by simp; omega)
  have hclose : isJsonBlank bracket.close = false ∧ bracket.close ≠ ',' := by
    cases bracket <;> decide
  simp [skipTurn, skipNext, on_peekToken_blanks, on_peekToken_cons hclose.1, hclose.2]

/-- What stands in brackets is skipped with its closing bracket once its pieces are. -/
theorem on_skipLoop_rest {ι : Type} (bracket : Bracket) (outer : List Bracket)
    (pieces : List ι) (write : ι → List Char)
    (hpiece : ∀ x ∈ pieces, ∀ (b : Blanks) rest, Ends rest →
      ∃ after : Blanks, (loop skipTurn (.ended, bracket :: outer)).on
          (b.text ++ ',' :: (write x ++ rest)) =
        (loop skipTurn (.ended, bracket :: outer)).on (after.text ++ rest))
    (b : Blanks) (rest : List Char) :
    (loop skipTurn (.ended, bracket :: outer)).on
        (b.text ++ (separated false (pieces.map write) ++ bracket.close :: rest)) =
      (loop skipTurn (.ended, outer)).on rest := by
  induction pieces generalizing b with
  | nil => exact on_skipLoop_close bracket outer b
  | cons x pieces ih =>
    obtain ⟨after, hafter⟩ :=
      hpiece x (by simp) b _ (ends_afterItem bracket (pieces.map write) rest)
    simp only [List.map_cons, separated, List.cons_append, List.append_assoc]
    rw [hafter]
    exact ih (fun y hy => hpiece y (by simp [hy])) after

/-- A value that is skipped has ended. -/
def Skips (v : Value) : Prop :=
  ∀ (outer : List Bracket) (b : Blanks) (rest : List Char), Ends rest →
    (loop skipTurn (.value, outer)).on (b.text ++ (v.text ++ rest)) =
      (loop skipTurn (.ended, outer)).on rest

theorem skips_scalar {v : Value} {c : Char} {tail : List Char} (htext : v.text = c :: tail)
    (hbegins : beginsValue c = true) (hopens : opens? c = none) : Skips v := by
  intro outer b rest h
  refine on_loop_again ?_ (by simp [htext]; omega)
  have hread := on_skipScalar htext hopens h
  have hblank := isJsonBlank_of_beginsValue hbegins
  simp [skipTurn, skipStart, htext, on_peekToken_blanks, on_peekToken_cons hblank, hopens, hread]

/-- Brackets with nothing in them. -/
theorem on_skipLoop_empty {c : Char} {bracket : Bracket} (hopens : opens? c = some bracket)
    (outer : List Bracket) (b inside : Blanks) (rest : List Char) :
    (loop skipTurn (.value, outer)).on (b.text ++ c :: (inside.text ++ bracket.close :: rest)) =
      (loop skipTurn (.ended, outer)).on rest := by
  refine on_loop_again ?_ (by simp; omega)
  have hc : isJsonBlank c = false := by
    refine isJsonBlank_of_beginsValue ?_
    unfold opens? at hopens
    split at hopens <;> first | rfl | cases hopens
  have hclose : isJsonBlank bracket.close = false := by cases bracket <;> rfl
  simp [skipTurn, skipStart, on_peekToken_blanks, on_peekToken_cons hc, hopens,
    on_peekToken_cons hclose]

theorem on_skipLoop_open_list (outer : List Bracket) (b inside before : Blanks) (v : Value) :
    (loop skipTurn (.value, outer)).on
        (b.text ++ '[' :: (inside.text ++ (before.text ++ (v.text ++ rest)))) =
      (loop skipTurn (.value, .list :: outer)).on (v.text ++ rest) := by
  refine on_loop_again ?_ (by simp; omega)
  obtain ⟨c, tail, htext, hc⟩ := v.exists_text_eq_cons
  have hblank := isJsonBlank_of_beginsValue hc
  have hclose : c ≠ ']' := by rintro rfl; exact absurd hc (by decide)
  have hopen : isJsonBlank '[' = false := rfl
  simp [skipTurn, skipStart, on_peekToken_blanks, hopen, opens?, htext, hblank, Bracket.close,
    hclose]

theorem on_skipLoop_open_object (outer : List Bracket) (b inside : Blanks)
    (key : Spaced (List StringUnit)) :
    (loop skipTurn (.value, outer)).on
        (b.text ++ '\x7b' :: (inside.text ++ (key.around (quotedText key.value) ++ ':' :: rest))) =
      (loop skipTurn (.value, .object :: outer)).on rest := by
  refine on_loop_again ?_ (by simp [Spaced.around]; omega)
  have hquote : peekToken.on (key.around (quotedText key.value) ++ ':' :: rest) =
      some (some '"', '"' :: (unitsText key.value ++ '"' :: (key.after.text ++ ':' :: rest))) := by
    simp [Spaced.around, quotedText, on_peekToken_blanks, isJsonBlank]
  have hskip : skipKey.on ('"' :: (unitsText key.value ++ '"' :: (key.after.text ++ ':' :: rest))) =
      some ((), rest) := by
    simpa [Spaced.around, quotedText] using on_skipKey ⟨.none, key.value, key.after⟩ rest
  simp [skipTurn, skipStart, on_peekToken_blanks, isJsonBlank, opens?, hquote, hskip, Bracket.close]

theorem on_skipLoop_comma_list (outer : List Bracket) (b : Blanks) (cs : List Char) :
    (loop skipTurn (.ended, .list :: outer)).on (b.text ++ ',' :: cs) =
      (loop skipTurn (.value, .list :: outer)).on cs := by
  refine on_loop_again ?_ (by simp; omega)
  simp [skipTurn, skipNext, on_peekToken_blanks, isJsonBlank]

theorem on_skipLoop_comma_object (outer : List Bracket) (b : Blanks)
    (key : Spaced (List StringUnit)) (cs : List Char) :
    (loop skipTurn (.ended, .object :: outer)).on
        (b.text ++ ',' :: (key.around (quotedText key.value) ++ ':' :: cs)) =
      (loop skipTurn (.value, .object :: outer)).on cs := by
  refine on_loop_again ?_ (by simp [Spaced.around]; omega)
  simp [skipTurn, skipNext, on_peekToken_blanks, isJsonBlank, on_skipKey]

theorem skips_list (inside : Blanks) (items : List (Spaced Value))
    (h : ∀ x ∈ items, Skips x.value) : Skips (.list inside items) := by
  intro outer b rest hrest
  rw [Value.text_list]
  cases items with
  | nil =>
    have hempty := on_skipLoop_empty (show opens? '[' = some .list from rfl) outer b inside rest
    simpa [Value.itemTexts, separated, Bracket.close] using hempty
  | cons x items =>
    -- every further element is skipped from its comma on
    have hpiece : ∀ y ∈ items, ∀ (b : Blanks) rest, Ends rest → ∃ after : Blanks,
        (loop skipTurn (.ended, .list :: outer)).on
            (b.text ++ ',' :: (y.around y.value.text ++ rest)) =
          (loop skipTurn (.ended, .list :: outer)).on (after.text ++ rest) := by
      intro y hy b rest hrest
      refine ⟨y.after, ?_⟩
      rw [on_skipLoop_comma_list, Spaced.around, List.append_assoc, List.append_assoc,
        h y (by simp [hy]) _ _ _ (y.after.ends_append hrest)]
    have hends := x.after.ends_append (ends_afterItem .list
      (items.map fun y => y.around y.value.text) rest)
    have hfirst := h x (by simp) (.list :: outer) .none _ hends
    have hitems := on_skipLoop_rest .list outer items _ hpiece x.after rest
    simp only [Blanks.text_none, List.nil_append] at hfirst
    simp only [Value.itemTexts, separated, List.map_cons, Spaced.around, List.cons_append,
      List.append_assoc]
    rw [on_skipLoop_open_list]
    simp only [Spaced.around, List.nil_append, Bracket.close] at hfirst hitems ⊢
    rw [hfirst, hitems]

theorem skips_object (inside : Blanks) (members : List (Member Value))
    (h : ∀ m ∈ members, Skips m.content.value) : Skips (.object inside members) := by
  intro outer b rest hrest
  rw [Value.text_object]
  cases members with
  | nil =>
    have hempty :=
      on_skipLoop_empty (show opens? '\x7b' = some .object from rfl) outer b inside rest
    simpa [Value.memberTexts, separated, Bracket.close] using hempty
  | cons m members =>
    -- every further member is skipped from its comma on, with its key and the colon
    have hpiece : ∀ y ∈ members, ∀ (b : Blanks) rest, Ends rest → ∃ after : Blanks,
        (loop skipTurn (.ended, .object :: outer)).on
            (b.text ++ ',' :: (y.around y.content.value.text ++ rest)) =
          (loop skipTurn (.ended, .object :: outer)).on (after.text ++ rest) := by
      intro y hy b rest hrest
      refine ⟨y.content.after, ?_⟩
      rw [Member.around, List.append_assoc, List.cons_append, on_skipLoop_comma_object,
        Spaced.around, List.append_assoc, List.append_assoc,
        h y (by simp [hy]) _ _ _ (y.content.after.ends_append hrest)]
    have hends := m.content.after.ends_append (ends_afterItem .object
      (members.map fun y => y.around y.content.value.text) rest)
    have hfirst := h m (by simp) (.object :: outer) m.content.before _ hends
    have hmembers := on_skipLoop_rest .object outer members _ hpiece m.content.after rest
    simp only [Value.memberTexts, separated, List.map_cons, List.cons_append, List.append_assoc]
    rw [Member.around, List.append_assoc, List.cons_append, on_skipLoop_open_object]
    simp only [Spaced.around, List.nil_append, List.append_assoc, Bracket.close]
      at hfirst hmembers ⊢
    rw [hfirst, hmembers]

theorem skips (v : Value) : Skips v := by
  induction v using Value.induct with
  | null => exact skips_scalar (by rw [Value.text]; rfl) rfl rfl
  | bool value =>
    cases value <;> exact skips_scalar (by rw [Value.text]; rfl) rfl rfl
  | number n =>
    obtain ⟨c, tail, htext, hc⟩ := n.exists_text_eq_cons
    have hopens : opens? c = none := by
      unfold opens?
      split <;> first | rfl | simp [startsNumber] at hc
    exact skips_scalar (by rw [Value.text, htext]) (by simp [beginsValue, hc]) hopens
  | string units => exact skips_scalar (by rw [Value.text]; rfl) rfl rfl
  | list inside items ih => exact skips_list inside items ih
  | object inside members ih => exact skips_object inside members ih

/-- Every value can be skipped. -/
theorem on_skipValue (v : Value) (b : Blanks) (h : Ends rest) :
    skipValue.on (b.text ++ (v.text ++ rest)) = some ((), rest) :=
  (skips v [] b rest h).trans (on_loop_leave rfl)

end Reader

end EnsembleCompiler.Json
