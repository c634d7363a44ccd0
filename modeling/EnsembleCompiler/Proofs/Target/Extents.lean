import EnsembleCompiler.Proofs.Target.Lexing
import Mathlib.Data.List.TakeWhile

/-!
# How far lexemes reach

Every reader of the scanner passes over a part of the text in front of it, and counts its bytes. So
the offset of the scanner stays on the boundaries of characters, with one exception: a backslash
that begins no escape is taken for two bytes, whatever follows it, and at the end of the text
nothing does.
-/

namespace EnsembleCompiler

/-- An offset of a text at which one of its characters begins, or its end. -/
def Boundary (cs : List Char) (offset : Nat) : Prop :=
  ∃ before after, cs = before ++ after ∧ offset = byteLength before

theorem boundary_zero (cs : List Char) : Boundary cs 0 := ⟨[], cs, rfl, rfl⟩

theorem boundary_byteLength (cs : List Char) : Boundary cs (byteLength cs) :=
  ⟨cs, [], by simp, rfl⟩

theorem Boundary.le {cs : List Char} {offset : Nat} (h : Boundary cs offset) :
    offset ≤ byteLength cs := by
  obtain ⟨before, after, rfl, rfl⟩ := h
  simp

theorem Boundary.after {cs : List Char} {offset : Nat} (h : Boundary cs offset)
    (before : List Char) : Boundary (before ++ cs) (offset + byteLength before) := by
  obtain ⟨first, rest, rfl, rfl⟩ := h
  exact ⟨before ++ first, rest, by simp, by simp [Nat.add_comm]⟩

namespace Span

variable {s : Span} {cs : List Char}

/-- A span of whole characters of a text. -/
structure Inside (s : Span) (cs : List Char) : Prop where
  le : s.start ≤ s.stop
  start : Boundary cs s.start
  stop : Boundary cs s.stop

/-- A span that ends where no character does: after the first byte of a longer character that
follows a backslash, or one byte past the end of a text that ends with a backslash. -/
inductive Overruns (s : Span) (cs : List Char) : Prop where
  | cuts (before : List Char) (c : Char) (after : List Char)
      (text : cs = before ++ '\\' :: c :: after) (long : 1 < c.utf8Size)
      (start : s.start = byteLength before) (stop : s.stop = byteLength before + 2)
  | passes (before : List Char) (text : cs = before ++ ['\\']) (start : Boundary cs s.start)
      (stop : s.stop = byteLength cs + 1)

theorem Inside.shift (h : s.Inside cs) (before : List Char) :
    (s.shift (byteLength before)).Inside (before ++ cs) :=
  ⟨Nat.add_le_add_right h.le _, h.start.after before, h.stop.after before⟩

theorem Overruns.shift (h : s.Overruns cs) (before : List Char) :
    (s.shift (byteLength before)).Overruns (before ++ cs) := by
  cases h with
  | cuts first c after text long start stop =>
    refine .cuts (before ++ first) c after (by simp [text]) long ?_ ?_
    · simp [Span.shift, start, Nat.add_comm]
    · simp only [Span.shift, stop, byteLength_append]
      omega
  | passes first text start stop =>
    refine .passes (before ++ first) (by simp [text]) (start.after before) ?_
    simp only [Span.shift, stop, byteLength_append]
    omega

end Span

namespace Target

/-- A fault at whole characters of a text, or at a backslash that begins no escape. -/
def LocatedFault.LiesIn (f : LocatedFault) (cs : List Char) : Prop :=
  f.span.Inside cs ∨ f.span.Overruns cs

theorem LocatedFault.LiesIn.shift {f : LocatedFault} {cs : List Char} (h : f.LiesIn cs)
    (before : List Char) : (f.shift (byteLength before)).LiesIn (before ++ cs) :=
  h.imp (·.shift before) (·.shift before)

/-- What a lexeme read from the front of a text says of itself: it takes the bytes of what it passes
over, or with a fault one more than there are, and its faults lie in the text. -/
structure Scanned.Faithful (s : Scanned) (cs : List Char) : Prop where
  takes : ∃ read, cs = read ++ s.rest ∧
    (s.width = byteLength read ∨ s.faults ≠ [] ∧ s.rest = [])
  faults : ∀ f ∈ s.faults, f.LiesIn cs

/-! ### Characters of one byte -/

theorem utf8Size_eq_one {c : Char} (h : c.toNat ≤ 127) : c.utf8Size = 1 :=
  Char.utf8Size_eq_one_iff.2 (by simpa [UInt32.le_iff_toNat_le] using h)

theorem byteLength_eq_length {cs : List Char} (h : ∀ c ∈ cs, c.utf8Size = 1) :
    byteLength cs = cs.length := by
  induction cs with
  | nil => rfl
  | cons c cs ih =>
    rw [byteLength_cons, h c (by simp), ih fun d hd => h d (by simp [hd]), List.length_cons]
    omega

theorem utf8Size_of_isAlphanum {c : Char} (h : c.isAlphanum = true) : c.utf8Size = 1 := by
  refine utf8Size_eq_one ?_
  rw [Char.isAlphanum, Bool.or_eq_true, isAlpha_iff, Char.isDigit_iff_toNat] at h
  rcases h with (⟨-, h⟩ | ⟨-, h⟩) | ⟨-, h⟩ <;> exact Nat.le_trans h (by decide)

theorem utf8Size_of_continuesWord {c : Char} (h : continuesWord c = true) : c.utf8Size = 1 := by
  simp only [continuesWord, Bool.or_eq_true, decide_eq_true_eq] at h
  rcases h with h | rfl
  · exact utf8Size_of_isAlphanum h
  · rfl

theorem utf8Size_of_continuesDigits {c : Char} (h : continuesDigits c = true) :
    c.utf8Size = 1 := by
  simp only [continuesDigits, Bool.or_eq_true, decide_eq_true_eq] at h
  rcases h with h | rfl
  · exact utf8Size_of_continuesWord (continuesWord_of_isDigit h)
  · rfl

theorem utf8Size_of_continuesRadix {radix : Nat} (hradix : radix ≤ 36) {c : Char}
    (h : continuesRadix radix c = true) : c.utf8Size = 1 := by
  simp only [continuesRadix, Bool.or_eq_true, decide_eq_true_eq] at h
  rcases h with h | rfl
  · refine utf8Size_of_isAlphanum ?_
    by_contra hother
    have hdigit : digitValue c = 36 := by
      simp only [Char.isAlphanum, Bool.or_eq_true, isAlpha_iff, not_or] at hother
      unfold digitValue
      rw [if_neg hother.2, if_neg, if_neg]
      · simpa using hother.1.1
      · simpa using hother.1.2
    omega
  · rfl

/-! ### Words and symbols -/

theorem faithful_word (cs : List Char) : (scanWord cs).Faithful cs := by
  refine ⟨⟨_, List.takeWhile_append_dropWhile.symm, .inl ?_⟩, by simp [scanWord]⟩
  have hall : ∀ d ∈ cs.takeWhile continuesWord, d.utf8Size = 1 := fun d hd =>
    utf8Size_of_continuesWord (List.mem_takeWhile_imp hd)
  exact (byteLength_eq_length hall).symm

theorem utf8Size_of_singleSymbol? {c : Char} {s : Symbol} (h : singleSymbol? c = some s) :
    c.utf8Size = 1 := by
  unfold singleSymbol? at h
  split at h <;> first | rfl | cases h

theorem utf8Size_of_doubleSymbol? {c d : Char} {s : Symbol} (h : doubleSymbol? c d = some s) :
    c.utf8Size = 1 ∧ d.utf8Size = 1 := by
  unfold doubleSymbol? at h
  split at h <;> first | exact ⟨rfl, rfl⟩ | cases h

theorem faithful_symbol {c : Char} {rest : List Char} {s : Scanned}
    (h : scanSymbol? c rest = some s) : s.Faithful (c :: rest) := by
  have hsingle : ∀ {symbol : Symbol} {tail : List Char}, singleSymbol? c = some symbol →
      (⟨.symbol symbol, 1, tail, []⟩ : Scanned).Faithful (c :: tail) := fun hc =>
    ⟨⟨[c], rfl, .inl (by simp [utf8Size_of_singleSymbol? hc])⟩, by simp⟩
  unfold scanSymbol? at h
  split at h
  · next d tail =>
    split at h
    · next symbol hdouble =>
      cases h
      obtain ⟨hc, hd⟩ := utf8Size_of_doubleSymbol? hdouble
      exact ⟨⟨[c, d], rfl, .inl (by simp [hc, hd])⟩, by simp⟩
    · obtain ⟨symbol, hc, rfl⟩ := Option.map_eq_some_iff.1 h
      exact hsingle hc
  · obtain ⟨symbol, hc, rfl⟩ := Option.map_eq_some_iff.1 h
    exact hsingle hc

/-! ### Numbers -/

/-- A part that is split off the front of a text, of characters of one byte. -/
structure SplitsOff (part rest cs : List Char) : Prop where
  text : cs = part ++ rest
  ascii : ∀ c ∈ part, c.utf8Size = 1

theorem splitsOff_nil (cs : List Char) : SplitsOff [] cs cs := ⟨rfl, by simp⟩

theorem splitsOff_while (p : Char → Bool) (hp : ∀ c, p c = true → c.utf8Size = 1)
    (cs : List Char) : SplitsOff (cs.takeWhile p) (cs.dropWhile p) cs :=
  ⟨List.takeWhile_append_dropWhile.symm, fun c hc => hp c (List.mem_takeWhile_imp hc)⟩

theorem SplitsOff.cons {c : Char} {part rest cs : List Char} (h : SplitsOff part rest cs)
    (hc : c.utf8Size = 1) : SplitsOff (c :: part) rest (c :: cs) :=
  ⟨by rw [h.text, List.cons_append], fun d hd => by
    rcases List.mem_cons.1 hd with rfl | hd
    · exact hc
    · exact h.ascii d hd⟩

theorem SplitsOff.append {first second middle rest cs : List Char}
    (h : SplitsOff first middle cs) (k : SplitsOff second rest middle) :
    SplitsOff (first ++ second) rest cs :=
  ⟨by rw [h.text, k.text, List.append_assoc], fun c hc =>
    (List.mem_append.1 hc).elim (h.ascii c) (k.ascii c)⟩

theorem splitsOff_fraction (cs : List Char) :
    SplitsOff (splitFraction cs).1 (splitFraction cs).2 cs := by
  unfold splitFraction
  split
  · exact (splitsOff_nil []).cons rfl
  · next c rest =>
    split
    · exact (splitsOff_while continuesDigits (fun _ => utf8Size_of_continuesDigits) _).cons rfl
    · split
      · exact splitsOff_nil _
      · exact (splitsOff_nil _).cons rfl
  · exact splitsOff_nil _

theorem splitsOff_sign (cs : List Char) : SplitsOff (splitSign cs).1 (splitSign cs).2 cs := by
  unfold splitSign
  split
  · exact (splitsOff_nil _).cons rfl
  · exact (splitsOff_nil _).cons rfl
  · exact splitsOff_nil _

theorem splitsOff_exponentDigits (cs : List Char) :
    SplitsOff (splitExponentDigits cs).1 (splitExponentDigits cs).2 cs := by
  unfold splitExponentDigits
  split
  · split
    · exact splitsOff_while continuesDigits (fun _ => utf8Size_of_continuesDigits) _
    · exact splitsOff_nil _
  · exact splitsOff_nil _

theorem splitsOff_exponent (cs : List Char) :
    SplitsOff (splitExponent cs).1 (splitExponent cs).2 cs := by
  unfold splitExponent
  split
  · next e rest =>
    split
    · next he =>
      have hsize : e.utf8Size = 1 := by
        simp only [Bool.or_eq_true, decide_eq_true_eq] at he
        rcases he with rfl | rfl <;> rfl
      dsimp only
      split
      · exact splitsOff_nil _
      · exact ((splitsOff_sign rest).append (splitsOff_exponentDigits _)).cons hsize
    · exact splitsOff_nil _
  · exact splitsOff_nil _

theorem splitsOff_suffix (cs : List Char) :
    SplitsOff ((splitSuffix cs).1.getD "").toList (splitSuffix cs).2 cs := by
  unfold splitSuffix
  split
  · split
    · simpa using splitsOff_while continuesWord (fun _ => utf8Size_of_continuesWord) _
    · exact splitsOff_nil _
  · exact splitsOff_nil _

/-- A number whose faults are about all of it. -/
theorem SplitsOff.faithful {part rest cs : List Char} (h : SplitsOff part rest cs)
    {lexeme : Lexeme} {width : Nat} (hwidth : width = part.length) (faults : List LexicalFault) :
    (⟨lexeme, width, rest, faults.map (⟨·, ⟨0, width⟩⟩)⟩ : Scanned).Faithful cs := by
  have hbytes : width = byteLength part := by rw [hwidth, byteLength_eq_length h.ascii]
  refine ⟨⟨part, h.text, .inl hbytes⟩, fun f hf => .inl ?_⟩
  obtain ⟨fault, -, rfl⟩ := List.mem_map.1 hf
  exact ⟨Nat.zero_le _, boundary_zero cs, ⟨part, rest, h.text, hbytes⟩⟩

theorem faithful_decimal (cs : List Char) : (scanDecimal cs).Faithful cs := by
  have hwhole := splitsOff_while continuesDigits (fun _ => utf8Size_of_continuesDigits) cs
  have h := ((hwhole.append (splitsOff_fraction _)).append (splitsOff_exponent _)).append
    (splitsOff_suffix _)
  exact h.faithful (by simp [Nat.add_assoc, String.length_toList]) _

theorem faithful_radix {radix : Nat} (hradix : radix ≤ 36) {mark : Char}
    (hmark : mark.utf8Size = 1) (cs : List Char) :
    (scanRadix radix mark cs).Faithful ('0' :: mark :: cs) := by
  have hdigits := splitsOff_while (continuesRadix radix)
    (fun _ => utf8Size_of_continuesRadix hradix) cs
  have h := ((hdigits.append (splitsOff_suffix _)).cons hmark).cons (show '0'.utf8Size = 1 from rfl)
  refine h.faithful ?_ _
  simp only [List.length_cons, List.length_append, String.length_toList]
  omega

theorem faithful_number (cs : List Char) : (scanNumber cs).Faithful cs := by
  unfold scanNumber
  split
  · exact faithful_radix (by decide) rfl _
  · exact faithful_radix (by decide) rfl _
  · exact faithful_radix (by decide) rfl _
  · exact faithful_decimal cs

/-! ### Strings -/

/-- The parts of a string literal after some of its text. -/
structure StringParts.Covers (parts : StringParts) (read text : List Char) : Prop where
  width : parts.width = byteLength read
  faults : ∀ f ∈ parts.faults, f.LiesIn text

variable {parts : StringParts} {read rest text : List Char}

theorem StringParts.Covers.push (h : parts.Covers read text) (more value : List Char) {bytes : Nat}
    (hbytes : bytes = byteLength more) :
    (parts.push bytes value).Covers (read ++ more) text :=
  ⟨by simp [StringParts.push, h.width, hbytes], h.faults⟩

/-- The fault of a backslash that begins no escape. -/
theorem StringParts.Covers.faultyEscape (h : parts.Covers read text) {e : Char}
    (htext : text = read ++ '\\' :: e :: rest) (shown : Char) :
    LocatedFault.LiesIn ⟨.unknownEscape shown, ⟨parts.width, parts.width + 2⟩⟩ text := by
  rw [h.width]
  by_cases he : e.utf8Size = 1
  · refine .inl ⟨Nat.le_add_right _ _, ⟨read, _, htext, rfl⟩, ⟨read ++ ['\\', e], rest, ?_, ?_⟩⟩
    · simp [htext]
    · simp [he, show '\\'.utf8Size = 1 from rfl]
  · have := e.utf8Size_pos
    exact .inr (.cuts read e rest htext (by omega) rfl rfl)

theorem StringParts.Covers.faulty (h : parts.Covers read text) {e : Char}
    (htext : text = read ++ '\\' :: e :: rest) (shown : Char) (value : List Char) :
    (parts.faulty shown (1 + e.utf8Size) value).Covers (read ++ ['\\', e]) text := by
  refine ⟨by simp [StringParts.faulty, h.width, show '\\'.utf8Size = 1 from rfl], fun f hf => ?_⟩
  rcases List.mem_cons.1 hf with rfl | hf
  · exact h.faultyEscape htext shown
  · exact h.faults f hf

theorem utf8Size_of_escaped? {c d : Char} (h : escaped? c = some d) : c.utf8Size = 1 := by
  unfold escaped? at h
  split at h <;> first | rfl | cases h

theorem StringParts.Covers.finish (h : parts.Covers read text) (htext : text = read ++ rest) :
    (parts.finish rest).Faithful text :=
  ⟨⟨read, htext, .inl h.width⟩, by simpa [StringParts.finish] using h.faults⟩

theorem StringParts.Covers.finishOpen (h : parts.Covers text text) :
    parts.finishOpen.Faithful text := by
  refine StringParts.Covers.finish ⟨h.width, fun f hf => ?_⟩ (List.append_nil text).symm
  rcases List.mem_cons.1 hf with rfl | hf
  · refine .inl ⟨Nat.zero_le _, boundary_zero text, ?_⟩
    rw [h.width]
    exact boundary_byteLength text
  · exact h.faults f hf

/-- A string that ends with a backslash is taken to be one byte longer than the text. -/
theorem StringParts.Covers.finishPast (h : parts.Covers read text) (htext : text = read ++ ['\\'])
    (shown : Char) : (parts.faulty shown 2 []).finishOpen.Faithful text := by
  have hstop : parts.width + 2 = byteLength text + 1 := by
    simp [h.width, htext, show '\\'.utf8Size = 1 from rfl]
  refine ⟨⟨text, by simp [StringParts.finishOpen, StringParts.finish], .inr ⟨?_, rfl⟩⟩, ?_⟩
  · simp [StringParts.finishOpen, StringParts.finish]
  · intro f hf
    simp only [StringParts.finishOpen, StringParts.finish, StringParts.faulty, List.mem_reverse,
      List.mem_cons] at hf
    rcases hf with rfl | rfl | hf
    · exact .inr (.passes read htext (boundary_zero text) hstop)
    · refine .inr (.passes read htext ⟨read, _, htext, h.width⟩ hstop)
    · exact h.faults f hf

theorem faithful_string {skipping : Bool} {cs : List Char} (h : parts.Covers read text)
    (htext : text = read ++ cs) : (scanString skipping parts cs).Faithful text := by
  -- along the scanner; what has been read so far is covered by the parts
  fun_induction scanString skipping parts cs generalizing read with
  | case1 skipping parts =>
    rw [List.append_nil] at htext
    subst htext
    exact h.finishOpen
  | case2 skipping parts => exact h.finishPast htext ' '
  | case3 skipping parts rest ih =>
    exact ih (h.push ['\\', '\n'] [] rfl) (by simp [htext])
  | case4 skipping parts e rest hne c hc ih =>
    refine ih (h.push ['\\', e] [c] ?_) (by simp [htext])
    simp [utf8Size_of_escaped? hc, show '\\'.utf8Size = 1 from rfl]
  | case5 skipping parts e rest hne hnone ih =>
    exact ih (h.faulty htext (escapeShown e) (escapeRemainder e)) (by simp [htext])
  | case6 skipping parts c rest hlone hescape hblank ih =>
    rw [Bool.and_eq_true] at hblank
    exact ih (h.push [c] [] (by simp [utf8Size_of_isAsciiBlank hblank.2])) (by simp [htext])
  | case7 skipping parts rest hlone hescape hblank =>
    exact (h.push ['"'] [] rfl).finish (by simp [htext])
  | case8 skipping parts c rest hlone hescape hblank hquote ih =>
    exact ih (h.push [c] [c] (by simp)) (by simp [htext])

/-- Every lexeme says of itself what it takes. -/
theorem faithful_lexeme {c : Char} {cs : List Char} {s : Scanned}
    (h : scanLexeme? c cs = some s) : s.Faithful (c :: cs) := by
  unfold scanLexeme? at h
  split at h
  · cases h
    exact faithful_word (c :: cs)
  · split at h
    · cases h
      exact faithful_number (c :: cs)
    · split at h
      · next hquote =>
        cases h
        subst hquote
        have hopened : (⟨1, [], []⟩ : StringParts).Covers ['"'] ('"' :: cs) := ⟨rfl, by simp⟩
        exact faithful_string hopened rfl
      · exact faithful_symbol h

end Target

end EnsembleCompiler
