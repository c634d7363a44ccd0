import EnsembleCompiler.Proofs.Target.Locations
import EnsembleCompiler.Proofs.Target.Layout

/-!
# Faults of tokens

Every fault begins in the part of the text that gives rise to it. So what is found at the span of a
token are the faults of its lexeme, and no others. Trivia and strings have faults of their own.
-/

namespace EnsembleCompiler.Target

/-! ### Where faults begin -/

/-- A comment left open begins among the trivia. -/
theorem start_skipTrivia {state : TriviaState} {low offset : Nat} {cs : List Char}
    (hlow : low ≤ offset)
    (hopened : ∀ inner opened, state = .blockComment inner opened → low ≤ opened ∧ opened < offset) :
    ∀ f ∈ (skipTrivia state offset cs).faults,
      low ≤ f.span.start ∧ f.span.start < (skipTrivia state offset cs).offset := by
  fun_induction skipTrivia state offset cs with
  | case1 offset rest ih => exact ih (by omega) (by simp)
  | case2 offset rest ih =>
    refine ih (by omega) fun inner opened h => ?_
    cases h
    omega
  | case3 offset c rest hline hblock hblank ih => exact ih (by omega) (by simp)
  | case4 offset c rest hline hblock hblank => simp
  | case5 offset c rest ih =>
    refine ih (by omega) fun inner opened h => ?_
    split at h <;> cases h
  | case6 offset inner opened rest ih =>
    refine ih (by omega) fun inner' opened' h => ?_
    cases h
    have := hopened inner opened rfl
    omega
  | case7 offset opened rest ih => exact ih (by omega) (by simp)
  | case8 offset opened rest inner ih =>
    refine ih (by omega) fun inner' opened' h => ?_
    cases h
    have := hopened _ opened rfl
    omega
  | case9 offset inner opened c rest hopen hclose ih =>
    refine ih (by omega) fun inner' opened' h => ?_
    cases h
    have := hopened inner opened rfl
    omega
  | case10 offset inner opened =>
    intro f hf
    obtain rfl := List.mem_singleton.1 hf
    exact hopened inner opened rfl
  | case11 state offset hother => simp

/-- A lexeme takes at least a byte, and its faults begin in it. -/
structure Scanned.Holds (s : Scanned) : Prop where
  width_pos : 0 < s.width
  start_lt : ∀ f ∈ s.faults, f.span.start < s.width

/-- What has been read of a string literal holds the beginnings of its faults. -/
structure StringParts.Holds (parts : StringParts) : Prop where
  width_pos : 0 < parts.width
  start_lt : ∀ f ∈ parts.faults, f.span.start < parts.width

namespace StringParts.Holds

variable {parts : StringParts}

theorem push (h : parts.Holds) (bytes : Nat) (cs : List Char) : (parts.push bytes cs).Holds where
  width_pos := Nat.add_pos_left h.width_pos bytes
  start_lt := fun f hf => Nat.lt_of_lt_of_le (h.start_lt f hf) (Nat.le_add_right _ _)

theorem faulty (h : parts.Holds) (shown : Char) {bytes : Nat} (hbytes : 0 < bytes)
    (cs : List Char) : (parts.faulty shown bytes cs).Holds where
  width_pos := Nat.add_pos_left h.width_pos bytes
  start_lt := by
    intro f hf
    rcases List.mem_cons.1 hf with rfl | hf
    · exact Nat.lt_add_of_pos_right hbytes
    · exact Nat.lt_of_lt_of_le (h.start_lt f hf) (Nat.le_add_right _ _)

theorem finish (h : parts.Holds) (rest : List Char) : (parts.finish rest).Holds where
  width_pos := h.width_pos
  start_lt := fun f hf => h.start_lt f (List.mem_reverse.1 hf)

theorem finishOpen (h : parts.Holds) : parts.finishOpen.Holds where
  width_pos := h.width_pos
  start_lt := by
    intro f hf
    rcases List.mem_cons.1 (List.mem_reverse.1 hf) with rfl | hf
    · exact h.width_pos
    · exact h.start_lt f hf

end StringParts.Holds

theorem holds_scanString {skipping : Bool} {parts : StringParts} {cs : List Char}
    (h : parts.Holds) : (scanString skipping parts cs).Holds := by
  fun_induction scanString skipping parts cs with
  | case1 skipping parts => exact h.finishOpen
  | case2 skipping parts => exact (h.faulty ' ' (by omega) []).finishOpen
  | case3 skipping parts rest ih => exact ih (h.push 2 [])
  | case4 skipping parts e rest hne c hc ih => exact ih (h.push 2 [c])
  | case5 skipping parts e rest hne hnone ih => exact ih (h.faulty _ (by omega) _)
  | case6 skipping parts c rest hlone hescape hblank ih => exact ih (h.push 1 [])
  | case7 skipping parts rest hlone hescape hblank => exact (h.push 1 []).finish rest
  | case8 skipping parts c rest hlone hescape hblank hquote ih => exact ih (h.push c.utf8Size [c])

theorem width_scanNumber_pos {c : Char} (hc : c.isDigit = true) (cs : List Char) :
    0 < (scanNumber (c :: cs)).width := by
  unfold scanNumber
  split
  · simp only [scanRadix]
    omega
  · simp only [scanRadix]
    omega
  · simp only [scanRadix]
    omega
  · simp only [scanDecimal, List.takeWhile_cons, continuesDigits, hc, Bool.true_or, if_true,
      List.length_append, List.length_cons]
    omega

/-- A fault of a number is about all of it. -/
theorem start_scanNumber (cs : List Char) : ∀ f ∈ (scanNumber cs).faults, f.span.start = 0 := by
  unfold scanNumber
  intro f hf
  split at hf
  all_goals
    obtain ⟨x, -, rfl⟩ := List.mem_map.1 hf
    rfl

theorem holds_scanLexeme? {c : Char} {cs : List Char} {s : Scanned}
    (h : scanLexeme? c cs = some s) : s.Holds := by
  unfold scanLexeme? at h
  split at h
  · next hword =>
    cases h
    refine ⟨?_, by simp [scanWord]⟩
    simp [scanWord, continuesWord_of_startsWord hword]
  · split at h
    · next hdigit =>
      cases h
      have hwidth := width_scanNumber_pos hdigit cs
      exact ⟨hwidth, fun f hf => by rwa [start_scanNumber _ f hf]⟩
    · split at h
      · cases h
        exact holds_scanString ⟨by decide, by simp⟩
      · obtain ⟨sign, width, behind, hwidth, rfl⟩ := eq_of_scanSymbol? h
        exact ⟨hwidth, by simp⟩

/-! ### Faults of trivia and strings -/

theorem fault_skipTrivia {state : TriviaState} {offset : Nat} {cs : List Char} :
    ∀ f ∈ (skipTrivia state offset cs).faults, f.fault = .openComment := by
  fun_induction skipTrivia state offset cs <;> first | assumption | simp

/-- A string is at fault for its escapes, or for having no end. -/
theorem fault_scanString {P : LexicalFault → Prop} (hend : P .openString)
    (hescape : ∀ shown, P (.unknownEscape shown)) {skipping : Bool} {parts : StringParts}
    {cs : List Char} (h : ∀ f ∈ parts.faults, P f.fault) :
    ∀ f ∈ (scanString skipping parts cs).faults, P f.fault := by
  have hfaulty {parts : StringParts} (h : ∀ f ∈ parts.faults, P f.fault) (shown : Char)
      (bytes : Nat) (cs : List Char) : ∀ f ∈ (parts.faulty shown bytes cs).faults, P f.fault :=
    List.forall_mem_cons.2 ⟨hescape shown, h⟩
  have hopen {parts : StringParts} (h : ∀ f ∈ parts.faults, P f.fault) :
      ∀ f ∈ parts.finishOpen.faults, P f.fault := by
    intro f hf
    rcases List.mem_cons.1 (List.mem_reverse.1 hf) with rfl | hf
    · exact hend
    · exact h f hf
  fun_induction scanString skipping parts cs with
  | case1 skipping parts => exact hopen h
  | case2 skipping parts => exact hopen (hfaulty h ' ' 2 [])
  | case3 skipping parts rest ih => exact ih h
  | case4 skipping parts e rest hne c hc ih => exact ih h
  | case5 skipping parts e rest hne hnone ih => exact ih (hfaulty h _ _ _)
  | case6 skipping parts c rest hlone hescape hblank ih => exact ih h
  | case7 skipping parts rest hlone hescape hblank => exact fun f hf => h f (List.mem_reverse.1 hf)
  | case8 skipping parts c rest hlone hescape hblank hquote ih => exact ih h

/-- What all faults of trivia and of lexemes are, all faults of a text are. -/
theorem fault_scan {P : LexicalFault → Prop} (hcomment : P .openComment)
    (hunexpected : ∀ c, P (.unexpectedCharacter c))
    (hlexeme : ∀ {c rest s}, scanLexeme? c rest = some s → ∀ f ∈ s.faults, P f.fault)
    (source : String) : ∀ f ∈ (scan source).faults, P f.fault := by
  have htrivia {offset : Nat} {cs : List Char} {faults : List LocatedFault}
      (h : ∀ f ∈ faults, P f.fault) :
      ∀ f ∈ (skipTrivia .between offset cs).faults.reverse ++ faults, P f.fault := by
    refine List.forall_mem_append.2 ⟨fun f hf => ?_, h⟩
    rwa [fault_skipTrivia f (List.mem_reverse.1 hf)]
  have hshift {offset : Nat} {c : Char} {rest : List Char} {s : Scanned}
      {faults : List LocatedFault} (h : ∀ f ∈ faults, P f.fault)
      (hs : scanLexeme? c rest = some s) :
      ∀ f ∈ (s.faults.map (·.shift offset)).reverse ++ faults, P f.fault := by
    refine List.forall_mem_append.2 ⟨fun f hf => ?_, h⟩
    obtain ⟨found, hfound, rfl⟩ := List.mem_map.1 (List.mem_reverse.1 hf)
    exact hlexeme hs found hfound
  -- the faults alone are the invariant of the scanner here
  let I (_ : Nat) (_ : List Char) (_ : List Token) (faults : List LocatedFault) : Prop :=
    ∀ f ∈ faults, P f.fault
  have hstart : I 0 source.toList [] [] := by simp [I]
  obtain ⟨stop, tokens, faults, hscan, hend⟩ := scanFrom_keeps (I := I) htrivia hshift
    (fun h => List.forall_mem_cons.2 ⟨hunexpected _, h⟩) hstart
  rw [scan, hscan]
  exact fun f hf => hend f (List.mem_reverse.1 hf)

/-! ### Faults at the span of a token -/

/-- A token is read at its place in a text, and the faults at its span are those of its lexeme. -/
def Token.ReadsIn (t : Token) (text : List Char) (faults : List LocatedFault) : Prop :=
  ∃ before c rest s, text = before ++ c :: rest ∧ scanLexeme? c rest = some s ∧
    t = ⟨s.lexeme, ⟨byteLength before, byteLength before + s.width⟩⟩ ∧
    faults.filter (·.span = t.span) =
      (s.faults.filter (·.span = ⟨0, s.width⟩)).map (·.shift (byteLength before))

section

variable {text cs : List Char} {offset : Nat} {tokens : List Token} {faults more : List LocatedFault}

theorem filter_span_of_start_ne {span : Span} (h : ∀ f ∈ more, f.span.start ≠ span.start) :
    more.filter (·.span = span) = [] := by
  rw [List.filter_eq_nil_iff]
  intro f hf hspan
  exact h f hf (by rw [of_decide_eq_true hspan])

/-- Faults that begin behind the beginning of a token change nothing. -/
theorem Token.ReadsIn.append {t : Token} (h : t.ReadsIn text faults)
    (hmore : ∀ f ∈ more, t.span.start < f.span.start) : t.ReadsIn text (faults ++ more) := by
  obtain ⟨before, c, rest, s, htext, hs, ht, hfaults⟩ := h
  refine ⟨before, c, rest, s, htext, hs, ht, ?_⟩
  rw [List.filter_append, hfaults,
    filter_span_of_start_ne fun f hf => (Nat.ne_of_lt (hmore f hf)).symm, List.append_nil]

/-- What has been read of a text: faults and tokens begin in it, and the tokens have their faults. -/
structure Reported (text : List Char) (offset : Nat) (cs : List Char) (tokens : List Token)
    (faults : List LocatedFault) : Prop where
  located : Located text offset cs tokens faults
  early : ∀ f ∈ faults, f.span.start < offset
  begun : ∀ t ∈ tokens, t.span.start < offset
  own : ∀ t ∈ tokens, t.ReadsIn text faults.reverse

namespace Reported

/-- Faults that begin behind what has been read leave its tokens as they are. -/
theorem own_append (h : Reported text offset cs tokens faults)
    (hmore : ∀ f ∈ more, offset ≤ f.span.start) :
    ∀ t ∈ tokens, t.ReadsIn text (more.reverse ++ faults).reverse := by
  intro t ht
  rw [List.reverse_append, List.reverse_reverse]
  exact (h.own t ht).append fun f hf => Nat.lt_of_lt_of_le (h.begun t ht) (hmore f hf)

theorem trivia (h : Reported text offset cs tokens faults) :
    Reported text (skipTrivia .between offset cs).offset (skipTrivia .between offset cs).rest tokens
      ((skipTrivia .between offset cs).faults.reverse ++ faults) := by
  have hfound : ∀ f ∈ (skipTrivia .between offset cs).faults,
      offset ≤ f.span.start ∧ f.span.start < (skipTrivia .between offset cs).offset :=
    start_skipTrivia (Nat.le_refl offset) (by simp)
  obtain ⟨gap, -, hoffset⟩ := skipTrivia_text offset cs
  have hle : offset ≤ (skipTrivia .between offset cs).offset := by omega
  refine ⟨h.located.trivia, fun f hf => ?_, fun t ht => ?_, ?_⟩
  · rcases List.mem_append.1 hf with hf | hf
    · exact (hfound f (List.mem_reverse.1 hf)).2
    · exact Nat.lt_of_lt_of_le (h.early f hf) hle
  · exact Nat.lt_of_lt_of_le (h.begun t ht) hle
  · exact h.own_append fun f hf => (hfound f hf).1

theorem lexeme {c : Char} {rest : List Char} {s : Scanned}
    (h : Reported text offset (c :: rest) tokens faults) (hs : scanLexeme? c rest = some s) :
    Reported text (offset + s.width) s.rest
      (⟨s.lexeme, ⟨offset, offset + s.width⟩⟩ :: tokens)
      ((s.faults.map (·.shift offset)).reverse ++ faults) := by
  obtain ⟨hwidth, hstart⟩ := holds_scanLexeme? hs
  have hbehind : ∀ f ∈ s.faults.map (·.shift offset),
      offset ≤ f.span.start ∧ f.span.start < offset + s.width := by
    intro f hf
    obtain ⟨found, hfound, rfl⟩ := List.mem_map.1 hf
    have := hstart found hfound
    simp only [LocatedFault.shift, Span.shift]
    omega
  refine ⟨h.located.lexeme hs, fun f hf => ?_, fun t ht => ?_, fun t ht => ?_⟩
  · rcases List.mem_append.1 hf with hf | hf
    · exact (hbehind f (List.mem_reverse.1 hf)).2
    · have := h.early f hf
      omega
  · rcases List.mem_cons.1 ht with rfl | ht
    · exact Nat.lt_add_of_pos_right hwidth
    · have := h.begun t ht
      omega
  · rcases List.mem_cons.1 ht with rfl | ht
    · obtain ⟨before, htext, hoffset⟩ := h.located.here
      refine ⟨before, c, rest, s, htext, hs, by rw [hoffset], ?_⟩
      -- faults that were found earlier begin in front of this lexeme
      have hearlier : faults.reverse.filter (·.span = ⟨offset, offset + s.width⟩) = [] :=
        filter_span_of_start_ne fun f hf => Nat.ne_of_lt (h.early f (List.mem_reverse.1 hf))
      rw [List.reverse_append, List.reverse_reverse, List.filter_append, hearlier, List.nil_append,
        List.filter_map, ← hoffset]
      congr 1
      refine List.filter_congr fun f hf => ?_
      obtain ⟨fault, start, stop⟩ := f
      simp only [Function.comp_apply, LocatedFault.shift, Span.shift, Span.mk.injEq, decide_eq_decide]
      omega
    · exact h.own_append (fun f hf => (hbehind f hf).1) t ht

theorem unexpected {c : Char} {rest : List Char}
    (h : Reported text offset (c :: rest) tokens faults) :
    Reported text (offset + c.utf8Size) rest tokens
      (⟨.unexpectedCharacter c, ⟨offset, offset + c.utf8Size⟩⟩ :: faults) := by
  have hpos := c.utf8Size_pos
  refine ⟨h.located.unexpected, fun f hf => ?_, fun t ht => ?_, ?_⟩
  · rcases List.mem_cons.1 hf with rfl | hf
    · exact Nat.lt_add_of_pos_right hpos
    · have := h.early f hf
      omega
  · have := h.begun t ht
    omega
  · have hbehind : ∀ f ∈ [(⟨.unexpectedCharacter c, ⟨offset, offset + c.utf8Size⟩⟩ : LocatedFault)],
        offset ≤ f.span.start := by simp
    exact h.own_append hbehind

end Reported

end

/-- The faults that are found at a span. -/
def Scan.faultsAt (scan : Scan) (span : Span) : List LexicalFault :=
  (scan.faults.filter (·.span = span)).map (·.fault)

/-- Every token of a text is read at its place, and the faults at its span are those of its lexeme. -/
theorem readsIn_scan (source : String) :
    ∀ t ∈ (scan source).tokens, t.ReadsIn source.toList (scan source).faults := by
  have hstart : Reported source.toList 0 source.toList [] [] :=
    ⟨⟨.inl ⟨[], rfl, rfl⟩, by simp, by simp⟩, by simp, by simp, by simp⟩
  obtain ⟨stop, tokens, faults, hscan, hend⟩ := scanFrom_keeps (fun h => h.trivia)
    (fun h hs => h.lexeme hs) (fun h => h.unexpected) hstart
  rw [scan, hscan]
  exact fun t ht => hend.own t (List.mem_reverse.1 ht)

end EnsembleCompiler.Target
