import EnsembleCompiler.Proofs.Target.Extents
import EnsembleCompiler.Proofs.Target.Enclosure

/-!
# Reported locations

Where the diagnostics of a text are: at whole characters of it, so that the text can be cut at both
ends of a diagnostic. The one exception is a backslash in a string that begins no escape and is
followed by a character of several bytes or by nothing.
-/

namespace EnsembleCompiler.Target

variable {text before cs : List Char} {offset : Nat}

/-! ### Trivia -/

/-- The comment that a reader of trivia is in, if it is in one, begins in front of it. -/
def TriviaState.OpenedBefore (text : List Char) (offset : Nat) : TriviaState → Prop
  | .blockComment _ opened => opened ≤ offset ∧ Boundary text opened
  | .between | .lineComment => True

theorem TriviaState.OpenedBefore.later {state : TriviaState} (h : state.OpenedBefore text offset)
    {later : Nat} (hle : offset ≤ later) : state.OpenedBefore text later := by
  cases state with
  | blockComment inner opened => exact ⟨Nat.le_trans h.1 hle, h.2⟩
  | between => trivial
  | lineComment => trivial

/-- What is left after trivia that stands after `before` in a text. -/
structure AfterTrivia.Follows (after : AfterTrivia) (text before : List Char) : Prop where
  passes : ∃ passed, text = before ++ passed ++ after.rest ∧
    after.offset = byteLength before + byteLength passed
  faulty : ∀ f ∈ after.faults, f.LiesIn text

theorem AfterTrivia.Follows.earlier {after : AfterTrivia} {passed : List Char}
    (h : after.Follows text (before ++ passed)) : after.Follows text before := by
  obtain ⟨more, htext, hoffset⟩ := h.passes
  refine ⟨⟨passed ++ more, by simpa using htext, ?_⟩, h.faulty⟩
  rw [hoffset, byteLength_append, byteLength_append, Nat.add_assoc]

theorem follows_skipTrivia {state : TriviaState} (htext : text = before ++ cs)
    (hoffset : offset = byteLength before) (hstate : state.OpenedBefore text offset) :
    (skipTrivia state offset cs).Follows text before := by
  have hslash : '/'.utf8Size = 1 := rfl
  have hstar : '*'.utf8Size = 1 := rfl
  fun_induction skipTrivia state offset cs generalizing before with
  | case1 offset rest ih =>
    exact (ih (show text = before ++ ['/', '/'] ++ _ by simp [htext]) (by simp [hoffset, hslash])
      trivial).earlier
  | case2 offset rest ih =>
    refine (ih (show text = before ++ ['/', '*'] ++ _ by simp [htext])
      (by simp [hoffset, hslash, hstar]) ⟨Nat.le_add_right _ _, ?_⟩).earlier
    exact ⟨before, _, htext, hoffset⟩
  | case3 offset c rest hline hblock hblank ih =>
    refine (ih (show text = before ++ [c] ++ _ by simp [htext]) ?_ trivial).earlier
    simp [hoffset, utf8Size_of_isAsciiBlank hblank]
  | case4 offset c rest hline hblock hblank =>
    exact ⟨⟨[], by simpa using htext, by simpa using hoffset⟩, by simp⟩
  | case5 offset c rest ih =>
    refine (ih (show text = before ++ [c] ++ _ by simp [htext]) (by simp [hoffset]) ?_).earlier
    split <;> trivial
  | case6 offset inner opened rest ih =>
    exact (ih (show text = before ++ ['/', '*'] ++ _ by simp [htext])
      (by simp [hoffset, hslash, hstar]) (hstate.later (Nat.le_add_right _ _))).earlier
  | case7 offset opened rest ih =>
    exact (ih (show text = before ++ ['*', '/'] ++ _ by simp [htext])
      (by simp [hoffset, hslash, hstar]) trivial).earlier
  | case8 offset opened rest inner ih =>
    exact (ih (show text = before ++ ['*', '/'] ++ _ by simp [htext])
      (by simp [hoffset, hslash, hstar]) (hstate.later (Nat.le_add_right _ _))).earlier
  | case9 offset inner opened c rest hopen hclose ih =>
    exact (ih (show text = before ++ [c] ++ _ by simp [htext]) (by simp [hoffset])
      (hstate.later (Nat.le_add_right _ _))).earlier
  | case10 offset inner opened =>
    rw [List.append_nil] at htext
    refine ⟨⟨[], by simp [htext], by simpa using hoffset⟩, fun f hf => .inl ?_⟩
    obtain rfl := List.mem_singleton.1 hf
    exact ⟨hstate.1, hstate.2, ⟨before, [], by simp [htext], hoffset⟩⟩
  | case11 state offset hother =>
    exact ⟨⟨[], by simpa using htext, by simpa using hoffset⟩, by simp⟩

/-! ### Scans -/

/-- A scan of which something has been read: what it has found, and where it is unless a string has
taken it past the end of the text. -/
structure Located (text : List Char) (offset : Nat) (cs : List Char) (tokens : List Token)
    (faults : List LocatedFault) : Prop where
  place : (∃ before, text = before ++ cs ∧ offset = byteLength before) ∨ faults ≠ [] ∧ cs = []
  faulty : ∀ f ∈ faults, f.LiesIn text
  exact : faults = [] → ∀ token ∈ tokens, token.span.Inside text

/-- The faults of a whole scan lie in its text, and without faults its tokens do, and it stops at
the end. -/
structure Scan.LiesIn (scan : Scan) (text : List Char) : Prop where
  faulty : ∀ f ∈ scan.faults, f.LiesIn text
  exact : scan.faults = [] → ∀ token ∈ scan.tokens, token.span.Inside text
  stop : scan.faults = [] → scan.stop = byteLength text

variable {tokens : List Token} {faults : List LocatedFault}

/-- Trivia leaves a scan at a place of its text. -/
theorem Located.trivia (h : Located text offset cs tokens faults) :
    Located text (skipTrivia .between offset cs).offset (skipTrivia .between offset cs).rest tokens
      ((skipTrivia .between offset cs).faults.reverse ++ faults) := by
  rcases h.place with ⟨before, htext, hoffset⟩ | ⟨hne, rfl⟩
  · have hbetween : TriviaState.between.OpenedBefore text offset := trivial
    have hafter := follows_skipTrivia htext hoffset hbetween
    obtain ⟨passed, hpassed, hlater⟩ := hafter.passes
    refine ⟨.inl ⟨before ++ passed, hpassed, by rw [hlater, byteLength_append]⟩, ?_, ?_⟩
    · intro f hf
      rcases List.mem_append.1 hf with hf | hf
      · exact hafter.faulty f (List.mem_reverse.1 hf)
      · exact h.faulty f hf
    · intro hnil
      exact h.exact (List.append_eq_nil_iff.1 hnil).2
  · have hskip : skipTrivia .between offset [] = ⟨offset, [], []⟩ := by simp [skipTrivia]
    rw [hskip]
    exact ⟨.inr ⟨by simpa using hne, rfl⟩, by simpa using h.faulty, by simpa using h.exact⟩

/-- Where something is left to be read, the scan is at a place of its text. -/
theorem Located.here {c : Char} {rest : List Char}
    (h : Located text offset (c :: rest) tokens faults) :
    ∃ before, text = before ++ c :: rest ∧ offset = byteLength before := by
  rcases h.place with hplace | ⟨-, hnil⟩
  · exact hplace
  · exact absurd hnil (by simp)

theorem Located.lexeme {c : Char} {rest : List Char} {s : Scanned}
    (h : Located text offset (c :: rest) tokens faults) (hs : scanLexeme? c rest = some s) :
    Located text (offset + s.width) s.rest
      (⟨s.lexeme, ⟨offset, offset + s.width⟩⟩ :: tokens)
      ((s.faults.map (·.shift offset)).reverse ++ faults) := by
  obtain ⟨before, htext, hoffset⟩ := h.here
  obtain ⟨⟨read, hread, hwidth⟩, hfaults⟩ := faithful_lexeme hs
  rw [hread] at htext
  refine ⟨?_, ?_, ?_⟩
  · rcases hwidth with hwidth | ⟨hne, hnil⟩
    · exact .inl ⟨before ++ read, by simp [htext], by simp [hoffset, hwidth]⟩
    · exact .inr ⟨by simp [hne], hnil⟩
  · intro f hf
    rcases List.mem_append.1 hf with hf | hf
    · obtain ⟨fault, hfault, rfl⟩ := List.mem_map.1 (List.mem_reverse.1 hf)
      rw [htext, hoffset, ← hread]
      exact (hfaults fault hfault).shift before
    · exact h.faulty f hf
  · -- only without faults are the spans of tokens exact: a string may overrun the text
    intro hnil token htoken
    obtain ⟨hnone, hnil⟩ := List.append_eq_nil_iff.1 hnil
    rcases List.mem_cons.1 htoken with rfl | htoken
    · rw [List.reverse_eq_nil_iff, List.map_eq_nil_iff] at hnone
      have hwidth : s.width = byteLength read := by simpa [hnone] using hwidth
      refine ⟨Nat.le_add_right _ _, ⟨before, _, htext, hoffset⟩, ⟨before ++ read, s.rest, ?_, ?_⟩⟩
      · simp [htext]
      · simp [hoffset, hwidth]
    · exact h.exact hnil token htoken

theorem Located.unexpected {c : Char} {rest : List Char}
    (h : Located text offset (c :: rest) tokens faults) :
    Located text (offset + c.utf8Size) rest tokens
      (⟨.unexpectedCharacter c, ⟨offset, offset + c.utf8Size⟩⟩ :: faults) := by
  obtain ⟨before, htext, hoffset⟩ := h.here
  have hnext : text = (before ++ [c]) ++ rest := by simp [htext]
  have hlater : offset + c.utf8Size = byteLength (before ++ [c]) := by simp [hoffset]
  refine ⟨.inl ⟨_, hnext, hlater⟩, fun f hf => ?_, fun hnil => absurd hnil (by simp)⟩
  rcases List.mem_cons.1 hf with rfl | hf
  · exact .inl ⟨Nat.le_add_right _ _, ⟨before, _, htext, hoffset⟩, ⟨_, _, hnext, hlater⟩⟩
  · exact h.faulty f hf

theorem Located.finish (h : Located text offset [] tokens faults) :
    (⟨tokens.reverse, offset, faults.reverse⟩ : Scan).LiesIn text := by
  refine ⟨fun f hf => h.faulty f (List.mem_reverse.1 hf), fun hnil token htoken => ?_,
    fun hnil => ?_⟩
  · exact h.exact (by simpa using hnil) token (List.mem_reverse.1 htoken)
  · obtain ⟨before, htext, hoffset⟩ | ⟨hne, -⟩ := h.place
    · rw [List.append_nil] at htext
      rw [htext, ← hoffset]
    · exact absurd (by simpa using hnil) hne

/-- What every turn of the scanner keeps, a whole run keeps. -/
theorem scanFrom_keeps {I : Nat → List Char → List Token → List LocatedFault → Prop}
    (trivia : ∀ {offset cs tokens faults}, I offset cs tokens faults →
      I (skipTrivia .between offset cs).offset (skipTrivia .between offset cs).rest tokens
        ((skipTrivia .between offset cs).faults.reverse ++ faults))
    (lexeme : ∀ {offset c rest s tokens faults}, I offset (c :: rest) tokens faults →
      scanLexeme? c rest = some s →
      I (offset + s.width) s.rest (⟨s.lexeme, ⟨offset, offset + s.width⟩⟩ :: tokens)
        ((s.faults.map (·.shift offset)).reverse ++ faults))
    (unexpected : ∀ {offset c rest tokens faults}, I offset (c :: rest) tokens faults →
      I (offset + c.utf8Size) rest tokens
        (⟨.unexpectedCharacter c, ⟨offset, offset + c.utf8Size⟩⟩ :: faults))
    {offset : Nat} {cs : List Char} {tokens : List Token} {faults : List LocatedFault}
    (h : I offset cs tokens faults) :
    ∃ stop tokens' faults', scanFrom offset cs tokens faults =
      ⟨tokens'.reverse, stop, faults'.reverse⟩ ∧ I stop [] tokens' faults' := by
  -- on the length of what is left; the three ways a turn ends are the three hypotheses
  induction hlength : cs.length using Nat.strong_induction_on
    generalizing offset cs tokens faults with
  | _ length ih =>
    have hle := length_skipTrivia_le .between offset cs
    have hafter := trivia h
    rw [scanFrom_eq]
    dsimp only
    generalize skipTrivia .between offset cs = after at hle hafter ⊢
    obtain ⟨offset', rest', found⟩ := after
    dsimp only at hle hafter ⊢
    split
    · exact ⟨_, _, _, rfl, hafter⟩
    · next c rest =>
      rw [List.length_cons] at hle
      split
      · next s hs =>
        have hlt := length_scanLexeme?_lt hs
        rw [List.length_cons] at hlt
        exact ih _ (by omega) (lexeme hafter hs) rfl
      · exact ih _ (by omega) (unexpected hafter) rfl

/-- The scanner goes from place to place of its text. -/
theorem Located.scanFrom (h : Located text offset cs tokens faults) :
    (scanFrom offset cs tokens faults).LiesIn text := by
  obtain ⟨stop, tokens', faults', hscan, hend⟩ := scanFrom_keeps (fun h => h.trivia)
    (fun h hs => h.lexeme hs) (fun h => h.unexpected) h
  rw [hscan]
  exact hend.finish

theorem liesIn_scan (source : String) : (scan source).LiesIn source.toList :=
  Located.scanFrom ⟨.inl ⟨[], rfl, rfl⟩, by simp, by simp⟩

/-! ### Diagnostics -/

/-- Without faults, where a lexeme begins or ends, and where the text does. -/
theorem inside_here {source : String} (h : (scan source).faults = []) (index : Nat) :
    Span.Inside ⟨startOf (scan source).tokens.toArray (scan source).stop index,
      stopOf (scan source).tokens.toArray (scan source).stop index⟩ source.toList := by
  have hscan := liesIn_scan source
  unfold startOf stopOf
  rw [List.getElem?_toArray]
  cases htoken : (scan source).tokens[index]? with
  | some token => exact hscan.exact h token (List.mem_of_getElem? htoken)
  | none =>
    have hend := boundary_byteLength source.toList
    rw [← hscan.stop h] at hend
    exact ⟨Nat.le_refl _, hend, hend⟩

/-- Every backslash of a text is followed by a character of one byte. -/
def AsciiEscapes (cs : List Char) : Prop :=
  ∀ before after, cs = before ++ '\\' :: after → ∃ c rest, after = c :: rest ∧ c.utf8Size = 1

theorem AsciiEscapes.not_overruns (h : AsciiEscapes cs) {span : Span} : ¬ span.Overruns cs := by
  rintro (⟨before, c, after, htext, hlong, -, -⟩ | ⟨before, htext, -, -⟩)
  · obtain ⟨d, rest, heq, hsize⟩ := h before _ htext
    cases heq
    omega
  · obtain ⟨d, rest, heq, -⟩ := h before [] htext
    cases heq

/-- A text begins at a place between characters. -/
theorem inside_dummy (cs : List Char) : Span.dummy.Inside cs :=
  ⟨Nat.le_refl 0, ⟨[], cs, rfl, rfl⟩, ⟨[], cs, rfl, rfl⟩⟩

theorem Host.span_of_refuses {host : Host} {depth : Nat} {d : Diagnostic}
    (h : host.refuses? depth = some d) : d.span = .dummy := by
  obtain ⟨-, reason, -, rfl⟩ := Host.refuses?_eq_some.1 h
  rfl

theorem liesIn_of_checkOn {host : Host} {source : String} {d : Diagnostic}
    (h : d ∈ checkOn host source) :
    d.span.Inside source.toList ∨ d.span.Overruns source.toList := by
  rw [checkOn, parseOn] at h
  by_cases hfaults : (scan source).faults = []
  · rw [Scan.treeOn_eq host hfaults] at h
    -- a diagnostic is about the host, a lexical fault, or the one syntax error
    cases hrefuses : host.refuses? (nestingDepth ((scan source).tokens.map (·.lexeme))) with
    | some diagnostic =>
      simp only [hrefuses, List.mem_singleton] at h
      subst h
      rw [Host.span_of_refuses hrefuses]
      exact .inl (inside_dummy source.toList)
    | none =>
      simp only [hrefuses, Scan.tree_eq hfaults] at h
      cases htree : @File.ofLexemes Span (spans (scan source).tokens.toArray (scan source).stop)
          ((scan source).tokens.map (·.lexeme)) with
      | ok file => simp [htree] at h
      | error e =>
        simp only [htree, List.mem_singleton] at h
        subst h
        exact .inl (inside_here hfaults e.position)
  · rw [Scan.treeOn_faults host hfaults] at h
    obtain ⟨f, hf, rfl⟩ := List.mem_map.1 h
    exact (liesIn_scan source).faulty f hf

/-- A span at which a source can be cut: both its ends are places between characters. -/
structure Sliceable (source : String) (span : Span) : Prop where
  le : span.start ≤ span.stop
  stop_le : span.stop ≤ source.utf8ByteSize
  start : (⟨span.start⟩ : String.Pos.Raw).IsValid source
  stop : (⟨span.stop⟩ : String.Pos.Raw).IsValid source

theorem byteLength_eq_utf8ByteSize (cs : List Char) :
    byteLength cs = (String.ofList cs).utf8ByteSize := by
  induction cs with
  | nil => rfl
  | cons c cs ih =>
    rw [← List.singleton_append, String.ofList_append, String.utf8ByteSize_append, ← ih,
      byteLength_append, byteLength_cons, byteLength_nil, ← String.singleton_eq_ofList,
      String.utf8ByteSize_singleton, Nat.add_zero]

theorem isValid_of_boundary {source : String} {offset : Nat}
    (h : Boundary source.toList offset) : (⟨offset⟩ : String.Pos.Raw).IsValid source := by
  obtain ⟨before, after, htext, rfl⟩ := h
  refine String.Pos.Raw.isValid_iff_exists_append.2
    ⟨String.ofList before, String.ofList after, ?_, ?_⟩
  · rw [← String.ofList_append, ← htext, String.ofList_toList]
  · rw [byteLength_eq_utf8ByteSize]
    rfl

theorem sliceable_of_inside {source : String} {span : Span} (h : span.Inside source.toList) :
    Sliceable source span := by
  have hstop := isValid_of_boundary h.stop
  exact ⟨h.le, hstop.le_utf8ByteSize, isValid_of_boundary h.start, hstop⟩

/-- **Where diagnostics are.** On every host, the source can be cut at both ends of each of its
diagnostics, with one exception: at a backslash that is followed by a character of several bytes, or
by nothing, a diagnostic can end inside that character or one byte past the end of the source. A
source without such a backslash can be cut at all its diagnostics. -/
theorem check_span {host : Host} {source : String} {d : Diagnostic} (h : d ∈ checkOn host source) :
    (Sliceable source d.span ∨ d.span.Overruns source.toList) ∧
      (AsciiEscapes source.toList → Sliceable source d.span) := by
  have hlies := liesIn_of_checkOn h
  refine ⟨hlies.imp_left sliceable_of_inside, fun hascii => ?_⟩
  exact sliceable_of_inside (hlies.resolve_right hascii.not_overruns)

theorem check_span_euro : AsciiEscapes "\"é\\n\"€".toList ∧
    ∃ d ∈ check "\"é\\n\"€", d.span = ⟨6, 9⟩ ∧ Sliceable "\"é\\n\"€" d.span := by
  have hspans : ⟨6, 9⟩ ∈ (check "\"é\\n\"€").map (·.span) := by decide +kernel
  have hascii : AsciiEscapes "\"é\\n\"€".toList := by
    intro before after htext
    simp only [String.reduceToList, List.cons_eq_append_iff, List.cons.injEq, Char.reduceEq,
      false_and, and_false, true_and, List.nil_eq, List.append_eq_nil_iff, reduceCtorEq,
      exists_const, or_self, or_false, false_or] at htext
    obtain ⟨_, -, _, -, -, rfl⟩ := htext
    exact ⟨'n', ['"', '€'], rfl, rfl⟩
  obtain ⟨d, hd, hspan⟩ := List.mem_map.1 hspans
  exact ⟨hascii, d, hd, hspan, (check_span hd).2 hascii⟩

/-- A backslash at the end takes a diagnostic past the end, and one in front of a longer character
takes it into that character. -/
theorem check_overruns :
    (∃ d ∈ check "\"\\", "\"\\".utf8ByteSize < d.span.stop) ∧
      ∃ d ∈ check "\"\\é\"", ¬ (⟨d.span.stop⟩ : String.Pos.Raw).IsValid "\"\\é\"" := by
  have hpast : ⟨1, 3⟩ ∈ (check "\"\\").map (·.span) := by decide +kernel
  have hinto : ⟨1, 3⟩ ∈ (check "\"\\é\"").map (·.span) := by decide +kernel
  constructor
  · obtain ⟨d, hd, hspan⟩ := List.mem_map.1 hpast
    exact ⟨d, hd, by rw [hspan]; decide +kernel⟩
  · obtain ⟨d, hd, hspan⟩ := List.mem_map.1 hinto
    exact ⟨d, hd, by rw [hspan]; decide +kernel⟩

end EnsembleCompiler.Target
