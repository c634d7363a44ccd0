import EnsembleCompiler.Proofs.Target.Layout
import Mathlib.Data.String.Basic

/-!
# Texts as tilings

The tokens of a text without lexical faults and the gaps around them tile it: nothing overlaps,
nothing is left out, the gaps hold blanks and comments alone, and every token is read from its own
characters as it was read in the text.
-/

namespace EnsembleCompiler

/-- The part of a text at a span. -/
def Span.slice (span : Span) (source : String) : String :=
  String.Pos.Raw.extract source ⟨span.start⟩ ⟨span.stop⟩

namespace Target

/-! ### Slices -/

theorem byteLength_eq_utf8Len (cs : List Char) : byteLength cs = String.utf8Len cs := by
  rw [byteLength_eq_utf8ByteSize, String.utf8ByteSize_ofList]

theorem slice_of_append {source : String} (before part after : List Char)
    (h : source.toList = before ++ (part ++ after)) :
    Span.slice ⟨byteLength before, byteLength before + byteLength part⟩ source =
      String.ofList part := by
  have hsource : source = String.ofList (before ++ part ++ after) := by
    rw [List.append_assoc, ← h, String.ofList_toList]
  rw [Span.slice, byteLength_eq_utf8Len, byteLength_eq_utf8Len, hsource]
  exact String.extract_of_valid before part after

/-! ### What is passed over -/

/-- What may stand behind the last token: the end of the text ends a line comment too. -/
inductive EndsWithTrivia : List Char → Prop
  | trivia {cs : List Char} : IsTrivia cs → EndsWithTrivia cs
  | lineComment {cs text : List Char} : IsTrivia cs → '\n' ∉ text →
      EndsWithTrivia (cs ++ '/' :: '/' :: text)

/-- What is passed over in front of `rest`. -/
def IsGap (rest gap : List Char) : Prop :=
  EndsWithTrivia gap ∧ (rest ≠ [] → IsTrivia gap)

variable {rest gap : List Char}

theorem isGap_nil : IsGap rest [] := ⟨.trivia .nil, fun _ => .nil⟩

/-- A gap begins with one more blank or comment. -/
theorem IsGap.behind (h : IsGap rest gap) (part : List Char)
    (hpart : ∀ cs, IsTrivia cs → IsTrivia (part ++ cs)) : IsGap rest (part ++ gap) := by
  refine ⟨?_, fun hrest => hpart _ (h.2 hrest)⟩
  cases h.1 with
  | trivia htrivia => exact .trivia (hpart _ htrivia)
  | lineComment htrivia htext =>
    rw [← List.append_assoc]
    exact .lineComment (hpart _ htrivia) htext

/-- What a reader passes over from a state on: it finishes the comment that it is in. -/
def TriviaState.Passes (rest : List Char) : TriviaState → List Char → Prop
  | .between, passed => IsGap rest passed
  | .lineComment, passed =>
    (rest = [] ∧ '\n' ∉ passed) ∨
      ∃ text gap, passed = text ++ '\n' :: gap ∧ '\n' ∉ text ∧ IsGap rest gap
  | .blockComment inner _, passed =>
    ∃ text gap, passed = text ++ gap ∧ ClosesComment inner text ∧ IsGap rest gap

/-- A line comment and what is passed over behind it. -/
theorem isGap_lineComment {passed : List Char}
    (h : TriviaState.lineComment.Passes rest passed) : IsGap rest ('/' :: '/' :: passed) := by
  rcases h with ⟨hrest, hpassed⟩ | ⟨text, gap, rfl, htext, hgap⟩
  · exact ⟨.lineComment .nil hpassed, fun hne => absurd hrest hne⟩
  · have hbehind := hgap.behind ('/' :: '/' :: text ++ ['\n']) fun cs hcs =>
      .lineComment htext hcs
    simpa using hbehind

/-- A block comment and what is passed over behind it. -/
theorem isGap_blockComment {opened : Nat} {passed : List Char}
    (h : (TriviaState.blockComment 0 opened).Passes rest passed) :
    IsGap rest ('/' :: '*' :: passed) := by
  obtain ⟨text, gap, rfl, htext, hgap⟩ := h
  exact hgap.behind ('/' :: '*' :: text) fun cs hcs => .blockComment htext hcs

/-- One more character of a line comment, which its line feed ends. -/
theorem passes_lineComment_cons {c : Char} {passed : List Char}
    (h : TriviaState.Passes rest (if c = '\n' then .between else .lineComment) passed) :
    TriviaState.lineComment.Passes rest (c :: passed) := by
  by_cases hfeed : c = '\n'
  · rw [if_pos hfeed] at h
    exact .inr ⟨[], passed, by rw [hfeed]; rfl, List.not_mem_nil, h⟩
  rw [if_neg hfeed] at h
  rcases h with ⟨hrest, hpassed⟩ | ⟨text, gap, rfl, htext, hgap⟩
  · refine .inl ⟨hrest, ?_⟩
    rw [List.mem_cons, not_or]
    exact ⟨Ne.symm hfeed, hpassed⟩
  · refine .inr ⟨c :: text, gap, rfl, ?_, hgap⟩
    rw [List.mem_cons, not_or]
    exact ⟨Ne.symm hfeed, htext⟩

/-- A text that is passed over without a fault begins with what the state allows. -/
theorem passes_skipTrivia (state : TriviaState) (offset : Nat) (cs : List Char)
    (h : (skipTrivia state offset cs).faults = []) :
    ∃ passed, cs = passed ++ (skipTrivia state offset cs).rest ∧
      state.Passes (skipTrivia state offset cs).rest passed := by
  fun_induction skipTrivia state offset cs with
  | case1 offset rest ih =>
    obtain ⟨passed, htext, hpasses⟩ := ih h
    refine ⟨'/' :: '/' :: passed, ?_, isGap_lineComment hpasses⟩
    rw [List.cons_append, List.cons_append, ← htext]
  | case2 offset rest ih =>
    obtain ⟨passed, htext, hpasses⟩ := ih h
    refine ⟨'/' :: '*' :: passed, ?_, isGap_blockComment hpasses⟩
    rw [List.cons_append, List.cons_append, ← htext]
  | case3 offset c rest hline hblock hblank ih =>
    obtain ⟨passed, htext, hpasses⟩ := ih h
    refine ⟨c :: passed, by rw [List.cons_append, ← htext], ?_⟩
    exact IsGap.behind hpasses [c] fun cs hcs => .blank hblank hcs
  | case4 offset c rest hline hblock hblank => exact ⟨[], rfl, isGap_nil⟩
  | case5 offset c rest ih =>
    obtain ⟨passed, htext, hpasses⟩ := ih h
    exact ⟨c :: passed, by rw [List.cons_append, ← htext], passes_lineComment_cons hpasses⟩
  | case6 offset inner opened rest ih =>
    obtain ⟨passed, htext, text, gap, rfl, hcloses, hgap⟩ := ih h
    refine ⟨_, ?_, '/' :: '*' :: text, gap, rfl, .opened hcloses, hgap⟩
    rw [List.cons_append, List.cons_append, List.cons_append, List.cons_append, ← htext]
  | case7 offset opened rest ih =>
    obtain ⟨passed, htext, hpasses⟩ := ih h
    refine ⟨_, ?_, ['*', '/'], passed, rfl, .last, hpasses⟩
    rw [List.append_assoc, ← htext]
    rfl
  | case8 offset opened rest inner ih =>
    obtain ⟨passed, htext, text, gap, rfl, hcloses, hgap⟩ := ih h
    refine ⟨_, ?_, '*' :: '/' :: text, gap, rfl, .closed hcloses, hgap⟩
    rw [List.cons_append, List.cons_append, List.cons_append, List.cons_append, ← htext]
  | case9 offset inner opened c rest hopens hcloses ih =>
    obtain ⟨passed, htext, text, gap, rfl, hends, hgap⟩ := ih h
    refine ⟨_, ?_, c :: text, gap, rfl, .text ?_ ?_ hends, hgap⟩
    · rw [List.cons_append, List.cons_append, ← htext]
    -- a comment is not at its end yet, so its next character is that of the whole text
    · intro hc hhead
      obtain ⟨more, rfl⟩ := List.head?_eq_some_iff.1 hhead
      exact hopens _ hc htext
    · intro hc hhead
      obtain ⟨more, rfl⟩ := List.head?_eq_some_iff.1 hhead
      exact hcloses _ hc htext
  | case10 offset inner opened => simp at h
  | case11 state offset hopen =>
    refine ⟨[], rfl, ?_⟩
    cases state with
    | between => exact isGap_nil
    | lineComment => exact .inl ⟨rfl, List.not_mem_nil⟩
    | blockComment inner opened => exact absurd rfl (hopen inner opened)

/-- The characters that are passed over between two lexemes, or behind the last one. -/
theorem isGap_of_skipTrivia {offset start : Nat}
    (h : skipTrivia .between offset (gap ++ rest) = ⟨start, rest, []⟩) : IsGap rest gap := by
  have hpasses := passes_skipTrivia .between offset (gap ++ rest) (by rw [h])
  rw [h] at hpasses
  obtain ⟨passed, htext, hgap⟩ := hpasses
  obtain rfl : gap = passed := List.append_cancel_right htext
  exact hgap

/-! ### Tokens by themselves -/

/-- A token is read from its own characters, and nothing else is. -/
def Token.StandsAlone (source : String) (token : Token) : Prop :=
  let width := token.span.stop - token.span.start
  scan (token.span.slice source) = ⟨[⟨token.lexeme, ⟨0, width⟩⟩], width, []⟩

/-- A lexeme that is read in front of a text is read at the end of one, too. -/
theorem scan_word {offset start : Nat} {c : Char} {word behind : List Char} {lexeme : Lexeme}
    {width : Nat}
    (hafter : skipTrivia .between offset (gap ++ (c :: word ++ behind)) =
      ⟨start, c :: word ++ behind, []⟩)
    (hs : scanLexeme? c (word ++ behind) = some ⟨lexeme, width, behind, []⟩) :
    scan (String.ofList (c :: word)) = ⟨[⟨lexeme, ⟨0, width⟩⟩], width, []⟩ := by
  obtain ⟨part, htext, hagain⟩ := scanLexeme?_again hs rfl
  obtain rfl : word = part := List.append_cancel_right htext
  -- the end of the text stops the lexeme as well as what stood behind it
  have halone : scanLexeme? c word = some ⟨lexeme, width, [], []⟩ := by
    have hend := hagain [] (.blank (by simp [NextChar]))
    rwa [List.append_nil] at hend
  have hstart : startsLexeme c word := by
    have hbefore : startsLexeme c (word ++ behind) :=
      startsLexeme_of_skipTrivia (congrArg AfterTrivia.rest hafter)
    cases word with
    | nil => exact ⟨hbefore.1, fun _ => by simp⟩
    | cons d word => exact hbefore
  rw [scan, String.toList_ofList,
    scanFrom_lexeme (skipTrivia_of_startsLexeme hstart 0) halone []]
  have hfinish : skipTrivia .between (0 + width) [] = ⟨width, [], []⟩ := by simp [skipTrivia]
  rw [scanFrom_end hfinish]
  simp

/-! ### The tiling -/

/-- From `offset` on, tokens that take at least one byte and gaps of blanks and comments follow
each other up to the end of the text. -/
inductive Tiles (source : String) : Nat → List Token → Prop
  | tail {offset : Nat} : offset ≤ source.utf8ByteSize →
      EndsWithTrivia (Span.slice ⟨offset, source.utf8ByteSize⟩ source).toList → Tiles source offset []
  | token {offset : Nat} {token : Token} {tokens : List Token} :
      offset ≤ token.span.start → token.span.start < token.span.stop →
      IsTrivia (Span.slice ⟨offset, token.span.start⟩ source).toList →
      token.StandsAlone source → Tiles source token.span.stop tokens →
      Tiles source offset (token :: tokens)

namespace Tiles

variable {source : String} {offset : Nat} {tokens : List Token}

theorem standsAlone (h : Tiles source offset tokens) : ∀ t ∈ tokens, t.StandsAlone source := by
  induction h with
  | tail => exact fun t ht => absurd ht List.not_mem_nil
  | token _ _ _ halone _ ih => exact List.forall_mem_cons.2 ⟨halone, ih⟩

theorem le (h : Tiles source offset tokens) : offset ≤ source.utf8ByteSize := by
  induction h with
  | tail hle => exact hle
  | token hle hlt _ _ _ ih => omega

/-- All tokens lie behind the offset and before the end. -/
theorem bounds (h : Tiles source offset tokens) : ∀ t ∈ tokens,
    offset ≤ t.span.start ∧ t.span.start < t.span.stop ∧ t.span.stop ≤ source.utf8ByteSize := by
  induction h with
  | tail => exact fun t ht => absurd ht List.not_mem_nil
  | token hle hlt _ _ hrest ih =>
    refine List.forall_mem_cons.2 ⟨⟨hle, hlt, hrest.le⟩, fun t ht => ?_⟩
    obtain ⟨hstart, hother⟩ := ih t ht
    exact ⟨by omega, hother⟩

theorem ordered (h : Tiles source offset tokens) :
    tokens.Pairwise fun t u => t.span.stop ≤ u.span.start := by
  induction h with
  | tail => exact .nil
  | token _ _ _ _ hrest ih => exact .cons (fun u hu => (hrest.bounds u hu).1) ih

end Tiles

/-- Tokens that are read one by one tile what is left of the text. -/
theorem Tokenizes.tiles {source : String} {offset : Nat} {cells : List Cell} {tail : List Char}
    {lexemes : List Lexeme} {tokens : List Token}
    (h : Tokenizes offset cells tail lexemes) (before : List Char) (hoffset : offset = byteLength before)
    (htext : source.toList = before ++ Layout.chars ⟨cells, tail⟩)
    (hlexemes : tokens.map (·.lexeme) = lexemes)
    (hspans : tokens.map (·.span) = Layout.spansFrom offset cells) :
    Tiles source offset tokens := by
  induction h generalizing before tokens with
  | @finish offset tail hfinish =>
    obtain rfl := List.map_eq_nil_iff.1 hlexemes
    rw [Layout.chars_nil] at htext
    have hstop : source.utf8ByteSize = offset + byteLength tail := by
      rw [← String.ofList_toList (s := source), ← byteLength_eq_utf8ByteSize, htext,
        byteLength_append, hoffset]
    refine .tail (by omega) ?_
    have hslice := slice_of_append before tail [] (by rw [htext, List.append_nil])
    rw [hstop, hoffset, hslice, String.toList_ofList]
    have hgap : IsGap [] tail := isGap_of_skipTrivia (by rw [List.append_nil, hfinish])
    exact hgap.1
  | @token offset gap word tail c cells lexeme lexemes hafter hs hreads ih =>
    obtain ⟨⟨_, span⟩, more, rfl, rfl, rfl⟩ := List.map_eq_cons_iff.1 hlexemes
    simp only [List.map_cons, Layout.spansFrom, List.cons.injEq] at hspans
    obtain ⟨rfl, hspans⟩ := hspans
    rw [Layout.chars_cons] at htext
    have hpos := c.utf8Size_pos
    -- the slices of the gap and of the word are the characters of the cell
    have hgap := slice_of_append before gap _ htext
    have hword := slice_of_append (before ++ gap) (c :: word) (Layout.chars ⟨cells, tail⟩) (by
      rw [htext, List.append_assoc])
    rw [byteLength_append, ← hoffset] at hword
    refine .token (Nat.le_add_right _ _) ?_ ?_ ?_ ?_
    · simp only [byteLength_cons]
      omega
    · rw [← hoffset] at hgap
      dsimp only
      rw [hgap, String.toList_ofList]
      exact (isGap_of_skipTrivia hafter).2 (by simp)
    · simp only [Token.StandsAlone, hword, Nat.add_sub_cancel_left]
      exact scan_word hafter hs
    · refine ih (before ++ gap ++ c :: word) ?_ ?_ rfl hspans
      · rw [byteLength_append, byteLength_append, hoffset]
      · rw [htext]
        simp only [List.append_assoc]

/-- The tokens of a text without lexical faults tile it. -/
theorem tiles_scan {source : String} (h : (scan source).faults = []) :
    Tiles source 0 (scan source).tokens := by
  obtain ⟨cells, tail, hof, hreads⟩ := Layout.exists_isOf h
  exact hreads.tiles [] rfl hof.text.symm rfl hof.spans.symm

/-- A text without lexical faults is read up to its last byte. -/
theorem stop_scan {source : String} (h : (scan source).faults = []) :
    (scan source).stop = source.utf8ByteSize := by
  rw [(liesIn_scan source).stop h, byteLength_eq_utf8ByteSize, String.ofList_toList]

/-- **Scanning is a faithful tiling.** A text without lexical faults is read up to its last byte;
its tokens are not empty, stand in order without overlap, and have blanks and comments alone before,
between and behind them; and each of them is read as the same lexeme from its own characters. -/
theorem scan_tiles {source : String} (h : (scan source).faults = []) :
    (scan source).stop = source.utf8ByteSize ∧ Tiles source 0 (scan source).tokens ∧
      ((scan source).tokens.Pairwise fun t u => t.span.stop ≤ u.span.start) ∧
      ∀ t ∈ (scan source).tokens, t.span.start < t.span.stop ∧
        t.span.stop ≤ source.utf8ByteSize ∧ t.StandsAlone source := by
  have htiles := tiles_scan h
  refine ⟨stop_scan h, htiles, htiles.ordered, fun t ht => ?_⟩
  exact ⟨(htiles.bounds t ht).2.1, (htiles.bounds t ht).2.2, htiles.standsAlone t ht⟩

/-- A point in front of a comment belongs to its number, and one in front of a word does not. -/
theorem scan_tiles_points : (scan "1./*é/**/*/2.5e1.max// é").faults = [] ∧
    (∀ t ∈ (scan "1./*é/**/*/2.5e1.max// é").tokens,
      t.StandsAlone "1./*é/**/*/2.5e1.max// é") ∧
    (scan "1./*é/**/*/2.5e1.max// é").tokens.map (·.span) = [⟨0, 2⟩, ⟨12, 17⟩, ⟨17, 18⟩, ⟨18, 21⟩] := by
  have hfaults : (scan "1./*é/**/*/2.5e1.max// é").faults = [] :=
    List.isEmpty_iff.mp (by decide +kernel)
  obtain ⟨-, -, -, htokens⟩ := scan_tiles hfaults
  exact ⟨hfaults, fun t ht => (htokens t ht).2.2, by decide +kernel⟩

end Target

end EnsembleCompiler
