import EnsembleCompiler.Proofs.Target.Tiling

/-!
# The tokens of two texts in one

A text without lexical faults is read in front of a line feed as it is by itself: its last word ends
there as it did at the end, and a line comment that had no end has one now. What stands behind is
read as it is by itself, further on. So the tokens of both texts are those of the whole.
-/

namespace EnsembleCompiler.Target

/-! ### Other offsets -/

def Token.shift (t : Token) (n : Nat) : Token := ⟨t.lexeme, t.span.shift n⟩

/-- The state of a reader that began further on. -/
def TriviaState.shift (n : Nat) : TriviaState → TriviaState
  | .blockComment inner opened => .blockComment inner (opened + n)
  | state => state

def AfterTrivia.shift (after : AfterTrivia) (n : Nat) : AfterTrivia :=
  ⟨after.offset + n, after.rest, after.faults.map (·.shift n)⟩

/-- A scan that began further on, after other tokens. -/
def Scan.behind (before : List Token) (n : Nat) (s : Scan) : Scan :=
  ⟨before ++ s.tokens.map (·.shift n), s.stop + n, s.faults.map (·.shift n)⟩

theorem LocatedFault.shift_shift (f : LocatedFault) (m n : Nat) :
    (f.shift m).shift n = f.shift (m + n) := by
  simp [LocatedFault.shift, Span.shift, Nat.add_assoc]

theorem skipTrivia_shift (n : Nat) (state : TriviaState) (offset : Nat) (cs : List Char) :
    skipTrivia (state.shift n) (offset + n) cs = (skipTrivia state offset cs).shift n := by
  -- the offset has no say in where the trivia end; only places depend on it
  fun_induction skipTrivia state offset cs with
  | case3 offset c rest hline hblock hblank ih =>
    rw [← ih, Nat.add_right_comm, ← utf8Size_of_isAsciiBlank hblank]
    exact trivia_blank hblank (offset + n) rest
  | case4 offset c rest hline hblock hblank =>
    refine skipTrivia_of_startsLexeme ⟨hblank, fun hc => ⟨fun hhead => ?_, fun hhead => ?_⟩⟩ _
    all_goals obtain ⟨tail, rfl⟩ := List.head?_eq_some_iff.1 hhead
    · exact hline tail hc rfl
    · exact hblock tail hc rfl
  | case5 offset c rest ih =>
    rw [← ih, Nat.add_right_comm]
    simp only [TriviaState.shift, skipTrivia]
    split <;> rfl
  | case9 offset inner opened c rest hopens hcloses ih =>
    rw [← ih, Nat.add_right_comm]
    refine skipTrivia_insideComment (fun hc hhead => ?_) fun hc hhead => ?_
    all_goals obtain ⟨tail, rfl⟩ := List.head?_eq_some_iff.1 hhead
    · exact hopens tail hc rfl
    · exact hcloses tail hc rfl
  | case10 offset inner opened => rfl
  | case11 state offset hopen =>
    cases state with
    | blockComment inner opened => exact absurd rfl (hopen inner opened)
    | between | lineComment => rfl
  | _ =>
    rename_i ih
    rw [← ih, Nat.add_right_comm]
    rfl

theorem scanFrom_shift (n : Nat) (before tokens : List Token) (faults : List LocatedFault)
    {offset : Nat} {cs : List Char} :
    scanFrom (offset + n) cs (tokens.map (·.shift n) ++ before.reverse) (faults.map (·.shift n)) =
      (scanFrom offset cs tokens faults).behind before n := by
  -- on the length of the text, as every turn of the scanner takes a character at least
  induction hlength : cs.length using Nat.strong_induction_on
    generalizing offset cs tokens faults with
  | _ length ih =>
    have hle := length_skipTrivia_le .between offset cs
    have hshift := skipTrivia_shift n .between offset cs
    rcases hafter : skipTrivia .between offset cs with ⟨start, behind, found⟩
    rw [hafter] at hle hshift
    cases behind with
    | nil =>
      rw [scanFrom_end hafter, scanFrom_end hshift, Scan.behind]
      simp
    | cons c rest =>
      rw [List.length_cons] at hle
      cases hs : scanLexeme? c rest with
      | none =>
        rw [scanFrom_unexpected hafter hs, scanFrom_unexpected hshift hs, ← ih _ (by omega) _ _ rfl,
          Nat.add_right_comm start]
        simp [LocatedFault.shift, Span.shift, Nat.add_right_comm start]
      | some s =>
        have hlt := length_scanLexeme?_lt hs
        rw [List.length_cons] at hlt
        rw [scanFrom_lexeme hafter hs, scanFrom_lexeme hshift hs, ← ih _ (by omega) _ _ rfl,
          Nat.add_right_comm start]
        simp [Token.shift, Span.shift, Nat.add_right_comm start, Function.comp_def,
          LocatedFault.shift_shift]

/-! ### A line feed behind a text -/

/-- At the end of a text a lexeme ends as it does in front of a line feed. -/
theorem sameStop_lineFeed (cs ds : List Char) : SameStop cs (cs ++ '\n' :: ds) := by
  cases cs with
  | nil => exact .blank (.cons rfl)
  | cons c cs =>
    refine .next fun _ d hd _ => ?_
    obtain ⟨tail, rfl⟩ := List.head?_eq_some_iff.1 hd
    rfl

/-- A line feed ends the line comment at the end of a text. -/
theorem EndsWithTrivia.trivia_lineFeed {cs : List Char} (h : EndsWithTrivia cs) :
    Trivia (cs ++ ['\n']) := by
  cases h with
  | trivia h => exact h.trivia.append (trivia_blank rfl)
  | lineComment h htext =>
    rw [List.append_assoc]
    exact h.trivia.append (trivia_lineComment htext)

theorem scanFrom_trivia {gap : List Char} (hgap : Trivia gap) (offset : Nat) (cs : List Char)
    (tokens : List Token) (faults : List LocatedFault) :
    scanFrom offset (gap ++ cs) tokens faults = scanFrom (offset + byteLength gap) cs tokens faults := by
  rw [scanFrom_eq, scanFrom_eq, hgap]

theorem Tokenizes.scanFrom_lineFeed {offset : Nat} {cells : List Cell} {tail : List Char}
    {lexemes : List Lexeme} (h : Tokenizes offset cells tail lexemes) (ds : List Char)
    (tokens : List Token) :
    scanFrom offset (Layout.chars ⟨cells, tail⟩ ++ '\n' :: ds) tokens [] =
      scanFrom (offset + byteLength (Layout.chars ⟨cells, tail⟩) + 1) ds
        (scanFrom offset (Layout.chars ⟨cells, tail⟩) tokens []).tokens.reverse [] := by
  induction h generalizing tokens with
  | @finish offset tail hfinish =>
    have hgap : IsGap [] tail := isGap_of_skipTrivia (by rw [List.append_nil, hfinish])
    rw [Layout.chars_nil, scanFrom_end hfinish, ← List.singleton_append, ← List.append_assoc,
      scanFrom_trivia hgap.1.trivia_lineFeed, List.reverse_reverse, byteLength_append]
    rfl
  | @token offset gap word tail c cells lexeme lexemes hafter hs hreads ih =>
    obtain ⟨part, htext, hagain⟩ := scanLexeme?_again hs rfl
    obtain rfl : word = part := List.append_cancel_right htext
    -- the line feed stops a word as the end of the text does
    have hstop := sameStop_lineFeed (Layout.chars ⟨cells, tail⟩) ds
    have hstart : startsLexeme c (word ++ Layout.chars ⟨cells, tail⟩) :=
      startsLexeme_of_skipTrivia (congrArg AfterTrivia.rest hafter)
    have hgap : Trivia gap := ((isGap_of_skipTrivia hafter).2 (by simp)).trivia
    have hjoined : skipTrivia .between offset
        (gap ++ (c :: word ++ (Layout.chars ⟨cells, tail⟩ ++ '\n' :: ds))) =
          ⟨offset + byteLength gap, c :: word ++ (Layout.chars ⟨cells, tail⟩ ++ '\n' :: ds), []⟩ := by
      rw [hgap]
      exact skipTrivia_of_startsLexeme (hstop.startsLexeme hstart) _
    have hlength : offset + byteLength (Layout.chars ⟨⟨gap, c :: word⟩ :: cells, tail⟩) =
        offset + byteLength gap + byteLength (c :: word) + byteLength (Layout.chars ⟨cells, tail⟩) := by
      rw [Layout.chars_cons, byteLength_append, byteLength_append, Nat.add_assoc, Nat.add_assoc]
    rw [hlength, Layout.chars_cons, List.append_assoc, List.append_assoc, scanFrom_lexeme hafter hs,
      scanFrom_lexeme hjoined (hagain _ hstop)]
    exact ih _

/-- The tokens of two texts, with a line feed between them, are those of the first and those of the
second further on. -/
theorem scan_joined {first : String} (h : (scan first).faults = []) (second : String) :
    scan (first ++ "\n" ++ second) =
      (scan second).behind (scan first).tokens (first.utf8ByteSize + 1) := by
  obtain ⟨cells, tail, hof, hreads⟩ := Layout.exists_isOf h
  have htext : (first ++ "\n" ++ second).toList =
      Layout.chars ⟨cells, tail⟩ ++ '\n' :: second.toList := by
    rw [String.toList_append, String.toList_append, hof.text, List.append_assoc]
    rfl
  have hlength : byteLength (Layout.chars ⟨cells, tail⟩) = first.utf8ByteSize := by
    rw [hof.text, byteLength_eq_utf8ByteSize, String.ofList_toList]
  calc scan (first ++ "\n" ++ second)
      = scanFrom (0 + byteLength (Layout.chars ⟨cells, tail⟩) + 1) second.toList
          (scanFrom 0 (Layout.chars ⟨cells, tail⟩) [] []).tokens.reverse [] := by
        rw [scan, htext]
        exact hreads.scanFrom_lineFeed second.toList []
    _ = scanFrom (0 + (first.utf8ByteSize + 1)) second.toList (scan first).tokens.reverse [] := by
        rw [Nat.add_assoc, hlength, hof.text]
        rfl
    _ = (scan second).behind (scan first).tokens (first.utf8ByteSize + 1) :=
        scanFrom_shift (first.utf8ByteSize + 1) (scan first).tokens [] []

end EnsembleCompiler.Target
