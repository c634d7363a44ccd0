import EnsembleCompiler.Proofs.Target.Enclosure
import EnsembleCompiler.Proofs.Target.Locations
import EnsembleCompiler.Proofs.Target.Lookahead
import Mathlib.Data.List.Basic

/-!
# Texts that differ in their layout

The layout of a text is what stands around its tokens. `Tokenizes` reads a text without a fault,
token by token, and from it a `Layout` takes the gaps and the words; `Layout.Relaid` puts other
blanks and comments in place of the gaps. The same lexemes are read from a text that is laid out
anew, and therefore the same tree.
-/

namespace EnsembleCompiler.Target

/-! ### Blanks and comments as a grammar -/

/-- The rest of a block comment with `inner` comments open in it, up to its end. -/
inductive ClosesComment : Nat → List Char → Prop
  | last : ClosesComment 0 ['*', '/']
  | opened {inner : Nat} {cs : List Char} :
      ClosesComment (inner + 1) cs → ClosesComment inner ('/' :: '*' :: cs)
  | closed {inner : Nat} {cs : List Char} :
      ClosesComment inner cs → ClosesComment (inner + 1) ('*' :: '/' :: cs)
  | text {inner : Nat} {c : Char} {cs : List Char} :
      (c = '/' → cs.head? ≠ some '*') → (c = '*' → cs.head? ≠ some '/') →
      ClosesComment inner cs → ClosesComment inner (c :: cs)

/-- Blanks, line comments with their line feed and block comments with their end. -/
inductive IsTrivia : List Char → Prop
  | nil : IsTrivia []
  | blank {c : Char} {cs : List Char} : isAsciiBlank c = true → IsTrivia cs → IsTrivia (c :: cs)
  | lineComment {text cs : List Char} : '\n' ∉ text → IsTrivia cs →
      IsTrivia ('/' :: '/' :: text ++ ['\n'] ++ cs)
  | blockComment {text cs : List Char} : ClosesComment 0 text → IsTrivia cs →
      IsTrivia ('/' :: '*' :: text ++ cs)

/-- Trivia that begins with a blank. -/
inductive IsSpacing : List Char → Prop
  | mk {c : Char} {cs : List Char} : isAsciiBlank c = true → IsTrivia cs → IsSpacing (c :: cs)

theorem IsSpacing.isTrivia {cs : List Char} (h : IsSpacing cs) : IsTrivia cs := by
  obtain ⟨hblank, hcs⟩ := h
  exact .blank hblank hcs

theorem IsSpacing.nextChar {cs : List Char} (h : IsSpacing cs) (rest : List Char) :
    NextChar (fun c => isAsciiBlank c = true) (cs ++ rest) := by
  obtain ⟨hblank, hcs⟩ := h
  exact .cons hblank

theorem ClosesComment.ne_nil {inner : Nat} {text : List Char} (h : ClosesComment inner text) :
    text ≠ [] := by
  cases h <;> simp

/-- A character that begins neither marker is passed over. -/
theorem skipTrivia_insideComment {inner opened offset : Nat} {c : Char} {cs : List Char}
    (hopens : c = '/' → cs.head? ≠ some '*') (hcloses : c = '*' → cs.head? ≠ some '/') :
    skipTrivia (.blockComment inner opened) offset (c :: cs) =
      skipTrivia (.blockComment inner opened) (offset + c.utf8Size) cs := by
  rw [skipTrivia.eq_def]
  split <;> simp_all

theorem skipTrivia_blockComment {inner : Nat} {text : List Char} (h : ClosesComment inner text)
    (opened offset : Nat) (rest : List Char) :
    skipTrivia (.blockComment inner opened) offset (text ++ rest) =
      skipTrivia .between (offset + byteLength text) rest := by
  have hslash : '/'.utf8Size = 1 := rfl
  have hstar : '*'.utf8Size = 1 := rfl
  induction h generalizing offset with
  | last => simp [skipTrivia, hslash, hstar]
  | opened _ ih =>
    rw [List.cons_append, List.cons_append, skipTrivia, ih]
    congr 1
    simp [hslash, hstar]
    omega
  | closed _ ih =>
    rw [List.cons_append, List.cons_append, skipTrivia, ih]
    congr 1
    simp [hslash, hstar]
    omega
  | @text inner c cs hopens hcloses htext ih =>
    -- the next character decides whether a comment opens or closes; it is still one of the comment
    have hhead : (cs ++ rest).head? = cs.head? := List.head?_append_of_ne_nil _ htext.ne_nil
    rw [List.cons_append, skipTrivia_insideComment (by rwa [hhead]) (by rwa [hhead]), ih]
    congr 1
    simp
    omega

theorem trivia_blockComment {text : List Char} (h : ClosesComment 0 text) :
    Trivia ('/' :: '*' :: text) := by
  intro offset rest
  rw [List.cons_append, List.cons_append, skipTrivia, skipTrivia_blockComment h]
  congr 1
  simp [show '/'.utf8Size = 1 from rfl, show '*'.utf8Size = 1 from rfl]
  omega

theorem IsTrivia.trivia {cs : List Char} (h : IsTrivia cs) : Trivia cs := by
  induction h with
  | nil => exact trivia_nil
  | blank hblank _ ih => exact (trivia_blank hblank).append ih
  | lineComment htext _ ih => exact (trivia_lineComment htext).append ih
  | blockComment htext _ ih => exact (trivia_blockComment htext).append ih

/-! ### Gaps and words -/

/-- A word, the characters of one token, with the gap in front of it. -/
structure Cell where
  gap : List Char
  word : List Char

/-- The gaps and words of a text, and what stands behind its last word. -/
structure Layout where
  cells : List Cell
  tail : List Char

namespace Layout

def chars (layout : Layout) : List Char :=
  layout.cells.flatMap (fun cell => cell.gap ++ cell.word) ++ layout.tail

/-- Where the words are if the first gap begins at `offset`. -/
def spansFrom (offset : Nat) : List Cell → List Span
  | [] => []
  | cell :: cells =>
    let start := offset + byteLength cell.gap
    let stop := start + byteLength cell.word
    ⟨start, stop⟩ :: spansFrom stop cells

/-- The layout of a text has a word for each of its tokens. -/
structure IsOf (layout : Layout) (source : String) : Prop where
  text : layout.chars = source.toList
  spans : spansFrom 0 layout.cells = (scan source).tokens.map (·.span)

theorem chars_nil (tail : List Char) : chars ⟨[], tail⟩ = tail := rfl

theorem chars_cons (cell : Cell) (cells : List Cell) (tail : List Char) :
    chars ⟨cell :: cells, tail⟩ = cell.gap ++ (cell.word ++ chars ⟨cells, tail⟩) := by
  simp [chars]

end Layout

/-- Two beginnings of a text with as many bytes are equal. -/
theorem append_inj_of_byteLength {as bs cs ds : List Char} (h : as ++ cs = bs ++ ds)
    (hlength : byteLength as = byteLength bs) : as = bs ∧ cs = ds := by
  rcases List.append_eq_append_iff.1 h with ⟨more, rfl, rfl⟩ | ⟨more, rfl, rfl⟩
  all_goals
    rw [byteLength_append] at hlength
    obtain rfl : more = [] := byteLength_eq_zero (by omega)
    simp

/-- The spans of its words determine a layout. -/
theorem Layout.eq_of_spans {cells cells' : List Cell} {tail tail' : List Char} {offset : Nat}
    (htext : chars ⟨cells, tail⟩ = chars ⟨cells', tail'⟩)
    (hspans : spansFrom offset cells = spansFrom offset cells') :
    (⟨cells, tail⟩ : Layout) = ⟨cells', tail'⟩ := by
  induction cells generalizing cells' offset with
  | nil =>
    cases cells' with
    | nil => rw [chars_nil, chars_nil] at htext; rw [htext]
    | cons cell' cells' => simp [spansFrom] at hspans
  | cons cell cells ih =>
    cases cells' with
    | nil => simp [spansFrom] at hspans
    | cons cell' cells' =>
      rw [chars_cons, chars_cons] at htext
      simp only [spansFrom, List.cons.injEq, Span.mk.injEq] at hspans
      obtain ⟨⟨hstart, hstop⟩, hspans⟩ := hspans
      -- gap and word have the same lengths in both, and so are the same pieces of the text
      obtain ⟨hgap, htext⟩ := append_inj_of_byteLength htext (by omega)
      obtain ⟨hword, htext⟩ := append_inj_of_byteLength htext (by omega)
      rw [← hstop] at hspans
      have hrest := ih htext hspans
      simp only [mk.injEq] at hrest ⊢
      refine ⟨?_, hrest.2⟩
      rw [hrest.1]
      congr 1
      cases cell
      cases cell'
      simp_all

/-! ### Texts read without a fault -/

/-- From `offset` on, the words are read as the lexemes, one by one and without a fault. -/
inductive Tokenizes : Nat → List Cell → List Char → List Lexeme → Prop
  | finish {offset : Nat} {tail : List Char} :
      skipTrivia .between offset tail = ⟨offset + byteLength tail, [], []⟩ →
      Tokenizes offset [] tail []
  | token {offset : Nat} {gap word tail : List Char} {c : Char} {cells : List Cell}
      {lexeme : Lexeme} {lexemes : List Lexeme} :
      skipTrivia .between offset (gap ++ (c :: word ++ Layout.chars ⟨cells, tail⟩)) =
        ⟨offset + byteLength gap, c :: word ++ Layout.chars ⟨cells, tail⟩, []⟩ →
      scanLexeme? c (word ++ Layout.chars ⟨cells, tail⟩) =
        some ⟨lexeme, byteLength (c :: word), Layout.chars ⟨cells, tail⟩, []⟩ →
      Tokenizes (offset + byteLength gap + byteLength (c :: word)) cells tail lexemes →
      Tokenizes offset (⟨gap, c :: word⟩ :: cells) tail (lexeme :: lexemes)

/-- What is left of a text after its trivia. -/
theorem skipTrivia_text (offset : Nat) (cs : List Char) :
    ∃ gap, cs = gap ++ (skipTrivia .between offset cs).rest ∧
      (skipTrivia .between offset cs).offset = offset + byteLength gap := by
  have hbefore : byteLength (List.replicate offset ' ') = offset := by
    rw [byteLength_eq_length fun c hc => ?_, List.length_replicate]
    rw [List.eq_of_mem_replicate hc]
    rfl
  have hbetween : TriviaState.between.OpenedBefore (List.replicate offset ' ' ++ cs) offset :=
    trivial
  obtain ⟨gap, htext, hoffset⟩ := (follows_skipTrivia rfl hbefore.symm hbetween).passes
  rw [List.append_assoc, List.append_cancel_left_eq] at htext
  exact ⟨gap, htext, by rw [hoffset, hbefore]⟩

/-- The characters of a lexeme without a fault. -/
theorem word_of_scanLexeme? {c : Char} {cs : List Char} {s : Scanned}
    (h : scanLexeme? c cs = some s) (hfaults : s.faults = []) :
    ∃ word, cs = word ++ s.rest ∧ s.width = byteLength (c :: word) := by
  obtain ⟨word, htext, -⟩ := scanLexeme?_again h hfaults
  obtain ⟨read, hread, hwidth | ⟨hne, -⟩⟩ := (faithful_lexeme h).takes
  · have heq : read = c :: word := by
      rw [htext, ← List.cons_append] at hread
      exact (List.append_cancel_right hread).symm
    exact ⟨word, htext, by rw [hwidth, heq]⟩
  · exact absurd hfaults hne

section Turns

variable {offset start : Nat} {cs rest : List Char} {c : Char} {found faults : List LocatedFault}

theorem scanFrom_end (h : skipTrivia .between offset cs = ⟨start, [], found⟩)
    (tokens : List Token) : scanFrom offset cs tokens faults =
      ⟨tokens.reverse, start, (found.reverse ++ faults).reverse⟩ := by
  rw [scanFrom_eq, h]

theorem scanFrom_lexeme {s : Scanned} (h : skipTrivia .between offset cs = ⟨start, c :: rest, found⟩)
    (hs : scanLexeme? c rest = some s) (tokens : List Token) :
    scanFrom offset cs tokens faults =
      scanFrom (start + s.width) s.rest (⟨s.lexeme, ⟨start, start + s.width⟩⟩ :: tokens)
        ((s.faults.map (·.shift start)).reverse ++ (found.reverse ++ faults)) := by
  rw [scanFrom_eq, h]
  simp only [hs]

theorem scanFrom_unexpected (h : skipTrivia .between offset cs = ⟨start, c :: rest, found⟩)
    (hs : scanLexeme? c rest = none) (tokens : List Token) :
    scanFrom offset cs tokens faults =
      scanFrom (start + c.utf8Size) rest tokens
        (⟨.unexpectedCharacter c, ⟨start, start + c.utf8Size⟩⟩ :: (found.reverse ++ faults)) := by
  rw [scanFrom_eq, h]
  simp only [hs]

end Turns

/-- A scan without faults finds a layout and reads its words. -/
theorem tokenizes_of_scanFrom {offset : Nat} {cs : List Char} {tokens : List Token}
    {faults : List LocatedFault} (h : (scanFrom offset cs tokens faults).faults = []) :
    faults = [] ∧ ∃ cells tail more, Layout.chars ⟨cells, tail⟩ = cs ∧
      Tokenizes offset cells tail (more.map (·.lexeme)) ∧
      Layout.spansFrom offset cells = more.map (·.span) ∧
      (scanFrom offset cs tokens faults).tokens = tokens.reverse ++ more := by
  induction hlength : cs.length using Nat.strong_induction_on
    generalizing offset cs tokens faults with
  | _ length ih =>
    have hle := length_skipTrivia_le .between offset cs
    obtain ⟨gap, htext, hoffset⟩ := skipTrivia_text offset cs
    rcases hafter : skipTrivia .between offset cs with ⟨start, behind, found⟩
    rw [hafter] at hle htext hoffset
    dsimp only at hle htext hoffset
    subst hoffset
    cases behind with
    | nil =>
      rw [scanFrom_end hafter] at h ⊢
      have hnil : faults = [] ∧ found = [] := by simpa using h
      obtain ⟨rfl, rfl⟩ := hnil
      rw [List.append_nil] at htext
      subst htext
      exact ⟨rfl, [], cs, [], rfl, .finish hafter, rfl, by simp⟩
    | cons c rest =>
      rw [List.length_cons] at hle
      -- a character that begins no lexeme is a fault, which there is none of
      cases hs : scanLexeme? c rest with
      | none =>
        rw [scanFrom_unexpected hafter hs] at h
        exact absurd (ih _ (by omega) h rfl).1 (by simp)
      | some s =>
        rw [scanFrom_lexeme hafter hs] at h ⊢
        have hlt := length_scanLexeme?_lt hs
        obtain ⟨hnil, cells, tail, more, hchars, hreads, hspans, htokens⟩ :=
          ih _ (by simp only [List.length_cons] at hlt; omega) h rfl
        have hfaults : s.faults = [] ∧ found = [] ∧ faults = [] := by simpa using hnil
        obtain ⟨hs', rfl, rfl⟩ := hfaults
        obtain ⟨word, hword, hwidth⟩ := word_of_scanLexeme? hs hs'
        subst hword
        obtain ⟨lexeme, width, rest, _⟩ := s
        dsimp only at *
        subst hwidth hs' hchars
        refine ⟨rfl, ⟨gap, c :: word⟩ :: cells, tail,
          ⟨lexeme, offset + byteLength gap, offset + byteLength gap + byteLength (c :: word)⟩ :: more,
          ?_, ?_, ?_, ?_⟩
        · rw [Layout.chars_cons, htext]
          rfl
        · rw [htext] at hafter
          exact .token hafter hs hreads
        · rw [List.map_cons, ← hspans]
          rfl
        · rw [htokens]
          simp

/-! ### Other gaps -/

/-- Every gap that is not empty is replaced by trivia that begins with a blank. -/
inductive Regapped : List Cell → List Cell → Prop
  | nil : Regapped [] []
  | joined {word : List Char} {cells cells' : List Cell} :
      Regapped cells cells' → Regapped (⟨[], word⟩ :: cells) (⟨[], word⟩ :: cells')
  | spaced {gap gap' word : List Char} {cells cells' : List Cell} :
      gap ≠ [] → IsSpacing gap' → Regapped cells cells' →
      Regapped (⟨gap, word⟩ :: cells) (⟨gap', word⟩ :: cells')

/-- What may stand at either end of a text, in place of whatever does. -/
def IsMargin (cs : List Char) : Prop := cs = [] ∨ IsSpacing cs

/-- The same words with other gaps, and with other margins around all of them. -/
inductive Layout.Relaid : Layout → Layout → Prop
  | empty {tail tail' : List Char} : IsMargin tail' → Relaid ⟨[], tail⟩ ⟨[], tail'⟩
  | words {lead lead' word tail tail' : List Char} {cells cells' : List Cell} :
      IsMargin lead' → Regapped cells cells' → IsMargin tail' →
      Relaid ⟨⟨lead, word⟩ :: cells, tail⟩ ⟨⟨lead', word⟩ :: cells', tail'⟩

theorem IsMargin.isTrivia {cs : List Char} (h : IsMargin cs) : IsTrivia cs := by
  rcases h with rfl | h
  · exact .nil
  · exact h.isTrivia

theorem IsMargin.nextChar {cs : List Char} (h : IsMargin cs) :
    NextChar (fun c => isAsciiBlank c = true) cs := by
  rcases h with rfl | h
  · simp [NextChar]
  · simpa using h.nextChar []

/-- What is left after trivia begins with none. -/
theorem startsLexeme_of_skipTrivia {state : TriviaState} {offset : Nat} {cs rest : List Char}
    {c : Char} (h : (skipTrivia state offset cs).rest = c :: rest) : startsLexeme c rest := by
  fun_induction skipTrivia state offset cs <;> try simp_all
  next hline hblock hblank =>
    obtain ⟨rfl, rfl⟩ := h
    refine ⟨by simp [hblank], fun hslash => ⟨fun hhead => ?_, fun hhead => ?_⟩⟩
    all_goals obtain ⟨tail, rfl⟩ := List.head?_eq_some_iff.1 hhead
    · exact hline tail hslash rfl
    · exact hblock tail hslash rfl

section

variable {offset : Nat} {cells cells' : List Cell} {tail tail' : List Char}
  {lexemes : List Lexeme}

/-- No gap begins with a point or a word, so that a word does. -/
theorem Tokenizes.begins (h : Tokenizes offset cells tail lexemes) {d : Char}
    (hd : (Layout.chars ⟨cells, tail⟩).head? = some d) (hword : d = '.' ∨ startsWord d = true) :
    ∃ word more, cells = ⟨[], d :: word⟩ :: more := by
  obtain ⟨behind, htext⟩ := List.head?_eq_some_iff.1 hd
  have hstart : startsLexeme d behind := by
    rcases hword with rfl | hword
    · exact startsLexeme_of (by decide) (by decide) _
    · exact startsLexeme_of_continuesWord (continuesWord_of_startsWord hword) _
  have hskip := skipTrivia_of_startsLexeme hstart offset
  rw [← htext] at hskip
  cases h with
  | finish hfinish =>
    rw [Layout.chars_nil] at hskip htext
    rw [hfinish, htext] at hskip
    simp at hskip
  | @token _ gap word _ c cells _ _ hafter hs hreads =>
    rw [Layout.chars_cons] at hskip htext
    rw [hafter, AfterTrivia.mk.injEq] at hskip
    obtain rfl : gap = [] := byteLength_eq_zero (by omega)
    obtain ⟨rfl, -⟩ := List.cons.inj htext
    exact ⟨word, cells, rfl⟩

/-- A word is stopped by the new gap behind it as it was by the old one. -/
theorem Tokenizes.sameStop (h : Tokenizes offset cells tail lexemes)
    (hcells : Regapped cells cells') (htail : IsMargin tail') :
    SameStop (Layout.chars ⟨cells, tail⟩) (Layout.chars ⟨cells', tail'⟩) := by
  -- behind the word there is a gap in both texts, or in neither
  cases hcells with
  | nil => exact .blank htail.nextChar
  | spaced hgap hgap' hcells =>
    rw [Layout.chars_cons _ _ tail']
    exact .blank (hgap'.nextChar _)
  | joined hcells =>
    cases h with
    | @token _ _ word _ c _ _ _ hafter hs hreads =>
    rw [Layout.chars_cons, Layout.chars_cons]
    refine .next fun hc d hd hword => ?_
    cases word with
    | cons e word => exact hd
    | nil =>
      obtain ⟨word, more, rfl⟩ := hreads.begins hd hword
      cases hcells with
      | joined hcells =>
        show (Layout.chars ⟨_, tail'⟩).head? = some d
        rw [Layout.chars_cons]
        rfl
      | spaced hne => exact absurd rfl hne

/-- A word does not begin a comment in front of a text that stops it alike. -/
theorem SameStop.startsLexeme {c : Char} {word rest rest' : List Char} (hstop : SameStop rest rest')
    (hstart : startsLexeme c (word ++ rest)) : startsLexeme c (word ++ rest') := by
  refine ⟨hstart.1, fun hc => ?_⟩
  have hnext : NextChar (fun d => d ≠ '/' ∧ d ≠ '*') (word ++ rest) := by
    refine fun d hd => ⟨?_, ?_⟩
    · rintro rfl; exact (hstart.2 hc).1 hd
    · rintro rfl; exact (hstart.2 hc).2 hd
  have hnew := hstop.nextBehind hnext fun d hd =>
    ⟨by rintro rfl; exact absurd hd (by decide), by rintro rfl; exact absurd hd (by decide)⟩
  exact ⟨fun hd => (hnew '/' hd).1 rfl, fun hd => (hnew '*' hd).2 rfl⟩

/-- One word is read behind another gap and in front of another text. -/
theorem Spells.relaidWord {gap gap' word rest rest' : List Char} {c : Char} {start width : Nat}
    {lexeme : Lexeme} (hgap' : IsTrivia gap')
    (hafter : skipTrivia .between offset (gap ++ (c :: word ++ rest)) =
      ⟨start, c :: word ++ rest, []⟩)
    (hs : scanLexeme? c (word ++ rest) = some ⟨lexeme, width, rest, []⟩)
    (hstop : SameStop rest rest') (h : Spells rest' lexemes) :
    Spells (gap' ++ (c :: word ++ rest')) (lexeme :: lexemes) := by
  have hstart : startsLexeme c (word ++ rest) :=
    startsLexeme_of_skipTrivia (congrArg AfterTrivia.rest hafter)
  obtain ⟨part, htext, hagain⟩ := scanLexeme?_again hs rfl
  obtain rfl : part = word := (List.append_cancel_right htext).symm
  exact (Spells.lexeme (hstop.startsLexeme hstart) (hagain rest' hstop) rfl h).trivia hgap'.trivia

/-- The words of a layout are read as they were after the gaps have been replaced. -/
theorem Tokenizes.spells (h : Tokenizes offset cells tail lexemes)
    (hcells : Regapped cells cells') (htail : IsMargin tail') :
    Spells (Layout.chars ⟨cells', tail'⟩) lexemes := by
  induction h generalizing cells' with
  | finish hfinish =>
    cases hcells with
    | nil => simpa [Layout.chars_nil] using spells_nil.trivia htail.isTrivia.trivia
  | token hafter hs hreads ih =>
    cases hcells with
    | joined hcells =>
      rw [Layout.chars_cons]
      exact .relaidWord .nil hafter hs (hreads.sameStop hcells htail) (ih hcells)
    | spaced hgap hgap' hcells =>
      rw [Layout.chars_cons]
      exact .relaidWord hgap'.isTrivia hafter hs (hreads.sameStop hcells htail) (ih hcells)

end

/-- A text without lexical faults has a layout, and its words are read as its lexemes. -/
theorem Layout.exists_isOf {source : String} (h : (scan source).faults = []) :
    ∃ cells tail, Layout.IsOf ⟨cells, tail⟩ source ∧
      Tokenizes 0 cells tail (lexemesOf source) := by
  obtain ⟨-, cells, tail, more, htext, hreads, hspans, htokens⟩ := tokenizes_of_scanFrom h
  have hmore : (scan source).tokens = more := htokens
  rw [lexemesOf, hmore]
  exact ⟨cells, tail, ⟨htext, by rw [hspans, hmore]⟩, hreads⟩

theorem Layout.IsOf.unique {source : String} {layout other : Layout} (h : layout.IsOf source)
    (hother : other.IsOf source) : layout = other :=
  Layout.eq_of_spans (h.text.trans hother.text.symm) (h.spans.trans hother.spans.symm)

/-- A text that is laid out anew has the same lexemes. -/
theorem Layout.IsOf.spells {source : String} {layout other : Layout} (hof : layout.IsOf source)
    (h : (scan source).faults = []) (hother : layout.Relaid other) :
    Spells other.chars (lexemesOf source) := by
  obtain ⟨cells, tail, hof', hreads⟩ := Layout.exists_isOf h
  obtain rfl := hof.unique hof'
  generalize lexemesOf source = lexemes at hreads
  cases hother with
  | empty htail => exact hreads.spells .nil htail
  | words hlead hcells htail =>
    cases hreads with
    | token hafter hs hreads =>
      rw [Layout.chars_cons]
      exact .relaidWord hlead.isTrivia hafter hs (hreads.sameStop hcells htail)
        (hreads.spells hcells htail)

/-- **Layout does not matter.** An accepted text has one layout, and with any other gaps and margins
it has the same tree up to its places. -/
theorem parse_relaid {source : String} {file : File Span} (h : parse source = .ok file) :
    (∃! layout : Layout, layout.IsOf source) ∧
      ∀ layout other : Layout, layout.IsOf source → layout.Relaid other →
        ∃ file', parse (String.ofList other.chars) = .ok file' ∧ file'.erase = file.erase := by
  obtain ⟨hfaults, htree⟩ := tree_of_parse h
  obtain ⟨cells, tail, hof, -⟩ := Layout.exists_isOf hfaults
  refine ⟨⟨⟨cells, tail⟩, hof, fun _ hother => hother.unique hof⟩, fun layout other hof hother => ?_⟩
  have hspells := hof.spells hfaults hother
  rw [← String.toList_ofList (l := other.chars)] at hspells
  obtain ⟨hfaults', hlexemes⟩ := hspells.scan
  have htree' : File.ofLexemes (lexemesOf (String.ofList other.chars)) = .ok file.erase := by
    rw [← htree]
    exact congrArg File.ofLexemes hlexemes
  exact parse_of_tree hfaults' htree'

/-- A number keeps its point in front of a comment, and words that touch a symbol touch it still. -/
theorem parse_relaid_comment : ∃ file file', parse "fn f()\x7b1. +a\x7d" = .ok file ∧
    parse "\nfn\t/*/**/*/f()\x7b1. // one\n+a\x7d" = .ok file' ∧
    file'.erase = file.erase := by
  have hcheck : check "fn f()\x7b1. +a\x7d" = [] := List.isEmpty_iff.mp (by decide +kernel)
  obtain ⟨file, hfile⟩ := parse_of_check hcheck
  let old : Layout := ⟨[⟨[], "fn".toList⟩, ⟨" ".toList, "f".toList⟩, ⟨[], "(".toList⟩,
    ⟨[], ")".toList⟩, ⟨[], "\x7b".toList⟩, ⟨[], "1.".toList⟩, ⟨" ".toList, "+".toList⟩,
    ⟨[], "a".toList⟩, ⟨[], "\x7d".toList⟩], []⟩
  let new : Layout := ⟨[⟨"\n".toList, "fn".toList⟩, ⟨"\t/*/**/*/".toList, "f".toList⟩,
    ⟨[], "(".toList⟩, ⟨[], ")".toList⟩, ⟨[], "\x7b".toList⟩, ⟨[], "1.".toList⟩,
    ⟨" // one\n".toList, "+".toList⟩, ⟨[], "a".toList⟩, ⟨[], "\x7d".toList⟩], []⟩
  have hof : old.IsOf "fn f()\x7b1. +a\x7d" := ⟨by decide +kernel, by decide +kernel⟩
  have hnested : IsSpacing ('\t' :: ('/' :: '*' :: ['/', '*', '*', '/', '*', '/'] ++ [])) :=
    .mk rfl (.blockComment (.opened (.closed .last)) .nil)
  have hline : IsSpacing (' ' :: ('/' :: '/' :: " one".toList ++ ['\n'] ++ [])) :=
    .mk rfl (.lineComment (by decide) .nil)
  have hrelaid : old.Relaid new :=
    .words (.inr (.mk rfl .nil))
      (.spaced (by decide) hnested <| .joined <| .joined <| .joined <| .joined <|
        .spaced (by decide) hline <| .joined <| .joined .nil) (.inl rfl)
  obtain ⟨file', hfile', herase⟩ := (parse_relaid hfile).2 old new hof hrelaid
  exact ⟨file, file', hfile, hfile', herase⟩

end EnsembleCompiler.Target
