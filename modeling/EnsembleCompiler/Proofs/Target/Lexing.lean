import EnsembleCompiler.Proofs.Text.Runs
import EnsembleCompiler.Target.Scanner
import Mathlib.Tactic.ByContra

/-!
# Texts that spell lexemes

`Spells cs ls` says that the characters `cs` are read as the lexemes `ls` without a fault, wherever
in a text they stand. A text is put together from pieces: blanks, words, symbols and numbers.
A piece may stand in front of another (`Piece.fits`) if the reader cannot join them, and a line of
pieces that fit spells the lexemes of its pieces in front of every text (`Writes`).
-/

namespace EnsembleCompiler.Target

/-! ### One turn of the reader -/

theorem scanFrom_eq (offset : Nat) (cs : List Char) (tokens : List Token)
    (faults : List LocatedFault) :
    scanFrom offset cs tokens faults =
      let after := skipTrivia .between offset cs
      let faults := after.faults.reverse ++ faults
      match after.rest with
      | [] => ⟨tokens.reverse, after.offset, faults.reverse⟩
      | c :: rest =>
        match scanLexeme? c rest with
        | some s =>
          scanFrom (after.offset + s.width) s.rest
            (⟨s.lexeme, ⟨after.offset, after.offset + s.width⟩⟩ :: tokens)
            ((s.faults.map (·.shift after.offset)).reverse ++ faults)
        | none =>
          scanFrom (after.offset + c.utf8Size) rest tokens
            (⟨.unexpectedCharacter c, ⟨after.offset, after.offset + c.utf8Size⟩⟩ :: faults) := by
  rw [scanFrom]
  dsimp only
  split
  · next h => simp only [h]
  · next c rest h =>
    simp only [h]
    split <;> next hs => simp only [hs]

/-- The characters `cs` are read as the lexemes `ls`, without a fault. -/
def Spells (cs : List Char) (ls : List Lexeme) : Prop :=
  ∀ offset tokens, ∃ ts stop,
    scanFrom offset cs tokens [] = ⟨tokens.reverse ++ ts, stop, []⟩ ∧ ts.map (·.lexeme) = ls

/-- The characters `cs` are passed over between lexemes. -/
def Trivia (cs : List Char) : Prop :=
  ∀ offset rest, skipTrivia .between offset (cs ++ rest) =
    skipTrivia .between (offset + byteLength cs) rest

theorem spells_nil : Spells [] [] := by
  intro offset tokens
  refine ⟨[], offset, ?_, rfl⟩
  rw [scanFrom_eq]
  simp [skipTrivia]

theorem Spells.scan {source : String} {ls : List Lexeme} (h : Spells source.toList ls) :
    (scan source).faults = [] ∧ (scan source).tokens.map (·.lexeme) = ls := by
  obtain ⟨ts, stop, hscan, hts⟩ := h 0 []
  rw [Target.scan, hscan]
  exact ⟨rfl, by simpa using hts⟩

theorem Spells.trivia {cs rest : List Char} {ls : List Lexeme} (hcs : Trivia cs)
    (h : Spells rest ls) : Spells (cs ++ rest) ls := by
  intro offset tokens
  obtain ⟨ts, stop, hscan, hts⟩ := h (offset + byteLength cs) tokens
  refine ⟨ts, stop, ?_, hts⟩
  rw [scanFrom_eq] at hscan ⊢
  rwa [hcs offset rest]

/-- No trivia begins with these two characters. -/
def startsLexeme (c : Char) (rest : List Char) : Prop :=
  ¬ isAsciiBlank c ∧ (c = '/' → rest.head? ≠ some '/' ∧ rest.head? ≠ some '*')

theorem skipTrivia_of_startsLexeme {c : Char} {rest : List Char} (h : startsLexeme c rest)
    (offset : Nat) : skipTrivia .between offset (c :: rest) = ⟨offset, c :: rest, []⟩ := by
  obtain ⟨hblank, hslash⟩ := h
  rw [skipTrivia.eq_def]
  split
  · next heq => simp_all
  · next heq => simp_all
  · next heq => simp_all
  all_goals simp_all

theorem Spells.lexeme {c : Char} {cs : List Char} {s : Scanned} {ls : List Lexeme}
    (hstart : startsLexeme c cs) (hs : scanLexeme? c cs = some s) (hfaults : s.faults = [])
    (h : Spells s.rest ls) : Spells (c :: cs) (s.lexeme :: ls) := by
  intro offset tokens
  obtain ⟨ts, stop, hscan, hts⟩ :=
    h (offset + s.width) (⟨s.lexeme, ⟨offset, offset + s.width⟩⟩ :: tokens)
  refine ⟨⟨s.lexeme, ⟨offset, offset + s.width⟩⟩ :: ts, stop, ?_, by simp [hts]⟩
  rw [scanFrom_eq, skipTrivia_of_startsLexeme hstart]
  simp only [hs, hfaults]
  simpa using hscan

/-! ### Kinds of lexemes -/

/-- A literal of a number. -/
def Lexeme.isNumber : Lexeme → Bool
  | .integer _ _ | .float _ _ => true
  | _ => false

theorem isNumber_scanDecimal (cs : List Char) : (scanDecimal cs).lexeme.isNumber = true := by
  simp only [scanDecimal, decimalLexeme]
  split
  · split <;> rfl
  · split <;> rfl

theorem isNumber_scanNumber (cs : List Char) : (scanNumber cs).lexeme.isNumber = true := by
  unfold scanNumber
  split <;> first | rfl | exact isNumber_scanDecimal _

theorem lexeme_scanString (skipping : Bool) (parts : StringParts) (cs : List Char) :
    ∃ text, (scanString skipping parts cs).lexeme = .str text := by
  fun_induction scanString skipping parts cs <;> first | exact ⟨_, rfl⟩ | assumption

theorem eq_of_scanSymbol? {c : Char} {rest : List Char} {s : Scanned}
    (h : scanSymbol? c rest = some s) :
    ∃ sign width behind, 0 < width ∧ s = ⟨.symbol sign, width, behind, []⟩ := by
  unfold scanSymbol? at h
  split at h
  · split at h
    · cases h
      exact ⟨_, _, _, by decide, rfl⟩
    · obtain ⟨sign, -, rfl⟩ := Option.map_eq_some_iff.1 h
      exact ⟨sign, _, _, by decide, rfl⟩
  · obtain ⟨sign, -, rfl⟩ := Option.map_eq_some_iff.1 h
    exact ⟨sign, _, _, by decide, rfl⟩

theorem isNumber_ofWord (word : String) : (Lexeme.ofWord word).isNumber = false := by
  unfold Lexeme.ofWord
  split
  · rfl
  · split
    · rfl
    · split <;> rfl

/-- A literal of a number begins with a digit, where a number is read. -/
theorem scanLexeme?_of_isNumber {c : Char} {rest : List Char} {s : Scanned}
    (h : scanLexeme? c rest = some s) (hs : s.lexeme.isNumber = true) :
    c.isDigit = true ∧ s = scanNumber (c :: rest) := by
  unfold scanLexeme? at h
  split at h
  · cases h
    rw [scanWord, isNumber_ofWord] at hs
    cases hs
  · split at h
    · next hdigit =>
      cases h
      exact ⟨hdigit, rfl⟩
    · split at h
      · cases h
        obtain ⟨text, htext⟩ := lexeme_scanString false ⟨1, [], []⟩ rest
        rw [htext] at hs
        cases hs
      · obtain ⟨sign, width, behind, -, rfl⟩ := eq_of_scanSymbol? h
        cases hs

/-! ### Trivia -/

theorem trivia_nil : Trivia [] := fun _ _ => by simp

theorem Trivia.append {cs ds : List Char} (hcs : Trivia cs) (hds : Trivia ds) :
    Trivia (cs ++ ds) := by
  intro offset rest
  rw [List.append_assoc, hcs, hds, byteLength_append, Nat.add_assoc]

theorem utf8Size_of_isAsciiBlank {c : Char} (h : isAsciiBlank c) : c.utf8Size = 1 := by
  simp only [isAsciiBlank, Bool.or_eq_true, decide_eq_true_eq] at h
  rcases h with (((rfl | rfl) | rfl) | rfl) | rfl <;> rfl

theorem trivia_blank {c : Char} (h : isAsciiBlank c) : Trivia [c] := by
  intro offset rest
  have hslash : c ≠ '/' := by
    rintro rfl
    exact absurd h (by decide)
  rw [List.singleton_append, skipTrivia.eq_def]
  split
  · next heq => simp_all
  · next heq => simp_all
  · next heq =>
    obtain ⟨rfl, rfl⟩ := List.cons.inj heq
    simp [h, utf8Size_of_isAsciiBlank h]
  all_goals simp_all

theorem trivia_blanks {cs : List Char} (h : ∀ c ∈ cs, isAsciiBlank c) : Trivia cs := by
  induction cs with
  | nil => exact trivia_nil
  | cons c cs ih =>
    have hc : Trivia [c] := trivia_blank (h c (by simp))
    exact hc.append (ih fun d hd => h d (by simp [hd]))

/-- The text of a line comment is passed over up to its end. -/
theorem skipTrivia_lineComment {cs : List Char} (h : '\n' ∉ cs) (offset : Nat)
    (rest : List Char) :
    skipTrivia .lineComment offset (cs ++ '\n' :: rest) =
      skipTrivia .between (offset + byteLength cs + 1) rest := by
  induction cs generalizing offset with
  | nil =>
    rw [List.nil_append, skipTrivia.eq_def]
    simp [show '\n'.utf8Size = 1 from rfl]
  | cons c cs ih =>
    have hc : c ≠ '\n' := fun hc => h (by simp [hc])
    rw [List.cons_append, skipTrivia.eq_def]
    simp only [hc, if_false]
    rw [ih fun hm => h (by simp [hm])]
    congr 1
    simp
    omega

theorem trivia_lineComment {cs : List Char} (h : '\n' ∉ cs) :
    Trivia ('/' :: '/' :: cs ++ ['\n']) := by
  intro offset rest
  have hcomment := skipTrivia_lineComment h (offset + 2) rest
  rw [List.cons_append, List.cons_append, List.cons_append, List.cons_append, List.append_assoc,
    List.singleton_append, skipTrivia.eq_def]
  simp only
  rw [hcomment]
  congr 1
  simp [show '/'.utf8Size = 1 from rfl, show '\n'.utf8Size = 1 from rfl]
  omega

/-! ### Words and symbols -/

/-- Characters that never end a symbol of two. -/
theorem doubleSymbol?_eq_none {c d : Char} (h : d ∉ [':', '=', '&', '|', '>']) :
    doubleSymbol? c d = none := by
  unfold doubleSymbol?
  split <;> simp_all

theorem startsLexeme_of {c : Char} (hc : c ≠ '/') (hblank : ¬ isAsciiBlank c)
    (rest : List Char) : startsLexeme c rest :=
  ⟨hblank, fun h => absurd h hc⟩

theorem continuesWord_of_isDigit {c : Char} (h : c.isDigit = true) : continuesWord c = true := by
  simp [continuesWord, Char.isAlphanum, h]

theorem not_continuesWord_of_isAsciiBlank {c : Char} (h : isAsciiBlank c) :
    continuesWord c = false := by
  simp only [isAsciiBlank, Bool.or_eq_true, decide_eq_true_eq] at h
  rcases h with (((rfl | rfl) | rfl) | rfl) | rfl <;> decide

/-- Blanks, slashes and the characters of symbols do not continue words. -/
theorem startsLexeme_of_continuesWord {c : Char} (h : continuesWord c = true) (rest : List Char) :
    startsLexeme c rest := by
  refine ⟨fun hblank => ?_, ?_⟩
  · rw [not_continuesWord_of_isAsciiBlank hblank] at h
    exact absurd h (by simp)
  · rintro rfl
    exact absurd h (by decide)

theorem doubleSymbol?_of_continuesWord {c d : Char} (h : continuesWord d = true) :
    doubleSymbol? c d = none := by
  refine doubleSymbol?_eq_none fun hd => ?_
  simp only [List.mem_cons, List.not_mem_nil, or_false] at hd
  rcases hd with rfl | rfl | rfl | rfl | rfl <;> exact absurd h (by decide)

theorem doubleSymbol?_of_isAsciiBlank {c d : Char} (h : isAsciiBlank d) :
    doubleSymbol? c d = none := by
  refine doubleSymbol?_eq_none fun hd => ?_
  simp only [List.mem_cons, List.not_mem_nil, or_false] at hd
  rcases hd with rfl | rfl | rfl | rfl | rfl <;> exact absurd h (by decide)

/-- A word is read to its end. -/
theorem scanLexeme?_word {c : Char} {word rest : List Char}
    (hc : startsWord c = true) (hword : ∀ c ∈ word, continuesWord c = true)
    (hrest : NextChar (fun c => continuesWord c = false) rest) :
    scanLexeme? c (word ++ rest) =
      some ⟨.ofWord (String.ofList (c :: word)), (c :: word).length, rest, []⟩ := by
  have hall : ∀ d ∈ c :: word, continuesWord d = true :=
    List.forall_mem_cons.2 ⟨continuesWord_of_startsWord hc, hword⟩
  rw [scanLexeme?, if_pos hc, scanWord]
  simp only [← List.cons_append, takeWhile_append_of_next hall hrest,
    dropWhile_append_of_next hall hrest]

theorem Spells.word {c : Char} {word rest : List Char} {ls : List Lexeme}
    (hc : startsWord c = true) (hword : ∀ c ∈ word, continuesWord c = true)
    (hrest : NextChar (fun c => continuesWord c = false) rest) (h : Spells rest ls) :
    Spells (c :: word ++ rest) (.ofWord (String.ofList (c :: word)) :: ls) :=
  .lexeme (startsLexeme_of_continuesWord (continuesWord_of_startsWord hc) _)
    (scanLexeme?_word hc hword hrest) rfl h

/-- Symbols that a text can spell with no care for comments and words. -/
def Symbol.isPlain : Symbol → Bool
  | .underscore | .slash | .slashEq => false
  | _ => true

theorem scanSymbol?_single {c : Char} {s : Symbol} {rest : List Char}
    (hc : singleSymbol? c = some s)
    (hrest : NextChar (fun d => doubleSymbol? c d = none) rest) :
    scanSymbol? c rest = some ⟨.symbol s, 1, rest, []⟩ := by
  cases rest with
  | nil => simp [scanSymbol?, hc]
  | cons d rest => simp [scanSymbol?, hc, hrest d (by simp)]

theorem scanSymbol?_double {c d : Char} {s : Symbol} {rest : List Char}
    (hcd : doubleSymbol? c d = some s) :
    scanSymbol? c (d :: rest) = some ⟨.symbol s, 2, rest, []⟩ := by
  simp [scanSymbol?, hcd]

theorem Spells.symbolOf {c : Char} {cs rest : List Char} {s : Symbol} {width : Nat}
    {ls : List Lexeme} (hc : continuesWord c = false) (hc' : c ≠ '"' ∧ c ≠ '/' ∧ ¬ isAsciiBlank c)
    (hs : scanSymbol? c cs = some ⟨.symbol s, width, rest, []⟩) (h : Spells rest ls) :
    Spells (c :: cs) (.symbol s :: ls) := by
  have hstart : startsWord c = false := by
    by_contra hne
    rw [continuesWord_of_startsWord (by simpa using hne)] at hc
    exact absurd hc (by simp)
  have hdigit : c.isDigit = false := by
    by_contra hne
    rw [continuesWord_of_isDigit (by simpa using hne)] at hc
    exact absurd hc (by simp)
  have hscan : scanLexeme? c cs = some ⟨.symbol s, width, rest, []⟩ := by
    rw [scanLexeme?, hstart, hdigit, if_neg (by simp), if_neg (by simp), if_neg hc'.1, hs]
  exact .lexeme (s := ⟨.symbol s, width, rest, []⟩)
    (startsLexeme_of hc'.2.1 hc'.2.2 cs) hscan rfl h

/-- A character that begins a symbol and nothing else. -/
def beginsSymbol (c : Char) : Bool :=
  !continuesWord c && c != '"' && c != '/' && !isAsciiBlank c

/-- The text of a plain symbol has one character or two. -/
theorem Symbol.text_cases {s : Symbol} (hs : s.isPlain = true) :
    (∃ c, s.text.toList = [c] ∧ singleSymbol? c = some s ∧ beginsSymbol c = true) ∨
      ∃ c d, s.text.toList = [c, d] ∧ doubleSymbol? c d = some s ∧ beginsSymbol c = true := by
  cases s
  case underscore | slash | slashEq => exact absurd hs (by decide)
  case pathSep | arrow | fatArrow | eqEq | notEq | le | ge | plusEq | minusEq | starEq | andAnd |
      orOr =>
    exact .inr ⟨_, _, rfl, rfl, by decide⟩
  all_goals exact .inl ⟨_, rfl, rfl, by decide⟩

theorem Symbol.eq_dot_of_head {s : Symbol} (h : s.text.toList.head? = some '.') : s = .dot := by
  cases s <;> first | rfl | exact absurd h (by decide)

theorem beginsSymbol_iff {c : Char} : beginsSymbol c = true ↔
    continuesWord c = false ∧ c ≠ '"' ∧ c ≠ '/' ∧ ¬ isAsciiBlank c := by
  simp [beginsSymbol, and_assoc]

/-- A symbol is read if its text and what follows are no longer symbol. -/
theorem Spells.symbol {s : Symbol} {rest : List Char} {ls : List Lexeme}
    (hs : s.isPlain = true)
    (hrest : ∀ c, s.text.toList = [c] → NextChar (fun d => doubleSymbol? c d = none) rest)
    (h : Spells rest ls) : Spells (s.text.toList ++ rest) (.symbol s :: ls) := by
  rcases Symbol.text_cases hs with ⟨c, htext, hc, hbegin⟩ | ⟨c, d, htext, hcd, hbegin⟩
  · rw [htext]
    obtain ⟨hword, hother⟩ := beginsSymbol_iff.1 hbegin
    exact .symbolOf hword hother (scanSymbol?_single hc (hrest c htext)) h
  · rw [htext]
    obtain ⟨hword, hother⟩ := beginsSymbol_iff.1 hbegin
    exact .symbolOf hword hother (scanSymbol?_double hcd) h

theorem startsLexeme_ident {name : String} (h : isIdentifier name = true) :
    ∃ c word, name.toList = c :: word ∧ startsWord c = true ∧
      (∀ d ∈ word, continuesWord d = true) ∧ Lexeme.ofWord name = .ident name := by
  unfold isIdentifier at h
  cases hname : name.toList with
  | nil => simp [hname] at h
  | cons c word =>
    simp only [hname, Bool.and_eq_true, List.all_eq_true, decide_eq_true_eq] at h
    exact ⟨c, word, rfl, h.1.1, h.1.2, h.2⟩

theorem Spells.ident {name : String} {rest : List Char} {ls : List Lexeme}
    (hname : isIdentifier name = true)
    (hrest : NextChar (fun c => continuesWord c = false) rest) (h : Spells rest ls) :
    Spells (name.toList ++ rest) (.ident name :: ls) := by
  obtain ⟨c, word, htext, hc, hword, hof⟩ := startsLexeme_ident hname
  have hspell := Spells.word hc hword hrest h
  rwa [← htext, String.ofList_toList, hof] at hspell

theorem Keyword.text_spec (k : Keyword) : ∃ c word, k.text.toList = c :: word ∧
    startsWord c = true ∧ (∀ d ∈ word, continuesWord d = true) ∧
      Lexeme.ofWord k.text = .keyword k := by
  cases k <;> exact ⟨_, _, rfl, by decide, List.all_eq_true.1 (by decide), by decide⟩

theorem Spells.keyword {k : Keyword} {rest : List Char} {ls : List Lexeme}
    (hrest : NextChar (fun c => continuesWord c = false) rest) (h : Spells rest ls) :
    Spells (k.text.toList ++ rest) (.keyword k :: ls) := by
  obtain ⟨c, word, htext, hc, hword, hof⟩ := k.text_spec
  have hspell := Spells.word hc hword hrest h
  rwa [← htext, String.ofList_toList, hof] at hspell

/-! ### Pieces -/

/-- What follows does not run on with a word or a point. -/
def Stops (rest : List Char) : Prop := NextChar (fun c => continuesWord c = false ∧ c ≠ '.') rest

/-- A part of a written text. -/
inductive Piece where
  | blanks (cs : List Char)
  | keyword (k : Keyword)
  | ident (name : String)
  | symbol (s : Symbol)
  /-- Several characters and the lexemes that they are read as. -/
  | run (cs : List Char) (ls : List Lexeme)

namespace Piece

def chars : Piece → List Char
  | blanks cs => cs
  | keyword k => k.text.toList
  | ident name => name.toList
  | symbol s => s.text.toList
  | run cs _ => cs

def lexemes : Piece → List Lexeme
  | blanks _ => []
  | keyword k => [.keyword k]
  | ident name => [.ident name]
  | symbol s => [.symbol s]
  | run _ ls => ls

/-- A run begins with no character that could end a symbol, and is read as its lexemes wherever
it stops. -/
def ReadsAs (cs : List Char) (ls : List Lexeme) : Prop :=
  cs ≠ [] ∧ NextChar (fun d => d ∉ [':', '=', '&', '|', '>']) cs ∧
    ∀ rest more, Stops rest → Spells rest more → Spells (cs ++ rest) (ls ++ more)

/-- A piece that can stand in a text by itself. -/
def Valid : Piece → Prop
  | blanks cs => cs ≠ [] ∧ NextChar (fun c => isAsciiBlank c = true) cs ∧ Trivia cs
  | keyword _ => True
  | ident name => isIdentifier name = true
  | symbol s => s.isPlain = true
  | run cs ls => ReadsAs cs ls

/-- Whether the reader keeps a piece apart from the next one. -/
def fits : Piece → Piece → Bool
  | blanks _, _ => true
  | symbol s, symbol t =>
    match s.text.toList, t.text.toList with
    | [c], d :: _ => doubleSymbol? c d = none
    | _, _ => true
  | symbol _, _ => true
  | run _ _, symbol s => s ≠ .dot
  | _, symbol _ => true
  | _, blanks _ => true
  | _, _ => false

/-- What has to follow a piece in the text. -/
def Before : Piece → List Char → Prop
  | blanks _, _ => True
  | keyword _, rest | ident _, rest => NextChar (fun c => continuesWord c = false) rest
  | symbol s, rest =>
    ∀ c, s.text.toList = [c] → NextChar (fun d => doubleSymbol? c d = none) rest
  | run _ _, rest => Stops rest

theorem spells {p : Piece} {rest : List Char} {ls : List Lexeme} (hp : p.Valid)
    (hrest : p.Before rest) (h : Spells rest ls) : Spells (p.chars ++ rest) (p.lexemes ++ ls) := by
  cases p with
  | blanks cs => exact h.trivia hp.2.2
  | keyword k => exact .keyword hrest h
  | ident name => exact .ident hp hrest h
  | symbol s => exact .symbol hp hrest h
  | run cs ls' => exact hp.2.2 rest ls hrest h

/-- How the text of a word begins. -/
theorem nextChar_word {name : String} {c : Char} {word rest : List Char}
    (htext : name.toList = c :: word) (hc : startsWord c = true) :
    NextChar (fun c => continuesWord c = true) (name.toList ++ rest) := by
  rw [htext]
  simpa [NextChar] using continuesWord_of_startsWord hc

theorem nextChar_symbol {s : Symbol} {rest : List Char} (hs : s.isPlain = true) :
    NextChar (fun c => beginsSymbol c = true ∧ ∃ tail, s.text.toList = c :: tail)
      (s.text.toList ++ rest) := by
  rcases Symbol.text_cases hs with ⟨c, htext, -, hc⟩ | ⟨c, d, htext, -, hc⟩ <;>
    simp [NextChar, htext, hc]

/-- No text of a piece that follows a symbol ends that symbol, symbols apart. -/
theorem nextChar_notSymbol {q : Piece} {rest : List Char} (hq : q.Valid)
    (hsymbol : ∀ s, q ≠ symbol s) (c : Char) :
    NextChar (fun d => doubleSymbol? c d = none) (q.chars ++ rest) := by
  cases q with
  | blanks cs =>
    exact (hq.2.1.mono fun d hd => doubleSymbol?_of_isAsciiBlank hd).append hq.1
  | keyword k =>
    obtain ⟨d, word, htext, hd, -⟩ := k.text_spec
    exact (nextChar_word htext hd).mono fun d hd => doubleSymbol?_of_continuesWord hd
  | ident name =>
    obtain ⟨d, word, htext, hd, -⟩ := startsLexeme_ident hq
    exact (nextChar_word htext hd).mono fun d hd => doubleSymbol?_of_continuesWord hd
  | symbol s => exact absurd rfl (hsymbol s)
  | run cs ls =>
    exact (hq.2.1.mono fun d hd => doubleSymbol?_eq_none hd).append hq.1

/-- What follows a word or a run, where blanks or a symbol do. -/
theorem stops_of_fits {q : Piece} {rest : List Char} (hq : q.Valid)
    (hfits : (run [] []).fits q = true) : Stops (q.chars ++ rest) := by
  cases q with
  | blanks cs =>
    refine (hq.2.1.mono fun c hc => ?_).append hq.1
    refine ⟨not_continuesWord_of_isAsciiBlank hc, ?_⟩
    rintro rfl
    exact absurd hc (by decide)
  | symbol s =>
    refine (nextChar_symbol hq).mono fun c hc => ⟨(beginsSymbol_iff.1 hc.1).1, ?_⟩
    obtain ⟨tail, htext⟩ := hc.2
    rintro rfl
    have hdot : s ≠ .dot := by simpa [fits] using hfits
    exact hdot (Symbol.eq_dot_of_head (by rw [htext]; rfl))
  | keyword _ | ident _ | run _ _ => exact absurd hfits (by simp [fits])

theorem nextChar_afterWord {q : Piece} {rest : List Char} (hq : q.Valid)
    (hfits : (ident "").fits q = true) :
    NextChar (fun c => continuesWord c = false) (q.chars ++ rest) := by
  cases q with
  | blanks cs =>
    exact (hq.2.1.mono fun c hc => not_continuesWord_of_isAsciiBlank hc).append hq.1
  | symbol s =>
    exact (nextChar_symbol hq).mono fun c hc => (beginsSymbol_iff.1 hc.1).1
  | keyword _ | ident _ | run _ _ => exact absurd hfits (by simp [fits])

/-- The reader keeps apart what fits. -/
theorem before_of_fits {p q : Piece} {rest : List Char} (hq : q.Valid) (hfits : p.fits q = true) :
    p.Before (q.chars ++ rest) := by
  cases p with
  | blanks _ => trivial
  | keyword _ => exact nextChar_afterWord hq (by cases q <;> exact hfits)
  | ident _ => exact nextChar_afterWord hq (by cases q <;> exact hfits)
  | run _ _ => exact stops_of_fits hq (by cases q <;> exact hfits)
  | symbol s =>
    intro c hc
    by_cases hsymbol : ∃ t, q = symbol t
    · obtain ⟨t, rfl⟩ := hsymbol
      refine (nextChar_symbol hq).mono fun d hd => ?_
      obtain ⟨tail, htext⟩ := hd.2
      simpa [fits, hc, htext] using hfits
    · exact nextChar_notSymbol hq (fun t ht => hsymbol ⟨t, ht⟩) c

/-- Every piece fits the next one. -/
def allFit : List Piece → Bool
  | p :: q :: rest => p.fits q && allFit (q :: rest)
  | _ => true

end Piece

/-- The characters `cs` are read as the lexemes `ls` in front of every text. -/
def Writes (cs : List Char) (ls : List Lexeme) : Prop :=
  ∀ rest more, Spells rest more → Spells (cs ++ rest) (ls ++ more)

theorem writes_nil : Writes [] [] := fun _ _ h => h

theorem Writes.append {cs ds : List Char} {ls ms : List Lexeme} (hcs : Writes cs ls)
    (hds : Writes ds ms) : Writes (cs ++ ds) (ls ++ ms) := by
  intro rest more h
  rw [List.append_assoc, List.append_assoc]
  exact hcs _ _ (hds _ _ h)

theorem Trivia.writes {cs : List Char} (h : Trivia cs) : Writes cs [] :=
  fun _ _ hrest => hrest.trivia h

theorem writes_flatMap {α : Type} {xs : List α} {f : α → List Char} {g : α → List Lexeme}
    (h : ∀ x ∈ xs, Writes (f x) (g x)) : Writes (xs.flatMap f) (xs.flatMap g) := by
  induction xs with
  | nil => exact writes_nil
  | cons x xs ih =>
    rw [List.flatMap_cons, List.flatMap_cons]
    exact (h x (by simp)).append (ih fun y hy => h y (by simp [hy]))

/-- The characters of a line, without its line feed. -/
def lineChars (line : List Piece) : List Char := line.flatMap Piece.chars

def lineLexemes (line : List Piece) : List Lexeme := line.flatMap Piece.lexemes

/-- Pieces that can stand in a text one after the other. -/
structure WellSpaced (line : List Piece) : Prop where
  valid : ∀ p ∈ line, p.Valid
  fits : Piece.allFit line = true

/-- A line of pieces is read as their lexemes. -/
theorem WellSpaced.writes {line : List Piece} (h : WellSpaced line) :
    Writes (lineChars line ++ ['\n']) (lineLexemes line) := by
  intro rest more hrest
  have hfeed : (Piece.blanks ['\n']).Valid :=
    ⟨by simp, by simp [NextChar, isAsciiBlank], trivia_blank (by decide)⟩
  obtain ⟨hvalid, hfits⟩ := h
  induction line with
  | nil =>
    rw [lineChars, List.flatMap_nil, List.nil_append]
    exact hrest.trivia (trivia_blank (by decide))
  | cons p line ih =>
    have hp : p.Valid := hvalid p (by simp)
    rw [lineChars, lineLexemes, List.flatMap_cons, List.flatMap_cons, List.append_assoc,
      List.append_assoc, List.append_assoc]
    -- the last piece is in front of the line feed, every other one in front of a piece that it fits
    cases line with
    | nil =>
      rw [List.flatMap_nil, List.flatMap_nil, List.nil_append, List.nil_append]
      refine Piece.spells hp ?_ (hrest.trivia (trivia_blank (by decide)))
      have hlast : p.fits (.blanks ['\n']) = true := by cases p <;> rfl
      exact Piece.before_of_fits hfeed hlast
    | cons q line =>
      simp only [Piece.allFit, Bool.and_eq_true] at hfits
      have hline := ih (fun r hr => hvalid r (by simp [hr])) hfits.2
      rw [List.append_assoc] at hline
      refine Piece.spells hp ?_ hline
      rw [List.flatMap_cons, List.append_assoc]
      exact Piece.before_of_fits (hvalid q (by simp)) hfits.1

end EnsembleCompiler.Target
