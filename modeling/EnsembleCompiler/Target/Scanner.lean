import EnsembleCompiler.Target.StringLiteral

/-!
# The lexemes of a text

A text is read from left to right: trivia is skipped, and then the longest lexeme that its next
characters form is taken. A character that begins no lexeme is a fault and is passed over.
-/

namespace EnsembleCompiler.Target

/-- A lexeme and where it is. -/
structure Token where
  lexeme : Lexeme
  span : Span
  deriving DecidableEq

/-- Symbols of two characters. -/
def doubleSymbol? (c d : Char) : Option Symbol :=
  match c, d with
  | ':', ':' => some .pathSep
  | '+', '=' => some .plusEq
  | '*', '=' => some .starEq
  | '/', '=' => some .slashEq
  | '!', '=' => some .notEq
  | '<', '=' => some .le
  | '>', '=' => some .ge
  | '&', '&' => some .andAnd
  | '|', '|' => some .orOr
  | '-', '>' => some .arrow
  | '-', '=' => some .minusEq
  | '=', '=' => some .eqEq
  | '=', '>' => some .fatArrow
  | _, _ => none

/-- Symbols of one character. -/
def singleSymbol? (c : Char) : Option Symbol :=
  match c with
  | '(' => some .leftParen
  | ')' => some .rightParen
  | '\x7b' => some .leftBrace
  | '\x7d' => some .rightBrace
  | '[' => some .leftBracket
  | ']' => some .rightBracket
  | ',' => some .comma
  | ';' => some .semicolon
  | '.' => some .dot
  | '#' => some .hash
  | '?' => some .question
  | ':' => some .colon
  | '+' => some .plus
  | '*' => some .star
  | '/' => some .slash
  | '%' => some .percent
  | '!' => some .bang
  | '<' => some .lt
  | '>' => some .gt
  | '&' => some .amp
  | '|' => some .pipe
  | '-' => some .minus
  | '=' => some .eq
  | _ => none

/-- Reads a symbol, of two characters where they form one. -/
def scanSymbol? (c : Char) (rest : List Char) : Option Scanned :=
  match rest with
  | d :: tail =>
    match doubleSymbol? c d with
    | some s => some ⟨.symbol s, 2, tail, []⟩
    | none => (singleSymbol? c).map fun s => ⟨.symbol s, 1, rest, []⟩
  | [] => (singleSymbol? c).map fun s => ⟨.symbol s, 1, [], []⟩

/-- Reads a word. -/
def scanWord (cs : List Char) : Scanned :=
  let word := cs.takeWhile continuesWord
  ⟨.ofWord (String.ofList word), word.length, cs.dropWhile continuesWord, []⟩

/-- Reads the lexeme that begins with `c`, if one does. -/
def scanLexeme? (c : Char) (rest : List Char) : Option Scanned :=
  if startsWord c then some (scanWord (c :: rest))
  else if c.isDigit then some (scanNumber (c :: rest))
  else if c = '"' then some (scanString false ⟨1, [], []⟩ rest)
  else scanSymbol? c rest

theorem continuesWord_of_startsWord {c : Char} (h : startsWord c = true) :
    continuesWord c = true := by
  simp only [startsWord, continuesWord, Char.isAlphanum, Bool.or_eq_true] at *
  exact h.elim (fun h => .inl (.inl h)) .inr

/-- Every lexeme takes at least its first character. -/
theorem length_scanLexeme?_lt {c : Char} {rest : List Char} {s : Scanned}
    (h : scanLexeme? c rest = some s) : s.rest.length < (c :: rest).length := by
  unfold scanLexeme? at h
  split at h
  · next hw =>
    cases h
    have hc : continuesWord c = true := continuesWord_of_startsWord hw
    have := (List.dropWhile_suffix continuesWord (l := rest)).length_le
    simp only [scanWord, List.dropWhile_cons, hc, if_true, List.length_cons]
    omega
  · split at h
    · next hd =>
      cases h
      exact length_scanNumber_lt hd
    · split at h
      · cases h
        have := length_scanString_le false ⟨1, [], []⟩ rest
        simp only [List.length_cons]
        omega
      · unfold scanSymbol? at h
        split at h
        · split at h
          · cases h
            simp only [List.length_cons]
            omega
          · obtain ⟨_, _, rfl⟩ := Option.map_eq_some_iff.1 h
            simp
        · obtain ⟨_, _, rfl⟩ := Option.map_eq_some_iff.1 h
          simp

/-- The tokens of a text, the offset at which it ends, and its faults. -/
structure Scan where
  tokens : List Token
  stop : Nat
  faults : List LocatedFault
  deriving DecidableEq

/-- Reads a text from the given offset on. Tokens and faults read before are kept last first. -/
def scanFrom (offset : Nat) (cs : List Char) (tokens : List Token) (faults : List LocatedFault) :
    Scan :=
  let after := skipTrivia .between offset cs
  have _hle := length_skipTrivia_le .between offset cs
  let faults := after.faults.reverse ++ faults
  match _hrest : after.rest with
  | [] => ⟨tokens.reverse, after.offset, faults.reverse⟩
  | c :: rest =>
    match hs : scanLexeme? c rest with
    | some s =>
      have _hlt := length_scanLexeme?_lt hs
      let span : Span := ⟨after.offset, after.offset + s.width⟩
      scanFrom span.stop s.rest (⟨s.lexeme, span⟩ :: tokens)
        ((s.faults.map (·.shift after.offset)).reverse ++ faults)
    | none =>
      let span : Span := ⟨after.offset, after.offset + c.utf8Size⟩
      scanFrom span.stop rest tokens (⟨.unexpectedCharacter c, span⟩ :: faults)
termination_by cs.length
decreasing_by
  all_goals
    have heq : (skipTrivia .between offset cs).rest = c :: rest := _hrest
    simp_all only [List.length_cons]
    omega

/-- Reads a text. -/
def scan (source : String) : Scan := scanFrom 0 source.toList [] []

end EnsembleCompiler.Target
