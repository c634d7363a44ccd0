import EnsembleCompiler.Proofs.Target.Joining

/-!
# Written string literals

A text is written as a string literal by quotes around its characters, where those that have an
escape are written by it and all others stand for themselves. The scanner reads the literal as the
text it was written for, whatever stands behind it.
-/

namespace EnsembleCompiler.Target

/-- The letter that stands behind the backslash for a character which is written by an escape. -/
def escapeLetter? (c : Char) : Option Char :=
  match c with
  | '\n' => some 'n'
  | '\t' => some 't'
  | '\r' => some 'r'
  | '\x00' => some '0'
  | '\\' => some '\\'
  | '"' => some '"'
  | _ => none

/-- A character inside a string literal. -/
def quotedChar (c : Char) : List Char :=
  match escapeLetter? c with
  | some letter => ['\\', letter]
  | none => [c]

/-- The string literal of a text. -/
def quoted (text : String) : String :=
  String.ofList ('"' :: (text.toList.flatMap quotedChar ++ ['"']))

/-- An escape is read as the character that it was written for. -/
theorem escaped?_escapeLetter {c letter : Char} (h : escapeLetter? c = some letter) :
    escaped? letter = some c ∧ letter ≠ '\n' := by
  unfold escapeLetter? at h
  split at h <;> cases h <;> exact ⟨rfl, by decide⟩

theorem ne_of_escapeLetter?_none {c : Char} (h : escapeLetter? c = none) : c ≠ '\\' ∧ c ≠ '"' := by
  constructor
  all_goals rintro rfl; exact absurd h (by decide)

/-! ### Reading -/

/-- One character is read at a time: its escape as two bytes, or its own bytes. -/
theorem scanString_quotedChar (parts : StringParts) (c : Char) (rest : List Char) :
    scanString false parts (quotedChar c ++ rest) =
      scanString false (parts.push (byteLength (quotedChar c)) [c]) rest := by
  cases hletter : escapeLetter? c with
  | some letter =>
    obtain ⟨hescaped, hfeed⟩ := escaped?_escapeLetter hletter
    have hwidth : byteLength ['\\', letter] = 2 := by
      simp [utf8Size_of_escaped? hescaped, show '\\'.utf8Size = 1 from rfl]
    simp [quotedChar, hletter, scanString, hfeed, hescaped, ← hwidth]
  | none =>
    obtain ⟨hbackslash, hquote⟩ := ne_of_escapeLetter?_none hletter
    rw [quotedChar, hletter, List.singleton_append, scanString_char hbackslash]
    simp [hquote]

/-- The characters of a text are read one after the other, in front of what is left of a literal. -/
theorem scanString_quotedChars (parts : StringParts) (text rest : List Char) :
    scanString false parts (text.flatMap quotedChar ++ rest) =
      scanString false (parts.push (byteLength (text.flatMap quotedChar)) text.reverse) rest := by
  induction text generalizing parts with
  | nil => simp [StringParts.push]
  | cons c text ih =>
    rw [List.flatMap_cons, List.append_assoc, scanString_quotedChar, ih]
    simp [StringParts.push, Nat.add_assoc]

theorem toList_quoted (text : String) :
    (quoted text).toList = '"' :: (text.toList.flatMap quotedChar ++ ['"']) := by
  rw [quoted, String.toList_ofList]

/-- A written literal is read up to its closing quote. -/
theorem scanLexeme?_quoted (text : String) (rest : List Char) :
    scanLexeme? '"' (text.toList.flatMap quotedChar ++ '"' :: rest) =
      some ⟨.str text, (quoted text).utf8ByteSize, rest, []⟩ := by
  have hwidth : (quoted text).utf8ByteSize =
      1 + byteLength (text.toList.flatMap quotedChar) + 1 := by
    rw [← String.ofList_toList (s := quoted text), ← byteLength_eq_utf8ByteSize, toList_quoted]
    simp [show '"'.utf8Size = 1 from rfl, Nat.add_assoc]
  rw [scanLexeme?, if_neg (by decide), if_neg (by decide), if_pos rfl, scanString_quotedChars,
    scanString_char (by decide)]
  simp [StringParts.push, StringParts.finish, hwidth]

/-- **String literals read back.** In front of every text, the literal of a text is read as the first
token, which holds that text and spans the literal, without a fault: what else is found is found
behind the literal, where the rest is read as it is by itself. -/
theorem scan_quoted (text rest : String) :
    let literal : Span := ⟨0, (quoted text).utf8ByteSize⟩
    (scan (quoted text ++ rest)).tokens.head? = some ⟨.str text, literal⟩ ∧
      literal.slice (quoted text ++ rest) = quoted text ∧
      (∀ f ∈ (scan (quoted text ++ rest)).faults, literal.stop ≤ f.span.start) ∧
      scan (quoted text ++ rest) = (scan rest).behind [⟨.str text, literal⟩] literal.stop := by
  intro literal
  have hchars : (quoted text ++ rest).toList =
      '"' :: (text.toList.flatMap quotedChar ++ '"' :: rest.toList) := by
    rw [String.toList_append, toList_quoted]
    simp
  have hstart : skipTrivia .between 0 (quoted text ++ rest).toList =
      ⟨0, '"' :: (text.toList.flatMap quotedChar ++ '"' :: rest.toList), []⟩ := by
    rw [hchars]
    exact skipTrivia_of_startsLexeme ⟨by decide, fun h => absurd h (by decide)⟩ 0
  -- the literal is the first token, and behind it the scanner goes on as at a beginning
  have hscan : scan (quoted text ++ rest) =
      (scan rest).behind [⟨.str text, literal⟩] literal.stop := by
    have hbehind : scanFrom (0 + literal.stop) rest.toList [⟨.str text, literal⟩] [] =
        (scan rest).behind [⟨.str text, literal⟩] literal.stop :=
      scanFrom_shift literal.stop [⟨.str text, literal⟩] [] []
    rw [Nat.zero_add] at hbehind
    rw [scan, scanFrom_lexeme hstart (scanLexeme?_quoted text rest.toList)]
    simpa using hbehind
  have htext : (quoted text ++ rest).toList = [] ++ ((quoted text).toList ++ rest.toList) := by
    rw [List.nil_append, String.toList_append]
  have hslice := slice_of_append [] (quoted text).toList rest.toList htext
  rw [byteLength_nil, byteLength_eq_utf8ByteSize, String.ofList_toList, Nat.zero_add] at hslice
  have hfirst : (scan (quoted text ++ rest)).tokens.head? = some ⟨.str text, literal⟩ := by
    rw [hscan]
    rfl
  have hfaults : ∀ f ∈ (scan (quoted text ++ rest)).faults, literal.stop ≤ f.span.start := by
    intro f hf
    rw [hscan] at hf
    obtain ⟨g, -, rfl⟩ := List.mem_map.1 hf
    exact Nat.le_add_left _ _
  exact ⟨hfirst, hslice, hfaults, hscan⟩

/-- Escapes and raw characters of several bytes, with a fault behind the literal. -/
example : quoted "é'\n€" = "\"é'\\n€\"" ∧ (scan (quoted "é'\n€" ++ "@")).faults.length = 1 := by
  decide +kernel

end EnsembleCompiler.Target
