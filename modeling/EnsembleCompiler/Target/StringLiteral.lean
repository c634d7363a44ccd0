import EnsembleCompiler.Target.Number
import EnsembleCompiler.Target.Trivia

/-!
# String literals

Text between double quotes. A backslash begins an escape of two characters; before a line feed it
stands for nothing and the blanks after it are skipped.
-/

namespace EnsembleCompiler.Target

/-- The character that an escape stands for. -/
def escaped? (c : Char) : Option Char :=
  match c with
  | 'n' => some '\n'
  | 't' => some '\t'
  | 'r' => some '\r'
  | '0' => some '\x00'
  | '\\' => some '\\'
  | '"' => some '"'
  | '\'' => some '\''
  | _ => none

/-- How a message shows a character that follows a backslash: by the first byte of its UTF-8
form, which is all that belongs to the escape. -/
def escapeShown (c : Char) : Char :=
  Char.ofNat ((String.utf8EncodeChar c).headD 0).toNat

/-- What becomes of the bytes of a character after its first, which belongs to a faulty escape. -/
def escapeRemainder (c : Char) : List Char := List.replicate (c.utf8Size - 1) '\ufffd'

/-- The parts of a string literal read so far: the number of bytes, the characters of its value,
last first, and its faults, last first. -/
structure StringParts where
  width : Nat
  value : List Char
  faults : List LocatedFault

namespace StringParts

def push (parts : StringParts) (bytes : Nat) (cs : List Char) : StringParts :=
  ⟨parts.width + bytes, cs ++ parts.value, parts.faults⟩

/-- A backslash and what follows it are no escape: two bytes are at fault. -/
def faulty (parts : StringParts) (shown : Char) (bytes : Nat) (cs : List Char) : StringParts :=
  ⟨parts.width + bytes, cs ++ parts.value,
    ⟨.unknownEscape shown, ⟨parts.width, parts.width + 2⟩⟩ :: parts.faults⟩

def finish (parts : StringParts) (rest : List Char) : Scanned :=
  ⟨.str (String.ofList parts.value.reverse), parts.width, rest, parts.faults.reverse⟩

/-- The end of the text comes before the closing quote. -/
def finishOpen (parts : StringParts) : Scanned :=
  finish ⟨parts.width, parts.value, ⟨.openString, ⟨0, parts.width⟩⟩ :: parts.faults⟩ []

end StringParts

/-- Reads the rest of a string literal. With `skipping`, blanks at the front are passed over. -/
def scanString (skipping : Bool) (parts : StringParts) : List Char → Scanned
  | [] => parts.finishOpen
  | '\\' :: [] => (parts.faulty ' ' 2 []).finishOpen
  | '\\' :: e :: rest =>
    if e = '\n' then scanString true (parts.push 2 []) rest
    else
      match escaped? e with
      | some c => scanString false (parts.push 2 [c]) rest
      | none =>
        scanString false (parts.faulty (escapeShown e) (1 + e.utf8Size) (escapeRemainder e)) rest
  | c :: rest =>
    if skipping && isAsciiBlank c then scanString true (parts.push 1 []) rest
    else if c = '"' then (parts.push 1 []).finish rest
    else scanString false (parts.push c.utf8Size [c]) rest

theorem length_scanString_le (skipping : Bool) (parts : StringParts) (cs : List Char) :
    (scanString skipping parts cs).rest.length ≤ cs.length := by
  fun_induction scanString skipping parts cs <;>
    simp_all [StringParts.finish, StringParts.finishOpen] <;> omega

end EnsembleCompiler.Target
