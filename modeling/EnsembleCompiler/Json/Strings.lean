import EnsembleCompiler.Json.Reader

/-!
# JSON strings

Characters between double quotes, without controls; a backslash begins an escape. Characters past
the sixteen-bit range are two hexadecimal escapes, which have to form a pair.
-/

namespace EnsembleCompiler.Json

/-- The digit that a hexadecimal character stands for. -/
def hexDigit? (c : Char) : Option Nat :=
  if c.isDigit then some (c.toNat - '0'.toNat)
  else if 'a' ≤ c && c ≤ 'f' then some (c.toNat - 'a'.toNat + 10)
  else if 'A' ≤ c && c ≤ 'F' then some (c.toNat - 'A'.toNat + 10)
  else none

/-- The number of four hexadecimal characters. -/
def hexValue? (cs : List Char) : Option Nat :=
  match cs.mapM hexDigit? with
  | some [a, b, c, d] => some (((a * 16 + b) * 16 + c) * 16 + d)
  | _ => none

/-- The character that an escape of one letter stands for. -/
def escaped? (c : Char) : Option Char :=
  match c with
  | '"' => some '"'
  | '\\' => some '\\'
  | '/' => some '/'
  | 'b' => some '\x08'
  | 'f' => some '\x0c'
  | 'n' => some '\n'
  | 'r' => some '\r'
  | 't' => some '\t'
  | _ => none

namespace Reader

/-- Four hexadecimal digits. Four bytes are read whatever they are; if there are fewer, the text
has ended. -/
def hexDigits : Reader Nat where
  run c :=
    let digits := c.rest.take 4
    match hexValue? digits with
    | some n => .ok (n, ⟨c.index + byteLength digits, c.rest.drop 4⟩)
    | none =>
      if byteLength digits < 4 then
        .error (.placed .endOfString (c.index + byteLength digits))
      else .error (.placed .invalidEscape (c.index + 4))
  reaches {c a d} h := by
    dsimp only at h
    split at h
    · cases h
      exact ⟨c.rest.take 4, (List.take_append_drop 4 c.rest).symm, rfl⟩
    · split at h <;> cases h
  placeless {c d} h := by
    dsimp only
    rw [h]
    split
    · rfl
    · split <;> rfl

/-- A character that a surrogate pair goes on with. -/
def pairMark (mark : Char) : Reader Unit := do
  match ← peek with
  | none => failHere .endOfString
  | some c => if c = mark then shift else failPast .endOfEscape

/-- The character of a hexadecimal escape, after its letter. -/
def unicodeEscape : Reader Char := do
  let high ← hexDigits
  if 0xDC00 ≤ high && high ≤ 0xDFFF then failHere .loneSurrogate
  if 0xD800 ≤ high && high ≤ 0xDBFF then
    pairMark '\\'
    pairMark 'u'
    let low ← hexDigits
    if low < 0xDC00 || 0xDFFF < low then failHere .loneSurrogate
    return Char.ofNat (0x10000 + (high - 0xD800) * 0x400 + (low - 0xDC00))
  return Char.ofNat high

/-- The letter of an escape, after its backslash: the character it stands for, or nothing for a
hexadecimal escape. -/
def escapeLetter : Reader (Option Char) := do
  match ← peek with
  | none => failHere .endOfString
  | some 'u' =>
    shift
    return none
  | some e =>
    match escaped? e with
    | some c =>
      shift
      return some c
    | none => failPast .invalidEscape

/-- One character of a string as it is written, or its closing quote. -/
def stringTurn (read : List Char) : Reader (Turn (List Char) (List Char)) := do
  match ← peek with
  | none => failHere .endOfString
  | some '"' =>
    shift
    return .leave read.reverse
  | some '\\' =>
    shift
    match ← escapeLetter with
    | some c => return .again (c :: read)
    | none => return .again ((← unicodeEscape) :: read)
  | some c =>
    if c.toNat < 0x20 then failPast .controlCharacter
    shift
    return .again (c :: read)

/-- The rest of a string after its opening quote. -/
def stringBody : Reader (List Char) := loop stringTurn []

/-- One character of a string whose value is not wanted, or its closing quote. -/
def skipStringTurn (_ : Unit) : Reader (Turn Unit Unit) := do
  match ← peek with
  | none => failHere .endOfString
  | some '"' =>
    shift
    return .leave ()
  | some '\\' =>
    shift
    if (← escapeLetter).isNone then
      let _ ← hexDigits
    return .again ()
  | some c =>
    if c.toNat < 0x20 then failHere .controlCharacter
    shift
    return .again ()

/-- The rest of a string whose value is not wanted: surrogates need not form pairs, and a control
character is not counted as read. -/
def skipString : Reader Unit := loop skipStringTurn ()

end Reader

end EnsembleCompiler.Json
