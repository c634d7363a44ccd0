import EnsembleCompiler.Text.Unprintable

/-!
# Quoted text

Text in double quotes, in which every character is visible: tabs, line ends, null characters,
quotes and backslashes have two-character escapes, and unprintable characters are shown by
their number.
-/

namespace EnsembleCompiler.Text

/-- The form of a character inside quoted text. -/
def quotedChar (c : Char) : List Char :=
  match c with
  | '\t' => ['\\', 't']
  | '\r' => ['\\', 'r']
  | '\n' => ['\\', 'n']
  | '"' => ['\\', '"']
  | '\\' => ['\\', '\\']
  | '\x00' => ['\\', '0']
  | c => if isUnprintable c then numbered c else [c]
where
  numbered (c : Char) : List Char :=
    '\\' :: 'u' :: '\x7b' :: Nat.toDigits 16 c.toNat ++ ['\x7d']

/-- Text between quotes. -/
def quote (cs : List Char) : List Char := '"' :: cs.flatMap quotedChar ++ ['"']

/-- A string between quotes. -/
def quoted (s : String) : String := String.ofList (quote s.toList)

end EnsembleCompiler.Text
