import EnsembleCompiler.Diagnostic.Basic

/-!
# Lexical faults

What can be wrong with the lexemes of a target text.
-/

namespace EnsembleCompiler.Target

inductive LexicalFault where
  | unexpectedCharacter (c : Char)
  | openComment
  | openString
  | unknownEscape (shown : Char)
  /-- A suffix that names no numeric type, or not one for a number of this form. -/
  | numberSuffix (suffix : String)
  /-- A suffix that names no integer type, after digits of another radix than ten. -/
  | integerSuffix (suffix : String)
  | integerTooLarge (digits : String)
  | malformedFloat (digits : String)
  | malformedInteger (text : String)
  deriving DecidableEq, Repr

/-- Integer literals stay below this bound. -/
def integerBound : Nat := Nat.pow 2 128

namespace LexicalFault

def message : LexicalFault → String
  | unexpectedCharacter c => "unexpected character '" ++ String.singleton c ++ "'"
  | openComment => "unterminated block comment"
  | openString => "unterminated string literal"
  | unknownEscape shown => "unknown character escape '\\" ++ String.singleton shown ++ "'"
  | numberSuffix suffix => "invalid suffix `" ++ suffix ++ "` for number literal"
  | integerSuffix suffix => "invalid suffix `" ++ suffix ++ "` for integer literal"
  | integerTooLarge digits => "integer literal '" ++ digits ++ "' is too large"
  | malformedFloat digits => "malformed float literal '" ++ digits ++ "'"
  | malformedInteger text => "malformed integer literal '" ++ text ++ "'"

def help : LexicalFault → Option String
  | unexpectedCharacter _ => some "this character is not part of the supported Rust syntax"
  | openComment => some "every `/*` needs a matching `*/`"
  | numberSuffix _ => some "the suffix must be one of the numeric types"
  | integerTooLarge _ => some ("maximum integer value is " ++ Nat.repr (integerBound - 1))
  | _ => none

/-- The diagnostic for a fault at a span. -/
def diagnostic (fault : LexicalFault) (span : Span) : Diagnostic :=
  ⟨.error, fault.message, span, [], fault.help⟩

end LexicalFault

/-- A fault and where it is. -/
structure LocatedFault where
  fault : LexicalFault
  span : Span
  deriving DecidableEq, Repr

namespace LocatedFault

def shift (f : LocatedFault) (n : Nat) : LocatedFault := ⟨f.fault, f.span.shift n⟩

def diagnostic (f : LocatedFault) : Diagnostic := f.fault.diagnostic f.span

end LocatedFault

end EnsembleCompiler.Target
