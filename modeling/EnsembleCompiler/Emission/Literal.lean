import EnsembleCompiler.Binary.Layout
import EnsembleCompiler.Emission.Options

/-!
# Floating-point literals of generated code

A value is rounded to the precision of the code and written with its type; values that have no
digits are written as constants of the type.
-/

namespace EnsembleCompiler

/-- Digits of literals: positional from `10 ^ -4` to below `10 ^ 16`, always with a fractional part
there, and no plus sign before an exponent. -/
def literalLayout : FloatLayout := ⟨fun e => -4 ≤ e && e < 16, true, false, .upward⟩

/-- The literal of a value of any format, given the name of its type. -/
def literalText {f : FloatFormat} (typeName : String) (x : Binary f) : String :=
  match x with
  | .nan => typeName ++ "::NAN"
  | .infinite negative => typeName ++ (if negative then "::NEG_INFINITY" else "::INFINITY")
  | .finite _ _ => literalLayout.text x ++ typeName

/-- The literal of a value rounded to a precision. -/
def floatLiteral (x : Binary64) (precision : Precision) : String :=
  literalText precision.typeName (x.convert precision.format)

end EnsembleCompiler
