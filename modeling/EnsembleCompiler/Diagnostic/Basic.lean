import EnsembleCompiler.Span

/-!
# Diagnostics

A remark about a span of a source text.
-/

namespace EnsembleCompiler

inductive Severity where
  | error
  | warning
  deriving DecidableEq, Repr

/-- A remark about a span, with notes that say more and help that says what to do. -/
structure Diagnostic where
  severity : Severity
  message : String
  span : Span
  notes : List String
  help : Option String
  deriving DecidableEq, Repr

namespace Diagnostic

/-- An error without notes and help. -/
def error (message : String) (span : Span) : Diagnostic := ⟨.error, message, span, [], none⟩

/-- The message and the span on one line. -/
def text (d : Diagnostic) : String :=
  s!"{d.message} at bytes {d.span.start}..{d.span.stop}"

end Diagnostic

end EnsembleCompiler
