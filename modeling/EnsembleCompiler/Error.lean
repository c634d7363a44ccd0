import EnsembleCompiler.Diagnostic.Basic
import EnsembleCompiler.Emission.Options
import EnsembleCompiler.Model.Error

/-!
# Errors of a compilation

In the order of the stages that find them: the options, the document, the model, and the
generated text.
-/

namespace EnsembleCompiler

inductive CompileError where
  /-- The document is no JSON, or not of the right shape. -/
  | json (error : Json.Error)
  | model (error : ModelError)
  /-- The generated text is no target text. -/
  | integrity (diagnostics : List Diagnostic) (source : String)
  | option (error : NameError)

namespace CompileError

def message : CompileError → String
  | json error => "failed to decode model document: " ++ error.message
  | model error => error.message
  | integrity diagnostics _ =>
    let first :=
      match diagnostics with
      | d :: _ => d.text
      | [] => "none"
    "internal code generation error: generated source failed to parse ("
      ++ Nat.repr diagnostics.length ++ " diagnostic(s), first: " ++ first ++ ")"
  | option error => "invalid option `" ++ error.option.text ++ "`: " ++ error.message

/-- Whether the model is at fault. -/
def isInputError : CompileError → Bool
  | json _ | model _ => true
  | integrity _ _ | option _ => false

end CompileError

end EnsembleCompiler
