import EnsembleCompiler.Target.Grammar.Goal

/-!
# The grammar of types
-/

namespace EnsembleCompiler.Target.Grammar

open Target.Parser

variable {σ : Type} [Places σ]

/-- A type with its place. -/
def ascription (type : Parser (TypeExpr σ)) : Parser (Ascription σ) := located do
  let t ← type
  return fun place => .mk place t

/-- What stands between the angle brackets after a path: at least one type. -/
def typeArguments (table : Table σ) : Parser (List (TypeExpr σ)) :=
  loop (fun arguments => do
    let t ← table .type
    if ← accept (.symbol .comma) then
      if ← at? (.symbol .gt) then return .leave (t :: arguments).reverse
      else return .again (t :: arguments)
    else return .leave (t :: arguments).reverse) []

/-- The target of a reference, which may be mutable. -/
def referenceType (table : Table σ) : Parser (TypeExpr σ) := do
  shift
  let isMutable ← accept (.keyword .mutKw)
  return .ref isMutable (← table .type)

/-- A type. -/
def typeExpr (table : Table σ) : Parser (TypeExpr σ) := do
  let here ← peek
  match here with
  | some (.symbol .amp) => referenceType table
  | some (.symbol .andAnd) => return .ref false (← referenceType table)
  | some (.symbol .leftBracket) =>
    shift
    let element ← table .type
    if ← accept (.symbol .semicolon) then
      let length ← table .expr
      symbol .rightBracket
      return .array element length
    else
      symbol .rightBracket
      return .slice element
  | some (.symbol .leftParen) =>
    shift
    let elements ← commaSeparated .rightParen (table .type) []
    symbol .rightParen
    return .tuple elements
  | some (.symbol .underscore) =>
    shift
    return .inferred
  | _ =>
    if (segment? here).isSome then
      let p ← path
      if ← accept (.symbol .lt) then
        let arguments ← typeArguments table
        symbol .gt
        return .path p arguments
      else return .path p []
    else fail (.expected .type)

end EnsembleCompiler.Target.Grammar
