import EnsembleCompiler.Target.Lexeme

/-!
# Nesting of brackets

How deep the brackets of a text nest, as far as its lexemes tell without being parsed. Links of
the form `else if` are counted too, since each of them nests a conditional in another without a
bracket between them.
-/

namespace EnsembleCompiler.Target

/-- The pairs of brackets. -/
inductive Bracket where
  | paren | brace | square
  deriving DecidableEq, Repr

namespace Bracket

def opener : Bracket → Symbol
  | paren => .leftParen | brace => .leftBrace | square => .leftBracket

def closer : Bracket → Symbol
  | paren => .rightParen | brace => .rightBrace | square => .rightBracket

end Bracket

namespace Lexeme

/-- The bracket that a lexeme opens. -/
def opens? : Lexeme → Option Bracket
  | .symbol .leftParen => some .paren
  | .symbol .leftBrace => some .brace
  | .symbol .leftBracket => some .square
  | _ => none

/-- The bracket that a lexeme closes. -/
def closes? : Lexeme → Option Bracket
  | .symbol .rightParen => some .paren
  | .symbol .rightBrace => some .brace
  | .symbol .rightBracket => some .square
  | _ => none

end Lexeme

/-- What is known about the nesting of the lexemes read so far. -/
structure Nesting where
  /-- The brackets that are open; a closer without an opener changes nothing. -/
  opened : Nat := 0
  /-- The most brackets that were open at once. -/
  deepest : Nat := 0
  elseIfs : Nat := 0
  previous : Option Lexeme := none

/-- The nesting after one more lexeme. -/
def Nesting.read (n : Nesting) (x : Lexeme) : Nesting :=
  if x.opens?.isSome then
    { n with opened := n.opened + 1, deepest := max n.deepest (n.opened + 1), previous := x }
  else if x.closes?.isSome then { n with opened := n.opened - 1, previous := x }
  else if x = .keyword .ifKw ∧ n.previous = some (.keyword .elseKw) then
    { n with elseIfs := n.elseIfs + 1, previous := x }
  else { n with previous := x }

/-- The nesting depth of a text: its deepest bracket and its `else if` links. -/
def nestingDepth (lexemes : List Lexeme) : Nat :=
  let n := lexemes.foldl Nesting.read {}
  n.deepest + n.elseIfs

end EnsembleCompiler.Target
