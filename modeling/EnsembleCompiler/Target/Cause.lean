import EnsembleCompiler.Target.Scanner

/-!
# Causes of syntax errors

Why lexemes are not a target text. A cause belongs to the place at which reading stopped; what
stands there is part of most messages.
-/

namespace EnsembleCompiler.Target

/-- What could have stood at a place. -/
inductive Expectation where
  | symbol (s : Symbol)
  | keyword (k : Keyword)
  | identifier
  | pathSegment
  | type
  | expression
  | item
  /-- A word that limits visibility. -/
  | scope
  /-- The end of a statement or of its block. -/
  | statementEnd
  /-- What follows `else`. -/
  | alternative
  deriving DecidableEq, Repr

namespace Expectation

def text : Expectation → String
  | symbol s => "'" ++ s.text ++ "'"
  | keyword k => "'" ++ k.text ++ "'"
  | identifier => "identifier"
  | pathSegment => "path segment"
  | type => "type"
  | expression => "expression"
  | item => "item"
  | scope => "`crate`, `self` or `super`"
  | statementEnd => "';' or '\x7d'"
  | alternative => "'\x7b' or 'if' after 'else'"

def help : Expectation → Option String
  | item => some "only `mod`, `use`, `const` and `fn` items are supported"
  | statementEnd => some "statements must be terminated with `;`"
  | _ => none

end Expectation

inductive SyntaxCause where
  | expected (what : Expectation)
  /-- The text ends inside a block; its brace is the lexeme of index `opener`. -/
  | openBlock (opener : Nat)
  | openModule (name : String)
  | openAttribute
  | unbalancedAttribute
  | innerAttribute
  | chainedComparison
  | macroCall (name : String)
  | reservedWord (word : String)
  | conditionalBinding
  | closureBody
  /-- More recursion or repetition than lexemes could ask for. -/
  | exhausted
  deriving DecidableEq, Repr

namespace SyntaxCause

/-- The message for a cause, given the lexeme at its place. -/
def message (cause : SyntaxCause) (here : Option Lexeme) : String :=
  match cause with
  | expected what => "expected " ++ what.text ++ ", found " ++ Lexeme.found here
  | openBlock _ => "expected '\x7d', found end of file"
  | openModule name => "expected '\x7d' to close module `" ++ name ++ "`, found end of file"
  | openAttribute => "unterminated attribute, expected ']'"
  | unbalancedAttribute => "unbalanced " ++ Lexeme.found here ++ " in attribute"
  | innerAttribute => "inner attribute is not permitted here"
  | chainedComparison => "comparison operators cannot be chained"
  | macroCall name => "macro invocation `" ++ name ++ "!` is not supported"
  | reservedWord word => "unsupported keyword `" ++ word ++ "`"
  | conditionalBinding => "`if let` is not supported"
  | closureBody => "closure with a return type needs a block body"
  | exhausted => "nested too deeply"

def notes : SyntaxCause → List String
  | openBlock _ => ["the block opened here is never closed"]
  | _ => []

/-- The help for a cause; `startOf` gives the offset of a lexeme. -/
def help (cause : SyntaxCause) (startOf : Nat → Nat) : Option String :=
  match cause with
  | expected what => what.help
  | openBlock opener => some ("block starts at byte " ++ Nat.repr (startOf opener))
  | innerAttribute => some "inner attributes (`#![...]`) must come before any item"
  | chainedComparison => some "use parentheses to group the comparisons"
  | macroCall _ => some "generated code must not depend on macros"
  | reservedWord _ => some "the checked subset covers `fn`, `const`, `let`, `if` and closures"
  | _ => none

end SyntaxCause

/-- A cause and the index of the lexeme at its place, which is the number of lexemes where the
place is the end of the text. -/
structure SyntaxError where
  position : Nat
  cause : SyntaxCause
  deriving DecidableEq, Repr

end EnsembleCompiler.Target
