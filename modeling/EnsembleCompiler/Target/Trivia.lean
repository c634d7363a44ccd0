import EnsembleCompiler.Target.Fault

/-!
# Blanks and comments

What may stand between lexemes: ASCII blanks, comments to the end of a line, and block comments,
which nest.
-/

namespace EnsembleCompiler.Target

/-- The blanks of the target language. -/
def isAsciiBlank (c : Char) : Bool :=
  c = ' ' || c = '\t' || c = '\n' || c = '\x0c' || c = '\r'

/-- Where in the trivia a reader is. -/
inductive TriviaState where
  | between
  | lineComment
  /-- Inside block comments: how many are open, less one, and where the outermost begins. -/
  | blockComment (inner : Nat) (opened : Nat)
  deriving DecidableEq, Repr

/-- What is left after trivia, the offset at which it begins, and the comment left open. -/
structure AfterTrivia where
  offset : Nat
  rest : List Char
  faults : List LocatedFault

/-- Skips trivia. -/
def skipTrivia (state : TriviaState) (offset : Nat) (cs : List Char) : AfterTrivia :=
  match state, cs with
  | .between, '/' :: '/' :: rest => skipTrivia .lineComment (offset + 2) rest
  | .between, '/' :: '*' :: rest => skipTrivia (.blockComment 0 offset) (offset + 2) rest
  | .between, c :: rest =>
    if isAsciiBlank c then skipTrivia .between (offset + 1) rest else ⟨offset, c :: rest, []⟩
  | .lineComment, c :: rest =>
    skipTrivia (if c = '\n' then .between else .lineComment) (offset + c.utf8Size) rest
  | .blockComment inner opened, '/' :: '*' :: rest =>
    skipTrivia (.blockComment (inner + 1) opened) (offset + 2) rest
  | .blockComment inner opened, '*' :: '/' :: rest =>
    match inner with
    | 0 => skipTrivia .between (offset + 2) rest
    | inner + 1 => skipTrivia (.blockComment inner opened) (offset + 2) rest
  | .blockComment inner opened, c :: rest =>
    skipTrivia (.blockComment inner opened) (offset + c.utf8Size) rest
  | .blockComment _ opened, [] => ⟨offset, [], [⟨.openComment, ⟨opened, offset⟩⟩]⟩
  | _, [] => ⟨offset, [], []⟩
termination_by structural cs

theorem length_skipTrivia_le (state : TriviaState) (offset : Nat) (cs : List Char) :
    (skipTrivia state offset cs).rest.length ≤ cs.length := by
  fun_induction skipTrivia state offset cs <;> simp_all <;> omega

end EnsembleCompiler.Target
