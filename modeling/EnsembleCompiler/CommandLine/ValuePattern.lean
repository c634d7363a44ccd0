import EnsembleCompiler.Binary.Decimal
import EnsembleCompiler.Text.Alphanumeric

/-!
# Patterns of values

A filter may ask for a value of a field by a number or by a regular expression. No event is shown
for the sake of a value, so all that matters is whether a pattern is well formed. It holds no
closing brace, which ends the field: the opening brace of a count or a class is never closed.

Which patterns are well formed follows the regular expressions that the package `tracing-subscriber`
documents for the values of its filters.
-/

namespace EnsembleCompiler.CommandLine

/-- What an escape stands for. -/
inductive Escape where
  | literal (c : Char)
  /-- Any character of a class. -/
  | set
  /-- The start or the end of the text. -/
  | place
  deriving DecidableEq, Repr

/-- The value of a hexadecimal digit. -/
def hexValue? (c : Char) : Option Nat :=
  if c.isDigit then some (c.toNat - '0'.toNat)
  else if 'a' ≤ c.toLower ∧ c.toLower ≤ 'f' then some (c.toLower.toNat - 'a'.toNat + 10)
  else none

/-- Reads a character by its number, which has a fixed count of hexadecimal digits. -/
def readNumbered (count : Nat) (cs : List Char) : Option (Escape × List Char) := do
  let digits ← (cs.take count).mapM hexValue?
  let code := digits.foldl (16 * · + ·) 0
  if digits.length = count && (Char.ofNat code).toNat = code then
    return (.literal (Char.ofNat code), cs.drop count)
  else none

/-- Reads what follows a backslash. Word boundaries, references and unknown letters are refused;
signs stand for themselves. -/
def readEscape : List Char → Option (Escape × List Char)
  | [] => none
  | 'x' :: rest => readNumbered 2 rest
  | 'u' :: rest => readNumbered 4 rest
  | 'U' :: rest => readNumbered 8 rest
  | 'p' :: c :: rest | 'P' :: c :: rest =>
    if c.toLower ∈ ['c', 'l', 'm', 'n', 'p', 's', 'z'] then some (.set, rest) else none
  | 'a' :: rest => some (.literal '\x07', rest)
  | 'f' :: rest => some (.literal '\x0c', rest)
  | 't' :: rest => some (.literal '\t', rest)
  | 'n' :: rest => some (.literal '\n', rest)
  | 'r' :: rest => some (.literal '\r', rest)
  | 'v' :: rest => some (.literal '\x0b', rest)
  | 'A' :: rest | 'z' :: rest => some (.place, rest)
  | c :: rest =>
    if c.toLower ∈ ['d', 's', 'w'] then some (.set, rest)
    else if c.toNat < 0x80 && !c.isAlphanum && c ≠ '<' && c ≠ '>' then some (.literal c, rest)
    else none

/-- Reads a member of a bracketed set. Places are no members. -/
def readMember : List Char → Option (Escape × List Char)
  | [] => none
  | '\\' :: rest =>
    match readEscape rest with
    | some (.place, _) => none
    | result => result
  | c :: rest => some (.literal c, rest)

/-- What stands after an opening bracket, without the circumflex that negates the set, and without
the hyphens or the closing bracket that stand for themselves there. -/
def afterBracket (cs : List Char) : List Char :=
  let members :=
    match cs with
    | '^' :: rest => rest
    | _ => cs
  match members with
  | ']' :: rest => rest
  | _ => members.dropWhile (· = '-')

/-- Whether a range of a set goes upward, between two characters. -/
def isRange : Escape → Escape → Bool
  | .literal first, .literal last => first ≤ last
  | _, _ => false

/-- The text after a bracketed set, of which `depth` inner sets are open. Each turn reads something;
`steps` is the length of the text. -/
def afterSet (depth : Nat) : (steps : Nat) → List Char → Option (List Char)
  | 0, _ | _, [] => none
  | steps + 1, ']' :: rest => if depth = 0 then some rest else afterSet (depth - 1) steps rest
  | steps + 1, '[' :: rest => afterSet (depth + 1) steps (afterBracket rest)
  | steps + 1, '&' :: '&' :: rest | steps + 1, '-' :: '-' :: rest
  | steps + 1, '~' :: '~' :: rest => afterSet depth steps rest
  | steps + 1, cs => do
    let (first, rest) ← readMember cs
    match rest with
    | '-' :: ']' :: _ | '-' :: '-' :: _ => afterSet depth steps rest
    | '-' :: others =>
      let (last, rest) ← readMember others
      if isRange first last then afterSet depth steps rest else none
    | _ => afterSet depth steps rest

/-- How a parenthesis goes on. -/
inductive GroupHead where
  /-- A group, which may have a name. -/
  | group (name : Option (List Char))
  /-- Flags for the rest of the group around. -/
  | flags
  deriving DecidableEq, Repr

/-- Reads the name of a group up to its closing angle. -/
def readGroupName (cs : List Char) : Option (GroupHead × List Char) :=
  let name := cs.takeWhile (· ≠ '>')
  let isLetter (c : Char) := c = '_' || Text.isAlphanumeric c && !c.isDigit
  let continues (c : Char) := c ∈ ['_', '.', '[', ']'] || Text.isAlphanumeric c
  let isSound := name.head?.any isLetter && name.all continues
  match cs.dropWhile (· ≠ '>') with
  | _ :: rest => if isSound then some (.group (some name), rest) else none
  | [] => none

/-- Reads flags, each at most once, with a hyphen before those that are taken back. -/
def readFlags (cs : List Char) : Option (GroupHead × List Char) :=
  let flags := cs.takeWhile fun c => c ≠ ':' && c ≠ ')'
  let isSound := flags.all (· ∈ ['i', 'm', 's', 'U', 'u', 'R', 'x', '-'])
    && flags.eraseDups = flags && flags.getLast? ≠ some '-'
  match cs.drop flags.length with
  | ':' :: rest => if isSound then some (.group none, rest) else none
  | _ :: rest => if isSound && flags ≠ [] then some (.flags, rest) else none
  | [] => none

/-- Reads what follows an opening parenthesis. -/
def readGroupHead : List Char → Option (GroupHead × List Char)
  | '?' :: 'P' :: '<' :: rest | '?' :: '<' :: rest => readGroupName rest
  | '?' :: rest => readFlags rest
  | cs => some (.group none, cs)

/-- Whether a text goes on as a regular expression, inside `depth` groups and after groups of the
given names. `hasOperand` says whether there is something to repeat. Each turn reads something;
`steps` is the length of the text. -/
def continuesPattern (names : List (List Char)) (depth : Nat) (hasOperand : Bool) :
    (steps : Nat) → List Char → Bool
  | _, [] => depth = 0
  | 0, _ => false
  | steps + 1, c :: rest =>
    match c with
    | '(' =>
      match readGroupHead rest with
      | none => false
      | some (.flags, rest) => continuesPattern names depth false steps rest
      | some (.group none, rest) => continuesPattern names (depth + 1) false steps rest
      | some (.group (some name), rest) =>
        !names.contains name && continuesPattern (name :: names) (depth + 1) false steps rest
    | ')' => 0 < depth && continuesPattern names (depth - 1) true steps rest
    | '|' => continuesPattern names depth false steps rest
    | '*' | '+' | '?' =>
      hasOperand && continuesPattern names depth true steps
        (match rest with
        | '?' :: others => others
        | _ => rest)
    | '{' => false
    | '[' =>
      match afterSet 0 rest.length (afterBracket rest) with
      | some rest => continuesPattern names depth true steps rest
      | none => false
    | '\\' =>
      match readEscape rest with
      | some (_, rest) => continuesPattern names depth true steps rest
      | none => false
    | _ => continuesPattern names depth true steps rest

/-- Whether a text is a regular expression. -/
def isPattern (cs : List Char) : Bool := continuesPattern [] 0 false cs.length cs

/-- Whether a value can be asked for by a text: it is a number, or a pattern. -/
def isValueForm (cs : List Char) : Bool :=
  (Binary.ofText? .double (String.ofList cs)).isSome || isPattern cs

end EnsembleCompiler.CommandLine
