import EnsembleCompiler.Target.Parser
import EnsembleCompiler.Target.Tree

/-!
# Goals of the grammar

The grammar is a set of parsers that call each other. A call that may recur names its goal and
goes through a table of parsers, one for each goal; the definitions of the grammar take the table
as an argument. The place of a construct is put together from those of its lexemes and parts, so
the grammar is written once for every type of places.
-/

namespace EnsembleCompiler.Target

/-- The places that trees are annotated with. -/
class Places (σ : Type) where
  /-- The place of the lexeme with this index; past the last lexeme, of the end of the text. -/
  token : Nat → σ
  /-- The place that covers two. -/
  merge : σ → σ → σ
  /-- What stands for a place where there is none. -/
  dummy : σ

/-- The place of the lexeme before this index. -/
def Places.before {σ : Type} [Places σ] : Nat → σ
  | 0 => dummy
  | index + 1 => token index

/-- What a recursive call can ask for, with the type of its value. -/
inductive Goal (σ : Type) : Type → Type where
  | type : Goal σ (TypeExpr σ)
  | expr : Goal σ (Expr σ)
  /-- An expression whose binary operators bind at least this tightly. -/
  | operand (power : Nat) : Goal σ (Expr σ)
  | unary : Goal σ (Expr σ)
  | cond : Goal σ (Expr σ)
  | block : Goal σ (Block σ)
  | item : Goal σ (Item σ)
  | useTree : Goal σ UseTree

/-- A parser for every goal. -/
abbrev Table (σ : Type) := {α : Type} → Goal σ α → Parser α

namespace Parser

variable {α σ : Type}

section Places

variable [Places σ]

/-- The place of the next lexeme. -/
def currentPlace : Parser σ := do return Places.token (← position)

/-- The place of the lexeme that was read last. -/
def previousPlace : Parser σ := do return Places.before (← position)

/-- Passes over the next lexeme and says where it is. -/
def advance : Parser σ := do
  let place ← currentPlace
  shift
  return place

/-- Annotates what a parser reads with the place from its first lexeme to its last. -/
def located (p : Parser (σ → α)) : Parser α := do
  let start ← currentPlace
  let form ← p
  let last ← previousPlace
  return form (Places.merge start last)

/-- An identifier. -/
def identifier : Parser (Name σ) := do
  match ← peek with
  | some (.ident name) => return ⟨← advance, name⟩
  | _ => fail (.expected .identifier)

/-- An identifier, or an underscore where no name is wanted. -/
def binder : Parser (Name σ) := do
  if ← at? (.symbol .underscore) then return ⟨← advance, "_"⟩
  else identifier

end Places

/-- Items separated by commas, up to a closing symbol, which is left. A comma may follow the
last. The items read so far are kept last first. -/
def commaSeparated (close : Symbol) (item : Parser α) (items : List α) : Parser (List α) :=
  loop (fun items => do
    if ← at? (.symbol close) then return .leave items.reverse
    let x ← item
    if ← accept (.symbol .comma) then return .again (x :: items)
    return .leave (x :: items).reverse) items

end Parser

/-- The segment of a path that a lexeme is. -/
def segment? : Option Lexeme → Option String
  | some (.ident name) => some name
  | some (.keyword .crateKw) => some "crate"
  | some (.keyword .selfKw) => some "self"
  | some (.keyword .superKw) => some "super"
  | _ => none

namespace Parser

/-- A segment of a path. -/
def segment : Parser String := do
  match segment? (← peek) with
  | some text =>
    shift
    return text
  | none => fail (.expected .pathSegment)

/-- A path. A `::` that no segment follows is left. -/
def path : Parser Path := do
  let first ← segment
  loop (fun segments => do
    let (here, next) ← look
    if here = some (.symbol .pathSep) && (segment? next).isSome then
      shift
      return .again ((← segment) :: segments)
    else return .leave segments.reverse) [first]

end Parser

end EnsembleCompiler.Target
