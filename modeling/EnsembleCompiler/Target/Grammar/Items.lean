import EnsembleCompiler.Target.Grammar.Expressions

/-!
# The grammar of items and files

A file is read with as many levels of recursion as it has lexemes, and one more: between two
calls of one goal at least one lexeme is passed over.
-/

namespace EnsembleCompiler.Target.Grammar

open Target.Parser

variable {σ : Type} [Places σ]

/-- The lexemes of an attribute after its path, up to its closing bracket: brackets of any kind
are counted, and nothing else is looked at. -/
def attributeArguments : Parser Unit :=
  loop (fun depth => do
    match ← peek with
    | none => fail .openAttribute
    | some (.symbol .leftParen) | some (.symbol .leftBracket) | some (.symbol .leftBrace) =>
      shift
      return .again (depth + 1)
    | some (.symbol .rightParen) | some (.symbol .rightBrace) =>
      if depth = 0 then fail .unbalancedAttribute
      shift
      return .again (depth - 1)
    | some (.symbol .rightBracket) =>
      if depth = 0 then return .leave ()
      shift
      return .again (depth - 1)
    | _ =>
      shift
      return .again depth) 0

/-- An attribute. -/
def attr : Parser (Attribute σ) := located do
  symbol .hash
  let isInner ← accept (.symbol .bang)
  symbol .leftBracket
  let p ← path
  attributeArguments
  symbol .rightBracket
  return fun place => ⟨place, isInner, p⟩

/-- The attributes of what they stand in. -/
def innerAttributes : Parser (List (Attribute σ)) :=
  loop (fun attributes => do
    let (here, next) ← look
    if here = some (.symbol .hash) && next = some (.symbol .bang) then
      return .again ((← attr) :: attributes)
    else return .leave attributes.reverse) []

/-- The attributes of the item that follows. -/
def outerAttributes : Parser (List (Attribute σ)) :=
  loop (fun attributes => do
    let (here, next) ← look
    if here = some (.symbol .hash) then
      if next = some (.symbol .bang) then fail .innerAttribute
      return .again ((← attr) :: attributes)
    else return .leave attributes.reverse) []

/-- The visibility of an item. -/
def visibility : Parser Visibility := do
  if !(← accept (.keyword .pubKw)) then return .inherited
  if !(← accept (.symbol .leftParen)) then return .everywhere
  match ← peek with
  | some (.keyword k) =>
    if k ∈ [.crateKw, .selfKw, .superKw] then
      shift
      symbol .rightParen
      return .within k
    else fail (.expected .scope)
  | _ => fail (.expected .scope)

/-- A parameter of a function. -/
def parameter (table : Table σ) : Parser (Parameter σ) := do
  let isMutable ← accept (.keyword .mutKw)
  let name ← binder
  symbol .colon
  let type ← ascription (table .type)
  return .mk isMutable name type

/-- A function. -/
def function (table : Table σ) (v : Visibility) (attributes : List (Attribute σ)) :
    Parser (σ → Item σ) := do
  keyword .fnKw
  let name ← identifier
  symbol .leftParen
  let parameters ← commaSeparated .rightParen (parameter table) []
  symbol .rightParen
  let result ← if ← accept (.symbol .arrow) then some <$> ascription (table .type) else pure none
  let body ← table .block
  return fun place => .function place v attributes name parameters result body

/-- A constant. -/
def constant (table : Table σ) (v : Visibility) (attributes : List (Attribute σ)) :
    Parser (σ → Item σ) := do
  keyword .constKw
  let name ← identifier
  symbol .colon
  let type ← ascription (table .type)
  symbol .eq
  let value ← table .expr
  symbol .semicolon
  return fun place => .const place v attributes name type value

/-- The items of a module, up to its closing brace. -/
def moduleItems (table : Table σ) (name : String) : Parser (List (Item σ)) :=
  loop (fun items => do
    match ← peek with
    | some (.symbol .rightBrace) => return .leave items.reverse
    | none => fail (.openModule name)
    | _ => return .again ((← table .item) :: items)) []

/-- A module, whose items follow or are elsewhere. -/
def module (table : Table σ) (v : Visibility) (attributes : List (Attribute σ)) :
    Parser (σ → Item σ) := do
  keyword .modKw
  let name ← identifier
  if ← accept (.symbol .semicolon) then return fun place => .moduleFile place v attributes name
  symbol .leftBrace
  let inner ← innerAttributes
  let items ← moduleItems table name.text
  symbol .rightBrace
  return fun place => .module place v (attributes ++ inner) name items

/-- An import. -/
def use (table : Table σ) : Parser (σ → Item σ) := do
  keyword .useKw
  let tree ← table .useTree
  symbol .semicolon
  return fun place => .use place tree

/-- What an import names. -/
def useTree (table : Table σ) : Parser UseTree := do
  if ← accept (.symbol .star) then return .glob
  if ← accept (.symbol .leftBrace) then
    let trees ← commaSeparated .rightBrace (table .useTree) []
    symbol .rightBrace
    return .group trees
  let text ← segment
  if ← accept (.symbol .pathSep) then return .segment text (← table .useTree)
  return .name text

/-- An item. -/
def item (table : Table σ) : Parser (Item σ) := located do
  let attributes ← outerAttributes
  let v ← visibility
  let (here, next) ← look
  match here with
  | some (.keyword .fnKw) => function table v attributes
  | some (.keyword .constKw) =>
    if next = some (.keyword .fnKw) then
      shift
      function table v attributes
    else constant table v attributes
  | some (.keyword .modKw) => module table v attributes
  | some (.keyword .useKw) => use table
  | _ => fail (.expected .item)

/-- The parser of a goal, given those that it may call. -/
def step (table : Table σ) {α : Type} : Goal σ α → Parser α
  | .type => typeExpr table
  | .expr => expr table
  | .operand power => operand table power
  | .unary => unary table
  | .cond => cond table
  | .block => block table
  | .item => item table
  | .useTree => useTree table

/-- The parser of a goal with a bound on the depth of its recursion. -/
def parse : Nat → {α : Type} → Goal σ α → Parser α
  | 0, _, _ => fail .exhausted
  | depth + 1, _, goal => step (fun goal => parse depth goal) goal

/-- A file, given the parser of its items. -/
def file (item : Parser (Item σ)) : Parser (File σ) := do
  let attributes ← innerAttributes
  let items ← loop (fun items => do
    match ← peek with
    | none => return .leave items.reverse
    | _ => return .again ((← item) :: items)) []
  return ⟨attributes, items⟩

end Grammar

/-- The syntax tree of a list of lexemes. -/
def File.ofLexemes {σ : Type} [Places σ] (lexemes : List Lexeme) : Except SyntaxError (File σ) :=
  match (Grammar.file (Grammar.parse (lexemes.length + 1) .item)).run ⟨0, lexemes⟩ with
  | .done tree _ => .ok tree
  | .failed position cause => .error ⟨position, cause⟩

end EnsembleCompiler.Target
