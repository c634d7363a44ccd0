import EnsembleCompiler.Target.Grammar.Types

/-!
# The grammar of blocks and expressions

Binary operators are read by their binding powers: an operand reads on while the next operator
binds at least as tightly as it was asked to. Assignments bind least of all and group to the
right.
-/

namespace EnsembleCompiler.Target.Grammar

open Target.Parser

variable {σ : Type} [Places σ]

/-- A `let` statement. -/
def binding (table : Table σ) : Parser (Statement σ) := located do
  keyword .letKw
  let isMutable ← accept (.keyword .mutKw)
  let name ← binder
  let type ← if ← accept (.symbol .colon) then some <$> ascription (table .type) else pure none
  let value ← if ← accept (.symbol .eq) then some <$> table .expr else pure none
  symbol .semicolon
  return fun place => .binding place isMutable name type value

/-- Whether an item begins with these two lexemes. -/
def startsItem (here next : Option Lexeme) : Bool :=
  match here with
  | some (.keyword .fnKw) | some (.keyword .modKw) | some (.keyword .useKw)
  | some (.keyword .pubKw) | some (.symbol .hash) => true
  | some (.keyword .constKw) => next ≠ some (.symbol .leftBrace)
  | _ => false

/-- A statement that begins with `if` or a brace ends with its closing brace. -/
def statementExpr (table : Table σ) (here : Option Lexeme) : Parser (Expr σ) :=
  if here = some (.keyword .ifKw) then table .cond
  else if here = some (.symbol .leftBrace) then .block <$> table .block
  else table .expr

/-- The statements of a block and its value, up to its closing brace. -/
def blockBody (table : Table σ) (opener : Nat) :
    Parser (List (Statement σ) × Option (Expr σ)) :=
  loop (fun statements => do
    let (here, next) ← look
    if here = some (.symbol .rightBrace) then return .leave (statements.reverse, none)
    if here = none then fail (.openBlock opener)
    if here = some (.symbol .semicolon) then
      shift
      return .again statements
    if here = some (.keyword .letKw) then return .again ((← binding table) :: statements)
    if startsItem here next then return .again (.item (← table .item) :: statements)
    let e ← statementExpr table here
    if ← accept (.symbol .semicolon) then
      let last ← previousPlace
      return .again (.expr (Places.merge e.place last) e true :: statements)
    if ← at? (.symbol .rightBrace) then return .leave (statements.reverse, some e)
    if e.isBlockLike then return .again (.expr e.place e false :: statements)
    fail (.expected .statementEnd)) []

/-- A block. -/
def block (table : Table σ) : Parser (Block σ) := located do
  let opener ← position
  symbol .leftBrace
  let (statements, tail) ← blockBody table opener
  symbol .rightBrace
  return fun place => .mk place statements tail

/-- A conditional. -/
def cond (table : Table σ) : Parser (Expr σ) := located do
  keyword .ifKw
  if ← at? (.keyword .letKw) then fail .conditionalBinding
  let condition ← table .expr
  let body ← table .block
  let otherwise ← if ← accept (.keyword .elseKw) then
      match ← peek with
      | some (.keyword .ifKw) => some <$> table .cond
      | some (.symbol .leftBrace) => (some <| .block ·) <$> table .block
      | _ => fail (.expected .alternative)
    else pure none
  return fun place => .cond place condition body otherwise

/-- A parameter of a closure; its type is read and forgotten. -/
def closureParameter (table : Table σ) : Parser (Name σ) := do
  let name ← binder
  if ← accept (.symbol .colon) then
    let _ ← table .type
  return name

/-- The parameters of a closure between their bars, which stand together if there are none. -/
def closureParameters (table : Table σ) : Parser (List (Name σ)) := do
  if ← accept (.symbol .orOr) then return []
  symbol .pipe
  let names ← commaSeparated .pipe (closureParameter table) []
  symbol .pipe
  return names

/-- A closure. With a result type, which is forgotten, its body has to be a block. -/
def closure (table : Table σ) : Parser (Expr σ) := do
  let start ← currentPlace
  let parameters ← closureParameters table
  let body ← if ← accept (.symbol .arrow) then
      let _ ← table .type
      if ← at? (.symbol .leftBrace) then .block <$> table .block
      else fail .closureBody
    else table .expr
  return .closure (Places.merge start body.place) parameters body

/-- An expression in parentheses, or a tuple: the comma makes the difference. -/
def parenthesised (table : Table σ) : Parser (σ → Expr σ) := do
  symbol .leftParen
  if ← accept (.symbol .rightParen) then return fun place => .tuple place []
  let first ← table .expr
  if ← accept (.symbol .rightParen) then return fun place => .paren place first
  if !(← accept (.symbol .comma)) then fail (.expected (.symbol .rightParen))
  let elements ← commaSeparated .rightParen (table .expr) [first]
  symbol .rightParen
  return fun place => .tuple place elements

/-- The elements of an array after its first, up to its bracket. -/
def arrayElements (table : Table σ) (first : Expr σ) : Parser (List (Expr σ)) :=
  loop (fun elements => do
    if ← accept (.symbol .comma) then
      if ← at? (.symbol .rightBracket) then return .leave elements.reverse
      else return .again ((← table .expr) :: elements)
    else return .leave elements.reverse) [first]

/-- An array, by its elements or by a value and a length. -/
def bracketed (table : Table σ) : Parser (σ → Expr σ) := do
  symbol .leftBracket
  if ← accept (.symbol .rightBracket) then return fun place => .array place []
  let first ← table .expr
  if ← accept (.symbol .semicolon) then
    let length ← table .expr
    symbol .rightBracket
    return fun place => .repeated place first length
  let elements ← arrayElements table first
  symbol .rightBracket
  return fun place => .array place elements

/-- Whether `return` stands alone before this lexeme. -/
def endsReturn : Option Lexeme → Bool
  | none => true
  | some (.symbol s) =>
    s ∈ [.semicolon, .rightBrace, .rightParen, .rightBracket, .comma]
  | _ => false

/-- A `return` with its value, if it has one. -/
def ret (table : Table σ) : Parser (σ → Expr σ) := do
  shift
  if endsReturn (← peek) then return fun place => .ret place none
  let value ← table .expr
  return fun place => .ret place (some value)

/-- A path as an expression. A path before `!(` would be a macro call. -/
def pathExpr : Parser (σ → Expr σ) := do
  let p ← path
  let (here, next) ← look
  if here = some (.symbol .bang) && next = some (.symbol .leftParen) then
    fail (.macroCall (p.getLast?.getD ""))
  return fun place => .path place p

/-- The value of a literal. -/
def literal? : Option Lexeme → Option Literal
  | some (.integer value suffix) => some (.integer value suffix)
  | some (.float value suffix) => some (.float value suffix)
  | some (.str text) => some (.str text)
  | some (.keyword .trueKw) => some (.bool true)
  | some (.keyword .falseKw) => some (.bool false)
  | _ => none

/-- An expression without operators around it. -/
def primary (table : Table σ) : Parser (Expr σ) := do
  let here ← peek
  match literal? here with
  | some value => return .literal (← advance) value
  | none =>
    if (segment? here).isSome then located pathExpr
    else
      match here with
      | some (.symbol .leftParen) => located (parenthesised table)
      | some (.symbol .leftBracket) => located (bracketed table)
      | some (.symbol .leftBrace) => .block <$> block table
      | some (.keyword .ifKw) => cond table
      | some (.symbol .pipe) | some (.symbol .orOr) => closure table
      | some (.keyword .returnKw) => located (ret table)
      | some (.reserved word) => fail (.reservedWord word)
      | _ => fail (.expected .expression)

/-- The arguments of a call in their parentheses. -/
def arguments (table : Table σ) : Parser (List (Expr σ)) := do
  symbol .leftParen
  let list ← commaSeparated .rightParen (table .expr) []
  symbol .rightParen
  return list

/-- The name of a field or method, or the number of a tuple's element. -/
def fieldName : Parser (Name σ) := do
  match ← peek with
  | some (.integer value none) => return ⟨← advance, Nat.repr value⟩
  | _ => identifier

/-- A primary expression and the calls, indices and fields that follow it. -/
def postfixed (table : Table σ) : Parser (Expr σ) := do
  let first ← primary table
  loop (fun e => do
    match ← peek with
    | some (.symbol .leftParen) =>
      let list ← arguments table
      let last ← previousPlace
      return .again (.call (Places.merge e.place last) e list)
    | some (.symbol .leftBracket) =>
      shift
      let index ← table .expr
      symbol .rightBracket
      let last ← previousPlace
      return .again (.index (Places.merge e.place last) e index)
    | some (.symbol .question) =>
      let last ← advance
      return .again (.propagate (Places.merge e.place last) e)
    | some (.symbol .dot) =>
      shift
      let name ← fieldName
      if ← at? (.symbol .leftParen) then
        let list ← arguments table
        let last ← previousPlace
        return .again (.methodCall (Places.merge e.place last) e name list)
      else return .again (.field (Places.merge e.place name.place) e name)
    | _ => return .leave e) first

/-- The operators that stand before their operand, other than those for references. -/
def unaryOp? : Option Lexeme → Option UnaryOp
  | some (.symbol .minus) => some .neg
  | some (.symbol .bang) => some .not
  | some (.symbol .star) => some .deref
  | _ => none

/-- An expression with the operators before it. -/
def unary (table : Table σ) : Parser (Expr σ) := do
  let here ← peek
  match unaryOp? here with
  | some op =>
    let start ← advance
    let e ← table .unary
    return .unary (Places.merge start e.place) op e
  | none =>
    if here = some (.symbol .amp) then
      let start ← advance
      let isMutable ← accept (.keyword .mutKw)
      let e ← table .unary
      return .unary (Places.merge start e.place) (.ref isMutable) e
    else postfixed table

/-- The binary operator that a lexeme is. -/
def binaryOp? : Option Lexeme → Option BinaryOp
  | some (.symbol s) => BinaryOp.ofSymbol? s
  | _ => none

/-- An expression whose binary operators bind at least as tightly as `power`. Two comparisons
in a row are refused. -/
def operand (table : Table σ) (power : Nat) : Parser (Expr σ) := do
  let first ← unary table
  loop (fun (left, afterComparison) => do
    let here ← peek
    if here = some (.keyword .asKw) then
      if castPower < power then return .leave left
      shift
      let type ← ascription (table .type)
      return .again (.cast (Places.merge left.place type.place) left type, afterComparison)
    match binaryOp? here with
    | none => return .leave left
    | some op =>
      if op.power < power then return .leave left
      if op.isComparison && afterComparison then fail .chainedComparison
      shift
      let right ← table (.operand op.rightPower)
      return .again (.binary (Places.merge left.place right.place) op left right,
        op.isComparison)) (first, false)

/-- The assignment that a lexeme is: without an operator, or with one. -/
def assignOp? : Option Lexeme → Option (Option BinaryOp)
  | some (.symbol .eq) => some none
  | some (.symbol .plusEq) => some (some .add)
  | some (.symbol .minusEq) => some (some .sub)
  | some (.symbol .starEq) => some (some .mul)
  | some (.symbol .slashEq) => some (some .div)
  | _ => none

/-- An expression. -/
def expr (table : Table σ) : Parser (Expr σ) := do
  let target ← operand table 0
  match assignOp? (← peek) with
  | none => return target
  | some op =>
    shift
    let value ← table .expr
    return .assign (Places.merge target.place value.place) op target value

end EnsembleCompiler.Target.Grammar
