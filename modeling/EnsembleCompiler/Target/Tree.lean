import EnsembleCompiler.Target.Lexeme

/-!
# Syntax trees of the target language

The trees of the accepted subset: modules of functions, constants and imports, whose bodies are
blocks of statements and expressions. Trees are annotated with places of a type of one's choice:
a parser of a text leaves spans, and `Unit` forgets them.
-/

namespace EnsembleCompiler.Target

/-- The segments of a path, joined by `::` when written. -/
abbrev Path := List String

/-- From where an item can be used. -/
inductive Visibility where
  | inherited
  | everywhere
  /-- Within what the word stands for: `crate`, `self` or `super`. -/
  | within (scope : Keyword)
  deriving DecidableEq, Repr

/-- A name and its place. -/
structure Name (σ : Type) where
  place : σ
  text : String
  deriving DecidableEq, Repr

/-- An attribute of an item, or, as an inner one, of what it stands in. Its arguments are not
kept. -/
structure Attribute (σ : Type) where
  place : σ
  isInner : Bool
  path : Path
  deriving DecidableEq, Repr

/-- What an import brings into scope. -/
inductive UseTree where
  | glob
  | name (text : String)
  | segment (text : String) (rest : UseTree)
  | group (trees : List UseTree)
  deriving Repr

inductive UnaryOp where
  | neg
  | not
  | deref
  | ref (isMutable : Bool)
  deriving DecidableEq, Repr

inductive BinaryOp where
  | mul | div | rem | add | sub | eq | ne | lt | le | gt | ge | and | or
  deriving DecidableEq, Repr

namespace BinaryOp

/-- How tightly an operator binds its left operand; the right one is bound more tightly by one,
so that equal operators group to the left. -/
def power : BinaryOp → Nat
  | or => 2
  | and => 4
  | eq | ne | lt | le | gt | ge => 6
  | add | sub => 8
  | mul | div | rem => 10

/-- How tightly an operator binds its right operand. -/
def rightPower (op : BinaryOp) : Nat := op.power + 1

def isComparison : BinaryOp → Bool
  | eq | ne | lt | le | gt | ge => true
  | _ => false

def symbol : BinaryOp → Symbol
  | mul => .star | div => .slash | rem => .percent | add => .plus | sub => .minus
  | eq => .eqEq | ne => .notEq | lt => .lt | le => .le | gt => .gt | ge => .ge
  | and => .andAnd | or => .orOr

def all : List BinaryOp := [mul, div, rem, add, sub, eq, ne, lt, le, gt, ge, and, or]

/-- The operator that a symbol between operands stands for. -/
def ofSymbol? : Symbol → Option BinaryOp
  | .star => some mul | .slash => some div | .percent => some rem
  | .plus => some add | .minus => some sub
  | .eqEq => some eq | .notEq => some ne
  | .lt => some lt | .le => some le | .gt => some gt | .ge => some ge
  | .andAnd => some and | .orOr => some or
  | _ => none

end BinaryOp

/-- Conversions bind more tightly than every binary operator. -/
def castPower : Nat := 12

inductive Literal where
  | integer (value : Nat) (suffix : Option String)
  | float (value : Binary64) (suffix : Option String)
  | bool (value : Bool)
  | str (text : String)
  deriving DecidableEq

mutual

/-- A type. Places inside it are those of array lengths alone. -/
inductive TypeExpr (σ : Type) where
  | path (path : Path) (arguments : List (TypeExpr σ))
  | ref (isMutable : Bool) (target : TypeExpr σ)
  | slice (element : TypeExpr σ)
  | array (element : TypeExpr σ) (length : Expr σ)
  | tuple (elements : List (TypeExpr σ))
  | inferred

/-- A type with its place. -/
inductive Ascription (σ : Type) where
  | mk (place : σ) (type : TypeExpr σ)

inductive Expr (σ : Type) where
  | literal (place : σ) (value : Literal)
  | path (place : σ) (path : Path)
  | unary (place : σ) (op : UnaryOp) (operand : Expr σ)
  | binary (place : σ) (op : BinaryOp) (left right : Expr σ)
  /-- An assignment, which combines the old value with the new one if it has an operator. -/
  | assign (place : σ) (op : Option BinaryOp) (target value : Expr σ)
  | cast (place : σ) (operand : Expr σ) (type : Ascription σ)
  | call (place : σ) (callee : Expr σ) (arguments : List (Expr σ))
  | methodCall (place : σ) (receiver : Expr σ) (method : Name σ) (arguments : List (Expr σ))
  | field (place : σ) (operand : Expr σ) (name : Name σ)
  | index (place : σ) (operand index : Expr σ)
  /-- The operator `?`. -/
  | propagate (place : σ) (operand : Expr σ)
  | array (place : σ) (elements : List (Expr σ))
  | repeated (place : σ) (value length : Expr σ)
  | tuple (place : σ) (elements : List (Expr σ))
  | paren (place : σ) (inner : Expr σ)
  | block (block : Block σ)
  /-- A conditional; what follows `else` is a block or another conditional. -/
  | cond (place : σ) (condition : Expr σ) (body : Block σ) (otherwise : Option (Expr σ))
  | closure (place : σ) (parameters : List (Name σ)) (body : Expr σ)
  | ret (place : σ) (value : Option (Expr σ))

/-- Statements, and an expression for the value of the block. -/
inductive Block (σ : Type) where
  | mk (place : σ) (statements : List (Statement σ)) (tail : Option (Expr σ))

inductive Statement (σ : Type) where
  | binding (place : σ) (isMutable : Bool) (name : Name σ) (type : Option (Ascription σ))
      (value : Option (Expr σ))
  | expr (place : σ) (expr : Expr σ) (hasSemicolon : Bool)
  | item (item : Item σ)

inductive Parameter (σ : Type) where
  | mk (isMutable : Bool) (name : Name σ) (type : Ascription σ)

inductive Item (σ : Type) where
  | module (place : σ) (visibility : Visibility) (attributes : List (Attribute σ)) (name : Name σ)
      (items : List (Item σ))
  /-- A module whose text is elsewhere. -/
  | moduleFile (place : σ) (visibility : Visibility) (attributes : List (Attribute σ))
      (name : Name σ)
  | function (place : σ) (visibility : Visibility) (attributes : List (Attribute σ))
      (name : Name σ) (parameters : List (Parameter σ)) (result : Option (Ascription σ))
      (body : Block σ)
  | const (place : σ) (visibility : Visibility) (attributes : List (Attribute σ)) (name : Name σ)
      (type : Ascription σ) (value : Expr σ)
  | use (place : σ) (tree : UseTree)

end

/-- A whole text. -/
structure File (σ : Type) where
  attributes : List (Attribute σ)
  items : List (Item σ)

variable {σ : Type}

def Ascription.place : Ascription σ → σ
  | .mk place _ => place

def Block.place : Block σ → σ
  | .mk place _ _ => place

def Expr.place : Expr σ → σ
  | .literal place _ | .path place _ | .unary place _ _ | .binary place _ _ _
  | .assign place _ _ _ | .cast place _ _ | .call place _ _ | .methodCall place _ _ _
  | .field place _ _ | .index place _ _ | .propagate place _ | .array place _
  | .repeated place _ _ | .tuple place _ | .paren place _ | .cond place _ _ _
  | .closure place _ _ | .ret place _ => place
  | .block b => b.place

/-- Whether an expression ends a statement without a semicolon. -/
def Expr.isBlockLike : Expr σ → Bool
  | .block _ | .cond _ _ _ _ => true
  | _ => false

def Item.place : Item σ → σ
  | .module place _ _ _ _ | .moduleFile place _ _ _ | .function place _ _ _ _ _ _
  | .const place _ _ _ _ _ | .use place _ => place

def Statement.place : Statement σ → σ
  | .binding place _ _ _ _ | .expr place _ _ => place
  | .item i => i.place

end EnsembleCompiler.Target
