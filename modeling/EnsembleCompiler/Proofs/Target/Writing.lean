import EnsembleCompiler.Proofs.Target.Blocks
import EnsembleCompiler.Proofs.Target.Brackets
import Mathlib.Data.List.Forall2

/-!
# Trees written as lexemes

A tree does not record everything that its text holds, so that it can be written in several ways.
`File.Written` relates a tree to its writings; in the plain manner there is one, `File.lexemes`,
and in the free manner a writing takes the liberties that are listed at `Manner`.
-/

namespace EnsembleCompiler.Target

variable {α σ : Type}

/-- Whether a writing takes the liberties that its tree does not record. These are
* a comma behind the last item of a list;
* semicolons between the statements of a block, though not behind a bare expression;
* types behind the parameters of a closure, and a type behind its parameter list;
* the arguments of an attribute;
* `const` in front of `fn`;
* attributes and a visibility in front of `use`;
* `&&` for two `&` in a type;
* two bars with nothing between them for a closure without parameters. -/
inductive Manner where
  | plain
  | free
  deriving DecidableEq

/-! ### Words -/

/-- A path with `::` between its segments. -/
def pathLexemes : Path → List Lexeme
  | [] => []
  | [segment] => [.ofWord segment]
  | segment :: rest => .ofWord segment :: .symbol .pathSep :: pathLexemes rest

/-- A field is named by a word or by the decimal digits of its number. -/
def fieldLexeme (name : String) : Lexeme :=
  if name.toList.head?.any Char.isDigit then .integer (Nat.ofDigitChars 10 name.toList 0) none
  else .ofWord name

def mutLexemes (isMutable : Bool) : List Lexeme :=
  if isMutable then [.keyword .mutKw] else []

def Visibility.lexemes : Visibility → List Lexeme
  | inherited => []
  | everywhere => [.keyword .pubKw]
  | within scope => [.keyword .pubKw, .symbol .leftParen, .keyword scope, .symbol .rightParen]

/-- An attribute with the given lexemes for its arguments. -/
def Attribute.lexemesWith (a : Attribute σ) (arguments : List Lexeme) : List Lexeme :=
  .symbol .hash :: (if a.isInner then [.symbol .bang] else []) ++
    .symbol .leftBracket :: pathLexemes a.path ++ arguments ++ [Lexeme.symbol .rightBracket]

def Attribute.lexemes (a : Attribute σ) : List Lexeme := a.lexemesWith []

def Literal.lexeme : Literal → Lexeme
  | integer value suffix => .integer value suffix
  | float value suffix => .float value suffix
  | bool true => .keyword .trueKw
  | bool false => .keyword .falseKw
  | str text => .str text

def UnaryOp.lexemes : UnaryOp → List Lexeme
  | neg => [.symbol .minus]
  | not => [.symbol .bang]
  | deref => [.symbol .star]
  | ref isMutable => .symbol .amp :: mutLexemes isMutable

/-- The symbol of an assignment. Only four operators have one of their own. -/
def assignSymbol : Option BinaryOp → Symbol
  | some .add => .plusEq
  | some .sub => .minusEq
  | some .mul => .starEq
  | some .div => .slashEq
  | _ => .eq

/-! ### The plain writing -/

mutual

def UseTree.lexemes : UseTree → List Lexeme
  | .glob => [.symbol .star]
  | .name text => [.ofWord text]
  | .segment text rest => .ofWord text :: .symbol .pathSep :: rest.lexemes
  | .group trees =>
    .symbol .leftBrace :: commaLexemes (UseTree.allLexemes trees) ++ [Lexeme.symbol .rightBrace]

def UseTree.allLexemes : List UseTree → List (List Lexeme)
  | [] => []
  | t :: rest => t.lexemes :: UseTree.allLexemes rest

end

mutual

def TypeExpr.lexemes : TypeExpr σ → List Lexeme
  | .path p [] => pathLexemes p
  | .path p arguments =>
    pathLexemes p ++ .symbol .lt :: commaLexemes (TypeExpr.allLexemes arguments) ++
      [Lexeme.symbol .gt]
  | .ref isMutable target => .symbol .amp :: mutLexemes isMutable ++ target.lexemes
  | .slice element => .symbol .leftBracket :: element.lexemes ++ [Lexeme.symbol .rightBracket]
  | .array element length =>
    .symbol .leftBracket :: element.lexemes ++ .symbol .semicolon :: length.lexemes ++
      [Lexeme.symbol .rightBracket]
  | .tuple elements =>
    .symbol .leftParen :: commaLexemes (TypeExpr.allLexemes elements) ++ [Lexeme.symbol .rightParen]
  | .inferred => [.symbol .underscore]

def TypeExpr.allLexemes : List (TypeExpr σ) → List (List Lexeme)
  | [] => []
  | t :: rest => t.lexemes :: TypeExpr.allLexemes rest

def Ascription.lexemes : Ascription σ → List Lexeme
  | .mk _ type => type.lexemes

/-- A type behind a mark, or neither. -/
def Ascription.optionLexemes (mark : List Lexeme) : Option (Ascription σ) → List Lexeme
  | none => []
  | some a => mark ++ a.lexemes

def Expr.lexemes : Expr σ → List Lexeme
  | .literal _ value => [value.lexeme]
  | .path _ p => pathLexemes p
  | .unary _ op operand => op.lexemes ++ operand.lexemes
  | .binary _ op left right => left.lexemes ++ .symbol op.symbol :: right.lexemes
  | .assign _ op target value => target.lexemes ++ .symbol (assignSymbol op) :: value.lexemes
  | .cast _ operand type => operand.lexemes ++ .keyword .asKw :: type.lexemes
  | .call _ callee arguments =>
    callee.lexemes ++ .symbol .leftParen :: commaLexemes (Expr.allLexemes arguments) ++
      [Lexeme.symbol .rightParen]
  | .methodCall _ receiver method arguments =>
    receiver.lexemes ++ .symbol .dot :: fieldLexeme method.text ::
      .symbol .leftParen :: commaLexemes (Expr.allLexemes arguments) ++ [Lexeme.symbol .rightParen]
  | .field _ operand name => operand.lexemes ++ [Lexeme.symbol .dot, fieldLexeme name.text]
  | .index _ operand index =>
    operand.lexemes ++ .symbol .leftBracket :: index.lexemes ++ [Lexeme.symbol .rightBracket]
  | .propagate _ operand => operand.lexemes ++ [Lexeme.symbol .question]
  | .array _ elements =>
    .symbol .leftBracket :: commaLexemes (Expr.allLexemes elements) ++ [Lexeme.symbol .rightBracket]
  | .repeated _ value length =>
    .symbol .leftBracket :: value.lexemes ++ .symbol .semicolon :: length.lexemes ++
      [Lexeme.symbol .rightBracket]
  | .tuple _ [element] =>
    .symbol .leftParen :: element.lexemes ++ [Lexeme.symbol .comma, .symbol .rightParen]
  | .tuple _ elements =>
    .symbol .leftParen :: commaLexemes (Expr.allLexemes elements) ++ [Lexeme.symbol .rightParen]
  | .paren _ inner => .symbol .leftParen :: inner.lexemes ++ [Lexeme.symbol .rightParen]
  | .block b => b.lexemes
  | .cond _ condition body otherwise =>
    .keyword .ifKw :: condition.lexemes ++ body.lexemes ++
      Expr.optionLexemes [.keyword .elseKw] otherwise
  | .closure _ [] body => .symbol .orOr :: body.lexemes
  | .closure _ parameters body =>
    .symbol .pipe :: commaLexemes (parameters.map ([.ofWord ·.text])) ++
      .symbol .pipe :: body.lexemes
  | .ret _ value => .keyword .returnKw :: Expr.optionLexemes [] value

def Expr.allLexemes : List (Expr σ) → List (List Lexeme)
  | [] => []
  | e :: rest => e.lexemes :: Expr.allLexemes rest

/-- An expression behind a mark, or neither. -/
def Expr.optionLexemes (mark : List Lexeme) : Option (Expr σ) → List Lexeme
  | none => []
  | some e => mark ++ e.lexemes

def Block.lexemes : Block σ → List Lexeme
  | .mk _ statements tail =>
    .symbol .leftBrace :: Statement.allLexemes statements ++ Expr.optionLexemes [] tail ++
      [Lexeme.symbol .rightBrace]

def Statement.lexemes : Statement σ → List Lexeme
  | .binding _ isMutable name type value =>
    .keyword .letKw :: mutLexemes isMutable ++ .ofWord name.text ::
      Ascription.optionLexemes [.symbol .colon] type ++ Expr.optionLexemes [.symbol .eq] value ++
      [Lexeme.symbol .semicolon]
  | .expr _ e hasSemicolon => e.lexemes ++ if hasSemicolon then [.symbol .semicolon] else []
  | .item i => i.lexemes

def Statement.allLexemes : List (Statement σ) → List Lexeme
  | [] => []
  | s :: rest => s.lexemes ++ Statement.allLexemes rest

def Parameter.lexemes : Parameter σ → List Lexeme
  | .mk isMutable name type =>
    mutLexemes isMutable ++ .ofWord name.text :: .symbol .colon :: type.lexemes

def Parameter.allLexemes : List (Parameter σ) → List (List Lexeme)
  | [] => []
  | p :: rest => p.lexemes :: Parameter.allLexemes rest

/-- The attributes of a module that are inner ones stand behind its brace. -/
def Item.lexemes : Item σ → List Lexeme
  | .module _ v attributes name items =>
    (attributes.filter (! ·.isInner)).flatMap Attribute.lexemes ++ v.lexemes ++
      .keyword .modKw :: .ofWord name.text :: .symbol .leftBrace ::
      (attributes.filter (·.isInner)).flatMap Attribute.lexemes ++ Item.allLexemes items ++
      [Lexeme.symbol .rightBrace]
  | .moduleFile _ v attributes name =>
    attributes.flatMap Attribute.lexemes ++ v.lexemes ++
      [.keyword .modKw, .ofWord name.text, .symbol .semicolon]
  | .function _ v attributes name parameters result body =>
    attributes.flatMap Attribute.lexemes ++ v.lexemes ++
      .keyword .fnKw :: .ofWord name.text :: .symbol .leftParen ::
      commaLexemes (Parameter.allLexemes parameters) ++ .symbol .rightParen ::
      Ascription.optionLexemes [.symbol .arrow] result ++ body.lexemes
  | .const _ v attributes name type value =>
    attributes.flatMap Attribute.lexemes ++ v.lexemes ++
      .keyword .constKw :: .ofWord name.text :: .symbol .colon :: type.lexemes ++
      .symbol .eq :: value.lexemes ++ [Lexeme.symbol .semicolon]
  | .use _ tree => .keyword .useKw :: tree.lexemes ++ [Lexeme.symbol .semicolon]

def Item.allLexemes : List (Item σ) → List Lexeme
  | [] => []
  | i :: rest => i.lexemes ++ Item.allLexemes rest

end

def File.lexemes (file : File σ) : List Lexeme :=
  file.attributes.flatMap Attribute.lexemes ++ Item.allLexemes file.items

/-! ### All writings -/

/-- Items with commas between them. -/
inductive Commas (m : Manner) (lss : List (List Lexeme)) : List Lexeme → Prop
  | between : Commas m lss (commaLexemes lss)
  | behind : m = .free → lss ≠ [] → Commas m lss (commaLexemes lss ++ [Lexeme.symbol .comma])

/-- Items one after the other. -/
inductive Series (P : α → List Lexeme → Prop) : List α → List Lexeme → Prop
  | nil : Series P [] []
  | cons {a : α} {as : List α} {ls ms : List Lexeme} :
      P a ls → Series P as ms → Series P (a :: as) (ls ++ ms)

/-- Whether a statement is an expression without a semicolon. -/
def Statement.isBare : Statement σ → Bool
  | .expr _ _ hasSemicolon => !hasSemicolon
  | _ => false

/-- Statements one after the other and, if they are `spare`, empty statements between them. A
semicolon behind a bare expression would belong to it: there is no empty statement right behind one,
and at the front only if there `mayBeEmpty`. -/
inductive Statements (spare : Prop) (semicolon : α) (P : Statement σ → List α → Prop) :
    Bool → List (Statement σ) → List α → Prop
  | nil {mayBeEmpty : Bool} : Statements spare semicolon P mayBeEmpty [] []
  | cons {mayBeEmpty : Bool} {s : Statement σ} {ss : List (Statement σ)} {xs ys : List α} :
      P s xs → Statements spare semicolon P (!s.isBare) ss ys →
      Statements spare semicolon P mayBeEmpty (s :: ss) (xs ++ ys)
  | empty {ss : List (Statement σ)} {xs : List α} : spare →
      Statements spare semicolon P true ss xs →
      Statements spare semicolon P true ss (semicolon :: xs)

/-- Whether an empty statement may stand behind these. -/
def Statement.mayBeEmptyAfter (mayBeEmpty : Bool) (ss : List (Statement σ)) : Bool :=
  ss.foldl (fun _ s => !s.isBare) mayBeEmpty

namespace Statements

variable {spare : Prop} {semicolon : α} {P : Statement σ → List α → Prop} {mayBeEmpty : Bool}
  {ss : List (Statement σ)} {xs : List α}

theorem each (h : Statements spare semicolon P mayBeEmpty ss xs) : ∀ s ∈ ss, ∃ ys, P s ys := by
  induction h with
  | nil => simp
  | cons hs _ ih => exact List.forall_mem_cons.2 ⟨⟨_, hs⟩, ih⟩
  | empty _ _ ih => exact ih

theorem concat (h : Statements spare semicolon P mayBeEmpty ss xs) {s : Statement σ}
    {ys : List α} (hs : P s ys) :
    Statements spare semicolon P mayBeEmpty (ss ++ [s]) (xs ++ ys) := by
  induction h with
  | nil => simpa using cons hs .nil
  | cons hfirst _ ih => simpa using cons hfirst ih
  | empty hspare _ ih => exact empty hspare ih

theorem concatEmpty (h : Statements spare semicolon P mayBeEmpty ss xs) (hspare : spare)
    (hafter : Statement.mayBeEmptyAfter mayBeEmpty ss = true) :
    Statements spare semicolon P mayBeEmpty ss (xs ++ [semicolon]) := by
  induction h with
  | nil =>
    obtain rfl : _ = true := hafter
    exact empty hspare nil
  | cons hs _ ih =>
    rw [List.append_assoc]
    exact cons hs (ih hafter)
  | empty _ _ ih => exact empty hspare (ih hafter)

end Statements

/-- A part behind its mark, or neither. -/
inductive Optional (P : α → List Lexeme → Prop) (mark : List Lexeme) :
    Option α → List Lexeme → Prop
  | absent : Optional P mark none []
  | present {a : α} {ls : List Lexeme} : P a ls → Optional P mark (some a) (mark ++ ls)

/-- A lexeme that need not stand where it may. -/
inductive Spare (m : Manner) (x : Lexeme) : List Lexeme → Prop
  | absent : Spare m x []
  | present : m = .free → Spare m x [x]

inductive Attribute.Written (m : Manner) (a : Attribute σ) : List Lexeme → Prop
  | bare : Attribute.Written m a a.lexemes
  | applied {arguments : List Lexeme} : m = .free → Nested 0 arguments →
      Attribute.Written m a (a.lexemesWith arguments)

/-- Attributes one after the other. -/
abbrev Attribute.AllWritten (m : Manner) : List (Attribute σ) → List Lexeme → Prop :=
  Series (Attribute.Written m)

inductive UseTree.Written (m : Manner) : UseTree → List Lexeme → Prop
  | glob : UseTree.Written m .glob [.symbol .star]
  | name {text : String} : UseTree.Written m (.name text) [.ofWord text]
  | segment {text : String} {rest : UseTree} {ls : List Lexeme} : UseTree.Written m rest ls →
      UseTree.Written m (.segment text rest) (.ofWord text :: .symbol .pathSep :: ls)
  | group {trees : List UseTree} {lss : List (List Lexeme)} {ls : List Lexeme} :
      List.Forall₂ (UseTree.Written m) trees lss → Commas m lss ls →
      UseTree.Written m (.group trees) (.symbol .leftBrace :: ls ++ [Lexeme.symbol .rightBrace])

mutual

inductive TypeExpr.Written (m : Manner) : TypeExpr σ → List Lexeme → Prop
  | path {p : Path} : TypeExpr.Written m (.path p []) (pathLexemes p)
  | applied {p : Path} {ts : List (TypeExpr σ)} {lss : List (List Lexeme)} {ls : List Lexeme} :
      ts ≠ [] → List.Forall₂ (TypeExpr.Written m) ts lss → Commas m lss ls →
      TypeExpr.Written m (.path p ts) (pathLexemes p ++ .symbol .lt :: ls ++ [Lexeme.symbol .gt])
  | ref {isMutable : Bool} {t : TypeExpr σ} {ls : List Lexeme} : TypeExpr.Written m t ls →
      TypeExpr.Written m (.ref isMutable t) (.symbol .amp :: mutLexemes isMutable ++ ls)
  | refRef {isMutable : Bool} {t : TypeExpr σ} {ls : List Lexeme} :
      m = .free → TypeExpr.Written m t ls →
      TypeExpr.Written m (.ref false (.ref isMutable t))
        (.symbol .andAnd :: mutLexemes isMutable ++ ls)
  | slice {t : TypeExpr σ} {ls : List Lexeme} : TypeExpr.Written m t ls →
      TypeExpr.Written m (.slice t) (.symbol .leftBracket :: ls ++ [Lexeme.symbol .rightBracket])
  | array {t : TypeExpr σ} {e : Expr σ} {ls ms : List Lexeme} :
      TypeExpr.Written m t ls → Expr.Written m e ms →
      TypeExpr.Written m (.array t e)
        (.symbol .leftBracket :: ls ++ .symbol .semicolon :: ms ++ [Lexeme.symbol .rightBracket])
  | tuple {ts : List (TypeExpr σ)} {lss : List (List Lexeme)} {ls : List Lexeme} :
      List.Forall₂ (TypeExpr.Written m) ts lss → Commas m lss ls →
      TypeExpr.Written m (.tuple ts) (.symbol .leftParen :: ls ++ [Lexeme.symbol .rightParen])
  | inferred : TypeExpr.Written m .inferred [.symbol .underscore]

inductive Ascription.Written (m : Manner) : Ascription σ → List Lexeme → Prop
  | mk {place : σ} {t : TypeExpr σ} {ls : List Lexeme} : TypeExpr.Written m t ls →
      Ascription.Written m (.mk place t) ls

/-- The arguments of a call in their parentheses. -/
inductive Expr.ArgumentsWritten (m : Manner) : List (Expr σ) → List Lexeme → Prop
  | mk {es : List (Expr σ)} {lss : List (List Lexeme)} {ls : List Lexeme} :
      List.Forall₂ (Expr.Written m) es lss → Commas m lss ls →
      Expr.ArgumentsWritten m es (.symbol .leftParen :: ls ++ [Lexeme.symbol .rightParen])

/-- A parameter of a closure, with a type that the tree does not hold. -/
inductive Name.ParameterWritten (m : Manner) : Name σ → List Lexeme → Prop
  | bare {name : Name σ} : Name.ParameterWritten m name [.ofWord name.text]
  | typed {name : Name σ} {t : TypeExpr σ} {ls : List Lexeme} :
      m = .free → TypeExpr.Written m t ls →
      Name.ParameterWritten m name (.ofWord name.text :: .symbol .colon :: ls)

/-- The parameters of a closure between their bars. -/
inductive Name.ParametersWritten (m : Manner) : List (Name σ) → List Lexeme → Prop
  | none : Name.ParametersWritten m [] [.symbol .orOr]
  | apart : m = .free → Name.ParametersWritten m [] [.symbol .pipe, .symbol .pipe]
  | some {names : List (Name σ)} {lss : List (List Lexeme)} {ls : List Lexeme} :
      names ≠ [] → List.Forall₂ (Name.ParameterWritten m) names lss → Commas m lss ls →
      Name.ParametersWritten m names (.symbol .pipe :: ls ++ [Lexeme.symbol .pipe])

inductive Expr.Written (m : Manner) : Expr σ → List Lexeme → Prop
  | literal {place : σ} {value : Literal} : Expr.Written m (.literal place value) [value.lexeme]
  | path {place : σ} {p : Path} : Expr.Written m (.path place p) (pathLexemes p)
  | unary {place : σ} {op : UnaryOp} {e : Expr σ} {ls : List Lexeme} : Expr.Written m e ls →
      Expr.Written m (.unary place op e) (op.lexemes ++ ls)
  | binary {place : σ} {op : BinaryOp} {e f : Expr σ} {ls ms : List Lexeme} :
      Expr.Written m e ls → Expr.Written m f ms →
      Expr.Written m (.binary place op e f) (ls ++ .symbol op.symbol :: ms)
  | assign {place : σ} {op : Option BinaryOp} {e f : Expr σ} {ls ms : List Lexeme} :
      Expr.Written m e ls → Expr.Written m f ms →
      Expr.Written m (.assign place op e f) (ls ++ .symbol (assignSymbol op) :: ms)
  | cast {place : σ} {e : Expr σ} {type : Ascription σ} {ls ms : List Lexeme} :
      Expr.Written m e ls → Ascription.Written m type ms →
      Expr.Written m (.cast place e type) (ls ++ .keyword .asKw :: ms)
  | call {place : σ} {e : Expr σ} {es : List (Expr σ)} {ls ms : List Lexeme} :
      Expr.Written m e ls → Expr.ArgumentsWritten m es ms →
      Expr.Written m (.call place e es) (ls ++ ms)
  | methodCall {place : σ} {e : Expr σ} {name : Name σ} {es : List (Expr σ)}
      {ls ms : List Lexeme} : Expr.Written m e ls → Expr.ArgumentsWritten m es ms →
      Expr.Written m (.methodCall place e name es)
        (ls ++ .symbol .dot :: fieldLexeme name.text :: ms)
  | field {place : σ} {e : Expr σ} {name : Name σ} {ls : List Lexeme} : Expr.Written m e ls →
      Expr.Written m (.field place e name) (ls ++ [Lexeme.symbol .dot, fieldLexeme name.text])
  | index {place : σ} {e f : Expr σ} {ls ms : List Lexeme} :
      Expr.Written m e ls → Expr.Written m f ms →
      Expr.Written m (.index place e f)
        (ls ++ .symbol .leftBracket :: ms ++ [Lexeme.symbol .rightBracket])
  | propagate {place : σ} {e : Expr σ} {ls : List Lexeme} : Expr.Written m e ls →
      Expr.Written m (.propagate place e) (ls ++ [Lexeme.symbol .question])
  | array {place : σ} {es : List (Expr σ)} {lss : List (List Lexeme)} {ls : List Lexeme} :
      List.Forall₂ (Expr.Written m) es lss → Commas m lss ls →
      Expr.Written m (.array place es) (.symbol .leftBracket :: ls ++ [Lexeme.symbol .rightBracket])
  | repeated {place : σ} {e f : Expr σ} {ls ms : List Lexeme} :
      Expr.Written m e ls → Expr.Written m f ms →
      Expr.Written m (.repeated place e f)
        (.symbol .leftBracket :: ls ++ .symbol .semicolon :: ms ++ [Lexeme.symbol .rightBracket])
  | single {place : σ} {e : Expr σ} {ls : List Lexeme} : Expr.Written m e ls →
      Expr.Written m (.tuple place [e])
        (.symbol .leftParen :: ls ++ [Lexeme.symbol .comma, .symbol .rightParen])
  | tuple {place : σ} {es : List (Expr σ)} {lss : List (List Lexeme)} {ls : List Lexeme} :
      es.length ≠ 1 → List.Forall₂ (Expr.Written m) es lss → Commas m lss ls →
      Expr.Written m (.tuple place es) (.symbol .leftParen :: ls ++ [Lexeme.symbol .rightParen])
  | paren {place : σ} {e : Expr σ} {ls : List Lexeme} : Expr.Written m e ls →
      Expr.Written m (.paren place e) (.symbol .leftParen :: ls ++ [Lexeme.symbol .rightParen])
  | block {b : Block σ} {ls : List Lexeme} : Block.Written m b ls → Expr.Written m (.block b) ls
  | cond {place : σ} {e : Expr σ} {b : Block σ} {otherwise : Option (Expr σ)}
      {ls ms rs : List Lexeme} : Expr.Written m e ls → Block.Written m b ms →
      Optional (Expr.Written m) [.keyword .elseKw] otherwise rs →
      Expr.Written m (.cond place e b otherwise) (.keyword .ifKw :: ls ++ ms ++ rs)
  | closure {place : σ} {names : List (Name σ)} {e : Expr σ} {ls ms : List Lexeme} :
      Name.ParametersWritten m names ls → Expr.Written m e ms →
      Expr.Written m (.closure place names e) (ls ++ ms)
  | typedClosure {place : σ} {names : List (Name σ)} {t : TypeExpr σ} {b : Block σ}
      {ls ms rs : List Lexeme} : m = .free →
      Name.ParametersWritten m names ls → TypeExpr.Written m t ms → Block.Written m b rs →
      Expr.Written m (.closure place names (.block b)) (ls ++ .symbol .arrow :: ms ++ rs)
  | ret {place : σ} {value : Option (Expr σ)} {ls : List Lexeme} :
      Optional (Expr.Written m) [] value ls →
      Expr.Written m (.ret place value) (.keyword .returnKw :: ls)

inductive Block.Written (m : Manner) : Block σ → List Lexeme → Prop
  | mk {place : σ} {statements : List (Statement σ)} {tail : Option (Expr σ)}
      {ls ms : List Lexeme} :
      Statements (m = .free) (.symbol .semicolon) (Statement.Written m) true statements ls →
      Optional (Expr.Written m) [] tail ms →
      Block.Written m (.mk place statements tail)
        (.symbol .leftBrace :: ls ++ ms ++ [Lexeme.symbol .rightBrace])

inductive Statement.Written (m : Manner) : Statement σ → List Lexeme → Prop
  | binding {place : σ} {isMutable : Bool} {name : Name σ} {type : Option (Ascription σ)}
      {value : Option (Expr σ)} {ls ms : List Lexeme} :
      Optional (Ascription.Written m) [.symbol .colon] type ls →
      Optional (Expr.Written m) [.symbol .eq] value ms →
      Statement.Written m (.binding place isMutable name type value)
        (.keyword .letKw :: mutLexemes isMutable ++ .ofWord name.text :: ls ++ ms ++
          [Lexeme.symbol .semicolon])
  | closed {place : σ} {e : Expr σ} {ls : List Lexeme} : Expr.Written m e ls →
      Statement.Written m (.expr place e true) (ls ++ [Lexeme.symbol .semicolon])
  | bare {place : σ} {e : Expr σ} {ls : List Lexeme} : e.isBlockLike = true →
      Expr.Written m e ls → Statement.Written m (.expr place e false) ls
  | item {i : Item σ} {ls : List Lexeme} : Item.Written m i ls → Statement.Written m (.item i) ls

inductive Parameter.Written (m : Manner) : Parameter σ → List Lexeme → Prop
  | mk {isMutable : Bool} {name : Name σ} {type : Ascription σ} {ls : List Lexeme} :
      Ascription.Written m type ls →
      Parameter.Written m (.mk isMutable name type)
        (mutLexemes isMutable ++ .ofWord name.text :: .symbol .colon :: ls)

inductive Item.Written (m : Manner) : Item σ → List Lexeme → Prop
  | module {place : σ} {v : Visibility} {attributes : List (Attribute σ)} {name : Name σ}
      {items : List (Item σ)} {os ks ls : List Lexeme} :
      Attribute.AllWritten m (attributes.filter (! ·.isInner)) os →
      Attribute.AllWritten m (attributes.filter (·.isInner)) ks →
      Series (Item.Written m) items ls →
      Item.Written m (.module place v attributes name items)
        (os ++ v.lexemes ++ .keyword .modKw :: .ofWord name.text :: .symbol .leftBrace :: ks ++
          ls ++ [Lexeme.symbol .rightBrace])
  | moduleFile {place : σ} {v : Visibility} {attributes : List (Attribute σ)} {name : Name σ}
      {os : List Lexeme} : Attribute.AllWritten m attributes os →
      Item.Written m (.moduleFile place v attributes name)
        (os ++ v.lexemes ++ [.keyword .modKw, .ofWord name.text, .symbol .semicolon])
  | function {place : σ} {v : Visibility} {attributes : List (Attribute σ)} {name : Name σ}
      {parameters : List (Parameter σ)} {result : Option (Ascription σ)} {body : Block σ}
      {lss : List (List Lexeme)} {os ks ls rs bs : List Lexeme} :
      Attribute.AllWritten m attributes os → Spare m (.keyword .constKw) ks →
      List.Forall₂ (Parameter.Written m) parameters lss → Commas m lss ls →
      Optional (Ascription.Written m) [.symbol .arrow] result rs → Block.Written m body bs →
      Item.Written m (.function place v attributes name parameters result body)
        (os ++ v.lexemes ++ ks ++ .keyword .fnKw :: .ofWord name.text :: .symbol .leftParen ::
          ls ++ .symbol .rightParen :: rs ++ bs)
  | const {place : σ} {v : Visibility} {attributes : List (Attribute σ)} {name : Name σ}
      {type : Ascription σ} {value : Expr σ} {os ls ms : List Lexeme} :
      Attribute.AllWritten m attributes os → Ascription.Written m type ls →
      Expr.Written m value ms →
      Item.Written m (.const place v attributes name type value)
        (os ++ v.lexemes ++ .keyword .constKw :: .ofWord name.text :: .symbol .colon :: ls ++
          .symbol .eq :: ms ++ [Lexeme.symbol .semicolon])
  | use {place : σ} {tree : UseTree} {ls : List Lexeme} : UseTree.Written m tree ls →
      Item.Written m (.use place tree) (.keyword .useKw :: ls ++ [Lexeme.symbol .semicolon])
  | markedUse {place : σ} {v : Visibility} {attributes : List (Attribute σ)} {tree : UseTree}
      {os ls : List Lexeme} : m = .free → Attribute.AllWritten m attributes os →
      UseTree.Written m tree ls →
      Item.Written m (.use place tree)
        (os ++ v.lexemes ++ .keyword .useKw :: ls ++ [Lexeme.symbol .semicolon])

end

/-- Attributes of the file, and then its items. -/
inductive File.Written (m : Manner) (file : File σ) : List Lexeme → Prop
  | mk {ks ls : List Lexeme} : Attribute.AllWritten m file.attributes ks →
      Series (Item.Written m) file.items ls → File.Written m file (ks ++ ls)

/-! ### A tree with a writing has its plain writing -/

section

variable {m : Manner}

theorem Attribute.allWritten_lexemes (as : List (Attribute σ)) :
    Attribute.AllWritten .plain as (as.flatMap Attribute.lexemes) := by
  induction as with
  | nil => exact .nil
  | cons a as ih => exact .cons .bare ih

theorem parametersWritten_lexemes (names : List (Name σ)) :
    List.Forall₂ (Name.ParameterWritten .plain) names (names.map ([.ofWord ·.text])) := by
  induction names with
  | nil => exact .nil
  | cons name names ih => exact .cons .bare ih

mutual

theorem UseTree.written_lexemes (t : UseTree) : UseTree.Written .plain t t.lexemes := by
  cases t with
  | glob => exact .glob
  | name text => exact .name
  | segment text rest => exact .segment rest.written_lexemes
  | group trees => exact .group (UseTree.allWritten_lexemes trees) .between

theorem UseTree.allWritten_lexemes (ts : List UseTree) :
    List.Forall₂ (UseTree.Written .plain) ts (UseTree.allLexemes ts) := by
  cases ts with
  | nil => exact .nil
  | cons t ts => exact .cons t.written_lexemes (UseTree.allWritten_lexemes ts)

end

-- The recursion is on the trees, as in `lexemes`; the given writing says which trees occur.
mutual

theorem TypeExpr.Written.lexemes (t : TypeExpr σ) {ls : List Lexeme} (h : TypeExpr.Written m t ls) :
    TypeExpr.Written .plain t t.lexemes := by
  cases h with
  | path => exact .path
  | @applied p ts _ _ hne hts =>
    have hall := TypeExpr.allWritten_lexemes ts hts
    cases ts with
    | nil => exact absurd rfl hne
    | cons t ts => exact .applied hne hall .between
  | @ref _ t _ ht => exact .ref (TypeExpr.Written.lexemes t ht)
  | @refRef _ t _ _ ht => exact .ref (.ref (TypeExpr.Written.lexemes t ht))
  | @slice t _ ht => exact .slice (TypeExpr.Written.lexemes t ht)
  | @array t e _ _ ht he =>
    exact .array (TypeExpr.Written.lexemes t ht) (Expr.Written.lexemes e he)
  | @tuple ts _ _ hts => exact .tuple (TypeExpr.allWritten_lexemes ts hts) .between
  | inferred => exact .inferred

theorem TypeExpr.allWritten_lexemes (ts : List (TypeExpr σ)) {lss : List (List Lexeme)}
    (h : List.Forall₂ (TypeExpr.Written m) ts lss) :
    List.Forall₂ (TypeExpr.Written .plain) ts (TypeExpr.allLexemes ts) := by
  cases h with
  | nil => exact .nil
  | @cons t _ ts _ ht hts =>
    exact .cons (TypeExpr.Written.lexemes t ht) (TypeExpr.allWritten_lexemes ts hts)

theorem Ascription.Written.lexemes (a : Ascription σ) {ls : List Lexeme}
    (h : Ascription.Written m a ls) : Ascription.Written .plain a a.lexemes := by
  cases h with
  | @mk _ t _ ht => exact .mk (TypeExpr.Written.lexemes t ht)

theorem Ascription.optionWritten_lexemes {mark : List Lexeme} (a : Option (Ascription σ))
    {ls : List Lexeme} (h : Optional (Ascription.Written m) mark a ls) :
    Optional (Ascription.Written .plain) mark a (Ascription.optionLexemes mark a) := by
  cases h with
  | absent => exact .absent
  | @present a _ ha => exact .present (Ascription.Written.lexemes a ha)

theorem Expr.Written.lexemes (e : Expr σ) {ls : List Lexeme} (h : Expr.Written m e ls) :
    Expr.Written .plain e e.lexemes := by
  cases h with
  | literal => exact .literal
  | path => exact .path
  | @unary _ _ e _ he => exact .unary (Expr.Written.lexemes e he)
  | @binary _ _ e f _ _ he hf => exact .binary (Expr.Written.lexemes e he) (Expr.Written.lexemes f hf)
  | @assign _ _ e f _ _ he hf => exact .assign (Expr.Written.lexemes e he) (Expr.Written.lexemes f hf)
  | @cast _ e type _ _ he htype =>
    exact .cast (Expr.Written.lexemes e he) (Ascription.Written.lexemes type htype)
  | @call place e es _ _ he hes =>
    obtain ⟨hes, -⟩ := hes
    have h : Expr.Written .plain (.call place e es) _ :=
      .call (Expr.Written.lexemes e he) (.mk (Expr.allWritten_lexemes es hes) .between)
    simpa [Expr.lexemes] using h
  | @methodCall place e name es _ _ he hes =>
    obtain ⟨hes, -⟩ := hes
    have h : Expr.Written .plain (.methodCall place e name es) _ :=
      .methodCall (Expr.Written.lexemes e he) (.mk (Expr.allWritten_lexemes es hes) .between)
    simpa [Expr.lexemes] using h
  | @field _ e _ _ he => exact .field (Expr.Written.lexemes e he)
  | @index _ e f _ _ he hf => exact .index (Expr.Written.lexemes e he) (Expr.Written.lexemes f hf)
  | @propagate _ e _ he => exact .propagate (Expr.Written.lexemes e he)
  | @array _ es _ _ hes => exact .array (Expr.allWritten_lexemes es hes) .between
  | @repeated _ e f _ _ he hf =>
    exact .repeated (Expr.Written.lexemes e he) (Expr.Written.lexemes f hf)
  | @single _ e _ he => exact .single (Expr.Written.lexemes e he)
  | @tuple _ es _ _ hne hes =>
    have hall := Expr.allWritten_lexemes es hes
    match es, hne with
    | [], hne => exact .tuple hne hall .between
    | _ :: _ :: _, hne => exact .tuple hne hall .between
  | @paren _ e _ he => exact .paren (Expr.Written.lexemes e he)
  | @block b _ hb => exact .block (Block.Written.lexemes b hb)
  | @cond _ e b otherwise _ _ _ he hb hotherwise =>
    exact .cond (Expr.Written.lexemes e he) (Block.Written.lexemes b hb)
      (Expr.optionWritten_lexemes otherwise hotherwise)
  | @closure place names e _ _ _ he =>
    have hbody := Expr.Written.lexemes e he
    cases names with
    | nil => exact .closure .none hbody
    | cons name names =>
      -- parameters without types: between two bars if there are any
      have h : Expr.Written .plain (.closure place (name :: names) e) _ :=
        .closure (.some (by simp) (parametersWritten_lexemes (name :: names)) .between) hbody
      simpa [Expr.lexemes] using h
  | @typedClosure place names _ b _ _ _ _ _ _ hb =>
    have hbody := Expr.Written.block (Block.Written.lexemes b hb)
    cases names with
    | nil => exact .closure .none hbody
    | cons name names =>
      have h : Expr.Written .plain (.closure place (name :: names) (.block b)) _ :=
        .closure (.some (by simp) (parametersWritten_lexemes (name :: names)) .between) hbody
      simpa [Expr.lexemes] using h
  | @ret _ value _ hvalue => exact .ret (Expr.optionWritten_lexemes value hvalue)

theorem Expr.allWritten_lexemes (es : List (Expr σ)) {lss : List (List Lexeme)}
    (h : List.Forall₂ (Expr.Written m) es lss) :
    List.Forall₂ (Expr.Written .plain) es (Expr.allLexemes es) := by
  cases h with
  | nil => exact .nil
  | @cons e _ es _ he hes => exact .cons (Expr.Written.lexemes e he) (Expr.allWritten_lexemes es hes)

theorem Expr.optionWritten_lexemes {mark : List Lexeme} (e : Option (Expr σ)) {ls : List Lexeme}
    (h : Optional (Expr.Written m) mark e ls) :
    Optional (Expr.Written .plain) mark e (Expr.optionLexemes mark e) := by
  cases h with
  | absent => exact .absent
  | @present e _ he => exact .present (Expr.Written.lexemes e he)

theorem Block.Written.lexemes (b : Block σ) {ls : List Lexeme} (h : Block.Written m b ls) :
    Block.Written .plain b b.lexemes := by
  cases h with
  | @mk _ statements tail _ _ hstatements htail =>
    exact .mk (Statement.allWritten_lexemes statements hstatements.each)
      (Expr.optionWritten_lexemes tail htail)

theorem Statement.Written.lexemes (s : Statement σ) {ls : List Lexeme}
    (h : Statement.Written m s ls) : Statement.Written .plain s s.lexemes := by
  cases h with
  | @binding _ _ _ type value _ _ htype hvalue =>
    exact .binding (Ascription.optionWritten_lexemes type htype)
      (Expr.optionWritten_lexemes value hvalue)
  | @closed _ e _ he => exact .closed (Expr.Written.lexemes e he)
  | @bare place e _ hblock he =>
    rw [Statement.lexemes, if_neg Bool.false_ne_true, List.append_nil]
    exact .bare hblock (Expr.Written.lexemes e he)
  | @item i _ hi => exact .item (Item.Written.lexemes i hi)

theorem Statement.allWritten_lexemes (ss : List (Statement σ)) {mayBeEmpty : Bool}
    (h : ∀ s ∈ ss, ∃ ls, Statement.Written m s ls) :
    Statements (Manner.plain = .free) (.symbol .semicolon) (Statement.Written .plain) mayBeEmpty ss
      (Statement.allLexemes ss) := by
  match ss with
  | [] => exact .nil
  | s :: ss =>
    obtain ⟨_, hs⟩ := h s List.mem_cons_self
    exact .cons (Statement.Written.lexemes s hs)
      (Statement.allWritten_lexemes ss fun t ht => h t (List.mem_cons_of_mem s ht))

theorem Parameter.Written.lexemes (p : Parameter σ) {ls : List Lexeme}
    (h : Parameter.Written m p ls) : Parameter.Written .plain p p.lexemes := by
  cases h with
  | @mk _ _ type _ htype => exact .mk (Ascription.Written.lexemes type htype)

theorem Parameter.allWritten_lexemes (ps : List (Parameter σ)) {lss : List (List Lexeme)}
    (h : List.Forall₂ (Parameter.Written m) ps lss) :
    List.Forall₂ (Parameter.Written .plain) ps (Parameter.allLexemes ps) := by
  cases h with
  | nil => exact .nil
  | @cons p _ ps _ hp hps =>
    exact .cons (Parameter.Written.lexemes p hp) (Parameter.allWritten_lexemes ps hps)

theorem Item.Written.lexemes (i : Item σ) {ls : List Lexeme} (h : Item.Written m i ls) :
    Item.Written .plain i i.lexemes := by
  cases h with
  | @module _ _ _ _ items _ _ _ _ _ hitems =>
    exact .module (Attribute.allWritten_lexemes _) (Attribute.allWritten_lexemes _)
      (Item.allWritten_lexemes items hitems)
  | moduleFile => exact .moduleFile (Attribute.allWritten_lexemes _)
  | @function place v attributes name parameters result body _ _ _ _ _ _ _ _ hparameters _ hresult
      hbody =>
    have h : Item.Written .plain (.function place v attributes name parameters result body) _ :=
      .function (Attribute.allWritten_lexemes attributes) .absent
        (Parameter.allWritten_lexemes parameters hparameters) .between
        (Ascription.optionWritten_lexemes result hresult) (Block.Written.lexemes body hbody)
    simpa [Item.lexemes] using h
  | @const _ _ _ _ type value _ _ _ _ htype hvalue =>
    exact .const (Attribute.allWritten_lexemes _) (Ascription.Written.lexemes type htype)
      (Expr.Written.lexemes value hvalue)
  | @use _ tree => exact .use tree.written_lexemes
  | @markedUse _ _ _ tree => exact .use tree.written_lexemes

theorem Item.allWritten_lexemes (is : List (Item σ)) {ls : List Lexeme}
    (h : Series (Item.Written m) is ls) :
    Series (Item.Written .plain) is (Item.allLexemes is) := by
  cases h with
  | nil => exact .nil
  | @cons i is _ _ hi his => exact .cons (Item.Written.lexemes i hi) (Item.allWritten_lexemes is his)

end

theorem File.Written.lexemes {file : File σ} {ls : List Lexeme} (h : File.Written m file ls) :
    File.Written .plain file file.lexemes := by
  obtain ⟨-, hitems⟩ := h
  exact .mk (Attribute.allWritten_lexemes _) (Item.allWritten_lexemes _ hitems)

end

/-! ### In the plain manner there is no other -/

theorem Commas.eq_of_plain {lss : List (List Lexeme)} {ls : List Lexeme}
    (h : Commas .plain lss ls) : ls = commaLexemes lss := by
  cases h with
  | between => rfl
  | behind hm => cases hm

theorem Spare.eq_of_plain {x : Lexeme} {ls : List Lexeme} (h : Spare .plain x ls) : ls = [] := by
  cases h with
  | absent => rfl
  | present hm => cases hm

theorem Attribute.eq_of_allWritten {as : List (Attribute σ)} {ls : List Lexeme}
    (h : Attribute.AllWritten .plain as ls) : ls = as.flatMap Attribute.lexemes := by
  induction h with
  | nil => rfl
  | cons ha _ ih =>
    cases ha with
    | bare => rw [List.flatMap_cons, ← ih]
    | applied hm => cases hm

theorem eq_of_parametersWritten {names : List (Name σ)} {lss : List (List Lexeme)}
    (h : List.Forall₂ (Name.ParameterWritten .plain) names lss) :
    lss = names.map ([.ofWord ·.text]) := by
  induction h with
  | nil => rfl
  | cons hname _ ih =>
    cases hname with
    | bare => rw [List.map_cons, ih]
    | typed hm => cases hm

mutual

theorem UseTree.eq_of_written (t : UseTree) {ls : List Lexeme} (h : UseTree.Written .plain t ls) :
    ls = t.lexemes := by
  cases h with
  | glob => rfl
  | name => rfl
  | @segment text rest ms hrest => rw [UseTree.lexemes, ← rest.eq_of_written hrest]
  | @group trees lss ms htrees hcommas =>
    rw [UseTree.lexemes, ← UseTree.eq_of_allWritten trees htrees, hcommas.eq_of_plain]

theorem UseTree.eq_of_allWritten (ts : List UseTree) {lss : List (List Lexeme)}
    (h : List.Forall₂ (UseTree.Written .plain) ts lss) : lss = UseTree.allLexemes ts := by
  cases h with
  | nil => rfl
  | @cons t ls ts lss ht hts =>
    rw [UseTree.allLexemes, ← t.eq_of_written ht, ← UseTree.eq_of_allWritten ts hts]

end

mutual

theorem TypeExpr.eq_of_written (t : TypeExpr σ) {ls : List Lexeme}
    (h : TypeExpr.Written .plain t ls) : ls = t.lexemes := by
  cases h with
  | path => rfl
  | @applied p ts lss ms hne hts hcommas =>
    rw [hcommas.eq_of_plain, TypeExpr.eq_of_allWritten ts hts]
    cases ts with
    | nil => exact absurd rfl hne
    | cons t ts => rfl
  | @ref isMutable t ms ht => rw [TypeExpr.lexemes, ← t.eq_of_written ht]
  | refRef hm => cases hm
  | @slice t ms ht => rw [TypeExpr.lexemes, ← t.eq_of_written ht]
  | @array t e ms ks ht he => rw [TypeExpr.lexemes, ← t.eq_of_written ht, ← e.eq_of_written he]
  | @tuple ts lss ms hts hcommas =>
    rw [TypeExpr.lexemes, ← TypeExpr.eq_of_allWritten ts hts, hcommas.eq_of_plain]
  | inferred => rfl

theorem TypeExpr.eq_of_allWritten (ts : List (TypeExpr σ)) {lss : List (List Lexeme)}
    (h : List.Forall₂ (TypeExpr.Written .plain) ts lss) : lss = TypeExpr.allLexemes ts := by
  cases h with
  | nil => rfl
  | @cons t ls ts lss ht hts =>
    rw [TypeExpr.allLexemes, ← t.eq_of_written ht, ← TypeExpr.eq_of_allWritten ts hts]

theorem Ascription.eq_of_written (a : Ascription σ) {ls : List Lexeme}
    (h : Ascription.Written .plain a ls) : ls = a.lexemes := by
  cases h with
  | @mk place t ms ht => rw [Ascription.lexemes, ← t.eq_of_written ht]

theorem Ascription.eq_of_optionWritten {mark : List Lexeme} (a : Option (Ascription σ))
    {ls : List Lexeme} (h : Optional (Ascription.Written .plain) mark a ls) :
    ls = Ascription.optionLexemes mark a := by
  cases h with
  | absent => rfl
  | @present a ms ha => rw [Ascription.optionLexemes, ← a.eq_of_written ha]

theorem Expr.eq_of_written (e : Expr σ) {ls : List Lexeme} (h : Expr.Written .plain e ls) :
    ls = e.lexemes := by
  cases h with
  | literal => rfl
  | path => rfl
  | @unary place op e ms he => rw [Expr.lexemes, ← e.eq_of_written he]
  | @binary place op e f ms ks he hf =>
    rw [Expr.lexemes, ← e.eq_of_written he, ← f.eq_of_written hf]
  | @assign place op e f ms ks he hf =>
    rw [Expr.lexemes, ← e.eq_of_written he, ← f.eq_of_written hf]
  | @cast place e type ms ks he htype =>
    rw [Expr.lexemes, ← e.eq_of_written he, ← type.eq_of_written htype]
  | @call place e es ms ks he hes =>
    cases hes with
    | @mk es lss ks hes hcommas =>
      rw [Expr.lexemes, ← e.eq_of_written he, ← Expr.eq_of_allWritten es hes,
        hcommas.eq_of_plain]
      simp
  | @methodCall place e name es ms ks he hes =>
    cases hes with
    | @mk es lss ks hes hcommas =>
      rw [Expr.lexemes, ← e.eq_of_written he, ← Expr.eq_of_allWritten es hes,
        hcommas.eq_of_plain]
      simp
  | @field place e name ms he => rw [Expr.lexemes, ← e.eq_of_written he]
  | @index place e f ms ks he hf =>
    rw [Expr.lexemes, ← e.eq_of_written he, ← f.eq_of_written hf]
  | @propagate place e ms he => rw [Expr.lexemes, ← e.eq_of_written he]
  | @array place es lss ms hes hcommas =>
    rw [Expr.lexemes, ← Expr.eq_of_allWritten es hes, hcommas.eq_of_plain]
  | @repeated place e f ms ks he hf =>
    rw [Expr.lexemes, ← e.eq_of_written he, ← f.eq_of_written hf]
  | @single place e ms he => rw [Expr.lexemes, ← e.eq_of_written he]
  | @tuple place es lss ms hne hes hcommas =>
    rw [hcommas.eq_of_plain, Expr.eq_of_allWritten es hes]
    match es, hne with
    | [], _ => rfl
    | _ :: _ :: _, _ => rfl
  | @paren place e ms he => rw [Expr.lexemes, ← e.eq_of_written he]
  | @block b ms hb => rw [Expr.lexemes, ← b.eq_of_written hb]
  | @cond place e b otherwise ms ks rs he hb hotherwise =>
    rw [Expr.lexemes, ← e.eq_of_written he, ← b.eq_of_written hb,
      ← Expr.eq_of_optionWritten otherwise hotherwise]
  | @closure place names e ms ks hnames he =>
    rw [e.eq_of_written he]
    cases hnames with
    | none => rfl
    -- two bars apart, and a result type, are spare and never written in a plain text
    | apart hm => cases hm
    | @some names lss ms hne hnames hcommas =>
      rw [hcommas.eq_of_plain, eq_of_parametersWritten hnames]
      cases names with
      | nil => exact absurd rfl hne
      | cons name names => simp [Expr.lexemes]
  | typedClosure hm => cases hm
  | @ret place value ms hvalue => rw [Expr.lexemes, ← Expr.eq_of_optionWritten value hvalue]

theorem Expr.eq_of_allWritten (es : List (Expr σ)) {lss : List (List Lexeme)}
    (h : List.Forall₂ (Expr.Written .plain) es lss) : lss = Expr.allLexemes es := by
  cases h with
  | nil => rfl
  | @cons e ls es lss he hes =>
    rw [Expr.allLexemes, ← e.eq_of_written he, ← Expr.eq_of_allWritten es hes]

theorem Expr.eq_of_optionWritten {mark : List Lexeme} (e : Option (Expr σ)) {ls : List Lexeme}
    (h : Optional (Expr.Written .plain) mark e ls) : ls = Expr.optionLexemes mark e := by
  cases h with
  | absent => rfl
  | @present e ms he => rw [Expr.optionLexemes, ← e.eq_of_written he]

theorem Block.eq_of_written (b : Block σ) {ls : List Lexeme} (h : Block.Written .plain b ls) :
    ls = b.lexemes := by
  cases h with
  | @mk place statements tail ms ks hstatements htail =>
    rw [Block.lexemes, ← Statement.eq_of_allWritten statements hstatements,
      ← Expr.eq_of_optionWritten tail htail]

theorem Statement.eq_of_written (s : Statement σ) {ls : List Lexeme}
    (h : Statement.Written .plain s ls) : ls = s.lexemes := by
  cases h with
  | @binding place isMutable name type value ms ks htype hvalue =>
    rw [Statement.lexemes, ← Ascription.eq_of_optionWritten type htype,
      ← Expr.eq_of_optionWritten value hvalue]
  | @closed place e ms he => rw [Statement.lexemes, ← e.eq_of_written he, if_pos rfl]
  | @bare place e ms _ he =>
    rw [Statement.lexemes, ← e.eq_of_written he, if_neg Bool.false_ne_true, List.append_nil]
  | @item i ms hi => rw [Statement.lexemes, ← i.eq_of_written hi]

theorem Statement.eq_of_allWritten (ss : List (Statement σ)) {mayBeEmpty : Bool} {ls : List Lexeme}
    (h : Statements (Manner.plain = .free) (.symbol .semicolon) (Statement.Written .plain)
      mayBeEmpty ss ls) : ls = Statement.allLexemes ss := by
  cases h with
  | nil => rfl
  | @cons _ s ss ms ks hs hss =>
    rw [Statement.allLexemes, ← s.eq_of_written hs, ← Statement.eq_of_allWritten ss hss]
  | empty hm => cases hm

theorem Parameter.eq_of_written (p : Parameter σ) {ls : List Lexeme}
    (h : Parameter.Written .plain p ls) : ls = p.lexemes := by
  cases h with
  | @mk isMutable name type ms htype => rw [Parameter.lexemes, ← type.eq_of_written htype]

theorem Parameter.eq_of_allWritten (ps : List (Parameter σ)) {lss : List (List Lexeme)}
    (h : List.Forall₂ (Parameter.Written .plain) ps lss) : lss = Parameter.allLexemes ps := by
  cases h with
  | nil => rfl
  | @cons p ls ps lss hp hps =>
    rw [Parameter.allLexemes, ← p.eq_of_written hp, ← Parameter.eq_of_allWritten ps hps]

theorem Item.eq_of_written (i : Item σ) {ls : List Lexeme} (h : Item.Written .plain i ls) :
    ls = i.lexemes := by
  cases h with
  | @module place v attributes name items os ks ms houter hinner hitems =>
    rw [Item.lexemes, ← Attribute.eq_of_allWritten houter, ← Attribute.eq_of_allWritten hinner,
      ← Item.eq_of_allWritten items hitems]
  | moduleFile houter => rw [Item.lexemes, ← Attribute.eq_of_allWritten houter]
  | @function place v attributes name parameters result body lss os ks ms rs bs houter hspare
      hparameters hcommas hresult hbody =>
    rw [Item.lexemes, ← Attribute.eq_of_allWritten houter, hspare.eq_of_plain,
      ← Parameter.eq_of_allWritten parameters hparameters, hcommas.eq_of_plain,
      ← Ascription.eq_of_optionWritten result hresult, ← body.eq_of_written hbody]
    simp
  | @const place v attributes name type value os ms ks houter htype hvalue =>
    rw [Item.lexemes, ← Attribute.eq_of_allWritten houter, ← type.eq_of_written htype,
      ← value.eq_of_written hvalue]
  | @use place tree ms htree => rw [Item.lexemes, ← tree.eq_of_written htree]
  | markedUse hm => cases hm

theorem Item.eq_of_allWritten (is : List (Item σ)) {ls : List Lexeme}
    (h : Series (Item.Written .plain) is ls) : ls = Item.allLexemes is := by
  cases h with
  | nil => rfl
  | @cons i is ms ks hi his =>
    rw [Item.allLexemes, ← i.eq_of_written hi, ← Item.eq_of_allWritten is his]

end

end EnsembleCompiler.Target
