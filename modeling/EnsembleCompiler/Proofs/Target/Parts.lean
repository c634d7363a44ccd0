import EnsembleCompiler.Proofs.Target.Writing

/-!
# Constructs and their parts

A construct is a node of a syntax tree that has a place. `Construct.MadeOf` is the grammar of
constructs by their parts: the lexemes of a construct itself and the constructs inside it, in the
order of the text. Parts fill a stretch of lexemes (`Fills`) if they follow each other without a gap
and the place of every construct, at any depth, is the stretch that its own parts fill.
-/

namespace EnsembleCompiler.Target

variable {α σ τ : Type}

/-! ### Constructs -/

/-- A node of a syntax tree that has a place. -/
inductive Construct (σ : Type) where
  | attr (a : Attribute σ)
  | name (n : Name σ)
  /-- A name behind a dot. -/
  | member (n : Name σ)
  | type (t : Ascription σ)
  | expr (e : Expr σ)
  | block (b : Block σ)
  | statement (s : Statement σ)
  | item (i : Item σ)

def Construct.place : Construct σ → σ
  | .attr a => a.place
  | .name n | .member n => n.place
  | .type t => t.place
  | .expr e => e.place
  | .block b => b.place
  | .statement s => s.place
  | .item i => i.place

mutual

/-- The constructs in a type: the lengths of its arrays. -/
def TypeExpr.lengths : TypeExpr σ → List (Expr σ)
  | .path _ arguments => TypeExpr.allLengths arguments
  | .ref _ target => target.lengths
  | .slice element => element.lengths
  | .array element length => element.lengths ++ [length]
  | .tuple elements => TypeExpr.allLengths elements
  | .inferred => []

def TypeExpr.allLengths : List (TypeExpr σ) → List (Expr σ)
  | [] => []
  | t :: rest => t.lengths ++ TypeExpr.allLengths rest

end

def Expr.children : Expr σ → List (Construct σ)
  | .literal _ _ | .path _ _ => []
  | .unary _ _ operand => [.expr operand]
  | .binary _ _ left right => [.expr left, .expr right]
  | .assign _ _ target value => [.expr target, .expr value]
  | .cast _ operand type => [.expr operand, .type type]
  | .call _ callee arguments => .expr callee :: arguments.map .expr
  | .methodCall _ receiver method arguments =>
    .expr receiver :: .member method :: arguments.map .expr
  | .field _ operand name => [.expr operand, .member name]
  | .index _ operand i => [.expr operand, .expr i]
  | .propagate _ operand => [.expr operand]
  | .array _ elements => elements.map .expr
  | .repeated _ value length => [.expr value, .expr length]
  | .tuple _ elements => elements.map .expr
  | .paren _ inner => [.expr inner]
  | .block b => [.block b]
  | .cond _ condition body otherwise =>
    .expr condition :: .block body :: otherwise.toList.map .expr
  | .closure _ parameters body => parameters.map .name ++ [.expr body]
  | .ret _ value => value.toList.map .expr

def Parameter.children : Parameter σ → List (Construct σ)
  | .mk _ name type => [.name name, .type type]

/-- The inner attributes of a module stand behind its name. -/
def Item.children : Item σ → List (Construct σ)
  | .module _ _ attributes name items =>
    (attributes.filter (! ·.isInner)).map .attr ++ .name name ::
      ((attributes.filter (·.isInner)).map .attr ++ items.map .item)
  | .moduleFile _ _ attributes name => attributes.map .attr ++ [.name name]
  | .function _ _ attributes name parameters result body =>
    attributes.map .attr ++ .name name ::
      (parameters.flatMap Parameter.children ++ (result.toList.map .type ++ [.block body]))
  | .const _ _ attributes name type value =>
    attributes.map .attr ++ [.name name, .type type, .expr value]
  | .use _ _ => []

/-- The constructs right inside a construct, in the order of the text. -/
def Construct.children : Construct σ → List (Construct σ)
  | .attr _ | .name _ | .member _ => []
  | .type (.mk _ t) => t.lengths.map .expr
  | .expr e => e.children
  | .block (.mk _ statements tail) => statements.map .statement ++ tail.toList.map .expr
  | .statement (.binding _ _ n t value) =>
    .name n :: (t.toList.map .type ++ value.toList.map .expr)
  | .statement (.expr _ e _) => [.expr e]
  | .statement (.item i) => [.item i]
  | .item i => i.children

/-- The outermost constructs of a file. -/
def File.children (file : File σ) : List (Construct σ) :=
  file.attributes.map .attr ++ file.items.map .item

/-- A construct in a file, at any depth. -/
inductive File.Holds (file : File σ) : Construct σ → Prop
  | outermost {x : Construct σ} : x ∈ file.children → file.Holds x
  | inside {x y : Construct σ} : file.Holds x → y ∈ x.children → file.Holds y

/-! ### Parts -/

/-- A part of a construct. -/
inductive Part (σ : Type) where
  | lexeme (l : Lexeme)
  | construct (x : Construct σ)

namespace Part

abbrev symbol (s : Symbol) : Part σ := lexeme (.symbol s)
abbrev keyword (k : Keyword) : Part σ := lexeme (.keyword k)
abbrev attr (a : Attribute σ) : Part σ := construct (.attr a)
abbrev name (n : Name σ) : Part σ := construct (.name n)
abbrev member (n : Name σ) : Part σ := construct (.member n)
abbrev type (t : Ascription σ) : Part σ := construct (.type t)
abbrev expr (e : Expr σ) : Part σ := construct (.expr e)
abbrev block (b : Block σ) : Part σ := construct (.block b)
abbrev statement (s : Statement σ) : Part σ := construct (.statement s)
abbrev item (i : Item σ) : Part σ := construct (.item i)

def construct? : Part σ → Option (Construct σ)
  | lexeme _ => none
  | construct x => some x

end Part

/-- Lexemes as parts. -/
def words (ls : List Lexeme) : List (Part σ) := ls.map .lexeme

/-- The constructs among some parts. -/
def constructs (parts : List (Part σ)) : List (Construct σ) := parts.filterMap Part.construct?

/-- A part behind its mark, or neither. -/
def optionalParts (mark : List Lexeme) (part : α → Part σ) : Option α → List (Part σ)
  | none => []
  | some a => words mark ++ [part a]

/-- Groups with a separator behind each; behind the last it may be missing. -/
def Separated (separator : α) (groups : List (List α)) (whole : List α) : Prop :=
  whole = groups.flatMap (· ++ [separator]) ∨
    whole ++ [separator] = groups.flatMap (· ++ [separator])

/-- Groups of parts with commas between them. -/
abbrev Listed (groups : List (List (Part σ))) (parts : List (Part σ)) : Prop :=
  Separated (.symbol .comma) groups parts

/-! ### What constructs are made of -/

/-- The lexemes of a path. -/
inductive IsPath : Path → List Lexeme → Prop
  | first {x : Lexeme} {text : String} : segment? (some x) = some text → IsPath [text] [x]
  | further {p : Path} {ls : List Lexeme} {x : Lexeme} {text : String} :
      IsPath p ls → segment? (some x) = some text →
        IsPath (p ++ [text]) (ls ++ [Lexeme.symbol .pathSep, x])

/-- The lexemes of what an import names. -/
inductive IsUseTree : UseTree → List Lexeme → Prop
  | glob : IsUseTree .glob [.symbol .star]
  | name {x : Lexeme} {text : String} : segment? (some x) = some text → IsUseTree (.name text) [x]
  | segment {x : Lexeme} {text : String} {rest : UseTree} {ls : List Lexeme} :
      segment? (some x) = some text → IsUseTree rest ls →
      IsUseTree (.segment text rest) (x :: .symbol .pathSep :: ls)
  | group {trees : List UseTree} {lss : List (List Lexeme)} {ls : List Lexeme} :
      List.Forall₂ IsUseTree trees lss → Separated (.symbol .comma) lss ls →
      IsUseTree (.group trees) (.symbol .leftBrace :: ls ++ [Lexeme.symbol .rightBrace])

inductive Attribute.MadeOf : Attribute σ → List (Part σ) → Prop
  | mk {place : σ} {isInner : Bool} {p : Path} {ls arguments : List Lexeme} :
      IsPath p ls → Nested 0 arguments →
      Attribute.MadeOf ⟨place, isInner, p⟩
        (words (Lexeme.symbol .hash :: (if isInner then [.symbol .bang] else []) ++
          Lexeme.symbol .leftBracket :: ls ++ arguments ++ [Lexeme.symbol .rightBracket]))

/-- A name is an identifier or, where none is wanted, an underscore. -/
inductive Name.MadeOf : Name σ → List (Part σ) → Prop
  | ident {place : σ} {text : String} : Name.MadeOf ⟨place, text⟩ [.lexeme (.ident text)]
  | underscore {place : σ} : Name.MadeOf ⟨place, "_"⟩ [.symbol .underscore]

/-- Behind a dot stands an identifier or the number of a tuple's element. -/
inductive Name.MemberMadeOf : Name σ → List (Part σ) → Prop
  | ident {place : σ} {text : String} : Name.MemberMadeOf ⟨place, text⟩ [.lexeme (.ident text)]
  | number {place : σ} {value : Nat} :
      Name.MemberMadeOf ⟨place, Nat.repr value⟩ [.lexeme (.integer value none)]

inductive TypeExpr.MadeOf : TypeExpr σ → List (Part σ) → Prop
  | path {p : Path} {ls : List Lexeme} : IsPath p ls → TypeExpr.MadeOf (.path p []) (words ls)
  | applied {p : Path} {ts : List (TypeExpr σ)} {ls : List Lexeme}
      {groups : List (List (Part σ))} {parts : List (Part σ)} : IsPath p ls → ts ≠ [] →
      List.Forall₂ TypeExpr.MadeOf ts groups → Listed groups parts →
      TypeExpr.MadeOf (.path p ts) (words ls ++ Part.symbol .lt :: parts ++ [Part.symbol .gt])
  | ref {isMutable : Bool} {t : TypeExpr σ} {parts : List (Part σ)} : TypeExpr.MadeOf t parts →
      TypeExpr.MadeOf (.ref isMutable t) (Part.symbol .amp :: words (mutLexemes isMutable) ++ parts)
  | refRef {isMutable : Bool} {t : TypeExpr σ} {parts : List (Part σ)} : TypeExpr.MadeOf t parts →
      TypeExpr.MadeOf (.ref false (.ref isMutable t))
        (Part.symbol .andAnd :: words (mutLexemes isMutable) ++ parts)
  | slice {t : TypeExpr σ} {parts : List (Part σ)} : TypeExpr.MadeOf t parts →
      TypeExpr.MadeOf (.slice t) (Part.symbol .leftBracket :: parts ++ [Part.symbol .rightBracket])
  | array {t : TypeExpr σ} {length : Expr σ} {parts : List (Part σ)} : TypeExpr.MadeOf t parts →
      TypeExpr.MadeOf (.array t length)
        (Part.symbol .leftBracket :: parts ++
          [Part.symbol .semicolon, .expr length, .symbol .rightBracket])
  | tuple {ts : List (TypeExpr σ)} {groups : List (List (Part σ))} {parts : List (Part σ)} :
      List.Forall₂ TypeExpr.MadeOf ts groups → Listed groups parts →
      TypeExpr.MadeOf (.tuple ts) (Part.symbol .leftParen :: parts ++ [Part.symbol .rightParen])
  | inferred : TypeExpr.MadeOf .inferred [.symbol .underscore]

/-- Expressions between brackets, with commas between them. -/
inductive Enclosed (opener closer : Symbol) : List (Expr σ) → List (Part σ) → Prop
  | mk {es : List (Expr σ)} {parts : List (Part σ)} : Listed (es.map ([.expr ·])) parts →
      Enclosed opener closer es (Part.symbol opener :: parts ++ [Part.symbol closer])

/-- A parameter of a closure, with a type that the tree does not hold. -/
inductive Name.ParameterMadeOf : Name σ → List (Part σ) → Prop
  | bare {n : Name σ} : Name.ParameterMadeOf n [.name n]
  | typed {n : Name σ} {t : TypeExpr σ} {parts : List (Part σ)} : TypeExpr.MadeOf t parts →
      Name.ParameterMadeOf n (Part.name n :: .symbol .colon :: parts)

/-- The parameters of a closure between their bars. -/
inductive Name.ParametersMadeOf : List (Name σ) → List (Part σ) → Prop
  | none : Name.ParametersMadeOf [] [.symbol .orOr]
  | mk {names : List (Name σ)} {groups : List (List (Part σ))} {parts : List (Part σ)} :
      List.Forall₂ Name.ParameterMadeOf names groups → Listed groups parts →
      Name.ParametersMadeOf names (Part.symbol .pipe :: parts ++ [Part.symbol .pipe])

inductive Expr.MadeOf : Expr σ → List (Part σ) → Prop
  | literal {place : σ} {value : Literal} :
      Expr.MadeOf (.literal place value) [.lexeme value.lexeme]
  | path {place : σ} {p : Path} {ls : List Lexeme} : IsPath p ls →
      Expr.MadeOf (.path place p) (words ls)
  | unary {place : σ} {op : UnaryOp} {e : Expr σ} :
      Expr.MadeOf (.unary place op e) (words op.lexemes ++ [Part.expr e])
  | binary {place : σ} {op : BinaryOp} {left right : Expr σ} :
      Expr.MadeOf (.binary place op left right) [.expr left, .symbol op.symbol, .expr right]
  | assign {place : σ} {op : Option BinaryOp} {target value : Expr σ} :
      Expr.MadeOf (.assign place op target value)
        [.expr target, .symbol (assignSymbol op), .expr value]
  | cast {place : σ} {e : Expr σ} {t : Ascription σ} :
      Expr.MadeOf (.cast place e t) [.expr e, .keyword .asKw, .type t]
  | call {place : σ} {callee : Expr σ} {es : List (Expr σ)} {parts : List (Part σ)} :
      Enclosed .leftParen .rightParen es parts →
      Expr.MadeOf (.call place callee es) (Part.expr callee :: parts)
  | methodCall {place : σ} {receiver : Expr σ} {method : Name σ} {es : List (Expr σ)}
      {parts : List (Part σ)} : Enclosed .leftParen .rightParen es parts →
      Expr.MadeOf (.methodCall place receiver method es)
        (Part.expr receiver :: .symbol .dot :: .member method :: parts)
  | field {place : σ} {e : Expr σ} {n : Name σ} :
      Expr.MadeOf (.field place e n) [.expr e, .symbol .dot, .member n]
  | index {place : σ} {e index : Expr σ} : Expr.MadeOf (.index place e index)
        [.expr e, .symbol .leftBracket, .expr index, .symbol .rightBracket]
  | propagate {place : σ} {e : Expr σ} :
      Expr.MadeOf (.propagate place e) [.expr e, .symbol .question]
  | array {place : σ} {es : List (Expr σ)} {parts : List (Part σ)} :
      Enclosed .leftBracket .rightBracket es parts → Expr.MadeOf (.array place es) parts
  | repeated {place : σ} {value length : Expr σ} : Expr.MadeOf (.repeated place value length)
        [.symbol .leftBracket, .expr value, .symbol .semicolon, .expr length,
          .symbol .rightBracket]
  | single {place : σ} {e : Expr σ} : Expr.MadeOf (.tuple place [e])
        [.symbol .leftParen, .expr e, .symbol .comma, .symbol .rightParen]
  | tuple {place : σ} {es : List (Expr σ)} {parts : List (Part σ)} : es.length ≠ 1 →
      Enclosed .leftParen .rightParen es parts → Expr.MadeOf (.tuple place es) parts
  | paren {place : σ} {e : Expr σ} : Expr.MadeOf (.paren place e)
        [.symbol .leftParen, .expr e, .symbol .rightParen]
  | block {b : Block σ} : Expr.MadeOf (.block b) [.block b]
  | cond {place : σ} {condition : Expr σ} {body : Block σ} {otherwise : Option (Expr σ)} :
      Expr.MadeOf (.cond place condition body otherwise)
        (Part.keyword .ifKw :: .expr condition :: .block body ::
          optionalParts [.keyword .elseKw] .expr otherwise)
  | closure {place : σ} {names : List (Name σ)} {body : Expr σ} {parts : List (Part σ)} :
      Name.ParametersMadeOf names parts →
      Expr.MadeOf (.closure place names body) (parts ++ [Part.expr body])
  | typedClosure {place : σ} {names : List (Name σ)} {t : TypeExpr σ} {b : Block σ}
      {parts result : List (Part σ)} : Name.ParametersMadeOf names parts →
      TypeExpr.MadeOf t result →
      Expr.MadeOf (.closure place names (.block b))
        (parts ++ Part.symbol .arrow :: result ++ [Part.expr (.block b)])
  | ret {place : σ} {value : Option (Expr σ)} :
      Expr.MadeOf (.ret place value) (Part.keyword .returnKw :: optionalParts [] .expr value)

inductive Block.MadeOf : Block σ → List (Part σ) → Prop
  | mk {place : σ} {ss : List (Statement σ)} {tail : Option (Expr σ)} {parts : List (Part σ)} :
      Statements True (Part.symbol .semicolon) (fun s qs => qs = [.statement s]) true ss parts →
      Block.MadeOf (.mk place ss tail)
        (Part.symbol .leftBrace :: parts ++ optionalParts [] .expr tail ++ [Part.symbol .rightBrace])

/-- A statement ends with its own semicolon; only where a brace closes it may it have none. -/
inductive Statement.MadeOf : Statement σ → List (Part σ) → Prop
  | binding {place : σ} {isMutable : Bool} {n : Name σ} {t : Option (Ascription σ)}
      {value : Option (Expr σ)} : Statement.MadeOf (.binding place isMutable n t value)
        (Part.keyword .letKw :: words (mutLexemes isMutable) ++ Part.name n ::
          optionalParts [.symbol .colon] .type t ++ optionalParts [.symbol .eq] .expr value ++
          [Part.symbol .semicolon])
  | closed {place : σ} {e : Expr σ} :
      Statement.MadeOf (.expr place e true) [.expr e, .symbol .semicolon]
  | bare {place : σ} {e : Expr σ} : e.isBlockLike = true →
      Statement.MadeOf (.expr place e false) [.expr e]
  | item {i : Item σ} : Statement.MadeOf (.item i) [.item i]

def Parameter.parts : Parameter σ → List (Part σ)
  | .mk isMutable n t => words (mutLexemes isMutable) ++ [Part.name n, .symbol .colon, .type t]

/-- What stands before the keyword of an item. -/
def headParts (attributes : List (Attribute σ)) (v : Visibility) : List (Part σ) :=
  attributes.map Part.attr ++ words v.lexemes

/-- The attributes and the visibility of an import are not kept. -/
inductive Item.MadeOf : Item σ → List (Part σ) → Prop
  | module {place : σ} {v : Visibility} {outer inner : List (Attribute σ)} {n : Name σ}
      {items : List (Item σ)} : (∀ a ∈ outer, a.isInner = false) →
      (∀ a ∈ inner, a.isInner = true) →
      Item.MadeOf (.module place v (outer ++ inner) n items)
        (headParts outer v ++ Part.keyword .modKw :: .name n :: .symbol .leftBrace ::
          inner.map Part.attr ++ items.map Part.item ++ [Part.symbol .rightBrace])
  | moduleFile {place : σ} {v : Visibility} {attributes : List (Attribute σ)} {n : Name σ} :
      Item.MadeOf (.moduleFile place v attributes n)
        (headParts attributes v ++ [Part.keyword .modKw, .name n, .symbol .semicolon])
  | function {place : σ} {v : Visibility} {attributes : List (Attribute σ)} {n : Name σ}
      {parameters : List (Parameter σ)} {result : Option (Ascription σ)} {body : Block σ}
      {ls : List Lexeme} {parts : List (Part σ)} : ls = [] ∨ ls = [.keyword .constKw] →
      Listed (parameters.map Parameter.parts) parts →
      Item.MadeOf (.function place v attributes n parameters result body)
        (headParts attributes v ++ words ls ++ Part.keyword .fnKw :: .name n :: .symbol .leftParen ::
          parts ++ Part.symbol .rightParen :: optionalParts [.symbol .arrow] .type result ++
          [Part.block body])
  | const {place : σ} {v : Visibility} {attributes : List (Attribute σ)} {n : Name σ}
      {t : Ascription σ} {value : Expr σ} : Item.MadeOf (.const place v attributes n t value)
        (headParts attributes v ++ [Part.keyword .constKw, .name n, .symbol .colon, .type t,
          .symbol .eq, .expr value, .symbol .semicolon])
  | use {place : σ} {v : Visibility} {attributes : List (Attribute σ)} {tree : UseTree}
      {ls : List Lexeme} : IsUseTree tree ls → Item.MadeOf (.use place tree)
        (headParts attributes v ++ Part.keyword .useKw :: words ls ++ [Part.symbol .semicolon])

/-- The construct is made of these parts. -/
def Construct.MadeOf : Construct σ → List (Part σ) → Prop
  | .attr a => a.MadeOf
  | .name n => n.MadeOf
  | .member n => n.MemberMadeOf
  | .type (.mk _ t) => t.MadeOf
  | .expr e => e.MadeOf
  | .block b => b.MadeOf
  | .statement s => s.MadeOf
  | .item i => i.MadeOf

/-- The parts follow each other without a gap on the lexemes, the first of which has the index
`start`, and each construct has the place of the stretch that its own parts fill; `place i j` is
the place of the lexemes from index `i` up to `j`. -/
inductive Fills (place : Nat → Nat → σ) : List (Part σ) → Nat → List Lexeme → Prop
  | nil {start : Nat} : Fills place [] start []
  | lexeme {l : Lexeme} {parts : List (Part σ)} {start : Nat} {ls : List Lexeme} :
      Fills place parts (start + 1) ls → Fills place (.lexeme l :: parts) start (l :: ls)
  | construct {x : Construct σ} {inner parts : List (Part σ)} {start : Nat} {ms ls : List Lexeme} :
      x.MadeOf inner → Fills place inner start ms → x.place = place start (start + ms.length) →
      Fills place parts (start + ms.length) ls →
      Fills place (.construct x :: parts) start (ms ++ ls)

/-! ### The constructs among parts -/

section Children

@[simp] theorem constructs_nil : constructs ([] : List (Part σ)) = [] := rfl

@[simp] theorem constructs_lexeme (l : Lexeme) (parts : List (Part σ)) :
    constructs (.lexeme l :: parts) = constructs parts := rfl

@[simp] theorem constructs_construct (x : Construct σ) (parts : List (Part σ)) :
    constructs (.construct x :: parts) = x :: constructs parts := rfl

@[simp] theorem constructs_append (parts others : List (Part σ)) :
    constructs (parts ++ others) = constructs parts ++ constructs others :=
  List.filterMap_append

@[simp] theorem constructs_words (ls : List Lexeme) : constructs (words ls : List (Part σ)) = [] := by
  induction ls with
  | nil => rfl
  | cons l ls ih => exact ih

@[simp] theorem constructs_map (f : α → Construct σ) (as : List α) :
    constructs (as.map fun a => .construct (f a)) = as.map f := by
  induction as with
  | nil => rfl
  | cons a as ih => exact congrArg (f a :: ·) ih

@[simp] theorem constructs_map_construct (xs : List (Construct σ)) :
    constructs (xs.map .construct) = xs :=
  (constructs_map id xs).trans xs.map_id

@[simp] theorem constructs_optionalParts (mark : List Lexeme) (f : α → Construct σ) (a : Option α) :
    constructs (optionalParts mark (fun a => .construct (f a)) a) = a.toList.map f := by
  cases a <;> simp [optionalParts]

theorem constructs_flatMap (groups : List α) (f : α → List (Part σ)) :
    constructs (groups.flatMap f) = groups.flatMap fun a => constructs (f a) := by
  induction groups with
  | nil => rfl
  | cons a groups ih => simp [ih]

theorem Separated.constructs {groups : List (List (Part σ))} {parts : List (Part σ)}
    (h : Listed groups parts) : constructs parts = groups.flatMap constructs := by
  rcases h with h | h
  · rw [h, constructs_flatMap]
    simp
  · have hconstructs := congrArg Target.constructs h
    rw [constructs_flatMap] at hconstructs
    simpa using hconstructs

mutual

theorem TypeExpr.MadeOf.constructs : (t : TypeExpr σ) → {parts : List (Part σ)} →
    t.MadeOf parts → constructs parts = t.lengths.map .expr
  | .path _ ts, _, h => by
    cases h with
    | path => simp [lengths, allLengths]
    | applied _ _ hts hlisted =>
      simp [lengths, hlisted.constructs, TypeExpr.allMadeOf_constructs ts hts]
  | .ref _ t, _, h => by
    cases h with
    | ref ht => simp [lengths, TypeExpr.MadeOf.constructs t ht]
    | @refRef _ t _ ht => simp [lengths, TypeExpr.MadeOf.constructs t ht]
  | .slice t, _, h => by
    cases h with
    | slice ht => simp [lengths, TypeExpr.MadeOf.constructs t ht]
  | .array t _, _, h => by
    cases h with
    | array ht => simp [lengths, TypeExpr.MadeOf.constructs t ht]
  | .tuple ts, _, h => by
    cases h with
    | tuple hts hlisted =>
      simp [lengths, hlisted.constructs, TypeExpr.allMadeOf_constructs ts hts]
  | .inferred, _, h => by
    cases h with
    | inferred => simp [lengths]

theorem TypeExpr.allMadeOf_constructs : (ts : List (TypeExpr σ)) →
    {groups : List (List (Part σ))} → List.Forall₂ TypeExpr.MadeOf ts groups →
    groups.flatMap Target.constructs = (TypeExpr.allLengths ts).map .expr
  | [], _, h => by
    cases h with
    | nil => rfl
  | t :: ts, _, h => by
    cases h with
    | cons ht hts =>
      simp [allLengths, TypeExpr.MadeOf.constructs t ht, TypeExpr.allMadeOf_constructs ts hts]

end

theorem Enclosed.constructs {opener closer : Symbol} {es : List (Expr σ)} {parts : List (Part σ)}
    (h : Enclosed opener closer es parts) : constructs parts = es.map .expr := by
  obtain ⟨hlisted⟩ := h
  simp [hlisted.constructs, List.flatMap_map, ← List.map_eq_flatMap]

/-- A closure loses the types of its parameters, and the lengths in them. -/
theorem Name.ParametersMadeOf.sublist {names : List (Name σ)} {parts : List (Part σ)}
    (h : Name.ParametersMadeOf names parts) : (names.map Construct.name).Sublist (constructs parts) := by
  cases h with
  | none => simp
  | mk hnames hlisted =>
    simp only [constructs_lexeme, constructs_append, hlisted.constructs, List.append_nil,
      constructs_nil]
    clear hlisted
    induction hnames with
    | nil => simp
    | cons hname _ ih =>
      rw [List.flatMap_cons, List.map_cons]
      cases hname with
      | bare => exact ih.cons_cons _
      | typed => exact (ih.trans (List.sublist_append_right _ _)).cons_cons _

theorem Statements.constructs {mayBeEmpty : Bool} {ss : List (Statement σ)} {parts : List (Part σ)}
    (h : Statements True (Part.symbol .semicolon) (fun s qs => qs = [.statement s]) mayBeEmpty ss
      parts) : constructs parts = ss.map .statement := by
  induction h with
  | nil => rfl
  | cons hs _ ih => simp [hs, ih]
  | empty _ _ ih => simp [ih]

theorem Expr.MadeOf.children_sublist {e : Expr σ} {parts : List (Part σ)} (h : e.MadeOf parts) :
    e.children.Sublist (constructs parts) := by
  cases h with
  | call hes => simp [children, hes.constructs]
  | methodCall hes => simp [children, hes.constructs]
  | array hes => simp [children, hes.constructs]
  | tuple _ hes => simp [children, hes.constructs]
  | closure hnames => simpa [children] using hnames.sublist
  | typedClosure hnames ht =>
    simp only [children, constructs_append]
    exact (hnames.sublist.trans (List.sublist_append_left _ _)).append (.refl _)
  | _ => simp [children]

theorem filter_isInner {outer inner : List (Attribute σ)} (houter : ∀ a ∈ outer, a.isInner = false)
    (hinner : ∀ a ∈ inner, a.isInner = true) :
    (outer ++ inner).filter (! ·.isInner) = outer ∧ (outer ++ inner).filter (·.isInner) = inner := by
  rw [List.filter_append, List.filter_append]
  constructor
  · rw [List.filter_eq_self.2 fun a ha => by simp [houter a ha],
      List.filter_eq_nil_iff.2 fun a ha => by simp [hinner a ha], List.append_nil]
  · rw [List.filter_eq_nil_iff.2 fun a ha => by simp [houter a ha],
      List.filter_eq_self.2 fun a ha => by simp [hinner a ha], List.nil_append]

theorem constructs_headParts (attributes : List (Attribute σ)) (v : Visibility) :
    constructs (headParts attributes v) = attributes.map .attr := by
  simp [headParts]

theorem Parameter.constructs_parts (p : Parameter σ) : constructs p.parts = p.children := by
  cases p
  simp [parts, children]

theorem Item.MadeOf.children_sublist {i : Item σ} {parts : List (Part σ)} (h : i.MadeOf parts) :
    i.children.Sublist (constructs parts) := by
  cases h with
  | module houter hinner =>
    obtain ⟨hkept, hkept'⟩ := filter_isInner houter hinner
    simp [children, hkept, hkept', constructs_headParts]
  | function _ hlisted =>
    simp [children, hlisted.constructs, constructs_headParts, List.flatMap_map,
      Parameter.constructs_parts]
  | _ => simp [children, constructs_headParts]

/-- The parts of a construct hold its children, in the order of the text; what else they hold is lost
in the tree. -/
theorem Construct.MadeOf.children_sublist {x : Construct σ} {parts : List (Part σ)}
    (h : x.MadeOf parts) : x.children.Sublist (constructs parts) := by
  cases x with
  | attr a | name n | member n => simp [children]
  | type t =>
    obtain ⟨place, t⟩ := t
    rw [children, TypeExpr.MadeOf.constructs t h]
  | expr e => exact Expr.MadeOf.children_sublist h
  | block b =>
    obtain ⟨hstatements⟩ := h
    simp [children, hstatements.constructs]
  | statement s => cases h <;> simp [children]
  | item i => exact Item.MadeOf.children_sublist h

end Children

/-! ### Stretches of lexemes -/

theorem IsPath.ne_nil {p : Path} {ls : List Lexeme} (h : IsPath p ls) : ls ≠ [] := by
  cases h <;> simp

theorem IsUseTree.ne_nil {tree : UseTree} {ls : List Lexeme} (h : IsUseTree tree ls) : ls ≠ [] := by
  cases h <;> simp

@[simp] theorem words_eq_nil {ls : List Lexeme} : (words ls : List (Part σ)) = [] ↔ ls = [] :=
  List.map_eq_nil_iff

theorem TypeExpr.MadeOf.ne_nil {t : TypeExpr σ} {parts : List (Part σ)} (h : t.MadeOf parts) :
    parts ≠ [] := by
  cases h with
  | path hp => simpa using hp.ne_nil
  | _ => simp

theorem Expr.MadeOf.ne_nil {e : Expr σ} {parts : List (Part σ)} (h : e.MadeOf parts) :
    parts ≠ [] := by
  cases h with
  | path hp => simpa using hp.ne_nil
  | array hes | tuple _ hes =>
    obtain ⟨-⟩ := hes
    simp
  | _ => simp

/-- No construct is made of nothing. -/
theorem Construct.MadeOf.ne_nil {x : Construct σ} {parts : List (Part σ)} (h : x.MadeOf parts) :
    parts ≠ [] := by
  cases x with
  | attr a =>
    obtain ⟨-, -⟩ := h
    simp
  | name n | member n => cases h <;> simp
  | type t =>
    obtain ⟨place, t⟩ := t
    exact TypeExpr.MadeOf.ne_nil h
  | expr e => exact Expr.MadeOf.ne_nil h
  | block b =>
    obtain ⟨-⟩ := h
    simp
  | statement s => cases h <;> simp
  | item i => cases h <;> simp

namespace Fills

variable {place : Nat → Nat → σ} {parts others inner : List (Part σ)} {start : Nat}
  {ls ms : List Lexeme} {x : Construct σ}

theorem append (h : Fills place parts start ls) (hothers : Fills place others (start + ls.length) ms) :
    Fills place (parts ++ others) start (ls ++ ms) := by
  induction h with
  | nil => exact hothers
  | lexeme _ ih =>
    refine .lexeme (ih ?_)
    rwa [List.length_cons, Nat.add_comm _ 1, ← Nat.add_assoc] at hothers
  | construct hx hinner hplace _ _ ih =>
    rw [List.append_assoc]
    refine .construct hx hinner hplace (ih ?_)
    rwa [List.length_append, ← Nat.add_assoc] at hothers

/-- Where the first of the parts end, the others begin. -/
theorem split {start : Nat} {ls : List Lexeme} (h : Fills place (parts ++ others) start ls) :
    ∃ ms ks, ls = ms ++ ks ∧ Fills place parts start ms ∧
      Fills place others (start + ms.length) ks := by
  induction parts generalizing start ls with
  | nil => exact ⟨[], ls, rfl, .nil, h⟩
  | cons part parts ih =>
    rcases h with _ | hrest | ⟨hx, hinner, hplace, hrest⟩
    · obtain ⟨ms, ks, rfl, hparts, hothers⟩ := ih hrest
      refine ⟨_ :: ms, ks, rfl, .lexeme hparts, ?_⟩
      rwa [List.length_cons, Nat.add_comm ms.length, ← Nat.add_assoc]
    · obtain ⟨ms, ks, rfl, hparts, hothers⟩ := ih hrest
      refine ⟨_ ++ ms, ks, (List.append_assoc _ _ _).symm, .construct hx hinner hplace hparts, ?_⟩
      rwa [List.length_append, ← Nat.add_assoc]

theorem one (hx : x.MadeOf inner) (hinner : Fills place inner start ls)
    (hplace : x.place = place start (start + ls.length)) : Fills place [.construct x] start ls := by
  simpa using Fills.construct hx hinner hplace .nil

theorem ofWords (ls : List Lexeme) (start : Nat) : Fills place (words ls) start ls := by
  induction ls generalizing start with
  | nil => exact .nil
  | cons l ls ih => exact .lexeme (ih (start + 1))

/-- What one construct fills. -/
theorem of_one (h : Fills place [.construct x] start ls) : ∃ inner, x.MadeOf inner ∧
    Fills place inner start ls ∧ x.place = place start (start + ls.length) := by
  obtain _ | _ | ⟨hx, hinner, hplace, hrest⟩ := h
  cases hrest
  rw [List.append_nil]
  exact ⟨_, hx, hinner, hplace⟩

theorem eq_of_words {ks : List Lexeme} (h : Fills place (words ks) start ls) : ls = ks := by
  induction ks generalizing start ls with
  | nil =>
    cases h
    rfl
  | cons k ks ih =>
    obtain _ | hrest := h
    rw [ih hrest]

/-- Parts fill no lexemes only if there are none. -/
theorem ne_nil (h : Fills place parts start ls) (hparts : parts ≠ []) : ls ≠ [] := by
  induction h with
  | nil => exact absurd rfl hparts
  | lexeme => simp
  | construct hx _ _ _ hinner =>
    have hms := hinner hx.ne_nil
    simp [hms]

/-- A construct among the parts fills a stretch of their lexemes. -/
theorem exists_stretch (h : Fills place parts start ls) (hx : x ∈ constructs parts) :
    ∃ before ms after, ls = before ++ (ms ++ after) ∧
      Fills place [.construct x] (start + before.length) ms := by
  induction h with
  | nil => simp at hx
  | @lexeme l parts start ls _ ih =>
    obtain ⟨before, ms, after, rfl, hms⟩ := ih hx
    refine ⟨l :: before, ms, after, rfl, ?_⟩
    rwa [List.length_cons, Nat.add_comm before.length, ← Nat.add_assoc]
  | @construct y inner parts start ms ls hy hinner hplace _ _ ih =>
    rw [constructs_construct, List.mem_cons] at hx
    rcases hx with rfl | hx
    · exact ⟨[], ms, ls, rfl, .one hy hinner hplace⟩
    · obtain ⟨before, ks, after, rfl, hks⟩ := ih hx
      refine ⟨ms ++ before, ks, after, by simp, ?_⟩
      rwa [List.length_append, ← Nat.add_assoc]

end Fills

/-- The places of stretches of lexemes, the first of which ends where the second begins or earlier;
both lie between these bounds. -/
def Precedes (place : Nat → Nat → σ) (start stop : Nat) (p q : σ) : Prop :=
  ∃ a b c d, start ≤ a ∧ a < b ∧ b ≤ c ∧ c < d ∧ d ≤ stop ∧ p = place a b ∧ q = place c d

/-- The constructs among parts stand apart from each other, in order. -/
theorem Fills.pairwise {place : Nat → Nat → σ} {parts : List (Part σ)} {start : Nat}
    {ls : List Lexeme} (h : Fills place parts start ls) :
    (constructs parts).Pairwise fun x y =>
      Precedes place start (start + ls.length) x.place y.place := by
  induction h with
  | nil => exact .nil
  | @lexeme l parts start ls _ ih =>
    refine ih.imp fun {x y} hxy => ?_
    obtain ⟨a, b, c, d, ha, hab, hbc, hcd, hd, hx, hy⟩ := hxy
    exact ⟨a, b, c, d, by omega, hab, hbc, hcd, by rw [List.length_cons]; omega, hx, hy⟩
  | @construct x inner parts start ms ls hx hinner hplace hparts _ ih =>
    -- the first construct fills a stretch of its own, and the others lie behind that
    have hne := hinner.ne_nil hx.ne_nil
    have hpos := List.length_pos_iff.2 hne
    refine List.pairwise_cons.2 ⟨fun y hy => ?_, ih.imp fun {y z} hyz => ?_⟩
    · obtain ⟨before, ks, after, rfl, hks⟩ := hparts.exists_stretch hy
      have hks' := List.length_pos_iff.2 (hks.ne_nil (by simp))
      obtain ⟨_, -, -, hplace'⟩ := hks.of_one
      refine ⟨_, _, _, _, Nat.le_refl start, by omega, by omega, by omega, ?_, hplace, hplace'⟩
      simp only [List.length_append]
      omega
    · obtain ⟨a, b, c, d, ha, hab, hbc, hcd, hd, hy, hz⟩ := hyz
      exact ⟨a, b, c, d, by omega, hab, hbc, hcd, by rw [List.length_append]; omega, hy, hz⟩

end EnsembleCompiler.Target
