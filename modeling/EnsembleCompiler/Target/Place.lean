import EnsembleCompiler.Target.Tree

/-!
# Places in syntax trees

A tree keeps its form when its places are replaced.
-/

namespace EnsembleCompiler.Target

variable {σ τ : Type}

def Name.map (f : σ → τ) (n : Name σ) : Name τ := ⟨f n.place, n.text⟩

def Attribute.map (f : σ → τ) (a : Attribute σ) : Attribute τ := ⟨f a.place, a.isInner, a.path⟩

mutual

def TypeExpr.map (f : σ → τ) : TypeExpr σ → TypeExpr τ
  | .path p arguments => .path p (TypeExpr.mapAll f arguments)
  | .ref isMutable target => .ref isMutable (target.map f)
  | .slice element => .slice (element.map f)
  | .array element length => .array (element.map f) (length.map f)
  | .tuple elements => .tuple (TypeExpr.mapAll f elements)
  | .inferred => .inferred

def TypeExpr.mapAll (f : σ → τ) : List (TypeExpr σ) → List (TypeExpr τ)
  | [] => []
  | t :: rest => t.map f :: TypeExpr.mapAll f rest

def Ascription.map (f : σ → τ) : Ascription σ → Ascription τ
  | .mk place type => .mk (f place) (type.map f)

def Ascription.mapOption (f : σ → τ) : Option (Ascription σ) → Option (Ascription τ)
  | none => none
  | some a => some (a.map f)

def Expr.map (f : σ → τ) : Expr σ → Expr τ
  | .literal place value => .literal (f place) value
  | .path place p => .path (f place) p
  | .unary place op operand => .unary (f place) op (operand.map f)
  | .binary place op left right => .binary (f place) op (left.map f) (right.map f)
  | .assign place op target value => .assign (f place) op (target.map f) (value.map f)
  | .cast place operand type => .cast (f place) (operand.map f) (type.map f)
  | .call place callee arguments => .call (f place) (callee.map f) (Expr.mapAll f arguments)
  | .methodCall place receiver method arguments =>
    .methodCall (f place) (receiver.map f) (method.map f) (Expr.mapAll f arguments)
  | .field place operand name => .field (f place) (operand.map f) (name.map f)
  | .index place operand i => .index (f place) (operand.map f) (i.map f)
  | .propagate place operand => .propagate (f place) (operand.map f)
  | .array place elements => .array (f place) (Expr.mapAll f elements)
  | .repeated place value length => .repeated (f place) (value.map f) (length.map f)
  | .tuple place elements => .tuple (f place) (Expr.mapAll f elements)
  | .paren place inner => .paren (f place) (inner.map f)
  | .block b => .block (b.map f)
  | .cond place condition body otherwise =>
    .cond (f place) (condition.map f) (body.map f) (Expr.mapOption f otherwise)
  | .closure place parameters body =>
    .closure (f place) (parameters.map (Name.map f)) (body.map f)
  | .ret place value => .ret (f place) (Expr.mapOption f value)

def Expr.mapAll (f : σ → τ) : List (Expr σ) → List (Expr τ)
  | [] => []
  | e :: rest => e.map f :: Expr.mapAll f rest

def Expr.mapOption (f : σ → τ) : Option (Expr σ) → Option (Expr τ)
  | none => none
  | some e => some (e.map f)

def Block.map (f : σ → τ) : Block σ → Block τ
  | .mk place statements tail =>
    .mk (f place) (Statement.mapAll f statements) (Expr.mapOption f tail)

def Statement.map (f : σ → τ) : Statement σ → Statement τ
  | .binding place isMutable name type value =>
    .binding (f place) isMutable (name.map f) (Ascription.mapOption f type)
      (Expr.mapOption f value)
  | .expr place e hasSemicolon => .expr (f place) (e.map f) hasSemicolon
  | .item i => .item (i.map f)

def Statement.mapAll (f : σ → τ) : List (Statement σ) → List (Statement τ)
  | [] => []
  | s :: rest => s.map f :: Statement.mapAll f rest

def Parameter.map (f : σ → τ) : Parameter σ → Parameter τ
  | .mk isMutable name type => .mk isMutable (name.map f) (type.map f)

def Parameter.mapAll (f : σ → τ) : List (Parameter σ) → List (Parameter τ)
  | [] => []
  | p :: rest => p.map f :: Parameter.mapAll f rest

def Item.map (f : σ → τ) : Item σ → Item τ
  | .module place visibility attributes name items =>
    .module (f place) visibility (attributes.map (Attribute.map f)) (name.map f)
      (Item.mapAll f items)
  | .moduleFile place visibility attributes name =>
    .moduleFile (f place) visibility (attributes.map (Attribute.map f)) (name.map f)
  | .function place visibility attributes name parameters result body =>
    .function (f place) visibility (attributes.map (Attribute.map f)) (name.map f)
      (Parameter.mapAll f parameters) (Ascription.mapOption f result) (body.map f)
  | .const place visibility attributes name type value =>
    .const (f place) visibility (attributes.map (Attribute.map f)) (name.map f) (type.map f)
      (value.map f)
  | .use place tree => .use (f place) tree

def Item.mapAll (f : σ → τ) : List (Item σ) → List (Item τ)
  | [] => []
  | i :: rest => i.map f :: Item.mapAll f rest

end

/-- The file with its places replaced. -/
def File.map (f : σ → τ) (file : File σ) : File τ :=
  ⟨file.attributes.map (Attribute.map f), Item.mapAll f file.items⟩

/-- The file without its places. -/
def File.erase (file : File σ) : File Unit := file.map fun _ => ()

end EnsembleCompiler.Target
