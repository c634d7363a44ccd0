import EnsembleCompiler.Target.Tree

/-!
# Names in scope

Whether every name that a tree uses stands for something: a name of the scope, which parameters,
`let` statements and closures extend, or a path that is defined outside. Paths of types and names
of methods and fields are not resolved in a scope and are left out.
-/

namespace EnsembleCompiler.Target

variable {σ : Type}

/-- The scope after a statement. -/
def Statement.scopeAfter (scope : List String) : Statement σ → List String
  | .binding _ _ name _ _ => name.text :: scope
  | .expr _ _ _ | .item _ => scope

def Parameter.name : Parameter σ → Name σ
  | .mk _ name _ => name

section

variable (defined : Path → Prop)

mutual

/-- The lengths of the arrays in a type use names of the scope and defined paths. -/
def TypeExpr.WellScoped (scope : List String) : TypeExpr σ → Prop
  | .path _ arguments => TypeExpr.AllWellScoped scope arguments
  | .ref _ target => target.WellScoped scope
  | .slice element => element.WellScoped scope
  | .array element length => element.WellScoped scope ∧ length.WellScoped scope
  | .tuple elements => TypeExpr.AllWellScoped scope elements
  | .inferred => True

def TypeExpr.AllWellScoped (scope : List String) : List (TypeExpr σ) → Prop
  | [] => True
  | t :: rest => t.WellScoped scope ∧ TypeExpr.AllWellScoped scope rest

def Ascription.WellScoped (scope : List String) : Ascription σ → Prop
  | .mk _ type => type.WellScoped scope

def Ascription.OptionWellScoped (scope : List String) : Option (Ascription σ) → Prop
  | none => True
  | some a => a.WellScoped scope

/-- An expression uses names of the scope and defined paths. -/
def Expr.WellScoped (scope : List String) : Expr σ → Prop
  | .literal _ _ => True
  | .path _ p => (∃ name ∈ scope, p = [name]) ∨ defined p
  | .unary _ _ operand => operand.WellScoped scope
  | .binary _ _ left right => left.WellScoped scope ∧ right.WellScoped scope
  | .assign _ _ target value => target.WellScoped scope ∧ value.WellScoped scope
  | .cast _ operand type => operand.WellScoped scope ∧ type.WellScoped scope
  | .call _ callee arguments => callee.WellScoped scope ∧ Expr.AllWellScoped scope arguments
  | .methodCall _ receiver _ arguments =>
    receiver.WellScoped scope ∧ Expr.AllWellScoped scope arguments
  | .field _ operand _ => operand.WellScoped scope
  | .index _ operand i => operand.WellScoped scope ∧ i.WellScoped scope
  | .propagate _ operand => operand.WellScoped scope
  | .array _ elements => Expr.AllWellScoped scope elements
  | .repeated _ value length => value.WellScoped scope ∧ length.WellScoped scope
  | .tuple _ elements => Expr.AllWellScoped scope elements
  | .paren _ inner => inner.WellScoped scope
  | .block b => b.WellScoped scope
  | .cond _ condition body otherwise =>
    condition.WellScoped scope ∧ body.WellScoped scope ∧ Expr.OptionWellScoped scope otherwise
  | .closure _ parameters body => body.WellScoped (parameters.map (·.text) ++ scope)
  | .ret _ value => Expr.OptionWellScoped scope value

def Expr.AllWellScoped (scope : List String) : List (Expr σ) → Prop
  | [] => True
  | e :: rest => e.WellScoped scope ∧ Expr.AllWellScoped scope rest

def Expr.OptionWellScoped (scope : List String) : Option (Expr σ) → Prop
  | none => True
  | some e => e.WellScoped scope

def Block.WellScoped (scope : List String) : Block σ → Prop
  | .mk _ statements tail =>
    Statement.AllWellScoped scope statements ∧
      Expr.OptionWellScoped (statements.foldl Statement.scopeAfter scope) tail

/-- An item among the statements would bring names of its own and is refused. -/
def Statement.WellScoped (scope : List String) : Statement σ → Prop
  | .binding _ _ _ type value =>
    Ascription.OptionWellScoped scope type ∧ Expr.OptionWellScoped scope value
  | .expr _ e _ => e.WellScoped scope
  | .item _ => False

def Statement.AllWellScoped (scope : List String) : List (Statement σ) → Prop
  | [] => True
  | s :: rest => s.WellScoped scope ∧ Statement.AllWellScoped (s.scopeAfter scope) rest

end

def Parameter.WellScoped : Parameter σ → Prop
  | .mk _ _ type => type.WellScoped defined []

/-- A function or a constant uses its parameters and defined paths. Items of other kinds are
refused. -/
def Item.WellScoped : Item σ → Prop
  | .function _ _ _ _ parameters result body =>
    (∀ p ∈ parameters, Parameter.WellScoped defined p) ∧
      Ascription.OptionWellScoped defined [] result ∧
      body.WellScoped defined (parameters.map (·.name.text))
  | .const _ _ _ _ type value => type.WellScoped defined [] ∧ value.WellScoped defined []
  | .module _ _ _ _ _ | .moduleFile _ _ _ _ | .use _ _ => False

end

variable {defined : Path → Prop} {scope : List String}

/-! ### Lists -/

theorem Expr.allWellScoped_iff {es : List (Expr σ)} :
    Expr.AllWellScoped defined scope es ↔ ∀ e ∈ es, e.WellScoped defined scope := by
  induction es with
  | nil => simp [Expr.AllWellScoped]
  | cons e es ih => simp [Expr.AllWellScoped, ih]

theorem Statement.allWellScoped_of_expr {ss : List (Statement σ)}
    (h : ∀ s ∈ ss, s.WellScoped defined scope ∧ s.scopeAfter scope = scope) :
    Statement.AllWellScoped defined scope ss ∧ ss.foldl Statement.scopeAfter scope = scope := by
  induction ss with
  | nil => exact ⟨trivial, rfl⟩
  | cons s ss ih =>
    obtain ⟨hs, hscope⟩ := h s List.mem_cons_self
    obtain ⟨hrest, hfold⟩ := ih fun t ht => h t (List.mem_cons_of_mem s ht)
    refine ⟨⟨hs, ?_⟩, ?_⟩
    · rwa [hscope]
    · rw [List.foldl_cons, hscope, hfold]

theorem Expr.wellScoped_name {name : String} (h : name ∈ scope) (place : σ) :
    (Expr.path place [name]).WellScoped defined scope := .inl ⟨name, h, rfl⟩

theorem Expr.wellScoped_defined {p : Path} (h : defined p) (place : σ) :
    (Expr.path place p).WellScoped defined scope := .inr h

end EnsembleCompiler.Target
