import EnsembleCompiler.Proofs.Target.Surroundings

/-!
# The grammar in other surroundings

Every parser of the grammar reads in other surroundings what it reads in its own, with the places of
what it returns replaced; a block, an attribute and an item end with a final lexeme, so that nothing
behind them matters. By induction on the levels of recursion.

So the form of a tree does not depend on what its places are, and levels of recursion that are enough
for a text are as good as any greater number.
-/

namespace EnsembleCompiler.Target

open Target.Parser Grammar

variable {σ τ : Type} [Places σ] [Places τ] {v : Surroundings σ τ} {N : Option Lexeme → Prop}

/-! ### Words -/

theorem mirrors_identifier : Mirrors v N (Becomes (Name.map v.place)) identifier identifier := by
  refine mirrors_peek fun x => ?_
  split
  · exact mirrors_advance.bind fun _ => mirrors_pure rfl
  · exact mirrors_fail (by simp)

theorem mirrors_binder : Mirrors v N (Becomes (Name.map v.place)) binder binder := by
  refine mirrors_at?.behind fun unnamed => mirrors_ite ?_ mirrors_identifier
  exact mirrors_advance.bind fun _ => mirrors_pure rfl

theorem mirrors_segment : Mirrors v N Eq Parser.segment Parser.segment := by
  refine mirrors_peek fun x => ?_
  split
  · exact mirrors_shift.behind fun _ => mirrors_pure rfl
  · exact mirrors_fail (by simp)

/-- Before a lexeme that is not final, both surroundings show the same lexeme after it. -/
theorem SameSecond.eq_of {x : Lexeme} {y z : Option Lexeme} (h : SameSecond (some x) y z)
    (hx : x.isFinal = false) : y = z := by
  rcases h with h | ⟨s, hs, hfinal⟩
  · exact h
  · cases hs
    rw [hx] at hfinal
    cases hfinal

theorem mirrors_path : Mirrors v N Eq path path := by
  refine mirrors_segment.behind fun first => ?_
  refine mirrors_loop (ψ := id) (fun segments => mirrors_look fun x y z hsame => ?_) [first]
  by_cases hx : x = some (Lexeme.symbol .pathSep)
  · subst hx
    obtain rfl := hsame.eq_of rfl
    refine mirrors_ite (mirrors_shift.behind fun _ => mirrors_segment.behind fun text => ?_) ?_
    · exact mirrors_pure rfl
    · exact mirrors_pure rfl
  · simp only [hx, decide_false, Bool.false_and, Bool.false_eq_true, if_false]
    exact mirrors_pure rfl

/-! ### What is said of each goal -/

/-- The parsers of one table read in other surroundings what those of the other read in their own. -/
structure Table.Mirrored (v : Surroundings σ τ) (S : Table σ) (T : Table τ) : Prop where
  type : Mirrors v Always (Becomes (TypeExpr.map v.place)) (S .type) (T .type)
  expr : Mirrors v Always (Becomes (Expr.map v.place)) (S .expr) (T .expr)
  operand : ∀ power,
    Mirrors v Always (Becomes (Expr.map v.place)) (S (.operand power)) (T (.operand power))
  unary : Mirrors v Always (Becomes (Expr.map v.place)) (S .unary) (T .unary)
  cond : Mirrors v Always (Becomes (Expr.map v.place)) (S .cond) (T .cond)
  block : Seals v Always (Becomes (Block.map v.place)) (S .block) (T .block)
  item : Seals v Always (Becomes (Item.map v.place)) (S .item) (T .item)
  useTree : Mirrors v Always Eq (S .useTree) (T .useTree)

section Grammar

variable {S : Table σ} {T : Table τ}

/-- A parser of one table that fails has a counterpart in the other. -/
theorem Table.Mirrored.fails {α : Type} (h : Table.Mirrored v S T) {c : Cursor} {i : Nat}
    {cause : SyntaxCause} (hv : v.Repeats cause) (goal : Goal σ α)
    (hrun : (S goal).run c = .failed i cause) :
    ∃ (β : Type) (other : Goal τ β), (T other).run (c.within v) = .failed (i + v.before) cause := by
  cases goal with
  | type => exact ⟨_, .type, h.type.fails trivial hv hrun⟩
  | expr => exact ⟨_, .expr, h.expr.fails trivial hv hrun⟩
  | operand power => exact ⟨_, .operand power, (h.operand power).fails trivial hv hrun⟩
  | unary => exact ⟨_, .unary, h.unary.fails trivial hv hrun⟩
  | cond => exact ⟨_, .cond, h.cond.fails trivial hv hrun⟩
  | block => exact ⟨_, .block, h.block.fails trivial hv hrun⟩
  | item => exact ⟨_, .item, h.item.fails trivial hv hrun⟩
  | useTree => exact ⟨_, .useTree, h.useTree.fails trivial hv hrun⟩

/-! ### Types -/

theorem mirrors_ascription {p : Parser (TypeExpr σ)} {q : Parser (TypeExpr τ)}
    (h : Mirrors v Always (Becomes (TypeExpr.map v.place)) p q) :
    Mirrors v N (Becomes (Ascription.map v.place)) (ascription p) (ascription q) :=
  mirrors_located (h.bind fun t => mirrors_pure fun r => by rw [Ascription.map])

theorem mirrors_typeArguments (h : Table.Mirrored v S T) :
    Mirrors v N (Becomes (List.map (TypeExpr.map v.place))) (typeArguments S)
      (typeArguments T) := by
  refine mirrors_loop (ψ := List.map (TypeExpr.map v.place)) (fun ts => ?_) []
  refine h.type.any.bind fun t => mirrors_accept.behind fun comma => mirrors_ite ?_ (mirrors_pure ?_)
  · refine mirrors_at?.behind fun ends => mirrors_ite (mirrors_pure ?_) (mirrors_pure rfl)
    exact List.map_reverse (l := t :: ts).symm
  · exact List.map_reverse (l := t :: ts).symm

theorem mirrors_referenceType (h : Table.Mirrored v S T) :
    Mirrors v N (Becomes (TypeExpr.map v.place)) (referenceType S) (referenceType T) := by
  refine mirrors_shift.behind fun _ => mirrors_accept.behind fun isMutable => ?_
  exact h.type.bind fun t => mirrors_pure (by rw [Becomes, TypeExpr.map])

theorem mirrors_typeExpr (h : Table.Mirrored v S T) :
    Mirrors v N (Becomes (TypeExpr.map v.place)) (typeExpr S) (typeExpr T) := by
  unfold typeExpr
  refine mirrors_peek fun x => ?_
  dsimp only
  split
  · exact mirrors_referenceType h
  · exact (mirrors_referenceType h).bind fun t => mirrors_pure (by rw [Becomes, TypeExpr.map])
  · refine mirrors_shift.behind fun _ => h.type.bind fun element => ?_
    refine mirrors_accept.behind fun sized => mirrors_ite ?_ ?_
    · refine h.expr.bind fun length => mirrors_symbol.behind fun _ => mirrors_pure ?_
      rw [Becomes, TypeExpr.map]
    · exact mirrors_symbol.behind fun _ => mirrors_pure (by rw [Becomes, TypeExpr.map])
  · refine mirrors_shift.behind fun _ => (mirrors_commaSeparated h.type []).bind fun ts => ?_
    refine mirrors_symbol.behind fun _ => mirrors_pure ?_
    rw [Becomes, TypeExpr.map, TypeExpr.mapAll_eq]
  · exact mirrors_shift.behind fun _ => mirrors_pure (by rw [Becomes, TypeExpr.map])
  · refine mirrors_ite (mirrors_path.behind fun p => ?_) (mirrors_fail (by simp))
    refine mirrors_accept.behind fun applied => mirrors_ite ?_ (mirrors_pure ?_)
    · refine (mirrors_typeArguments h).bind fun ts => mirrors_symbol.behind fun _ => mirrors_pure ?_
      rw [Becomes, TypeExpr.map, TypeExpr.mapAll_eq]
    · rw [Becomes, TypeExpr.map, TypeExpr.mapAll]

/-! ### Blocks -/

theorem mirrors_binding (h : Table.Mirrored v S T) :
    Mirrors v N (Becomes (Statement.map v.place)) (binding S) (binding T) := by
  unfold binding
  refine mirrors_located (mirrors_keyword.behind fun _ => mirrors_accept.behind fun isMutable => ?_)
  refine mirrors_binder.bind fun name => ?_
  refine mirrors_optionalPart (mirrors_ascription h.type) fun type => ?_
  refine mirrors_optionalPart h.expr fun value => ?_
  refine mirrors_symbol.behind fun _ => mirrors_pure fun r => ?_
  rw [Statement.map, Ascription.mapOption_eq, Expr.mapOption_eq]

theorem mirrors_statementExpr (h : Table.Mirrored v S T) (here : Option Lexeme) :
    Mirrors v N (Becomes (Expr.map v.place)) (statementExpr S here)
      (statementExpr T here) := by
  unfold statementExpr
  refine mirrors_ite h.cond.any (mirrors_ite ?_ h.expr.any)
  exact h.block.mirrors.any.map fun b => by rw [Becomes, Expr.map]

/-- Whether an item begins is seen from a lexeme and the one after it, if this one is no final one. -/
theorem startsItem_same {x y z : Option Lexeme} (h : SameSecond x y z) :
    startsItem x y = startsItem x z := by
  rcases h with rfl | ⟨s, rfl, hs⟩
  · rfl
  · cases s with
    | symbol s => cases s <;> rfl
    | _ => cases hs

/-- The statements and the value of a block with their places replaced. -/
def moveBody (v : Surroundings σ τ) (body : List (Statement σ) × Option (Expr σ)) :
    List (Statement τ) × Option (Expr τ) :=
  (body.1.map (Statement.map v.place), body.2.map (Expr.map v.place))

theorem mirrors_blockBody (h : Table.Mirrored v S T) (opener : Nat) :
    Mirrors v N (Becomes (moveBody v)) (blockBody S opener)
      (blockBody T (opener + v.before)) := by
  unfold blockBody
  refine mirrors_loop (ψ := List.map (Statement.map v.place))
    (fun statements => mirrors_look fun x y z hsame => ?_) []
  have hreverse : (statements.map (Statement.map v.place)).reverse =
      statements.reverse.map (Statement.map v.place) := List.map_reverse.symm
  dsimp only
  rw [startsItem_same hsame, hreverse]
  refine mirrors_ite (mirrors_pure rfl) ?_
  -- the one place where a block is found to be open
  by_cases hx : x = none
  · rw [if_pos hx, if_pos hx]
    exact mirrors_openBlock fun _ hy => hy.trans hx
  rw [if_neg hx, if_neg hx]
  refine mirrors_ite (mirrors_shift.behind fun _ => mirrors_again rfl) ?_
  refine mirrors_ite ((mirrors_binding h).bind fun s => mirrors_again rfl) ?_
  refine mirrors_ite (h.item.mirrors.any.bind fun i => mirrors_again ?_) ?_
  · rw [List.map_cons, Statement.map]
  refine (mirrors_statementExpr h x).bind fun e => ?_
  refine mirrors_accept.behind fun closed => mirrors_ite (mirrors_previousPlace.bind fun last => ?_) ?_
  · refine mirrors_again ?_
    rw [List.map_cons, Statement.map, v.place_merge, Expr.place_map]
  refine mirrors_at?.behind fun ends => mirrors_ite (mirrors_pure rfl) ?_
  rw [Expr.isBlockLike_map]
  refine mirrors_ite (mirrors_again ?_) (mirrors_fail (by simp))
  rw [List.map_cons, Statement.map, Expr.place_map]

theorem seals_block (h : Table.Mirrored v S T) :
    Seals v N (Becomes (Block.map v.place)) (block S) (block T) := by
  unfold block
  refine seals_located (mirrors_position.seals fun opener => mirrors_symbol.sealsBehind fun _ => ?_)
  refine (mirrors_blockBody h opener).seals fun body => ?_
  refine seals_symbol rfl fun r => ?_
  rw [Block.map, Statement.mapAll_eq, Expr.mapOption_eq]

theorem mirrors_cond (h : Table.Mirrored v S T) :
    Mirrors v N (Becomes (Expr.map v.place)) (Grammar.cond S) (Grammar.cond T) := by
  unfold Grammar.cond
  refine mirrors_located (mirrors_keyword.behind fun _ => mirrors_at?.behind fun binds => ?_)
  refine mirrors_ite (mirrors_fail_bind (by simp)) ?_
  refine h.expr.bind fun condition => h.block.mirrors.bind fun body => ?_
  -- however the `else` is read, the expression is built of the same parts
  have hvalue (otherwise : Option (Expr σ)) : Mirrors v Always (Awaits v (Expr.map v.place))
      (pure fun place => .cond place condition body otherwise)
      (pure fun place => .cond place (condition.map v.place) (body.map v.place)
        (otherwise.map (Expr.map v.place))) :=
    mirrors_pure fun r => by rw [Expr.map, Expr.mapOption_eq]
  refine mirrors_accept.behind fun found => mirrors_ite (mirrors_peek fun x => ?_) (hvalue none)
  dsimp only
  split
  · have hcond : Mirrors v Always (Becomes (Option.map (Expr.map v.place)))
        (some <$> S .cond) (some <$> T .cond) := h.cond.map fun _ => rfl
    exact hcond.any.bind hvalue
  · have hblock : Mirrors v Always (Becomes (Option.map (Expr.map v.place)))
        ((fun b => some (.block b)) <$> S .block) ((fun b => some (.block b)) <$> T .block) :=
      h.block.mirrors.map fun b => by rw [Becomes, Option.map_some, Expr.map]
    exact hblock.any.bind hvalue
  · exact mirrors_fail_bind (by simp)

/-! ### Expressions -/

theorem mirrors_closureParameter (h : Table.Mirrored v S T) :
    Mirrors v N (Becomes (Name.map v.place)) (closureParameter S) (closureParameter T) := by
  unfold closureParameter
  refine mirrors_binder.bind fun name => mirrors_accept.behind fun typed => ?_
  exact mirrors_ite (h.type.bind fun _ => mirrors_pure rfl) (mirrors_pure rfl)

theorem mirrors_closureParameters (h : Table.Mirrored v S T) :
    Mirrors v N (Becomes (List.map (Name.map v.place))) (closureParameters S)
      (closureParameters T) := by
  unfold closureParameters
  refine mirrors_accept.behind fun empty => mirrors_ite (mirrors_pure rfl) ?_
  refine mirrors_symbol.behind fun _ => ?_
  refine (mirrors_commaSeparated (mirrors_closureParameter h) []).bind fun names => ?_
  exact mirrors_symbol.behind fun _ => mirrors_pure rfl

theorem mirrors_closure (h : Table.Mirrored v S T) :
    Mirrors v N (Becomes (Expr.map v.place)) (Grammar.closure S) (Grammar.closure T) := by
  unfold Grammar.closure
  refine mirrors_currentPlace.bind fun start => (mirrors_closureParameters h).bind fun parameters => ?_
  have hvalue (body : Expr σ) : Mirrors v Always (Becomes (Expr.map v.place))
      (pure (.closure (Places.merge start body.place) parameters body))
      (pure (.closure (Places.merge (v.place start) (body.map v.place).place)
        (parameters.map (Name.map v.place)) (body.map v.place))) :=
    mirrors_pure (by rw [Becomes, Expr.map, v.place_merge, Expr.place_map])
  refine mirrors_accept.behind fun typed => mirrors_ite ?_ (h.expr.bind hvalue)
  refine h.type.bind fun _ => mirrors_at?.behind fun braced => ?_
  refine mirrors_ite ?_ (mirrors_fail_bind (by simp))
  have hblock : Mirrors v Always (Becomes (Expr.map v.place)) (Expr.block <$> S .block)
      (Expr.block <$> T .block) := h.block.mirrors.map fun b => by rw [Becomes, Expr.map]
  exact hblock.bind hvalue

theorem mirrors_parenthesised (h : Table.Mirrored v S T) :
    Mirrors v N (Awaits v (Expr.map v.place)) (parenthesised S) (parenthesised T) := by
  unfold parenthesised
  refine mirrors_symbol.behind fun _ => mirrors_accept.behind fun empty => mirrors_ite ?_ ?_
  · exact mirrors_pure fun r => by rw [Expr.map, Expr.mapAll]
  refine h.expr.bind fun first => mirrors_accept.behind fun single => mirrors_ite ?_ ?_
  · exact mirrors_pure fun r => by rw [Expr.map]
  refine mirrors_accept.behind fun comma => mirrors_ite (mirrors_fail_bind (by simp)) ?_
  refine (mirrors_commaSeparated h.expr [first]).bind fun elements => ?_
  exact mirrors_symbol.behind fun _ => mirrors_pure fun r => by rw [Expr.map, Expr.mapAll_eq]

theorem mirrors_arrayElements (h : Table.Mirrored v S T) (first : Expr σ) :
    Mirrors v N (Becomes (List.map (Expr.map v.place))) (arrayElements S first)
      (arrayElements T (first.map v.place)) := by
  unfold arrayElements
  refine mirrors_loop (ψ := List.map (Expr.map v.place)) (fun elements => ?_) [first]
  have hleave : Mirrors v Always
      (Turn.Mirrored (List.map (Expr.map v.place)) (Becomes (List.map (Expr.map v.place))))
      (pure (.leave elements.reverse)) (pure (.leave (elements.map (Expr.map v.place)).reverse)) :=
    mirrors_pure List.map_reverse.symm
  refine mirrors_accept.behind fun comma => mirrors_ite ?_ hleave
  exact mirrors_at?.behind fun ends => mirrors_ite hleave (h.expr.bind fun e => mirrors_pure rfl)

theorem mirrors_bracketed (h : Table.Mirrored v S T) :
    Mirrors v N (Awaits v (Expr.map v.place)) (bracketed S) (bracketed T) := by
  unfold bracketed
  refine mirrors_symbol.behind fun _ => mirrors_accept.behind fun empty => mirrors_ite ?_ ?_
  · exact mirrors_pure fun r => by rw [Expr.map, Expr.mapAll]
  refine h.expr.bind fun first => mirrors_accept.behind fun repeats => mirrors_ite ?_ ?_
  · refine h.expr.bind fun length => mirrors_symbol.behind fun _ => mirrors_pure fun r => ?_
    rw [Expr.map]
  · refine (mirrors_arrayElements h first).bind fun elements => ?_
    exact mirrors_symbol.behind fun _ => mirrors_pure fun r => by rw [Expr.map, Expr.mapAll_eq]

theorem mirrors_ret (h : Table.Mirrored v S T) :
    Mirrors v N (Awaits v (Expr.map v.place)) (ret S) (ret T) := by
  unfold ret
  refine mirrors_shift.behind fun _ => mirrors_peek fun x => mirrors_ite (mirrors_pure fun r => ?_) ?_
  · rw [Expr.map, Expr.mapOption]
  · exact h.expr.any.bind fun value => mirrors_pure fun r => by rw [Expr.map, Expr.mapOption]

theorem mirrors_pathExpr : Mirrors v N (Awaits v (Expr.map v.place)) pathExpr pathExpr := by
  unfold pathExpr
  refine mirrors_path.behind fun p => mirrors_look fun x y z hsame => ?_
  have hvalue {M : Option Lexeme → Prop} : Mirrors v M (Awaits v (Expr.map v.place))
      (pure fun place => .path place p) (pure fun place => .path place p) :=
    mirrors_pure fun r => by rw [Expr.map]
  by_cases hx : x = some (Lexeme.symbol .bang)
  · subst hx
    obtain rfl := hsame.eq_of rfl
    exact mirrors_ite (mirrors_fail_bind (by simp)) hvalue
  · simp only [hx, decide_false, Bool.false_and, Bool.false_eq_true, if_false]
    exact hvalue

theorem mirrors_primary (h : Table.Mirrored v S T) :
    Mirrors v N (Becomes (Expr.map v.place)) (primary S) (primary T) := by
  unfold primary
  refine mirrors_peek fun x => ?_
  split
  · exact mirrors_advance.bind fun _ => mirrors_pure (by rw [Becomes, Expr.map])
  · refine mirrors_ite (mirrors_located mirrors_pathExpr) ?_
    split
    · exact mirrors_located (mirrors_parenthesised h)
    · exact mirrors_located (mirrors_bracketed h)
    · exact (seals_block h).mirrors.map fun b => by rw [Becomes, Expr.map]
    · exact mirrors_cond h
    · exact mirrors_closure h
    · exact mirrors_closure h
    · exact mirrors_located (mirrors_ret h)
    · exact mirrors_fail (by simp)
    · exact mirrors_fail (by simp)

theorem mirrors_arguments (h : Table.Mirrored v S T) :
    Mirrors v N (Becomes (List.map (Expr.map v.place))) (arguments S) (arguments T) := by
  refine mirrors_symbol.behind fun _ => (mirrors_commaSeparated h.expr []).bind fun list => ?_
  exact mirrors_symbol.behind fun _ => mirrors_pure rfl

theorem mirrors_fieldName : Mirrors v N (Becomes (Name.map v.place)) fieldName fieldName := by
  refine mirrors_peek fun x => ?_
  split
  · exact mirrors_advance.bind fun _ => mirrors_pure rfl
  · exact mirrors_identifier

theorem mirrors_postfixed (h : Table.Mirrored v S T) :
    Mirrors v N (Becomes (Expr.map v.place)) (postfixed S) (postfixed T) := by
  unfold postfixed
  refine (mirrors_primary h).bind fun first => ?_
  refine mirrors_loop (ψ := Expr.map v.place) (fun e => mirrors_peek fun x => ?_) first
  dsimp only
  split
  · refine (mirrors_arguments h).bind fun list => mirrors_previousPlace.bind fun last => ?_
    exact mirrors_again (by rw [Expr.map, Expr.mapAll_eq, v.place_merge, Expr.place_map])
  · refine mirrors_shift.behind fun _ => h.expr.bind fun index => mirrors_symbol.behind fun _ => ?_
    refine mirrors_previousPlace.bind fun last => mirrors_again ?_
    rw [Expr.map, v.place_merge, Expr.place_map]
  · refine mirrors_advance.bind fun last => mirrors_again ?_
    rw [Expr.map, v.place_merge, Expr.place_map]
  · refine mirrors_shift.behind fun _ => mirrors_fieldName.bind fun name => ?_
    refine mirrors_at?.behind fun called => mirrors_ite ?_ (mirrors_again ?_)
    · refine (mirrors_arguments h).bind fun list => mirrors_previousPlace.bind fun last => ?_
      exact mirrors_again (by rw [Expr.map, Expr.mapAll_eq, v.place_merge, Expr.place_map])
    · rw [Expr.map, v.place_merge, Expr.place_map]
      rfl
  · exact mirrors_pure rfl

theorem mirrors_unary (h : Table.Mirrored v S T) :
    Mirrors v N (Becomes (Expr.map v.place)) (Grammar.unary S) (Grammar.unary T) := by
  unfold Grammar.unary
  refine mirrors_peek fun x => ?_
  split
  · refine mirrors_advance.bind fun start => h.unary.bind fun e => mirrors_pure ?_
    rw [Becomes, Expr.map, v.place_merge, Expr.place_map]
  · refine mirrors_ite (mirrors_advance.bind fun start => ?_) (mirrors_postfixed h)
    refine mirrors_accept.behind fun isMutable => h.unary.bind fun e => mirrors_pure ?_
    rw [Becomes, Expr.map, v.place_merge, Expr.place_map]

theorem mirrors_operand (h : Table.Mirrored v S T) (power : Nat) :
    Mirrors v N (Becomes (Expr.map v.place)) (operand S power) (operand T power) := by
  unfold operand
  refine (mirrors_unary h).bind fun first => ?_
  refine mirrors_loop (ψ := Prod.map (Expr.map v.place) id) (fun state => ?_) (first, false)
  refine mirrors_peek fun x => mirrors_ite (mirrors_ite (mirrors_pure rfl) ?_) ?_
  · refine mirrors_shift.behind fun _ => (mirrors_ascription h.type).bind fun type => ?_
    refine mirrors_again ?_
    rw [Prod.map, Expr.map, v.place_merge]
    simp
  dsimp only
  split
  · exact mirrors_pure rfl
  · refine mirrors_ite (mirrors_pure rfl) (mirrors_ite (mirrors_fail_bind (by simp)) ?_)
    refine mirrors_shift.behind fun _ => (h.operand _).bind fun right => mirrors_again ?_
    rw [Prod.map, Expr.map, v.place_merge]
    simp

theorem mirrors_expr (h : Table.Mirrored v S T) :
    Mirrors v N (Becomes (Expr.map v.place)) (Grammar.expr S) (Grammar.expr T) := by
  unfold Grammar.expr
  refine (mirrors_operand h 0).bind fun target => mirrors_peek fun x => ?_
  split
  · exact mirrors_pure rfl
  · refine mirrors_shift.behind fun _ => h.expr.bind fun value => mirrors_pure ?_
    rw [Becomes, Expr.map, v.place_merge, Expr.place_map, Expr.place_map]

/-! ### Attributes and visibility -/

theorem mirrors_attributeArguments : Mirrors v N Eq attributeArguments attributeArguments := by
  unfold attributeArguments
  refine mirrors_loop (ψ := id) (fun depth => mirrors_peek fun x => ?_) 0
  dsimp only
  split
  · exact mirrors_fail (by simp)
  · exact mirrors_shift.behind fun _ => mirrors_again rfl
  · exact mirrors_shift.behind fun _ => mirrors_again rfl
  · exact mirrors_shift.behind fun _ => mirrors_again rfl
  · refine mirrors_ite (mirrors_fail_bind (by simp)) ?_
    exact mirrors_shift.behind fun _ => mirrors_again rfl
  · refine mirrors_ite (mirrors_fail_bind (by simp)) ?_
    exact mirrors_shift.behind fun _ => mirrors_again rfl
  · refine mirrors_ite (mirrors_leave rfl) ?_
    exact mirrors_shift.behind fun _ => mirrors_again rfl
  · exact mirrors_shift.behind fun _ => mirrors_again rfl

theorem seals_attr : Seals v N (Becomes (Attribute.map v.place)) attr attr := by
  unfold attr
  refine seals_located (mirrors_symbol.sealsBehind fun _ => ?_)
  refine mirrors_accept.sealsBehind fun isInner => mirrors_symbol.sealsBehind fun _ => ?_
  refine mirrors_path.sealsBehind fun p => mirrors_attributeArguments.sealsBehind fun _ => ?_
  exact seals_symbol rfl fun r => rfl

theorem mirrors_innerAttributes :
    Mirrors v N (Becomes (List.map (Attribute.map v.place))) innerAttributes innerAttributes := by
  unfold innerAttributes
  refine mirrors_loop (ψ := List.map (Attribute.map v.place)) (fun as => ?_) []
  refine mirrors_look fun x y z hsame => ?_
  by_cases hx : x = some (Lexeme.symbol .hash)
  · subst hx
    obtain rfl := hsame.eq_of rfl
    refine mirrors_ite (seals_attr.mirrors.bind fun a => mirrors_again rfl) ?_
    exact mirrors_leave List.map_reverse.symm
  · simp only [hx, decide_false, Bool.false_and, Bool.false_eq_true, if_false]
    exact mirrors_leave List.map_reverse.symm

theorem mirrors_outerAttributes :
    Mirrors v N (Becomes (List.map (Attribute.map v.place))) outerAttributes outerAttributes := by
  unfold outerAttributes
  refine mirrors_loop (ψ := List.map (Attribute.map v.place)) (fun as => ?_) []
  refine mirrors_look fun x y z hsame => ?_
  dsimp only
  by_cases hx : x = some (Lexeme.symbol .hash)
  · subst hx
    obtain rfl := hsame.eq_of rfl
    refine mirrors_ite (mirrors_ite (mirrors_fail_bind (by simp)) ?_) ?_
    · exact seals_attr.mirrors.bind fun a => mirrors_again rfl
    · exact mirrors_leave List.map_reverse.symm
  · rw [if_neg hx, if_neg hx]
    exact mirrors_leave List.map_reverse.symm

theorem mirrors_visibility : Mirrors v N Eq visibility visibility := by
  unfold visibility
  refine mirrors_accept.behind fun isPublic => mirrors_ite (mirrors_pure rfl) ?_
  refine mirrors_accept.behind fun limited => mirrors_ite (mirrors_pure rfl) ?_
  refine mirrors_peek fun x => ?_
  split
  · refine mirrors_ite (mirrors_shift.behind fun _ => ?_) (mirrors_fail (by simp))
    exact mirrors_symbol.behind fun _ => mirrors_pure rfl
  · exact mirrors_fail (by simp)

/-! ### Items -/

variable {w : Visibility} {as : List (Attribute σ)}

theorem mirrors_parameter (h : Table.Mirrored v S T) :
    Mirrors v N (Becomes (Parameter.map v.place)) (parameter S) (parameter T) := by
  unfold parameter
  refine mirrors_accept.behind fun isMutable => mirrors_binder.bind fun name => ?_
  refine mirrors_symbol.behind fun _ => (mirrors_ascription h.type).bind fun type => ?_
  exact mirrors_pure (by rw [Becomes, Parameter.map])

theorem seals_function (h : Table.Mirrored v S T) :
    Seals v N (Awaits v (Item.map v.place)) (function S w as)
      (function T w (as.map (Attribute.map v.place))) := by
  unfold function
  refine mirrors_keyword.sealsBehind fun _ => mirrors_identifier.seals fun name => ?_
  refine mirrors_symbol.sealsBehind fun _ => ?_
  refine (mirrors_commaSeparated (mirrors_parameter h) []).seals fun parameters => ?_
  refine mirrors_symbol.sealsBehind fun _ => ?_
  refine seals_optionalPart (mirrors_ascription h.type) fun result => ?_
  refine h.block.map fun body r => ?_
  rw [Item.map, Parameter.mapAll_eq, Ascription.mapOption_eq]

theorem seals_constant (h : Table.Mirrored v S T) :
    Seals v N (Awaits v (Item.map v.place)) (constant S w as)
      (constant T w (as.map (Attribute.map v.place))) := by
  unfold constant
  refine mirrors_keyword.sealsBehind fun _ => mirrors_identifier.seals fun name => ?_
  refine mirrors_symbol.sealsBehind fun _ => (mirrors_ascription h.type).seals fun type => ?_
  refine mirrors_symbol.sealsBehind fun _ => h.expr.seals fun value => ?_
  exact seals_symbol rfl fun r => by rw [Item.map]

theorem mirrors_moduleItems (h : Table.Mirrored v S T) (name : String) :
    Mirrors v N (Becomes (List.map (Item.map v.place))) (moduleItems S name)
      (moduleItems T name) := by
  unfold moduleItems
  refine mirrors_loop (ψ := List.map (Item.map v.place)) (fun items => mirrors_peek fun x => ?_) []
  dsimp only
  split
  · exact mirrors_leave List.map_reverse.symm
  · exact mirrors_fail (by simp)
  · exact h.item.mirrors.any.bind fun i => mirrors_again rfl

theorem seals_module (h : Table.Mirrored v S T) :
    Seals v N (Awaits v (Item.map v.place)) (module S w as)
      (module T w (as.map (Attribute.map v.place))) := by
  unfold module
  refine mirrors_keyword.sealsBehind fun _ => mirrors_identifier.seals fun name => ?_
  refine seals_if_accept rfl (fun r => by rw [Item.map]) ?_
  refine mirrors_symbol.sealsBehind fun _ => mirrors_innerAttributes.seals fun inner => ?_
  refine (mirrors_moduleItems h name.text).seals fun items => ?_
  refine seals_symbol rfl fun r => ?_
  rw [Item.map, Item.mapAll_eq, List.map_append]

theorem seals_use (h : Table.Mirrored v S T) :
    Seals v N (Awaits v (Item.map v.place)) (use S) (use T) := by
  unfold use
  refine mirrors_keyword.sealsBehind fun _ => h.useTree.sealsBehind fun tree => ?_
  exact seals_symbol rfl fun r => by rw [Item.map]

theorem mirrors_useTree (h : Table.Mirrored v S T) : Mirrors v N Eq (useTree S) (useTree T) := by
  unfold useTree
  refine mirrors_accept.behind fun glob => mirrors_ite (mirrors_pure rfl) ?_
  refine mirrors_accept.behind fun group => mirrors_ite ?_ (mirrors_segment.behind fun text => ?_)
  · have htree : Mirrors v Always (Becomes id) (S .useTree) (T .useTree) :=
      h.useTree.mono (fun _ => id) fun _ _ => Eq.symm
    refine (mirrors_commaSeparated htree []).bind fun trees => mirrors_symbol.behind fun _ => ?_
    exact mirrors_pure (by rw [List.map_id])
  · refine mirrors_accept.behind fun further => mirrors_ite ?_ (mirrors_pure rfl)
    exact h.useTree.behind fun tree => mirrors_pure rfl

theorem seals_item (h : Table.Mirrored v S T) :
    Seals v N (Becomes (Item.map v.place)) (Grammar.item S) (Grammar.item T) := by
  unfold Grammar.item
  refine seals_located (mirrors_outerAttributes.seals fun as => ?_)
  refine mirrors_visibility.sealsBehind fun w => ?_
  refine seals_look fun x y z hsame => ?_
  dsimp only
  split
  · exact seals_function h
  · obtain rfl := hsame.eq_of rfl
    exact seals_ite (mirrors_shift.sealsBehind fun _ => seals_function h) (seals_constant h)
  · exact seals_module h
  · exact seals_use h
  · exact seals_fail (by simp)

/-! ### All goals -/

theorem mirrored_step (h : Table.Mirrored v S T) : Table.Mirrored v (step S) (step T) where
  type := mirrors_typeExpr h
  expr := mirrors_expr h
  operand := mirrors_operand h
  unary := mirrors_unary h
  cond := mirrors_cond h
  block := seals_block h
  item := seals_item h
  useTree := mirrors_useTree h

/-- The tables of the grammar, the second with as many further levels as the surroundings add. -/
theorem mirrored_parse (v : Surroundings σ τ) (levels : Nat) :
    Table.Mirrored v (Grammar.parse levels) (Grammar.parse (levels + v.levels)) := by
  induction levels with
  | zero =>
    have hseals {α β : Type} {R : α → β → Prop} (goal : Goal τ β) :
        Seals v Always R (fail .exhausted) (Grammar.parse (0 + v.levels) goal) :=
      seals_exhausted fun hlevels => by rw [hlevels]; rfl
    exact
      { type := (hseals .type).mirrors
        expr := (hseals .expr).mirrors
        operand := fun power => (hseals (.operand power)).mirrors
        unary := (hseals .unary).mirrors
        cond := (hseals .cond).mirrors
        block := hseals .block
        item := hseals .item
        useTree := (hseals .useTree).mirrors }
  | succ levels ih =>
    rw [Nat.succ_add]
    exact mirrored_step ih

end Grammar

/-! ### Files -/

/-- One turn of the loop over the items of a file. -/
def itemTurn (item : Parser (Item σ)) (items : List (Item σ)) :
    Parser (Turn (List (Item σ)) (List (Item σ))) := do
  match ← peek with
  | none => return .leave items.reverse
  | _ => return .again ((← item) :: items)

theorem file_eq (item : Parser (Item σ)) : file item =
    innerAttributes >>= fun attributes => loop (itemTurn item) [] >>= fun items =>
      pure ⟨attributes, items⟩ := rfl

section Files

variable {p : Parser (Item σ)} {q : Parser (Item τ)}

/-- The items of a file, read behind others. -/
theorem mirrors_items (h : Seals v Always (Becomes (Item.map v.place)) p q)
    (before : List (Item τ)) :
    Mirrors v N (Becomes fun items => before.reverse ++ items.map (Item.map v.place))
      (loop (itemTurn p) []) (loop (itemTurn q) before) := by
  have hturn (items : List (Item σ)) : Mirrors v Always
      (Turn.Mirrored (fun items => items.map (Item.map v.place) ++ before)
        (Becomes fun items => before.reverse ++ items.map (Item.map v.place)))
      (itemTurn p items) (itemTurn q (items.map (Item.map v.place) ++ before)) := by
    refine mirrors_peek fun x => ?_
    split
    · exact mirrors_leave (by simp [Becomes])
    · exact h.mirrors.any.bind fun i => mirrors_again rfl
  exact mirrors_loop hturn []

theorem mirrors_file (h : Seals v Always (Becomes (Item.map v.place)) p q) :
    Mirrors v N (Becomes (File.map v.place)) (file p) (file q) := by
  rw [file_eq]
  refine mirrors_innerAttributes.bind fun attributes => (mirrors_items h []).bind fun items => ?_
  exact mirrors_pure (by rw [Becomes, File.map, Item.mapAll_eq]; rfl)

end Files

end EnsembleCompiler.Target
