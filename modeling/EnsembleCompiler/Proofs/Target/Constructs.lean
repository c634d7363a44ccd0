import EnsembleCompiler.Proofs.Target.Keeping

/-!
# The nesting of types and expressions

The parsers of types, blocks and expressions keep to the nesting of their lexemes, given that the
parsers they call do. A call comes behind a link or an opener of its own construct, and then may
nest one less; or it is to a goal of lower rank, which happens only so often in a row.
-/

namespace EnsembleCompiler.Target

open Target.Parser Grammar

/-- What the lexemes of a goal may hold outside of brackets. -/
def Goal.extent {σ α : Type} : Goal σ α → Extent
  | .item => .series
  | _ => .phrase

/-- Goals call each other without a link or opener between them only down the ranks. -/
def Goal.rank {σ α : Type} : Goal σ α → Nat
  | .item => 14
  | .expr => 13
  | .operand power => 13 - power
  | _ => 0

/-- The parsers of a table keep to the nesting: all of them for `n - 1` pending openers and links,
and for `n` those of goals below a rank. -/
structure Serves {σ : Type} (n rank : Nat) (table : Table σ) : Prop where
  far : ∀ {α : Type} (goal : Goal σ α), Keeps goal.extent (n - 1) Always (table goal) Always
  near : ∀ {α : Type} (goal : Goal σ α), goal.rank < rank →
    Keeps goal.extent n Always (table goal) Always

theorem Serves.mono {σ : Type} {n r r' : Nat} {table : Table σ} (h : Serves n r table) (hr : r' ≤ r) :
    Serves n r' table :=
  ⟨h.far, fun goal hgoal => h.near goal (by omega)⟩

section Words

variable {α σ : Type} [Places σ] {e : Extent} {n : Nat} {x : Option Lexeme}
  {N : Option Lexeme → Prop}

/-! ### Words and lists -/

theorem role_of_segment? {text : String} (h : segment? x = some text) :
    ∃ l, x = some l ∧ l.role = .plain := by
  unfold segment? at h
  split at h
  · exact ⟨_, rfl, rfl⟩
  · exact ⟨_, rfl, rfl⟩
  · exact ⟨_, rfl, rfl⟩
  · exact ⟨_, rfl, rfl⟩
  · cases h

theorem keeps_identifier : Keeps e n N (identifier : Parser (Name σ)) Always := by
  unfold identifier
  refine keeps_peek fun x _ => ?_
  split
  · exact keeps_advance fun _ => .quiet trivial (keeps_pure id)
  · exact keeps_fail (by simp)

theorem keeps_binder : Keeps e n N (binder : Parser (Name σ)) Always := by
  unfold binder
  refine keeps_if_at ?_ keeps_identifier
  exact keeps_advance fun _ => .quiet trivial (keeps_pure id)

theorem keeps_segment : Keeps e n N Parser.segment Always := by
  unfold Parser.segment
  refine keeps_peek fun x _ => ?_
  split
  · rename_i text htext
    obtain ⟨l, rfl, hl⟩ := role_of_segment? htext
    refine keeps_shift_some (.quiet ?_ (keeps_pure id))
    rw [hl]
    trivial
  · exact keeps_fail (by simp)

theorem keeps_path : Keeps e n N path Always := by
  unfold path
  refine keeps_segment.read fun first => keeps_loop (fun segments => ?_) [first]
  refine keeps_look fun x next _ => ?_
  dsimp only
  split
  · rename_i hnext
    obtain ⟨hx, -⟩ : x = some (Lexeme.symbol .pathSep) ∧ (segment? next).isSome = true := by
      simpa using hnext
    rw [hx]
    refine keeps_shift_some (.quiet trivial ?_)
    exact keeps_segment.read fun _ => keeps_pure id
  · exact keeps_pure id

theorem keeps_commaSeparated {close : Symbol} {item : Parser α}
    (hitem : Keeps e n Always item Always) (items : List α) :
    Keeps e n N (commaSeparated close item items) Never := by
  unfold commaSeparated
  refine keeps_loop (fun items => ?_) items
  refine keeps_if_at (keeps_pure id) (hitem.read fun x => ?_)
  exact keeps_if_accept (.quiet trivial (keeps_pure id)) (keeps_pure id)

theorem keeps_ascription {type : Parser (TypeExpr σ)} (h : Keeps e n N type Always) :
    Keeps e n N (ascription type) Always := by
  unfold ascription
  exact keeps_located (h.read fun _ => keeps_pure id)

end Words

section Constructs

variable {σ : Type} {n r : Nat} {N : Option Lexeme → Prop} {table : Table σ}

/-! ### Types -/

theorem keeps_typeArguments (h : Serves n r table) :
    Keeps .phrase (n - 1) N (typeArguments table) Never := by
  unfold typeArguments
  refine keeps_loop (fun arguments => (h.far .type).read fun t => ?_) []
  refine keeps_if_accept (.quiet trivial ?_) (keeps_pure id)
  exact keeps_if_at (keeps_pure id) (keeps_pure id)

theorem keeps_referenceType (h : Serves n r table) {x : Lexeme} (hx : x.role = .link) :
    Keeps .phrase n (· = some x) (referenceType table) Always := by
  unfold referenceType
  refine keeps_shift_some (.link hx ?_)
  refine Keeps.bind (keeps_optional trivial) fun isMutable => ?_
  exact (h.far .type).read fun _ => keeps_pure id

theorem keeps_typeExpr (h : Serves n r table) : Keeps .phrase n N (typeExpr table) Always := by
  unfold typeExpr
  refine keeps_peek fun x _ => ?_
  dsimp only
  -- by the first lexeme, as in the grammar; each bracket is an opener that has to be closed
  split
  · exact keeps_referenceType h rfl
  · exact (keeps_referenceType h rfl).read fun _ => keeps_pure id
  · refine keeps_shift_some (.opener .square ?_)
    refine (h.far .type).loosen.any.closes fun element => ?_
    refine Keeps.closes (keeps_optional rfl) fun sized => ?_
    split
    · refine (h.far .expr).loosen.any.closes fun length => ?_
      exact closes_symbol .square (keeps_pure id)
    · exact closes_symbol .square (keeps_pure id)
  · refine keeps_shift_some (.opener .paren ?_)
    refine (keeps_commaSeparated (h.far .type).loosen []).closes fun elements => ?_
    exact closes_symbol .paren (keeps_pure id)
  · exact keeps_shift_some (.quiet trivial (keeps_pure id))
  · split
    · refine keeps_path.read fun p => ?_
      refine keeps_if_accept (.link rfl ?_) (keeps_pure id)
      refine (keeps_typeArguments h).bind fun arguments => ?_
      exact keeps_symbol (.quiet trivial (keeps_pure id))
    · exact keeps_fail (by simp)

variable [Places σ]

/-! ### Blocks -/

theorem keeps_binding (h : Serves n r table) : Keeps .series (n - 1) N (binding table) Always := by
  have htype := keeps_ascription (h.far .type)
  unfold binding
  refine keeps_located (keeps_keyword (.quiet rfl ?_))
  refine Keeps.bind (keeps_optional trivial) fun isMutable => ?_
  refine keeps_binder.read fun name => ?_
  refine keeps_optionalPart trivial htype.loosen.map fun type => ?_
  refine keeps_optionalPart trivial (h.far .expr).loosen.map fun value => ?_
  exact keeps_symbol (.quiet rfl (keeps_pure id))

omit [Places σ] in
theorem keeps_statementExpr (h : Serves n r table) (here : Option Lexeme) :
    Keeps .phrase (n - 1) N (statementExpr table here) Always := by
  unfold statementExpr
  split
  · exact (h.far .cond).any
  · split
    · exact (h.far .block).any.map
    · exact (h.far .expr).any

theorem keeps_blockBody (h : Serves n r table) (opener : Nat) :
    Keeps .series (n - 1) N (blockBody table opener) Never := by
  unfold blockBody
  refine keeps_loop (fun statements => keeps_look fun x next _ => ?_) []
  refine keeps_ite (fun _ => keeps_pure id) ?_
  refine keeps_ite (fun _ => keeps_fail_bind (by simp)) ?_
  refine keeps_ite (fun hx => ?_) ?_
  · obtain rfl : x = some (Lexeme.symbol .semicolon) := hx
    exact keeps_shift_some (.quiet rfl (keeps_pure id))
  refine keeps_ite (fun _ => (keeps_binding h).read fun _ => keeps_pure id) ?_
  refine keeps_ite (fun _ => (h.far .item).any.read fun _ => keeps_pure id) ?_
  refine (keeps_statementExpr h x).loosen.read fun e => ?_
  refine keeps_if_accept (.quiet rfl (keeps_previousPlace fun _ => keeps_pure id)) ?_
  refine keeps_if_at (keeps_pure id) ?_
  exact keeps_ite (fun _ => keeps_pure id) (keeps_fail (by simp))

theorem keeps_block (h : Serves n r table) : Keeps .phrase n N (block table) Always := by
  unfold block
  refine keeps_located (keeps_position fun opener => keeps_symbol (.opener .brace ?_))
  refine (keeps_blockBody h opener).closes fun body => ?_
  exact closes_symbol .brace (keeps_pure id)

/-! ### Expressions -/

theorem keeps_cond (h : Serves n r table) : Keeps .phrase n N (Grammar.cond table) Always := by
  unfold Grammar.cond
  refine keeps_located (keeps_keyword (.link rfl ?_))
  refine keeps_if_at (keeps_fail_bind (by simp)) ?_
  refine (h.far .expr).read fun condition => ?_
  refine (h.far .block).read fun body => ?_
  refine keeps_if_accept (.quiet trivial ?_) (keeps_pure id)
  refine keeps_peek fun x _ => ?_
  dsimp only
  split
  · exact (h.far .cond).any.map.read fun _ => keeps_pure id
  · exact (h.far .block).any.map.read fun _ => keeps_pure id
  · exact keeps_fail_bind (by simp)

theorem keeps_closureParameter (h : Serves n r table) :
    Keeps .phrase (n - 1) N (closureParameter table) Always := by
  unfold closureParameter
  refine keeps_binder.read fun name => ?_
  refine keeps_if_accept (.quiet trivial ?_) (keeps_pure id)
  exact (h.far .type).read fun _ => keeps_pure id

/-- What follows the parameters of a closure. -/
theorem keeps_closureRest (h : Serves n r table) (start : σ) (parameters : List (Name σ)) :
    Keeps .phrase (n - 1) N (do
      if ← accept (.symbol .arrow) then
        let _ ← table .type
        if ← at? (.symbol .leftBrace) then
          let body ← .block <$> table .block
          pure (Expr.closure (Places.merge start body.place) parameters body)
        else
          let body ← fail .closureBody
          pure (Expr.closure (Places.merge start body.place) parameters body)
      else
        let body ← table .expr
        pure (Expr.closure (Places.merge start body.place) parameters body)) Never := by
  refine keeps_if_accept (.quiet trivial ?_) ((h.far .expr).any.read fun _ => keeps_pure id)
  refine (h.far .type).read fun _ => ?_
  exact keeps_if_at ((h.far .block).any.map.read fun _ => keeps_pure id) (keeps_fail_bind (by simp))

theorem keeps_closure (h : Serves n r table) : Keeps .phrase n N (Grammar.closure table) Always := by
  unfold Grammar.closure closureParameters
  refine keeps_currentPlace fun start => ?_
  rw [bind_assoc]
  refine keeps_accept ?_ ?_
  · exact .link rfl (keeps_closureRest h start [])
  · show Keeps .phrase n N (symbol .pipe >>= _ >>= _) Always
    rw [bind_assoc]
    refine keeps_symbol (.link rfl ?_)
    rw [bind_assoc]
    refine (keeps_commaSeparated (keeps_closureParameter h) []).bind fun names => ?_
    rw [bind_assoc]
    exact keeps_symbol (.quiet trivial (keeps_closureRest h start names))

omit [Places σ] in
theorem keeps_parenthesised (h : Serves n r table) :
    Keeps .phrase n N (parenthesised table) Always := by
  have hexpr := h.far .expr
  unfold parenthesised
  refine keeps_symbol (.opener .paren ?_)
  refine closes_if_accept .paren (keeps_pure id) ?_
  refine hexpr.loosen.any.closes fun first => ?_
  refine closes_if_accept .paren (keeps_pure id) ?_
  refine Keeps.closes (keeps_optional trivial) fun comma => ?_
  split
  · exact closes_fail_bind (by simp)
  refine (keeps_commaSeparated hexpr.loosen [first]).closes fun elements => ?_
  exact closes_symbol .paren (keeps_pure id)

omit [Places σ] in
theorem keeps_arrayElements (h : Serves n r table) (first : Expr σ) :
    Keeps .series (n - 1) N (arrayElements table first) Never := by
  unfold arrayElements
  refine keeps_loop (fun elements => ?_) [first]
  refine keeps_if_accept (.quiet trivial ?_) (keeps_pure id)
  refine keeps_if_at (keeps_pure id) ?_
  exact (h.far .expr).loosen.read fun _ => keeps_pure id

omit [Places σ] in
theorem keeps_bracketed (h : Serves n r table) : Keeps .phrase n N (bracketed table) Always := by
  have hexpr := (h.far .expr).loosen
  unfold bracketed
  refine keeps_symbol (.opener .square ?_)
  refine closes_if_accept .square (keeps_pure id) ?_
  refine hexpr.any.closes fun first => ?_
  refine Keeps.closes (keeps_optional rfl) fun repeats => ?_
  split
  · refine hexpr.any.closes fun length => ?_
    exact closes_symbol .square (keeps_pure id)
  · refine (keeps_arrayElements h first).closes fun elements => ?_
    exact closes_symbol .square (keeps_pure id)

omit [Places σ] in
theorem keeps_ret (h : Serves n r table) :
    Keeps .phrase n (· = some (Lexeme.keyword .returnKw)) (ret table) Always := by
  unfold ret
  refine keeps_shift_some (.link rfl ?_)
  refine keeps_peek fun x _ => ?_
  split
  · exact keeps_pure id
  · exact (h.far .expr).any.read fun _ => keeps_pure id

omit [Places σ] in
theorem keeps_pathExpr : Keeps .phrase n N (pathExpr : Parser (σ → Expr σ)) Always := by
  unfold pathExpr
  refine keeps_path.read fun p => keeps_look fun x next _ => ?_
  dsimp only
  split
  · exact keeps_fail_bind (by simp)
  · exact keeps_pure id

theorem role_of_literal? {x : Option Lexeme} {value : Literal} (h : literal? x = some value) :
    ∃ l, x = some l ∧ l.role = .plain := by
  unfold literal? at h
  split at h
  · exact ⟨_, rfl, rfl⟩
  · exact ⟨_, rfl, rfl⟩
  · exact ⟨_, rfl, rfl⟩
  · exact ⟨_, rfl, rfl⟩
  · exact ⟨_, rfl, rfl⟩
  · cases h

theorem keeps_primary (h : Serves n r table) : Keeps .phrase n N (primary table) Always := by
  unfold primary
  refine keeps_peek fun x _ => ?_
  split
  · rename_i value hvalue
    obtain ⟨l, rfl, hl⟩ := role_of_literal? hvalue
    refine keeps_advance fun _ => .quiet ?_ (keeps_pure id)
    rw [hl]
    trivial
  · split
    · exact keeps_located keeps_pathExpr
    · split
      · exact keeps_located (keeps_parenthesised h)
      · exact keeps_located (keeps_bracketed h)
      · exact (keeps_block h).map
      · exact keeps_cond h
      · exact keeps_closure h
      · exact keeps_closure h
      · exact keeps_located (keeps_ret h)
      · exact keeps_fail (by simp)
      · exact keeps_fail (by simp)

omit [Places σ] in
theorem keeps_arguments (h : Serves n r table) : Keeps .phrase n N (arguments table) Always := by
  unfold arguments
  refine keeps_symbol (.opener .paren ?_)
  refine (keeps_commaSeparated (h.far .expr).loosen []).closes fun list => ?_
  exact closes_symbol .paren (keeps_pure id)

theorem keeps_fieldName : Keeps .phrase n N (fieldName : Parser (Name σ)) Always := by
  unfold fieldName
  refine keeps_peek fun x _ => ?_
  split
  · exact keeps_advance fun _ => .quiet trivial (keeps_pure id)
  · exact keeps_identifier

theorem keeps_postfixed (h : Serves n r table) : Keeps .phrase n N (postfixed table) Always := by
  unfold postfixed
  refine (keeps_primary h).read fun first => ?_
  refine keeps_loop (fun e => keeps_peek fun x _ => ?_) first
  dsimp only
  split
  · exact (keeps_arguments h).read fun _ => keeps_previousPlace fun _ => keeps_pure id
  · refine keeps_shift_some (.opener .square ?_)
    refine (h.far .expr).loosen.any.closes fun index => ?_
    exact closes_symbol .square (keeps_previousPlace fun _ => keeps_pure id)
  · exact keeps_advance fun _ => .quiet trivial (keeps_pure id)
  · refine keeps_shift_some (.quiet trivial ?_)
    refine keeps_fieldName.read fun name => ?_
    refine keeps_if_at ?_ (keeps_pure id)
    exact (keeps_arguments h).read fun _ => keeps_previousPlace fun _ => keeps_pure id
  · exact keeps_pure id

theorem role_of_unaryOp? {x : Option Lexeme} {op : UnaryOp} (h : unaryOp? x = some op) :
    ∃ l, x = some l ∧ l.role = .link := by
  unfold unaryOp? at h
  split at h
  · exact ⟨_, rfl, rfl⟩
  · exact ⟨_, rfl, rfl⟩
  · exact ⟨_, rfl, rfl⟩
  · cases h

theorem keeps_unary (h : Serves n r table) : Keeps .phrase n N (unary table) Always := by
  have hunary := h.far .unary
  unfold unary
  refine keeps_peek fun x _ => ?_
  split
  · rename_i op hop
    obtain ⟨l, rfl, hl⟩ := role_of_unaryOp? hop
    refine keeps_advance fun start => .link hl ?_
    exact hunary.read fun _ => keeps_pure id
  · split
    · rename_i hx
      rw [hx]
      refine keeps_advance fun start => .link rfl ?_
      refine Keeps.bind (keeps_optional trivial) fun isMutable => ?_
      exact hunary.read fun _ => keeps_pure id
    · exact keeps_postfixed h

theorem role_of_binaryOp? {x : Option Lexeme} {op : BinaryOp} (h : binaryOp? x = some op) :
    ∃ l, x = some l ∧ l.role.Quiet .phrase := by
  unfold binaryOp? at h
  split at h
  · rename_i s
    refine ⟨_, rfl, ?_⟩
    cases s <;> trivial
  · cases h

theorem BinaryOp.power_le (op : BinaryOp) : op.power ≤ 10 := by cases op <;> decide

theorem keeps_operand {power : Nat} (h : Serves n (13 - power) table) :
    Keeps .phrase n N (operand table power) Always := by
  unfold operand
  refine (keeps_unary h).read fun first => ?_
  refine keeps_loop (fun state => keeps_peek fun x _ => ?_) (first, false)
  dsimp only
  split
  · split
    · exact keeps_pure id
    · rename_i hx hpower
      have hrank : (Goal.type : Goal σ _).rank < 13 - power := by
        show 0 < 13 - power
        unfold castPower at hpower
        omega
      rw [hx]
      refine keeps_shift_some (.quiet trivial ?_)
      exact (keeps_ascription (h.near .type hrank)).read fun type => keeps_pure id
  · split
    · exact keeps_pure id
    · split
      · exact keeps_pure id
      · rename_i op hop hpower
        -- the right operand binds more tightly than the operator, which makes its rank smaller
        have hrank : (Goal.operand op.rightPower : Goal σ _).rank < 13 - power := by
          have hle := op.power_le
          show 13 - (op.power + 1) < 13 - power
          omega
        obtain ⟨l, rfl, hl⟩ := role_of_binaryOp? hop
        split
        · exact keeps_fail_bind (by simp)
        · refine keeps_shift_some (.quiet hl ?_)
          exact (h.near (.operand op.rightPower) hrank).read fun right => keeps_pure id

theorem role_of_assignOp? {x : Option Lexeme} {op : Option BinaryOp} (h : assignOp? x = some op) :
    ∃ l, x = some l ∧ l.role = .link := by
  unfold assignOp? at h
  split at h
  · exact ⟨_, rfl, rfl⟩
  · exact ⟨_, rfl, rfl⟩
  · exact ⟨_, rfl, rfl⟩
  · exact ⟨_, rfl, rfl⟩
  · exact ⟨_, rfl, rfl⟩
  · cases h

theorem keeps_expr (h : Serves n 13 table) : Keeps .phrase n N (Grammar.expr table) Always := by
  unfold Grammar.expr
  refine (keeps_operand h).read fun target => ?_
  refine keeps_peek fun x _ => ?_
  split
  · exact keeps_pure id
  · rename_i op hop
    obtain ⟨l, rfl, hl⟩ := role_of_assignOp? hop
    refine keeps_shift_some (.link hl ?_)
    exact (h.far .expr).read fun _ => keeps_pure id

end Constructs

end EnsembleCompiler.Target
