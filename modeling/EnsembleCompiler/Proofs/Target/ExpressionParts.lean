import EnsembleCompiler.Proofs.Target.PhraseParts

/-!
# The parts of expressions

The parsers of operators and of what follows an expression go on with the whole of it: they take the
expression off the stack and put a larger one in its place, which starts where it started.
-/

namespace EnsembleCompiler.Target

open Target.Parser Grammar

variable {σ : Type} [LawfulPlaces σ] {n m : Nat} {N : List Lexeme → Prop} {table : Table σ}

/-! ### Lexemes with a meaning -/

theorem eq_lexeme_of_literal? {x : Option Lexeme} {value : Literal} (h : literal? x = some value) :
    x = some value.lexeme := by
  unfold literal? at h
  split at h <;> first | rfl | (cases h; rfl) | cases h

theorem eq_of_unaryOp? {x : Option Lexeme} {op : UnaryOp} (h : unaryOp? x = some op) :
    ∃ l, x = some l ∧ op.lexemes = [l] := by
  unfold unaryOp? at h
  split at h <;> first | exact ⟨_, rfl, by cases h; rfl⟩ | cases h

theorem eq_of_binaryOp? {x : Option Lexeme} {op : BinaryOp} (h : binaryOp? x = some op) :
    x = some (Lexeme.symbol op.symbol) := by
  unfold binaryOp? at h
  split at h
  · rename_i s
    cases s <;> first | (cases h; rfl) | cases h
  · cases h

theorem eq_of_assignOp? {x : Option Lexeme} {op : Option BinaryOp} (h : assignOp? x = some op) :
    x = some (Lexeme.symbol (assignSymbol op)) := by
  unfold assignOp? at h
  split at h <;> first | (cases h; rfl) | cases h


/-! ### Conditionals and closures -/

theorem forms_cond (h : table.Forms n) (hm : m ≤ n + 1) :
    Forms m N (Grammar.cond table) fun e qs => qs = [.expr e] := by
  refine forms_located .expr fun start => builds_keyword ?_
  refine builds_if_at (builds_fail_bind (by simp)) ?_
  refine (h .expr (by omega)).bind fun condition _ hcondition => ?_
  refine (h .block (by omega)).bind fun body _ hbody => ?_
  subst hcondition hbody
  refine builds_if_accept (builds_peek fun x => ?_) (builds_done fun place => ⟨rfl, ?_⟩)
  · dsimp only
    split
    · refine ((h .cond (by omega)).map fun e qs he => ⟨e, rfl, he⟩).bind
        (R := fun o qs => ∃ e, o = some e ∧ qs = [.expr e]) ?_
      rintro _ _ ⟨e, rfl, rfl⟩
      refine builds_done fun place => ⟨rfl, ?_⟩
      exact rel_of_eq Expr.MadeOf.cond (by simp [optionalParts, words])
    · refine (forms_blockExpr (h .block (by omega)) some).bind ?_
      rintro _ _ ⟨b, rfl, rfl⟩
      refine builds_done fun place => ⟨rfl, ?_⟩
      exact rel_of_eq Expr.MadeOf.cond (by simp [optionalParts, words])
    · exact builds_fail_bind (by simp)
  · exact rel_of_eq Expr.MadeOf.cond (by simp [optionalParts])

omit [LawfulPlaces σ] in
theorem Name.ParameterMadeOf.ne_nil {name : Name σ} {qs : List (Part σ)}
    (h : name.ParameterMadeOf qs) : qs ≠ [] := by
  cases h <;> simp

theorem forms_closureParameter (h : table.Forms n) (hm : m ≤ n + 1) :
    Forms m N (closureParameter table) Name.ParameterMadeOf := by
  refine fun start => forms_binder.read (by simp) fun name _ hname => ?_
  subst hname
  refine builds_if_accept ?_ (builds_done .bare)
  refine (h .type (by omega)).bind fun t qs ht => builds_done ?_
  exact rel_of_eq (Name.ParameterMadeOf.typed ht) (by simp)

theorem forms_closureParameters (h : table.Forms n) (hm : m ≤ n + 1) :
    Forms m N (closureParameters table) Name.ParametersMadeOf := by
  refine fun start => builds_if_accept (builds_done .none) (builds_symbol ?_)
  refine (forms_commaSeparated (forms_closureParameter h (by omega))
    (fun _ _ => Name.ParameterMadeOf.ne_nil) []).bind fun names qs hnames => ?_
  obtain ⟨names, groups, rfl, hnames, hlisted⟩ := hnames
  refine builds_symbol (builds_done ?_)
  exact rel_of_eq (Name.ParametersMadeOf.mk hnames hlisted) (by simp)

omit [LawfulPlaces σ] in
theorem Name.ParametersMadeOf.ne_nil {names : List (Name σ)} {qs : List (Part σ)}
    (h : Name.ParametersMadeOf names qs) : qs ≠ [] := by
  cases h <;> simp

/-- A closure begins where its parameters do and ends with its body. -/
theorem forms_closure (h : table.Forms n) (hm : m ≤ n + 1) :
    Forms m N (Grammar.closure table) fun e qs => qs = [.expr e] := by
  refine fun start => builds_currentPlace ?_
  refine (forms_closureParameters h hm).read (fun _ _ => Name.ParametersMadeOf.ne_nil) ?_
  refine fun names qs hnames => builds_if_accept ?_ ?_
  · refine (h .type (by omega)).bind fun t rs ht => builds_if_at ?_ (builds_fail_bind (by simp))
    refine (forms_blockExpr (h .block (by omega)) id).bind ?_
    rintro _ _ ⟨b, rfl, rfl⟩
    refine .join (begins_first (by simp)) rfl ?_ (builds_done rfl)
    exact rel_of_eq (Expr.MadeOf.typedClosure hnames ht) (by simp)
  · refine (h .expr (by omega)).bind fun e _ he => ?_
    subst he
    refine .join (begins_first (by simp)) rfl ?_ (builds_done rfl)
    exact rel_of_eq (Expr.MadeOf.closure hnames) (by simp)

/-! ### Brackets -/

theorem forms_expressions (h : table.Forms n) (hm : m ≤ n) (close : Symbol)
    (items : List (Expr σ)) : Forms m N (commaSeparated close (table .expr) items) fun es qs =>
      ∃ rest, es = items.reverse ++ rest ∧ Listed (rest.map ([.expr ·])) qs :=
  forms_commaSeparated_map (h .expr hm) (by simp) items

theorem forms_parenthesised (h : table.Forms n) (hm : m ≤ n + 1) :
    Forms m N (parenthesised table) (AwaitsPlace .expr) := by
  refine fun start => builds_symbol (builds_if_accept (builds_done fun place => ⟨rfl, ?_⟩) ?_)
  · exact .tuple (by simp) (.mk .nil)
  refine (h .expr (by omega)).bind fun first _ hfirst => ?_
  subst hfirst
  refine builds_if_accept (builds_done fun place => ⟨rfl, .paren⟩) ?_
  refine builds_accept ?_ (builds_fail_bind (by simp))
  refine (forms_expressions h (by omega) .rightParen [first]).bind fun es qs hes => ?_
  obtain ⟨rest, rfl, hlisted⟩ := hes
  refine builds_symbol (builds_done fun place => ⟨rfl, ?_⟩)
  cases rest with
  | nil =>
    obtain rfl := hlisted.eq_nil
    exact .single
  | cons second rest =>
    have hall : Listed ((first :: second :: rest).map ([.expr ·]))
        (.expr first :: .symbol .comma :: qs) := hlisted.cons [.expr first]
    exact rel_of_eq (Expr.MadeOf.tuple (by simp) (.mk hall)) (by simp)

theorem forms_arrayElements (h : table.Forms n) (hm : m ≤ n + 1) (first : Expr σ) :
    Forms m N (arrayElements table first) fun es qs =>
      Listed (es.map ([.expr ·])) (.expr first :: qs) := by
  refine fun start => builds_loop (fun s qs => Part.expr first :: qs ++ [Part.symbol .comma] =
      (s.reverse.map ([Part.expr ·])).flatMap (· ++ [Part.symbol .comma]))
    (fun k hk elements qs hs => ?_) rfl
  refine builds_if_accept (builds_if_at (builds_leave (.inl hs)) ?_) (builds_leave (.inr hs))
  refine (h .expr (by omega)).bind fun e _ he => builds_again (by omega) ?_
  subst he
  rw [← List.cons_append, ← List.cons_append, hs]
  simp

theorem forms_bracketed (h : table.Forms n) (hm : m ≤ n + 1) :
    Forms m N (bracketed table) (AwaitsPlace .expr) := by
  refine fun start => builds_symbol (builds_if_accept (builds_done fun place => ⟨rfl, ?_⟩) ?_)
  · exact .array (.mk .nil)
  refine (h .expr (by omega)).bind fun first _ hfirst => ?_
  subst hfirst
  refine builds_if_accept ?_ ?_
  · refine (h .expr (by omega)).bind fun length _ hlength => builds_symbol ?_
    subst hlength
    exact builds_done fun place => ⟨rfl, .repeated⟩
  · refine (forms_arrayElements h (by omega) first).bind fun es qs hes => builds_symbol ?_
    refine builds_done fun place => ⟨rfl, .array ?_⟩
    exact rel_of_eq (Enclosed.mk hes) (by simp)

theorem forms_ret (h : table.Forms n) (hm : m ≤ n + 1)
    (hN : ∀ ls, N ls → ls[0]? = some (Lexeme.keyword .returnKw)) :
    Forms m N (ret table) (AwaitsPlace .expr) := by
  refine fun start => builds_shift hN (builds_peek fun x => builds_ite (fun _ => ?_) fun _ => ?_)
  · exact builds_done fun place => ⟨rfl, .ret⟩
  · refine (h .expr (by omega)).bind fun value _ hvalue => builds_done fun place => ⟨rfl, ?_⟩
    subst hvalue
    exact .ret

/-! ### Primary expressions -/

theorem forms_pathExpr : Forms m N (pathExpr : Parser (σ → Expr σ)) (AwaitsPlace .expr) := by
  refine fun start => forms_path.bind fun p qs hp => builds_look fun x y => ?_
  obtain ⟨ls, hls, rfl⟩ := hp
  refine builds_ite (fun _ => builds_fail_bind (by simp)) fun _ => ?_
  exact builds_done fun place => ⟨rfl, .path hls⟩

theorem forms_primary (h : table.Forms n) (hm : m ≤ n + 1) :
    Forms m N (primary table) fun e qs => qs = [.expr e] := by
  refine fun start => builds_peek fun x => ?_
  split
  · rename_i value hvalue
    exact forms_leaf .expr (fun _ hls => hls.2.trans (eq_lexeme_of_literal? hvalue))
      (fun _ => ⟨rfl, .literal⟩) start
  · refine builds_ite (fun _ => forms_located .expr forms_pathExpr start) fun _ => ?_
    split
    · exact forms_located .expr (forms_parenthesised h hm) start
    · exact forms_located .expr (forms_bracketed h hm) start
    · refine (forms_blockExpr (forms_block h hm) id).mono (Nat.le_refl m) (fun _ => id) ?_ start
      rintro _ _ ⟨b, rfl, rfl⟩
      rfl
    · exact forms_cond h hm start
    · exact forms_closure h hm start
    · exact forms_closure h hm start
    · exact forms_located .expr (forms_ret h hm fun _ hls => hls.2) start
    · exact builds_fail (by simp)
    · exact builds_fail (by simp)

/-! ### What follows an expression -/

theorem forms_arguments (h : table.Forms n) (hm : m ≤ n + 1) :
    Forms m N (arguments table) (Enclosed .leftParen .rightParen) := by
  refine fun start => builds_symbol ((forms_expressions h (by omega) _ []).bind fun es qs hes => ?_)
  obtain ⟨rest, rfl, hlisted⟩ := hes
  exact builds_symbol (builds_done (.mk hlisted))

theorem forms_fieldName : Forms m N (fieldName : Parser (Name σ)) fun name qs =>
    qs = [.member name] := by
  refine fun start => builds_peek fun x => ?_
  split
  · exact forms_leaf .member (fun _ hls => hls.2) (fun _ => ⟨rfl, .number⟩) start
  · refine builds_peek fun y => ?_
    split
    · exact forms_leaf .member (fun _ hls => hls.2) (fun _ => ⟨rfl, .ident⟩) start
    · exact builds_fail (by simp)

omit [LawfulPlaces σ] in
theorem Enclosed.ne_nil {opener closer : Symbol} {es : List (Expr σ)} {qs : List (Part σ)}
    (h : Enclosed opener closer es qs) : qs ≠ [] := by
  cases h
  simp

theorem forms_postfixed (h : table.Forms n) (hm : m ≤ n + 1) :
    Forms m N (postfixed table) fun e qs => qs = [.expr e] := by
  refine fun start => (forms_primary h hm).bind fun first _ hfirst => ?_
  subst hfirst
  -- whatever has been read by a turn is one expression, which the next turn takes inside another
  refine builds_loop (fun e qs => qs = [.expr e]) (fun k hk e _ he => builds_peek fun x => ?_) rfl
  subst he
  dsimp only
  split
  · refine (forms_arguments h (by omega)).read (fun _ _ => Enclosed.ne_nil) fun es qs hes => ?_
    exact builds_previousPlace (fun last => .expr (.call (Places.merge e.place last) e es))
      (begins_construct (.expr e)) (fun _ => rfl) (fun _ => .call hes)
      fun _ => builds_again (by omega) rfl
  · refine builds_shift (fun _ hls => hls.2) ((h .expr (by omega)).bind fun index _ hindex => ?_)
    subst hindex
    exact builds_symbol (builds_previousPlace
      (fun last => .expr (.index (Places.merge e.place last) e index))
      (begins_construct (.expr e)) (fun _ => rfl) (fun _ => .index)
      fun _ => builds_again (by omega) rfl)
  · exact builds_advance (fun _ hls => hls.2) (builds_previousPlace
      (fun last => .expr (.propagate (Places.merge e.place last) e))
      (begins_construct (.expr e)) (fun _ => rfl) (fun _ => .propagate)
      fun _ => builds_again (by omega) rfl)
  · refine builds_shift (fun _ hls => hls.2) (forms_fieldName.bind fun name _ hname => ?_)
    subst hname
    refine builds_if_at ?_ (.join (z := .expr (.field (Places.merge e.place name.place) e name))
      (begins_construct (.expr e)) rfl .field (builds_again (by omega) rfl))
    refine (forms_arguments h (by omega)).bind fun es qs hes => ?_
    exact builds_previousPlace
      (fun last => .expr (.methodCall (Places.merge e.place last) e name es))
      (begins_construct (.expr e)) (fun _ => rfl) (fun _ => .methodCall hes)
      fun _ => builds_again (by omega) rfl
  · exact builds_leave rfl

/-! ### Operators -/

theorem forms_unary (h : table.Forms n) (hm : m ≤ n + 1) :
    Forms m N (unary table) fun e qs => qs = [.expr e] := by
  refine fun start => builds_peek fun x => ?_
  split
  · rename_i op hop
    obtain ⟨l, rfl, hl⟩ := eq_of_unaryOp? hop
    refine builds_advance_first (fun _ hls => hls.2) ?_
    refine (h .unary (by omega)).bind fun e _ he => ?_
    subst he
    refine .join (begins_first (by simp)) rfl ?_ (builds_done rfl)
    exact rel_of_eq Expr.MadeOf.unary (by simp [hl, words])
  · refine builds_ite (fun hx => ?_) fun _ => ?_
    · refine builds_advance_first (fun _ hls => hls.2.trans hx)
        (forms_mut.bind fun isMutable _ hmut => ?_)
      subst hmut
      refine (h .unary (by omega)).bind fun e _ he => ?_
      subst he
      refine .join (begins_first (by simp)) rfl ?_ (builds_done rfl)
      exact rel_of_eq Expr.MadeOf.unary (by simp [UnaryOp.lexemes, words])
    · exact forms_postfixed h hm start

theorem forms_operand (h : table.Forms n) (hm : m ≤ n + 1) (power : Nat) :
    Forms m N (operand table power) fun e qs => qs = [.expr e] := by
  refine fun start => (forms_unary h hm).bind fun first _ hfirst => ?_
  subst hfirst
  -- the invariant: behind a turn there is one expression, which begins where the first operand does
  refine builds_loop (fun state qs => qs = [.expr state.1]) ?_ rfl
  rintro k hk ⟨left, afterComparison⟩ _ rfl
  refine builds_peek fun x => builds_ite (fun hx => ?_) fun _ => ?_
  · refine builds_ite (fun _ => builds_leave rfl) fun _ => ?_
    refine builds_shift (fun _ hls => hls.2.trans hx) ?_
    refine (forms_ascription (h .type (by omega))).bind fun type _ htype => ?_
    subst htype
    exact .join (z := .expr (.cast (Places.merge left.place type.place) left type))
      (begins_construct (.expr left)) rfl .cast (builds_again (by omega) rfl)
  dsimp only
  split
  · exact builds_leave rfl
  · rename_i op hop
    refine builds_ite (fun _ => builds_leave rfl) fun _ => ?_
    refine builds_ite (fun _ => builds_fail_bind (by simp)) fun _ => ?_
    refine builds_shift (fun _ hls => hls.2.trans (eq_of_binaryOp? hop)) ?_
    refine (h (.operand op.rightPower) (by omega)).bind fun right _ hright => ?_
    subst hright
    exact .join (z := .expr (.binary (Places.merge left.place right.place) op left right))
      (begins_construct (.expr left)) rfl .binary (builds_again (by omega) rfl)

theorem forms_expr (h : table.Forms n) (hm : m ≤ n + 1) :
    Forms m N (Grammar.expr table) fun e qs => qs = [.expr e] := by
  refine fun start => (forms_operand h hm 0).bind fun target _ htarget => ?_
  subst htarget
  refine builds_peek fun x => ?_
  split
  · exact builds_done rfl
  · rename_i op hop
    refine builds_shift (fun _ hls => hls.2.trans (eq_of_assignOp? hop)) ?_
    refine (h .expr (by omega)).bind fun value _ hvalue => ?_
    subst hvalue
    exact .join (z := .expr (.assign (Places.merge target.place value.place) op target value))
      (begins_construct (.expr target)) rfl .assign (builds_done rfl)

end EnsembleCompiler.Target
