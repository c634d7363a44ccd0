import EnsembleCompiler.Proofs.Target.Grouping
import EnsembleCompiler.Proofs.Target.Recursion

/-!
# Operator precedence

A row of operands and binary operators is read as the one tree that groups it by the powers of its
operators, unless it chains comparisons. The loop that reads an operand goes down the left side of
that tree: what it has read so far is the left operand of the node that it reads next.
-/

namespace EnsembleCompiler.Target

open Target.Parser Grammar

variable {σ : Type} [Places σ]

/-! ### What follows an operand -/

/-- Whether a lexeme behind an operand makes it longer, other than as a binary operator. -/
def continuesOperand : Option Lexeme → Bool
  | some (.symbol s) => s ∈ [.leftParen, .leftBracket, .question, .dot, .pathSep, .bang]
  | some (.keyword .asKw) => true
  | _ => false

/-- Whether a lexeme behind an operand can belong to the same expression. -/
def continuesExpr (x : Option Lexeme) : Bool := continuesOperand x || (binaryOp? x).isSome

example : (none :: closers.map fun s => some (.symbol s)).all (! continuesExpr ·) = true := by decide

/-- An expression that is read at this power ends in front of `rest`. -/
def Yields (power : Nat) (rest : List Lexeme) : Prop :=
  continuesOperand rest[0]? = false ∧ ∀ op ∈ binaryOp? rest[0]?, op.power < power

theorem yields_of_continuesExpr {rest : List Lexeme} (h : continuesExpr rest[0]? = false)
    (power : Nat) : Yields power rest := by
  rw [continuesExpr, Bool.or_eq_false_iff, Option.isSome_eq_false_iff, Option.isNone_iff_eq_none] at h
  refine ⟨h.1, fun op hop => ?_⟩
  rw [h.2] at hop
  cases hop

theorem continuesOperand_symbol (op : BinaryOp) :
    continuesOperand (some (.symbol op.symbol)) = false := by
  cases op <;> rfl

theorem binaryOp?_symbol (op : BinaryOp) : binaryOp? (some (.symbol op.symbol)) = some op := by
  cases op <;> rfl

theorem yields_symbol {op : BinaryOp} {power : Nat} (h : op.power < power) (ls : List Lexeme) :
    Yields power (.symbol op.symbol :: ls) := by
  refine ⟨continuesOperand_symbol op, fun o ho => ?_⟩
  obtain rfl : op = o := by simpa [binaryOp?_symbol] using ho
  exact h

/-! ### One operand -/

section Operands

variable {rest : List Lexeme} {depth n : Nat}

theorem literal?_lexeme (value : Literal) : literal? (some value.lexeme) = some value := by
  rcases value with _ | _ | (_ | _) | _ <;> rfl

theorem takes_primary_atom (atom : Atom) (table : Table σ) (h : continuesOperand rest[0]? = false) :
    Takes (primary table) ⟨n, atom.lexeme :: rest⟩ fun e d =>
      Groups ⟨[], atom⟩ [] e ∧ d = ⟨n + 1, rest⟩ := by
  have hpath : rest[0]? ≠ some (Lexeme.symbol .pathSep) := fun hx => by simp [hx, continuesOperand] at h
  have hbang : rest[0]? ≠ some (Lexeme.symbol .bang) := fun hx => by simp [hx, continuesOperand] at h
  cases atom with
  | literal value =>
    have hvalue : Groups (σ := σ) ⟨[], .literal value⟩ [] (.literal (Places.token n) value) := .literal
    simpa [primary, Atom.lexeme, literal?_lexeme] using hvalue
  | name text =>
    have hname : Groups (σ := σ) ⟨[], .name text⟩ []
        (.path (Places.merge (Places.token n) (Places.before (n + 1))) [text]) := .name
    simpa [primary, Atom.lexeme, literal?, segment?, pathExpr, takes_path hpath, hbang] using hname

/-- Nothing is added to an operand that ends. -/
theorem takes_postfixTurn_leave {table : Table σ} {e : Expr σ}
    {Q : Turn (Expr σ) (Expr σ) → Cursor → Prop} (h : continuesOperand rest[0]? = false) :
    Takes (postfixTurn table e) ⟨n, rest⟩ Q ↔ Q (.leave e) ⟨n, rest⟩ := by
  simp only [postfixTurn, takes_bind, takes_peek]
  split <;> simp_all [continuesOperand]

/-- An atom is no prefix operator. -/
theorem unaryOp?_atom (atom : Atom) : unaryOp? (some atom.lexeme) = none := by
  rcases atom with (_ | _ | (_ | _) | _) | _ <;> rfl

/-- An operand is read with one level of recursion for each of its prefix operators. -/
theorem takes_unary (u : Operand) (hdepth : u.signs.length ≤ depth)
    (h : continuesOperand rest[0]? = false) :
    Takes (unary fun (goal : Goal σ _) => Grammar.parse depth goal) ⟨n, u.lexemes ++ rest⟩ fun e d =>
      Groups u [] e ∧ d = ⟨n + u.lexemes.length, rest⟩ := by
  obtain ⟨signs, atom⟩ := u
  induction signs generalizing depth n with
  | nil =>
    have hamp : atom.lexeme ≠ .symbol .amp := atom.lexeme_ne_symbol .amp
    simp [unary, unaryOp?_atom, hamp, postfixed_eq]
    refine (takes_primary_atom atom _ h).mono ?_
    rintro e d ⟨he, rfl⟩
    rw [takes_loop, takes_postfixTurn_leave h]
    exact ⟨he, rfl⟩
  | cons op signs ih =>
    obtain ⟨depth, rfl⟩ : ∃ d, depth = d + 1 := ⟨depth - 1, by simp at hdepth; omega⟩
    have hsigns : signs.length ≤ depth := by simpa using hdepth
    have hmut : (Operand.lexemes ⟨signs, atom⟩ ++ rest)[0]? ≠ some (Lexeme.keyword .mutKw) := by
      rw [← List.head?_eq_getElem?]
      exact Operand.head_ne_mut ⟨signs, atom⟩ rest
    -- a plain reference has to be told from a mutable one by the next lexeme
    cases op with
    | ref isMutable =>
      cases isMutable with
      | true =>
        simp [unary, unaryOp?, UnaryOp.lexemes, mutLexemes]
        refine (ih hsigns).mono ?_
        rintro e d ⟨he, rfl⟩
        exact ⟨.unary he, by simp; omega⟩
      | false =>
        simp [unary, unaryOp?, UnaryOp.lexemes, mutLexemes]
        rw [takes_accept_ne (c := ⟨n + 1, _⟩) hmut]
        refine (ih hsigns).mono ?_
        rintro e d ⟨he, rfl⟩
        exact ⟨.unary he, by simp; omega⟩
    | neg | not | deref =>
      simp [unary, unaryOp?, UnaryOp.lexemes]
      refine (ih hsigns).mono ?_
      rintro e d ⟨he, rfl⟩
      exact ⟨.unary he, by simp; omega⟩

end Operands

/-! ### The loop over binary operators -/

/-- What the parser answers to a row: it goes on with a tree that groups the row, or it refuses a
chain of comparisons. -/
def Reply.Answers (r : Reply (Expr σ)) (u : Operand) (xs : List (BinaryOp × Operand))
    (next : Expr σ → Reply (Expr σ)) : Prop :=
  (¬ Chained (xs.map (·.1)) ∧ ∃ e, Groups u xs e ∧ r = next e) ∨
    (Chained (xs.map (·.1)) ∧ ∃ i, r = .failed i .chainedComparison)

/-- The loop over the binary operators of an operand, which has read `e` so far. -/
def operandLoop (table : Table σ) (power : Nat) (e : Expr σ) (afterComparison : Bool) :
    Parser (Expr σ) :=
  loop (operandTurn table power) (e, afterComparison)

section Loop

variable {table : Table σ} {power m : Nat} {e : Expr σ} {afterComparison : Bool}
  {rest ls : List Lexeme}

/-- The loop leaves in front of what it yields to. -/
theorem run_operandLoop_yields (h : Yields power rest) :
    (operandLoop table power e afterComparison).run ⟨m, rest⟩ = .done e ⟨m, rest⟩ := by
  have hcast : rest[0]? ≠ some (Lexeme.keyword .asKw) := by
    intro hx
    rw [Yields, hx] at h
    exact absurd h.1 (by decide)
  have hpeek : peek.run ⟨m, rest⟩ = .done rest[0]? ⟨m, rest⟩ := rfl
  refine run_loop_leave ?_
  rw [operandTurn, run_bind_done hpeek, if_neg hcast]
  split
  · rfl
  · next op hop =>
    rw [if_pos (h.2 op hop)]
    rfl

theorem run_operandTurn_operator {op : BinaryOp} (h : power ≤ op.power) :
    (operandTurn table power (e, afterComparison)).run ⟨m, .symbol op.symbol :: ls⟩ =
      if op.isComparison && afterComparison then .failed m .chainedComparison
      else match (table (.operand op.rightPower)).run ⟨m + 1, ls⟩ with
        | .done right d =>
          .done (.again (.binary (Places.merge e.place right.place) op e right, op.isComparison)) d
        | .failed i cause => .failed i cause := by
  have hpeek : peek.run ⟨m, .symbol op.symbol :: ls⟩ =
      .done (some (.symbol op.symbol)) ⟨m, .symbol op.symbol :: ls⟩ := rfl
  have hcast : some (Lexeme.symbol op.symbol) ≠ some (Lexeme.keyword .asKw) := by simp
  rw [operandTurn, run_bind_done hpeek, if_neg hcast, binaryOp?_symbol]
  dsimp only
  rw [if_neg (Nat.not_lt.2 h)]
  split
  · rfl
  · show (table (.operand op.rightPower) >>= _).run ⟨m + 1, ls⟩ = _
    rw [run_bind]
    cases (table (.operand op.rightPower)).run ⟨m + 1, ls⟩ <;> rfl

/-- The loop reads an operator that binds tightly enough, and its right operand. -/
theorem run_operandLoop_operator {op : BinaryOp} (h : power ≤ op.power) :
    (operandLoop table power e afterComparison).run ⟨m, .symbol op.symbol :: ls⟩ =
      if op.isComparison && afterComparison then .failed m .chainedComparison
      else match (table (.operand op.rightPower)).run ⟨m + 1, ls⟩ with
        | .done right d => (operandLoop table power
            (.binary (Places.merge e.place right.place) op e right) op.isComparison).run d
        | .failed i cause => .failed i cause := by
  have hturn : (operandTurn table power (e, afterComparison)).run
      ⟨m, .symbol op.symbol :: ls⟩ = _ := run_operandTurn_operator h
  have hafter := (table (.operand op.rightPower)).after ⟨m + 1, ls⟩
  by_cases hchained : (op.isComparison && afterComparison) = true
  · rw [if_pos hchained] at hturn ⊢
    exact run_loop_failed hturn
  rw [if_neg hchained] at hturn ⊢
  cases hright : (table (.operand op.rightPower)).run ⟨m + 1, ls⟩ with
  | failed i cause =>
    rw [hright] at hturn
    exact run_loop_failed hturn
  | done right d =>
    rw [hright] at hturn hafter
    -- the operator has been passed over, so the turn has moved on
    have hlt : m < d.position := Cursor.Reaches.le hafter
    show loopRun _ _ _ = _
    rw [loopRun, hturn]
    exact if_pos hlt

end Loop

/-! ### Rows -/

/-- Behind an operand of a row stands one of its operators, or what follows the row. -/
theorem continuesOperand_further {power : Nat} {rest : List Lexeme} (h : Yields power rest)
    (xs : List (BinaryOp × Operand)) :
    continuesOperand (furtherLexemes xs ++ rest)[0]? = false := by
  cases xs with
  | nil => exact h.1
  | cons x xs => exact continuesOperand_symbol x.1

theorem Operand.length_signs_lt (u : Operand) : u.signs.length < u.lexemes.length := by
  obtain ⟨signs, atom⟩ := u
  induction signs with
  | nil => simp
  | cons op signs ih =>
    have hop : 0 < op.lexemes.length := by cases op <;> simp [UnaryOp.lexemes]
    simp at ih ⊢
    omega

/-- The parsers of all goals with so many levels of recursion. -/
abbrev tableWithin (depth : Nat) : Table σ := fun goal => Grammar.parse depth goal

/-- A row is read as an operand if the loop answers to what stands behind its first operand. -/
theorem answers_operand {u : Operand} {xs : List (BinaryOp × Operand)} {depth power n : Nat}
    {rest : List Lexeme} {next : Expr σ → Reply (Expr σ)}
    (hdepth : u.signs.length ≤ depth) (hrest : Yields power rest)
    (hloop : ∀ first : Expr σ, Groups u [] first →
      ((operandLoop (tableWithin depth) power first false).run
        ⟨n + u.lexemes.length, furtherLexemes xs ++ rest⟩).Answers u xs next) :
    ((Grammar.parse (depth + 1) (.operand power : Goal σ _)).run
      ⟨n, u.lexemes ++ (furtherLexemes xs ++ rest)⟩).Answers u xs next := by
  obtain ⟨first, _, hfirst, hgroups, rfl⟩ :=
    takes_unary (σ := σ) u hdepth (continuesOperand_further hrest xs)
  show ((operand _ power).run _).Answers u xs next
  rw [operand_eq, run_bind_done hfirst]
  exact hloop first hgroups

omit [Places σ] in
/-- In a tree whose operators all bind at least as tightly as a comparison, the root is a comparison
if there is one. -/
theorem Groups.isComparison_root {u : Operand} {xs : List (BinaryOp × Operand)} {e : Expr σ}
    (h : Groups u xs e) {op : BinaryOp} (hop : op.isComparison = true)
    (hxs : ∀ x ∈ xs, op.power ≤ x.1.power) :
    e.root?.any (·.isComparison) = true ↔ ∃ a ∈ xs.map (·.1), a.isComparison = true := by
  constructor
  · intro hroot
    obtain ⟨o, ho, hcomparison⟩ := (Option.any_eq_true _ _).1 hroot
    obtain ⟨x, hx, rfl⟩ := h.root?_mem o ho
    exact ⟨x.1, List.mem_map_of_mem hx, hcomparison⟩
  · rintro ⟨a, ha, hcomparison⟩
    obtain ⟨x, hx, rfl⟩ := List.mem_map.1 ha
    obtain ⟨o, ho, hle⟩ := h.root?_le x hx
    obtain ⟨y, hy, rfl⟩ := h.root?_mem o ho
    have hge := hxs y hy
    rw [BinaryOp.isComparison_iff] at hop hcomparison
    have hpower : y.1.power = 6 := by omega
    exact (Option.any_eq_true _ _).2 ⟨y.1, ho, BinaryOp.isComparison_iff.2 hpower⟩

/-- What the loop has read behind an operand is the tree that groups it, up to the operators that
it leaves to others. -/
theorem Groups.run_operandLoop {u : Operand} {xs : List (BinaryOp × Operand)} {e : Expr Unit}
    (h : Groups u xs e) (depth power m : Nat) (rest : List Lexeme) (first : Expr σ)
    (hfirst : Groups u [] first) (hpower : ∀ x ∈ xs, power ≤ x.1.power)
    (hrest : ∀ x ∈ xs, Yields (x.1.power + 1) rest) (hdepth : (furtherLexemes xs).length ≤ depth) :
    ((operandLoop (tableWithin depth) power first false).run
      ⟨m, furtherLexemes xs ++ rest⟩).Answers u xs fun e =>
        (operandLoop (tableWithin depth) power e (e.root?.any (·.isComparison))).run
          ⟨m + (furtherLexemes xs).length, rest⟩ := by
  induction h generalizing depth power m rest first with
  | literal | name | unary =>
    refine .inl ⟨not_chained_nil, first, hfirst, ?_⟩
    dsimp only
    rw [hfirst.root?_eq_none]
    rfl
  | @binary _ op u v xs ys left right hxs hys hl hr ihl ihr =>
    obtain ⟨hpowerXs, hpowerOp, -⟩ : (∀ x ∈ xs, power ≤ x.1.power) ∧ power ≤ op.power ∧
        ∀ y ∈ ys, power ≤ y.1.power := by simpa [or_imp, forall_and] using hpower
    obtain ⟨-, hrestOp, hrestYs⟩ : (∀ x ∈ xs, Yields (x.1.power + 1) rest) ∧
        Yields op.rightPower rest ∧ ∀ y ∈ ys, Yields (y.1.power + 1) rest := by
      simpa [or_imp, forall_and, BinaryOp.rightPower] using hrest
    have hchained : Chained (xs.map (·.1) ++ op :: ys.map (·.1)) ↔ _ :=
      chained_split (List.forall_mem_map.2 hxs) (List.forall_mem_map.2 hys)
    rw [furtherLexemes_append, furtherLexemes_cons, List.length_append, List.length_cons,
      List.length_append] at hdepth
    have hsigns := v.length_signs_lt
    obtain ⟨depth, rfl⟩ : ∃ d, depth = d + 1 := ⟨depth - 1, by omega⟩
    -- the left subtree is read first; the loop is then in front of the root's operator
    have hleft := ihl (depth + 1) power m
      (.symbol op.symbol :: (v.lexemes ++ (furtherLexemes ys ++ rest))) first hfirst hpowerXs
      (fun x hx => yields_symbol (Nat.lt_succ_of_le (hxs x hx)) _) (by omega)
    have htext : furtherLexemes (xs ++ (op, v) :: ys) ++ rest = furtherLexemes xs ++
        .symbol op.symbol :: (v.lexemes ++ (furtherLexemes ys ++ rest)) := by simp
    have hoperators : (xs ++ (op, v) :: ys).map (·.1) = xs.map (·.1) ++ op :: ys.map (·.1) := by simp
    rw [htext, Reply.Answers, hoperators]
    rcases hleft with ⟨hnot, l, hl', hrun⟩ | ⟨hyes, i, hrun⟩
    · dsimp only at hrun
      rw [hrun, run_operandLoop_operator hpowerOp]
      -- two comparisons meet at the root only if the left subtree has one at its own root
      by_cases hchain : (op.isComparison && l.root?.any (·.isComparison)) = true
      · obtain ⟨hop, hbefore⟩ := Bool.and_eq_true_iff.1 hchain
        rw [if_pos hchain]
        exact .inr ⟨hchained.2 (.inr (.inl ⟨hop, (hl'.isComparison_root hop hxs).1 hbefore⟩)), _, rfl⟩
      rw [if_neg hchain]
      have hright : ((Grammar.parse (depth + 1) (.operand op.rightPower : Goal σ _)).run
          ⟨m + (furtherLexemes xs).length + 1, v.lexemes ++ (furtherLexemes ys ++ rest)⟩).Answers v ys
            fun e => .done e ⟨m + (furtherLexemes xs).length + 1 + v.lexemes.length +
              (furtherLexemes ys).length, rest⟩ := by
        refine answers_operand (by omega) hrestOp fun first' hfirst' => ?_
        have hloop := ihr depth op.rightPower (m + (furtherLexemes xs).length + 1 + v.lexemes.length)
          rest first' hfirst' hys hrestYs (by omega)
        simpa only [run_operandLoop_yields hrestOp] using hloop
      rcases hright with ⟨hnot', r, hr', hrun'⟩ | ⟨hyes, i, hrun'⟩
      · have hnone : ¬ Chained (xs.map (·.1) ++ op :: ys.map (·.1)) := by
          rw [hchained, not_or, not_or]
          refine ⟨hnot, fun ⟨hop, hbefore⟩ => hchain ?_, hnot'⟩
          rw [Bool.and_eq_true_iff]
          exact ⟨hop, (hl'.isComparison_root hop hxs).2 hbefore⟩
        have hlength : m + (furtherLexemes xs).length + 1 + v.lexemes.length +
            (furtherLexemes ys).length = m + (furtherLexemes (xs ++ (op, v) :: ys)).length := by
          simp
          omega
        rw [hrun', hlength]
        exact .inl ⟨hnone, .binary (Places.merge l.place r.place) op l r, .binary hxs hys hl' hr', rfl⟩
      · rw [hrun']
        exact .inr ⟨hchained.2 (.inr (.inr hyes)), i, rfl⟩
    · exact .inr ⟨hchained.2 (.inl hyes), i, hrun⟩

/-- **Operator precedence.** In front of a lexeme that cannot belong to the expression, a row of
operands and binary operators is read to its end exactly if it chains no comparisons. The tree reads
as the row in order and follows the powers of its operators, and no other tree does both. -/
theorem operand_row (σ : Type) [Places σ] (row : Row) (depth n : Nat) (rest : List Lexeme)
    (hdepth : row.lexemes.length ≤ depth) (hrest : continuesExpr rest[0]? = false) :
    (¬ Chained row.operators → ∃ e : Expr σ,
      (Grammar.parse depth (.operand 0)).run ⟨n, row.lexemes ++ rest⟩ =
          .done e ⟨n + row.lexemes.length, rest⟩ ∧
        e.Grouped ∧ e.reading = row.lexemes ∧
        ∀ (τ : Type) (other : Expr τ), other.Grouped → other.reading = row.lexemes →
          other.erase = e.erase) ∧
      (Chained row.operators → ∃ i,
        (Grammar.parse depth (.operand 0 : Goal σ _)).run ⟨n, row.lexemes ++ rest⟩ =
          .failed i .chainedComparison) := by
  obtain ⟨u, xs⟩ := row
  have hlength : (Row.lexemes ⟨u, xs⟩).length = u.lexemes.length + (furtherLexemes xs).length :=
    List.length_append
  have hsigns := u.length_signs_lt
  obtain ⟨depth, rfl⟩ : ∃ d, depth = d + 1 := ⟨depth - 1, by omega⟩
  -- any tree that groups the row shows how the loop goes; which places it has does not matter
  obtain ⟨guide, hguide⟩ := exists_groups u xs
  have hanswers : ((Grammar.parse (depth + 1) (.operand 0 : Goal σ _)).run
      ⟨n, u.lexemes ++ (furtherLexemes xs ++ rest)⟩).Answers u xs fun e =>
        .done e ⟨n + u.lexemes.length + (furtherLexemes xs).length, rest⟩ := by
    refine answers_operand (by omega) (yields_of_continuesExpr hrest 0) fun first hfirst => ?_
    have hloop := hguide.run_operandLoop depth 0 (n + u.lexemes.length) rest first hfirst
      (fun x _ => Nat.zero_le _) (fun x _ => yields_of_continuesExpr hrest _) (by omega)
    simpa only [run_operandLoop_yields (yields_of_continuesExpr hrest 0)] using hloop
  rw [Row.lexemes, List.append_assoc, List.length_append, ← Nat.add_assoc]
  rcases hanswers with ⟨hnot, e, he, hrun⟩ | ⟨hyes, i, hrun⟩
  · refine ⟨fun _ => ⟨e, hrun, he.grouped, he.reading_eq, fun τ other hgrouped hreading => ?_⟩,
      fun h => absurd h hnot⟩
    have hother : Groups u xs other := groups_iff.2 ⟨hgrouped, hreading⟩
    exact hother.unique he rfl rfl
  · exact ⟨fun h => absurd hyes h, fun _ => ⟨i, hrun⟩⟩

/-- Names with operators between them. -/
def Row.ofNames (first : String) (further : List (BinaryOp × String)) : Row :=
  ⟨⟨[], .name first⟩, further.map fun x => (x.1, ⟨[], .name x.2⟩)⟩

/-- Two comparisons stand on both sides of `&&`, and are refused with a sum between them. -/
theorem operand_row_comparisons :
    (∃ e : Expr Unit, (Grammar.parse 9 (.operand 0)).run
        ⟨0, (Row.ofNames "a" [(.lt, "b"), (.add, "c"), (.and, "d"), (.eq, "e")]).lexemes ++
          [.symbol .semicolon]⟩ = .done e ⟨9, [.symbol .semicolon]⟩ ∧ e.Grouped) ∧
      ∃ i, (Grammar.parse 7 (.operand 0 : Goal Unit _)).run
        ⟨0, (Row.ofNames "a" [(.lt, "b"), (.add, "c"), (.eq, "d")]).lexemes ++ []⟩ =
          .failed i .chainedComparison := by
  have hstops : continuesExpr [Lexeme.symbol .semicolon][0]? = false := by decide
  have hends : continuesExpr ([] : List Lexeme)[0]? = false := by decide
  have hread := (operand_row Unit (.ofNames "a" [(.lt, "b"), (.add, "c"), (.and, "d"), (.eq, "e")]) 9 0
    [.symbol .semicolon] (by decide) hstops).1 (by decide)
  have hrefused := (operand_row Unit (.ofNames "a" [(.lt, "b"), (.add, "c"), (.eq, "d")]) 7 0 []
    (by decide) hends).2 (by decide)
  obtain ⟨e, hrun, hgrouped, -⟩ := hread
  exact ⟨⟨e, hrun, hgrouped⟩, hrefused⟩

end EnsembleCompiler.Target
