import EnsembleCompiler.Proofs.Target.Reading

/-!
# How types and expressions are read

For each construct of types and expressions, what the parser reads from its lexemes, given what it
reads from the parts.
-/

namespace EnsembleCompiler.Target

open Target.Parser Grammar

/-- None of these symbols comes next. -/
def Ends (symbols : List Symbol) (rest : List Lexeme) : Prop :=
  ∀ s ∈ symbols, rest[0]? ≠ some (Lexeme.symbol s)

variable {α σ : Type} [Places σ] {ls rest : List Lexeme} {x : Lexeme}

@[simp] theorem ends_cons {symbols : List Symbol} :
    Ends symbols (x :: rest) ↔ ∀ s ∈ symbols, x ≠ .symbol s := by
  simp [Ends]

/-! ### Types -/

/-- The lexemes `ls` are a type, unless a path goes on. -/
abbrev ReadsType (ls : List Lexeme) (t : TypeExpr Unit) : Prop :=
  Reads (fun table => step table .type) (Ends [.pathSep, .lt]) ls t

theorem takes_path {name : String} {n : Nat} {Q : Path → Cursor → Prop}
    (h : rest[0]? ≠ some (Lexeme.symbol .pathSep)) :
    Takes path ⟨n, .ident name :: rest⟩ Q ↔ Q [name] ⟨n + 1, rest⟩ := by
  simp only [path, Parser.segment, takes_bind, takes_peek]
  simp [segment?]
  rw [takes_loop]
  simp [h]

theorem readsType_path (name : String) : ReadsType [.ident name] (.path [name] []) := by
  rintro depth n rest - hrest
  have hpath : rest[0]? ≠ some (Lexeme.symbol .pathSep) := hrest _ (by simp)
  have hlt : rest[0]? ≠ some (Lexeme.symbol .lt) := hrest _ (by simp)
  simp [step, typeExpr, segment?, takes_path hpath, takes_accept_ne, hlt]

theorem ReadsType.argument {t : TypeExpr Unit} (name : String) (h : ReadsType ls t) :
    ReadsType (.ident name :: .symbol .lt :: (ls ++ [Lexeme.symbol .gt])) (.path [name] [t]) := by
  rintro depth n rest hdepth -
  simp at hdepth
  simp [step, typeExpr, segment?, takes_path, typeArguments]
  rw [takes_loop]
  simp
  refine (h.call (by omega) (by simp)).mono ?_
  rintro _ _ ⟨rfl, m, rfl⟩
  simp

theorem ReadsType.ref {t : TypeExpr Unit} (h : ReadsType (x :: ls) t)
    (hx : x ≠ .keyword .mutKw) : ReadsType (.symbol .amp :: x :: ls) (.ref false t) := by
  rintro depth n rest hdepth hrest
  simp at hdepth
  simp [step, typeExpr, referenceType, hx]
  refine (h.call (by simp; omega) hrest).mono ?_
  rintro _ _ ⟨rfl, m, rfl⟩
  exact ⟨rfl, m, rfl⟩

theorem ReadsType.slice {t : TypeExpr Unit} (h : ReadsType ls t) :
    ReadsType (.symbol .leftBracket :: (ls ++ [Lexeme.symbol .rightBracket])) (.slice t) := by
  rintro depth n rest hdepth -
  simp at hdepth
  simp [step, typeExpr]
  refine (h.call (by omega) (by simp)).mono ?_
  rintro _ _ ⟨rfl, m, rfl⟩
  simp

/-! ### Primary expressions -/

/-- One of these symbols comes next. -/
def Follows (symbols : List Symbol) (rest : List Lexeme) : Prop :=
  ∃ s tail, rest = .symbol s :: tail ∧ s ∈ symbols

theorem Follows.mono {symbols symbols' : List Symbol} (h : Follows symbols rest)
    (hsub : ∀ s ∈ symbols, s ∈ symbols') : Follows symbols' rest := by
  obtain ⟨s, tail, rfl, hs⟩ := h
  exact ⟨s, tail, rfl, hsub s hs⟩

/-- The symbols that end an expression. -/
def closers : List Symbol :=
  [.semicolon, .rightBrace, .rightParen, .rightBracket, .comma, .leftBrace]

/-- The symbols that end an operand. -/
def operandEnds : List Symbol := [Symbol.plus, .lt, .plusEq] ++ closers

/-- The lexemes with which the expressions here begin. -/
def startsExpr : Lexeme → Bool
  | .ident _ | .integer _ _ | .float _ _ | .keyword .trueKw | .keyword .falseKw => true
  | .symbol s => s ∈ [.leftBracket, .minus, .bang, .pipe]
  | _ => false

/-- The lexemes `ls` are an expression. -/
structure IsExpr (ls : List Lexeme) (e : Expr Unit) : Prop where
  begins : ∃ x tail, ls = x :: tail ∧ startsExpr x = true
  reads : Reads (fun table => step table .expr) (Follows closers) ls e

/-- The lexemes `ls` are an expression without operators around it. -/
abbrev ReadsPrimary (follow : List Lexeme → Prop) (ls : List Lexeme) (e : Expr Unit) : Prop :=
  Reads (fun table => primary table) follow ls e

theorem readsPrimary_literal {value : Literal} {follow : List Lexeme → Prop}
    (h : literal? (some x) = some value) : ReadsPrimary follow [x] (.literal () value) := by
  rintro depth n rest - -
  simp [primary, h]

/-- What does not go on with a path. -/
abbrev EndsPath : List Lexeme → Prop := Ends [.pathSep, .bang]

theorem readsPrimary_name (name : String) : ReadsPrimary EndsPath [.ident name] (.path () [name]) := by
  rintro depth n rest - hrest
  have hpath : rest[0]? ≠ some (Lexeme.symbol .pathSep) := hrest _ (by simp)
  have hbang : rest[0]? ≠ some (Lexeme.symbol .bang) := hrest _ (by simp)
  simp [primary, literal?, segment?, pathExpr, takes_path hpath, hbang]

theorem readsPrimary_constant (type name : String) :
    ReadsPrimary EndsPath [.ident type, .symbol .pathSep, .ident name] (.path () [type, name]) := by
  rintro depth n rest - hrest
  have hpath : rest[0]? ≠ some (Lexeme.symbol .pathSep) := hrest _ (by simp)
  have hbang : rest[0]? ≠ some (Lexeme.symbol .bang) := hrest _ (by simp)
  simp [primary, literal?, segment?, pathExpr, path, Parser.segment]
  rw [takes_loop]
  simp only [takes_bind, takes_look, takes_peek, takes_ite, takes_shift, takes_pure,
    List.getElem?_cons_zero, List.getElem?_cons_succ, Option.isSome_some, and_self, if_true]
  refine ⟨by simp only [List.length_cons]; omega, ?_⟩
  rw [takes_loop]
  simp [hpath, hbang]

theorem readsPrimary_closure {e : Expr Unit} (name : String) (h : IsExpr ls e) :
    ReadsPrimary (Follows closers) (.symbol .pipe :: .ident name :: .symbol .pipe :: ls)
      (.closure () [⟨(), name⟩] e) := by
  obtain ⟨⟨x, tail, rfl, hx⟩, hreads⟩ := h
  have hx : x ≠ .symbol .arrow := by
    rintro rfl
    exact absurd hx (by decide)
  rintro depth n rest hdepth hrest
  simp at hdepth
  simp [primary, literal?, segment?, Grammar.closure, closureParameters, commaSeparated]
  rw [takes_loop]
  simp [closureParameter, hx]
  refine (hreads.call (by simp; omega) hrest).mono ?_
  rintro _ _ ⟨rfl, m, rfl⟩
  exact ⟨rfl, m, rfl⟩

/-! ### Items between commas -/

/-- Items with commas between them. -/
def commaLexemes : List (List Lexeme) → List Lexeme
  | [] => []
  | [ls] => ls
  | ls :: rest => ls ++ .symbol .comma :: commaLexemes rest

/-- One turn of reading items with commas between them. -/
def commaTurn (close : Symbol) (item : Parser α) (items : List α) :
    Parser (Turn (List α) (List α)) := do
  if ← at? (.symbol close) then return .leave items.reverse
  let x ← item
  if ← accept (.symbol .comma) then return .again (x :: items)
  return .leave (x :: items).reverse

theorem commaSeparated_eq (close : Symbol) (item : Parser α) :
    commaSeparated close item = loop (commaTurn close item) := rfl

/-- Items, of which none begins with the closing symbol, are read up to that symbol. -/
theorem takes_commaSeparated {close : Symbol} {item : Parser α} (hclose : close ≠ .comma)
    {items : List (List Lexeme × α)} (acc : List α) (n : Nat)
    (rest : List Lexeme)
    (hitems : ∀ i ∈ items, ∃ y tail, i.1 = y :: tail ∧ y ≠ .symbol close ∧
      ∀ n rest, Follows [close, .comma] rest →
        Takes item ⟨n, y :: (tail ++ rest)⟩ fun a c => a = i.2 ∧ ∃ m, c = ⟨m, rest⟩) :
    Takes (commaSeparated close item acc)
      ⟨n, commaLexemes (items.map Prod.fst) ++ .symbol close :: rest⟩ fun as c =>
        as = acc.reverse ++ items.map Prod.snd ∧ ∃ m, c = ⟨m, .symbol close :: rest⟩ := by
  rw [commaSeparated_eq]
  induction items generalizing acc n with
  | nil =>
    rw [takes_loop]
    simp [commaTurn, commaLexemes]
  | cons i items ih =>
    obtain ⟨y, tail, hi, hy, hread⟩ := hitems i (by simp)
    rw [takes_loop]
    -- a last item is in front of the closing symbol, any other in front of a comma
    cases items with
    | nil =>
      simp [commaTurn, commaLexemes, hi, hy]
      refine (hread n _ ⟨close, rest, rfl, by simp⟩).mono ?_
      rintro _ _ ⟨rfl, m, rfl⟩
      simp [hclose]
    | cons j items =>
      have hrec := fun acc n => ih acc n fun k hk => hitems k (by simp [hk])
      simp only [List.map_cons] at hrec
      simp [commaTurn, commaLexemes, hi, hy]
      refine (hread n _ ⟨.comma, _, rfl, by simp⟩).mono ?_
      rintro _ _ ⟨rfl, m, rfl⟩
      simp
      refine ⟨by omega, (hrec (i.2 :: acc) (m + 1)).mono ?_⟩
      rintro as c ⟨has, hc⟩
      exact ⟨by simpa using has, hc⟩

/-! ### Calls, methods and indices -/

/-- One turn of reading what follows a primary expression. -/
def postfixTurn (table : Table σ) (e : Expr σ) : Parser (Turn (Expr σ) (Expr σ)) := do
  match ← peek with
  | some (.symbol .leftParen) =>
    let list ← arguments table
    let last ← previousPlace
    return .again (.call (Places.merge e.place last) e list)
  | some (.symbol .leftBracket) =>
    shift
    let index ← table .expr
    symbol .rightBracket
    let last ← previousPlace
    return .again (.index (Places.merge e.place last) e index)
  | some (.symbol .question) =>
    let last ← advance
    return .again (.propagate (Places.merge e.place last) e)
  | some (.symbol .dot) =>
    shift
    let name ← fieldName
    if ← at? (.symbol .leftParen) then
      let list ← arguments table
      let last ← previousPlace
      return .again (.methodCall (Places.merge e.place last) e name list)
    else return .again (.field (Places.merge e.place name.place) e name)
  | _ => return .leave e

theorem postfixed_eq (table : Table σ) :
    postfixed table = primary table >>= loop (postfixTurn table) := rfl

/-- The lexemes `ls` are read as `e`, to which what follows may still be added. -/
structure ReadsOn (follow : List Lexeme → Prop) (ls : List Lexeme) (e : Expr Unit) : Prop where
  begins : ∃ x tail, ls = x :: tail ∧ startsExpr x = true ∧ unaryOp? (some x) = none
  reads : ∀ depth n rest Q, ls.length ≤ depth → follow rest →
    (∀ m, Takes (loop (postfixTurn fun goal => parse depth goal) e) ⟨m, rest⟩ Q) →
    Takes (postfixed fun goal => parse depth goal) ⟨n, ls ++ rest⟩ Q

theorem ReadsPrimary.readsOn {follow : List Lexeme → Prop} {e : Expr Unit}
    (h : ReadsPrimary follow (x :: ls) e)
    (hx : startsExpr x = true ∧ unaryOp? (some x) = none) : ReadsOn follow (x :: ls) e := by
  refine ⟨⟨x, ls, rfl, hx⟩, ?_⟩
  intro depth n rest Q hdepth hrest hloop
  rw [postfixed_eq, takes_bind]
  refine (h depth n rest hdepth hrest).mono ?_
  rintro _ _ ⟨rfl, m, rfl⟩
  exact hloop m

/-- Every argument is an expression. -/
abbrev AreExprs (args : List (List Lexeme × Expr Unit)) : Prop := ∀ a ∈ args, IsExpr a.1 a.2

theorem areExprs_nil : AreExprs [] := by simp

theorem IsExpr.cons {e : Expr Unit} {args : List (List Lexeme × Expr Unit)} (h : IsExpr ls e)
    (hargs : AreExprs args) : AreExprs ((ls, e) :: args) :=
  List.forall_mem_cons.2 ⟨h, hargs⟩

/-- The lexemes of arguments in their parentheses. -/
def argumentLexemes (args : List (List Lexeme × Expr Unit)) : List Lexeme :=
  .symbol .leftParen :: (commaLexemes (args.map Prod.fst) ++ [Lexeme.symbol .rightParen])

theorem length_le_commaLexemes {items : List (List Lexeme)} (h : ls ∈ items) :
    ls.length ≤ (commaLexemes items).length := by
  induction items with
  | nil => exact absurd h (by simp)
  | cons i items ih =>
    cases items with
    | nil => simp_all [commaLexemes]
    | cons j items =>
      simp only [commaLexemes, List.length_append, List.length_cons]
      rcases List.mem_cons.1 h with rfl | h
      · omega
      · have := ih h
        omega

theorem takes_arguments {args : List (List Lexeme × Expr Unit)} (depth n : Nat)
    (rest : List Lexeme) (hargs : AreExprs args)
    (hdepth : (argumentLexemes args).length ≤ depth) :
    Takes (arguments fun goal => parse depth goal) ⟨n, argumentLexemes args ++ rest⟩ fun es c =>
      es = args.map Prod.snd ∧ ∃ m, c = ⟨m, rest⟩ := by
  simp [argumentLexemes] at hdepth
  simp [arguments, argumentLexemes]
  have hitems : ∀ i ∈ args, ∃ y tail, i.1 = y :: tail ∧ y ≠ .symbol .rightParen ∧
      ∀ n rest, Follows [.rightParen, .comma] rest →
        Takes (parse depth .expr) ⟨n, y :: (tail ++ rest)⟩ fun a c =>
          a = i.2 ∧ ∃ m, c = ⟨m, rest⟩ := by
    intro i hi
    obtain ⟨⟨y, tail, htext, hy⟩, hreads⟩ := hargs i hi
    refine ⟨y, tail, htext, ?_, fun n rest hrest => ?_⟩
    · rintro rfl
      exact absurd hy (by decide)
    · have hlength := length_le_commaLexemes (List.mem_map_of_mem (f := Prod.fst) hi)
      have hcall : Takes (parse depth .expr) ⟨n, i.1 ++ rest⟩ fun a c =>
          a = i.2 ∧ ∃ m, c = ⟨m, rest⟩ :=
        hreads.call (by omega) (hrest.mono (by decide))
      rwa [htext] at hcall
  refine (takes_commaSeparated (by decide) [] (n + 1) rest hitems).mono ?_
  rintro _ _ ⟨rfl, m, rfl⟩
  simp

theorem ReadsOn.call {e : Expr Unit} {args : List (List Lexeme × Expr Unit)}
    (h : ReadsOn EndsPath ls e) (hargs : AreExprs args) :
    ReadsOn EndsPath (ls ++ argumentLexemes args) (.call () e (args.map Prod.snd)) := by
  obtain ⟨⟨x, tail, rfl, hx⟩, hreads⟩ := h
  refine ⟨⟨x, tail ++ argumentLexemes args, rfl, hx⟩, ?_⟩
  intro depth n rest Q hdepth hrest hloop
  simp at hdepth
  rw [List.append_assoc]
  refine hreads depth n _ Q (by simp; omega) (by simp [argumentLexemes]) fun m => ?_
  rw [takes_loop]
  have hargs := takes_arguments depth m rest hargs (by omega)
  simp [postfixTurn, argumentLexemes] at hargs ⊢
  refine hargs.mono ?_
  rintro _ _ ⟨rfl, m', rfl⟩
  simp
  exact ⟨by omega, hloop _⟩

theorem ReadsOn.method {e : Expr Unit} {args : List (List Lexeme × Expr Unit)}
    (h : ReadsOn EndsPath ls e) (name : String) (hargs : AreExprs args) :
    ReadsOn EndsPath (ls ++ .symbol .dot :: .ident name :: argumentLexemes args)
      (.methodCall () e ⟨(), name⟩ (args.map Prod.snd)) := by
  obtain ⟨⟨x, tail, rfl, hx⟩, hreads⟩ := h
  refine ⟨⟨x, tail ++ .symbol .dot :: .ident name :: argumentLexemes args, rfl, hx⟩, ?_⟩
  intro depth n rest Q hdepth hrest hloop
  simp at hdepth
  rw [List.append_assoc]
  refine hreads depth n _ Q (by simp; omega) (by simp) fun m => ?_
  rw [takes_loop]
  have hargs := takes_arguments depth (m + 1 + 1) rest hargs (by omega)
  simp [postfixTurn, fieldName, argumentLexemes] at hargs ⊢
  refine hargs.mono ?_
  rintro _ _ ⟨rfl, m', rfl⟩
  simp
  exact ⟨by omega, hloop _⟩

theorem ReadsOn.index {e i : Expr Unit} {li : List Lexeme} (h : ReadsOn EndsPath ls e)
    (hi : IsExpr li i) :
    ReadsOn EndsPath (ls ++ .symbol .leftBracket :: (li ++ [Lexeme.symbol .rightBracket]))
      (.index () e i) := by
  obtain ⟨⟨x, tail, rfl, hx⟩, hreads⟩ := h
  refine ⟨⟨x, _, rfl, hx⟩, ?_⟩
  intro depth n rest Q hdepth hrest hloop
  simp at hdepth
  rw [List.append_assoc]
  refine hreads depth n _ Q (by simp; omega) (by simp) fun m => ?_
  rw [takes_loop]
  simp [postfixTurn]
  refine (hi.reads.call (by omega) ⟨.rightBracket, rest, rfl, by decide⟩).mono ?_
  rintro _ _ ⟨rfl, m', rfl⟩
  simp
  exact ⟨by omega, hloop _⟩

/-! ### Operators -/

/-- The lexemes `ls` are an operand. -/
structure IsOperand (follow : List Lexeme → Prop) (ls : List Lexeme) (e : Expr Unit) : Prop where
  begins : ∃ x tail, ls = x :: tail ∧ startsExpr x = true
  reads : Reads (fun table => step table .unary) follow ls e

/-- Nothing is added to an operand that an end of operands follows. -/
theorem takes_postfixTurn {table : Table σ} {e : Expr σ} {n : Nat}
    {Q : Turn (Expr σ) (Expr σ) → Cursor → Prop} (h : Follows operandEnds rest) :
    Takes (postfixTurn table e) ⟨n, rest⟩ Q ↔ Q (.leave e) ⟨n, rest⟩ := by
  obtain ⟨s, tail, rfl, hs⟩ := h
  simp [operandEnds, closers] at hs
  rcases hs with rfl | rfl | rfl | rfl | rfl | rfl | rfl | rfl | rfl <;> simp [postfixTurn]

theorem ReadsOn.isOperand {follow follow' : List Lexeme → Prop} {e : Expr Unit}
    (h : ReadsOn follow ls e) (hfollow : ∀ rest, follow' rest → follow rest)
    (hends : ∀ rest, follow' rest → Follows operandEnds rest) : IsOperand follow' ls e := by
  obtain ⟨⟨x, tail, rfl, hx, hunary⟩, hreads⟩ := h
  refine ⟨⟨x, tail, rfl, hx⟩, ?_⟩
  intro depth n rest hdepth hrest
  have hamp : x ≠ .symbol .amp := by
    rintro rfl
    exact absurd hx (by decide)
  simp [step, unary, hunary, hamp]
  refine hreads depth n rest _ hdepth (hfollow rest hrest) fun m => ?_
  rw [takes_loop, takes_postfixTurn (hends rest hrest)]
  exact ⟨rfl, m, rfl⟩

theorem IsOperand.prefixed {follow : List Lexeme → Prop} {e : Expr Unit} {s : Symbol}
    {op : UnaryOp} (h : IsOperand follow ls e) (hop : unaryOp? (some (.symbol s)) = some op)
    (hs : startsExpr (.symbol s) = true) :
    IsOperand follow (.symbol s :: ls) (.unary () op e) := by
  refine ⟨⟨_, _, rfl, hs⟩, ?_⟩
  intro depth n rest hdepth hrest
  simp at hdepth
  simp [step, unary, hop]
  refine (h.reads.call (by omega) hrest).mono ?_
  rintro _ _ ⟨rfl, m, rfl⟩
  exact ⟨rfl, m, rfl⟩

/-- One turn of reading binary operators. -/
def operandTurn (table : Table σ) (power : Nat) :
    Expr σ × Bool → Parser (Turn (Expr σ × Bool) (Expr σ)) :=
  fun (left, afterComparison) => do
    let here ← peek
    if here = some (Lexeme.keyword .asKw) then
      if castPower < power then return .leave left
      shift
      let type ← ascription (table .type)
      return .again (.cast (Places.merge left.place type.place) left type, afterComparison)
    match binaryOp? here with
    | none => return .leave left
    | some op =>
      if op.power < power then return .leave left
      if op.isComparison && afterComparison then fail .chainedComparison
      shift
      let right ← table (.operand op.rightPower)
      return .again (.binary (Places.merge left.place right.place) op left right, op.isComparison)

theorem operand_eq (table : Table σ) (power : Nat) : operand table power =
    unary table >>= fun first => loop (operandTurn table power) (first, false) := rfl

theorem takes_operandTurn {table : Table σ} {power : Nat} {e : Expr σ} {b : Bool} {n : Nat}
    {Q : Turn (Expr σ × Bool) (Expr σ) → Cursor → Prop}
    (h : Follows (.plusEq :: closers) rest) :
    Takes (operandTurn table power (e, b)) ⟨n, rest⟩ Q ↔ Q (.leave e) ⟨n, rest⟩ := by
  obtain ⟨s, tail, rfl, hs⟩ := h
  simp [closers] at hs
  rcases hs with rfl | rfl | rfl | rfl | rfl | rfl | rfl <;>
    simp [operandTurn, binaryOp?, BinaryOp.ofSymbol?]

theorem assignOp?_of_follows (h : Follows closers rest) : assignOp? rest[0]? = none := by
  obtain ⟨s, tail, rfl, hs⟩ := h
  simp [closers] at hs
  rcases hs with rfl | rfl | rfl | rfl | rfl | rfl <;> rfl

/-- An operand is read at every power where an expression ends. -/
theorem IsOperand.operand {e : Expr Unit} (h : IsOperand (Follows closers) ls e) (power : Nat) :
    Reads (fun table => step table (.operand power)) (Follows closers) ls e := by
  intro depth n rest hdepth hrest
  simp only [step, operand_eq, takes_bind]
  refine (h.reads depth n rest hdepth hrest).mono ?_
  rintro _ _ ⟨rfl, m, rfl⟩
  rw [takes_loop, takes_operandTurn (hrest.mono (by decide))]
  exact ⟨rfl, m, rfl⟩

theorem IsOperand.isExpr {e : Expr Unit} (h : IsOperand (Follows closers) ls e) : IsExpr ls e := by
  refine ⟨h.begins, ?_⟩
  intro depth n rest hdepth hrest
  simp only [step, expr, takes_bind, takes_peek]
  refine (h.operand 0 depth n rest hdepth hrest).mono ?_
  rintro _ _ ⟨rfl, m, rfl⟩
  rw [assignOp?_of_follows hrest, takes_pure]
  exact ⟨rfl, m, rfl⟩

theorem IsOperand.binary {s : Symbol} {op : BinaryOp} {ll lr : List Lexeme} {l r : Expr Unit}
    (hl : IsOperand (Follows operandEnds) ll l) (hr : IsOperand (Follows closers) lr r)
    (hs : s ∈ operandEnds) (hop : BinaryOp.ofSymbol? s = some op) :
    IsExpr (ll ++ .symbol s :: lr) (.binary () op l r) := by
  obtain ⟨⟨x, tail, rfl, hx⟩, hreads⟩ := hl
  refine ⟨⟨x, _, rfl, hx⟩, ?_⟩
  intro depth n rest hdepth hrest
  simp at hdepth
  rw [List.append_assoc]
  simp only [step, expr, operand_eq, takes_bind, takes_peek]
  refine (hreads depth n _ (by simp; omega) ⟨s, _, rfl, hs⟩).mono ?_
  rintro _ _ ⟨rfl, m, rfl⟩
  rw [takes_loop]
  simp [operandTurn, binaryOp?, hop]
  refine ((hr.operand op.rightPower).call (by omega) hrest).mono ?_
  rintro _ _ ⟨rfl, m', rfl⟩
  refine ⟨by dsimp only; omega, ?_⟩
  rw [takes_loop, takes_operandTurn (hrest.mono (by decide))]
  simp only [assignOp?_of_follows hrest, takes_pure]
  exact ⟨trivial, m', rfl⟩

theorem IsOperand.assign {ll lv : List Lexeme} {l v : Expr Unit}
    (hl : IsOperand (Follows operandEnds) ll l) (hv : IsExpr lv v) :
    IsExpr (ll ++ .symbol .plusEq :: lv) (.assign () (some .add) l v) := by
  obtain ⟨⟨x, tail, rfl, hx⟩, hreads⟩ := hl
  refine ⟨⟨x, _, rfl, hx⟩, ?_⟩
  intro depth n rest hdepth hrest
  simp at hdepth
  rw [List.append_assoc, List.cons_append]
  simp only [step, expr, operand_eq, takes_bind, takes_peek]
  refine (hreads depth n _ (by simp; omega) ⟨.plusEq, _, rfl, by decide⟩).mono ?_
  rintro _ _ ⟨rfl, m, rfl⟩
  rw [takes_loop, takes_operandTurn ⟨.plusEq, _, rfl, by decide⟩]
  simp [assignOp?]
  refine (hv.reads.call (by omega) hrest).mono ?_
  rintro _ _ ⟨rfl, m', rfl⟩
  exact ⟨rfl, m', rfl⟩

/-! ### Arrays -/

theorem IsExpr.of_eq {e : Expr Unit} {ls' : List Lexeme} (h : IsExpr ls e) (hls : ls' = ls) :
    IsExpr ls' e := hls ▸ h

theorem IsExpr.notSymbol {e : Expr Unit} {s : Symbol} (h : IsExpr ls e)
    (hs : startsExpr (.symbol s) = false) : ∃ x tail, ls = x :: tail ∧ x ≠ .symbol s := by
  obtain ⟨x, tail, rfl, hx⟩ := h.begins
  refine ⟨x, tail, rfl, ?_⟩
  rintro rfl
  rw [hs] at hx
  exact absurd hx (by simp)

theorem ReadsType.array {t : TypeExpr Unit} {e : Expr Unit} {le : List Lexeme}
    (h : ReadsType ls t) (he : IsExpr le e) :
    ReadsType (.symbol .leftBracket ::
        (ls ++ .symbol .semicolon :: (le ++ [Lexeme.symbol .rightBracket])))
      (.array t e) := by
  rintro depth n rest hdepth -
  simp at hdepth
  simp [step, typeExpr]
  refine (h.call (by omega) (by simp)).mono ?_
  rintro _ _ ⟨rfl, m, rfl⟩
  simp
  refine (he.reads.call (by omega) ⟨.rightBracket, rest, rfl, by decide⟩).mono ?_
  rintro _ _ ⟨rfl, m', rfl⟩
  simp

theorem readsPrimary_repeated {v l : Expr Unit} {lv ll : List Lexeme}
    {follow : List Lexeme → Prop} (hv : IsExpr lv v) (hl : IsExpr ll l) :
    ReadsPrimary follow
      (.symbol .leftBracket :: (lv ++ .symbol .semicolon :: (ll ++ [Lexeme.symbol .rightBracket])))
      (.repeated () v l) := by
  rintro depth n rest hdepth -
  obtain ⟨x, tail, rfl, hx⟩ := hv.notSymbol (s := .rightBracket) rfl
  simp at hdepth
  simp [primary, literal?, segment?, bracketed, hx]
  refine (hv.reads.call (by simp; omega) ⟨.semicolon, _, rfl, by decide⟩).mono ?_
  rintro _ _ ⟨rfl, m, rfl⟩
  simp
  refine (hl.reads.call (by omega) ⟨.rightBracket, rest, rfl, by decide⟩).mono ?_
  rintro _ _ ⟨rfl, m', rfl⟩
  simp

/-- One turn of reading the elements of an array after the first. -/
def arrayTurn (table : Table σ) (elements : List (Expr σ)) :
    Parser (Turn (List (Expr σ)) (List (Expr σ))) := do
  if ← accept (.symbol .comma) then
    if ← at? (.symbol .rightBracket) then return .leave elements.reverse
    else return .again ((← table .expr) :: elements)
  else return .leave elements.reverse

omit [Places σ] in
theorem arrayElements_eq (table : Table σ) (first : Expr σ) :
    arrayElements table first = loop (arrayTurn table) [first] := rfl

theorem follows_elements (items : List (List Lexeme × Expr Unit)) (rest : List Lexeme) :
    Follows [.comma, .rightBracket]
      ((items.flatMap fun i => .symbol .comma :: i.1) ++ .symbol .rightBracket :: rest) := by
  cases items with
  | nil => exact ⟨.rightBracket, rest, rfl, by decide⟩
  | cons j items => exact ⟨.comma, _, rfl, by decide⟩

theorem takes_arrayElements {items : List (List Lexeme × Expr Unit)} (depth n : Nat)
    (rest : List Lexeme) (acc : List (Expr Unit)) (hitems : AreExprs items)
    (hdepth : ∀ i ∈ items, i.1.length < depth) :
    Takes (loop (arrayTurn fun goal => parse depth goal) acc)
      ⟨n, (items.flatMap fun i => .symbol .comma :: i.1) ++ .symbol .rightBracket :: rest⟩
      fun es c => es = acc.reverse ++ items.map Prod.snd ∧
        ∃ m, c = ⟨m, .symbol .rightBracket :: rest⟩ := by
  induction items generalizing acc n with
  | nil =>
    rw [takes_loop]
    simp [arrayTurn]
  | cons i items ih =>
    have hi := hitems i (by simp)
    obtain ⟨x, tail, hx, hne⟩ := hi.notSymbol (s := .rightBracket) rfl
    have hlength := hdepth i (by simp)
    rw [takes_loop]
    simp [arrayTurn, hx, hne]
    have hcall : Takes (parse depth .expr) ⟨n + 1, i.1 ++ _⟩ _ :=
      hi.reads.call hlength ((follows_elements items rest).mono (by decide))
    rw [hx] at hcall
    refine hcall.mono ?_
    rintro _ _ ⟨rfl, m, rfl⟩
    refine ⟨by simp; omega, (ih m (i.2 :: acc) (fun j hj => hitems j (by simp [hj]))
      fun j hj => hdepth j (by simp [hj])).mono ?_⟩
    rintro es c ⟨hes, hc⟩
    exact ⟨by simpa using hes, hc⟩

theorem commaLexemes_cons (items : List (List Lexeme)) :
    commaLexemes (ls :: items) = ls ++ items.flatMap fun i => .symbol .comma :: i := by
  induction items generalizing ls with
  | nil => simp [commaLexemes]
  | cons i items ih => simp [commaLexemes, ih]

theorem readsPrimary_array {i : List Lexeme × Expr Unit} {items : List (List Lexeme × Expr Unit)}
    {follow : List Lexeme → Prop} (hitems : AreExprs (i :: items)) :
    ReadsPrimary follow
      (.symbol .leftBracket ::
        (commaLexemes ((i :: items).map Prod.fst) ++ [Lexeme.symbol .rightBracket]))
      (.array () ((i :: items).map Prod.snd)) := by
  rintro depth n rest hdepth -
  have hlengths : ∀ j ∈ i :: items, j.1.length < depth := by
    intro j hj
    have hle := length_le_commaLexemes (List.mem_map_of_mem (f := Prod.fst) hj)
    simp only [List.length_cons, List.length_append, List.length_nil] at hdepth
    omega
  have hi := hitems i (by simp)
  obtain ⟨x, tail, hx, hne⟩ := hi.notSymbol (s := .rightBracket) rfl
  have hfollow := follows_elements items rest
  have hcall : Takes (parse depth .expr) ⟨n + 1, i.1 ++ _⟩ _ :=
    hi.reads.call (hlengths i (by simp)) (hfollow.mono (by decide))
  rw [hx] at hcall
  simp [primary, literal?, segment?, bracketed, commaLexemes_cons, List.flatMap_map, hx, hne]
  refine hcall.mono ?_
  rintro _ _ ⟨rfl, m, rfl⟩
  -- behind the first element there is no semicolon, so this is not a repeated value
  have hsemicolon : ((items.flatMap fun i => .symbol .comma :: i.1) ++
      .symbol .rightBracket :: rest)[0]? ≠ some (Lexeme.symbol .semicolon) := by
    obtain ⟨s, tail, hrest, hs⟩ := hfollow
    rw [hrest]
    rintro ⟨⟩
    exact absurd hs (by decide)
  rw [takes_accept_ne hsemicolon, arrayElements_eq]
  simp
  refine (takes_arrayElements depth m rest [i.2] (fun j hj => hitems j (by simp [hj]))
    fun j hj => hlengths j (by simp [hj])).mono ?_
  rintro _ _ ⟨rfl, m', rfl⟩
  simp

/-! ### Names and literals as operands -/

theorem endsPath_of_follows (h : Follows operandEnds rest) : EndsPath rest := by
  obtain ⟨s, tail, rfl, hs⟩ := h
  simp [operandEnds, closers] at hs
  rcases hs with rfl | rfl | rfl | rfl | rfl | rfl | rfl | rfl | rfl <;> simp

/-- An operand wherever one may end. -/
abbrev IsTerm (ls : List Lexeme) (e : Expr Unit) : Prop := IsOperand (Follows operandEnds) ls e

theorem ReadsOn.isTerm {e : Expr Unit} (h : ReadsOn EndsPath ls e) : IsTerm ls e :=
  h.isOperand (fun _ => endsPath_of_follows) fun _ hrest => hrest

theorem IsTerm.closed {e : Expr Unit} (h : IsTerm ls e) : IsOperand (Follows closers) ls e :=
  ⟨h.begins, fun depth n rest hdepth hrest =>
    h.reads depth n rest hdepth (hrest.mono fun _ hs => List.mem_append_right _ hs)⟩

theorem IsTerm.isExpr {e : Expr Unit} (h : IsTerm ls e) : IsExpr ls e := IsOperand.isExpr h.closed

theorem readsOn_name (name : String) : ReadsOn EndsPath [.ident name] (.path () [name]) :=
  (readsPrimary_name name).readsOn ⟨rfl, rfl⟩

theorem isExpr_name (name : String) : IsExpr [.ident name] (.path () [name]) :=
  (readsOn_name name).isTerm.isExpr

theorem isTerm_literal {value : Literal} (h : literal? (some x) = some value)
    (hx : startsExpr x = true ∧ unaryOp? (some x) = none) : IsTerm [x] (.literal () value) :=
  ((readsPrimary_literal h).readsOn hx).isTerm

theorem isExpr_closure {e : Expr Unit} (name : String) (h : IsExpr ls e) :
    IsExpr (.symbol .pipe :: .ident name :: .symbol .pipe :: ls) (.closure () [⟨(), name⟩] e) := by
  have hclosure := (readsPrimary_closure name h).readsOn ⟨rfl, rfl⟩
  exact (hclosure.isOperand (fun _ hrest => hrest) fun _ hrest =>
    hrest.mono fun _ hs => List.mem_append_right _ hs).isExpr

end EnsembleCompiler.Target
