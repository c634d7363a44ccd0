import EnsembleCompiler.Proofs.Target.Phrases

/-!
# How blocks and items are read

Statements and the value of a block, conditionals, functions, constants and modules: what the
parser reads from their lexemes, given what it reads from the parts.
-/

namespace EnsembleCompiler.Target

open Target.Parser Grammar

variable {σ : Type} [Places σ] {ls rest : List Lexeme} {x : Lexeme} {e : Expr Unit}

/-! ### Statements -/

/-- One turn of reading the statements of a block. -/
def blockTurn (table : Table σ) (opener : Nat) (statements : List (Statement σ)) :
    Parser (Turn (List (Statement σ)) (List (Statement σ) × Option (Expr σ))) := do
  let (here, next) ← look
  if here = some (Lexeme.symbol .rightBrace) then return .leave (statements.reverse, none)
  if here = none then fail (.openBlock opener)
  if here = some (Lexeme.symbol .semicolon) then
    shift
    return .again statements
  if here = some (Lexeme.keyword .letKw) then return .again ((← binding table) :: statements)
  if startsItem here next then return .again (.item (← table .item) :: statements)
  let e ← statementExpr table here
  if ← accept (.symbol .semicolon) then
    let last ← previousPlace
    return .again (.expr (Places.merge e.place last) e true :: statements)
  if ← at? (.symbol .rightBrace) then return .leave (statements.reverse, some e)
  if e.isBlockLike then return .again (.expr e.place e false :: statements)
  fail (.expected .statementEnd)

theorem blockBody_eq (table : Table σ) (opener : Nat) :
    blockBody table opener = loop (blockTurn table opener) [] := rfl

/-- The lexemes `ls` are a statement, with its semicolon. -/
structure IsStatement (ls : List Lexeme) (s : Statement Unit) : Prop where
  ne_nil : ls ≠ []
  reads : ∀ depth opener n rest acc, ls.length < depth →
    Takes (blockTurn (fun goal => parse depth goal) opener acc) ⟨n, ls ++ rest⟩ fun t c =>
      t = .again (s :: acc) ∧ ∃ m, c = ⟨m, rest⟩

/-- The lexemes `ls` are the value of a block in front of its brace. -/
def IsTail (ls : List Lexeme) (e : Expr Unit) : Prop :=
  ∀ depth opener n rest acc, ls.length < depth →
    Takes (blockTurn (fun goal => parse depth goal) opener acc)
      ⟨n, ls ++ .symbol .rightBrace :: rest⟩ fun t c =>
        t = .leave (acc.reverse, some e) ∧ ∃ m, c = ⟨m, .symbol .rightBrace :: rest⟩

/-- No other statement begins as an expression does. -/
theorem takes_blockTurn {table : Table σ} {opener n : Nat} {acc : List (Statement σ)}
    {Q : Turn (List (Statement σ)) (List (Statement σ) × Option (Expr σ)) →
      Cursor → Prop} (hx : startsExpr x = true) :
    Takes (blockTurn table opener acc) ⟨n, x :: rest⟩ Q ↔
      Takes (table .expr) ⟨n, x :: rest⟩ fun e c => Takes (do
        if ← accept (.symbol .semicolon) then
          let last ← previousPlace
          return .again (.expr (Places.merge e.place last) e true :: acc)
        if ← at? (.symbol .rightBrace) then return .leave (acc.reverse, some e)
        if e.isBlockLike then return .again (.expr e.place e false :: acc)
        fail (.expected .statementEnd)) c Q := by
  have hitem : startsItem (some x) rest[0]? = false := by
    unfold startsItem
    split <;> simp_all [startsExpr]
  have hne : ∀ y, startsExpr y = false → x ≠ y := by
    rintro y hy rfl
    rw [hx] at hy
    exact absurd hy (by simp)
  simp [blockTurn, statementExpr, hitem, hne (.symbol .rightBrace) rfl,
    hne (.symbol .semicolon) rfl, hne (.keyword .letKw) rfl, hne (.keyword .ifKw) rfl,
    hne (.symbol .leftBrace) rfl]

theorem IsExpr.statement (h : IsExpr ls e) :
    IsStatement (ls ++ [Lexeme.symbol .semicolon]) (.expr () e true) := by
  refine ⟨by simp, ?_⟩
  intro depth opener n rest acc hdepth
  simp at hdepth
  obtain ⟨⟨x, tail, rfl, hx⟩, hreads⟩ := h
  rw [List.append_assoc, List.cons_append, takes_blockTurn hx]
  refine (hreads.call (by omega) ⟨.semicolon, rest, rfl, by decide⟩).mono ?_
  rintro _ _ ⟨rfl, m, rfl⟩
  simp

theorem IsExpr.tail (h : IsExpr ls e) : IsTail ls e := by
  intro depth opener n rest acc hdepth
  obtain ⟨⟨x, tail, rfl, hx⟩, hreads⟩ := h
  rw [List.cons_append, takes_blockTurn hx]
  refine (hreads.call hdepth ⟨.rightBrace, rest, rfl, by decide⟩).mono ?_
  rintro _ _ ⟨rfl, m, rfl⟩
  simp

theorem IsExpr.binding (h : IsExpr ls e) (name : String) :
    IsStatement
      (.keyword .letKw :: .keyword .mutKw :: .ident name :: .symbol .eq ::
        (ls ++ [Lexeme.symbol .semicolon]))
      (.binding () true ⟨(), name⟩ none (some e)) := by
  refine ⟨by simp, ?_⟩
  intro depth opener n rest acc hdepth
  simp at hdepth
  simp [blockTurn, Grammar.binding]
  refine (h.reads.call (by omega) ⟨.semicolon, rest, rfl, by decide⟩).mono ?_
  rintro _ _ ⟨rfl, m, rfl⟩
  simp

/-! ### Blocks -/

/-- The lexemes `ls` are a block with its braces. -/
structure IsBlock (ls : List Lexeme) (b : Block Unit) : Prop where
  begins : ∃ tail, ls = .symbol .leftBrace :: tail
  reads : Reads (fun table => step table .block) (fun _ => True) ls b

theorem takes_statements {items : List (List Lexeme × Statement Unit)} {lt : List Lexeme}
    (depth opener n : Nat) (rest : List Lexeme) (acc : List (Statement Unit))
    (hitems : ∀ i ∈ items, IsStatement i.1 i.2) (htail : IsTail lt e)
    (hdepth : (items.flatMap Prod.fst ++ lt).length < depth) :
    Takes (loop (blockTurn (fun goal => parse depth goal) opener) acc)
      ⟨n, items.flatMap Prod.fst ++ (lt ++ .symbol .rightBrace :: rest)⟩ fun r c =>
        r = (acc.reverse ++ items.map Prod.snd, some e) ∧
          ∃ m, c = ⟨m, .symbol .rightBrace :: rest⟩ := by
  induction items generalizing acc n with
  | nil =>
    simp at hdepth
    rw [takes_loop]
    refine (htail depth opener n rest acc hdepth).mono ?_
    rintro _ _ ⟨rfl, m, rfl⟩
    simp
  | cons i items ih =>
    simp at hdepth
    have hi := hitems i (by simp)
    have hpos := List.length_pos_iff.2 hi.ne_nil
    rw [takes_loop, List.flatMap_cons, List.append_assoc]
    refine (hi.reads depth opener n _ acc (by omega)).mono ?_
    rintro _ _ ⟨rfl, m, rfl⟩
    refine ⟨by simp; omega, (ih m (i.2 :: acc) (fun j hj => hitems j (by simp [hj]))
      (by simp; omega)).mono ?_⟩
    rintro r c ⟨hr, hc⟩
    exact ⟨by simpa using hr, hc⟩

theorem isBlock (items : List (List Lexeme × Statement Unit)) {lt : List Lexeme}
    (hitems : ∀ i ∈ items, IsStatement i.1 i.2) (htail : IsTail lt e) :
    IsBlock (.symbol .leftBrace :: (items.flatMap Prod.fst ++ (lt ++ [Lexeme.symbol .rightBrace])))
      (.mk () (items.map Prod.snd) (some e)) := by
  refine ⟨⟨_, rfl⟩, ?_⟩
  rintro depth n rest hdepth -
  simp at hdepth
  simp [step, block, blockBody_eq]
  refine (takes_statements depth n (n + 1) rest [] hitems htail (by simp; omega)).mono ?_
  rintro _ _ ⟨rfl, m, rfl⟩
  simp

/-- A block that is a value and no more. -/
theorem IsTail.isBlock {lt : List Lexeme} (h : IsTail lt e) :
    IsBlock (.symbol .leftBrace :: (lt ++ [Lexeme.symbol .rightBrace])) (.mk () [] (some e)) :=
  Target.isBlock [] (by simp) h

/-! ### Conditionals -/

/-- The lexemes of a conditional with two branches, from those of its condition and branches. -/
def condLexemes (lc lb lo : List Lexeme) : List Lexeme :=
  .keyword .ifKw :: (lc ++ (lb ++ .keyword .elseKw :: lo))

theorem isTail_cond {c : Expr Unit} {b o : Block Unit} {lc lb lo : List Lexeme} (hc : IsExpr lc c)
    (hb : IsBlock lb b) (ho : IsBlock lo o) :
    IsTail (condLexemes lc lb lo) (.cond () c b (some (.block o))) := by
  have hcond : Reads (fun table => step table .cond) (fun _ => True)
      (condLexemes lc lb lo) (.cond () c b (some (.block o))) := by
    rintro depth n rest hdepth -
    simp [condLexemes] at hdepth
    obtain ⟨⟨x, tail, rfl, hx⟩, hreads⟩ := hc
    have hlet : x ≠ .keyword .letKw := by
      rintro rfl
      exact absurd hx (by decide)
    simp [step, Grammar.cond, condLexemes, hlet]
    obtain ⟨lb', rfl⟩ := hb.begins
    obtain ⟨lo', rfl⟩ := ho.begins
    simp only [List.length_cons] at hdepth
    refine (hreads.call (by simp; omega) ⟨.leftBrace, _, rfl, by decide⟩).mono ?_
    rintro _ _ ⟨rfl, m, rfl⟩
    refine (hb.reads.call (by simp; omega) trivial).mono ?_
    rintro _ _ ⟨rfl, m', rfl⟩
    simp
    refine (ho.reads.call (by simp; omega) trivial).mono ?_
    rintro _ _ ⟨rfl, m'', rfl⟩
    simp
  intro depth opener n rest acc hdepth
  simp [blockTurn, statementExpr, startsItem, condLexemes]
  have hcall : Takes (parse depth .cond) ⟨n, condLexemes lc lb lo ++ .symbol .rightBrace :: rest⟩ _ :=
    hcond.call hdepth trivial
  simp [condLexemes] at hcall
  refine hcall.mono ?_
  rintro _ _ ⟨rfl, m, rfl⟩
  simp

/-! ### Items -/

/-- The lexemes `ls` are an item. -/
structure IsItem (ls : List Lexeme) (i : Item Unit) : Prop where
  begins : ∃ x tail, ls = x :: tail ∧ x ∈ [.keyword .pubKw, .keyword .fnKw]
  reads : Reads (fun table => step table .item) (fun _ => True) ls i

/-- The lexemes of the visibility of an item, which is public or not. -/
def visibilityLexemes (isPublic : Bool) : List Lexeme :=
  if isPublic then [.keyword .pubKw] else []

def visibilityOf (isPublic : Bool) : Visibility := if isPublic then .everywhere else .inherited

/-- An item after its attributes and its visibility. -/
def itemBody (table : Table σ) (v : Visibility) (attributes : List (Attribute σ)) :
    Parser (σ → Item σ) := do
  let (here, next) ← look
  match here with
  | some (.keyword .fnKw) => function table v attributes
  | some (.keyword .constKw) =>
    if next = some (Lexeme.keyword .fnKw) then
      shift
      function table v attributes
    else constant table v attributes
  | some (.keyword .modKw) => module table v attributes
  | some (.keyword .useKw) => use table
  | _ => fail (.expected .item)

theorem item_eq (table : Table σ) : item table = located (outerAttributes >>= fun attributes =>
    visibility >>= fun v => itemBody table v attributes) := rfl

/-- The beginning of an item that has no attributes. -/
theorem takes_item {table : Table σ} {isPublic : Bool} {k : Keyword} {n : Nat}
    {Q : Item σ → Cursor → Prop} (hk : k ∈ [.fnKw, .constKw, .modKw])
    (h : ∀ m, Takes (itemBody table (visibilityOf isPublic) []) ⟨m, .keyword k :: rest⟩ fun f c =>
      Q (f (Places.merge (Places.token n) (Places.before c.position))) c) :
    Takes (item table) ⟨n, visibilityLexemes isPublic ++ .keyword k :: rest⟩ Q := by
  have hpub : k ≠ .pubKw := by
    rintro rfl
    exact absurd hk (by decide)
  rw [item_eq]
  cases isPublic with
  | true =>
    simp [outerAttributes, visibilityLexemes]
    rw [takes_loop]
    simp [visibility]
    exact h (n + 1)
  | false =>
    simp [outerAttributes, visibilityLexemes]
    rw [takes_loop]
    simp [visibility, hpub]
    exact h n

theorem begins_visibility {isPublic : Bool} {k : Keyword} (hk : isPublic = true ∨ k = .fnKw) :
    ∃ x tail, visibilityLexemes isPublic ++ .keyword k :: ls = x :: tail ∧
      x ∈ [.keyword .pubKw, .keyword .fnKw] := by
  rcases hk with rfl | rfl
  · exact ⟨_, _, rfl, by simp⟩
  · cases isPublic <;> exact ⟨_, _, rfl, by simp⟩

theorem isItem_constant {t : TypeExpr Unit} {lt le : List Lexeme} (name : String)
    (ht : ReadsType lt t) (he : IsExpr le e) :
    IsItem (visibilityLexemes true ++ .keyword .constKw :: .ident name :: .symbol .colon ::
        (lt ++ .symbol .eq :: (le ++ [Lexeme.symbol .semicolon])))
      (.const () .everywhere [] ⟨(), name⟩ (.mk () t) e) := by
  refine ⟨begins_visibility (.inl rfl), ?_⟩
  rintro depth n rest hdepth -
  simp [visibilityLexemes] at hdepth
  simp only [step, List.append_assoc, List.cons_append]
  refine takes_item (by decide) fun m => ?_
  simp [itemBody, constant, ascription]
  refine (ht.call (by omega) (by simp)).mono ?_
  rintro _ _ ⟨rfl, m', rfl⟩
  simp
  refine (he.reads.call (by omega) ⟨.semicolon, rest, rfl, by decide⟩).mono ?_
  rintro _ _ ⟨rfl, m'', rfl⟩
  simp [visibilityOf]

/-- The lexemes of a parameter. -/
def parameterLexemes (name : String) (lt : List Lexeme) : List Lexeme :=
  .ident name :: .symbol .colon :: lt

theorem takes_parameter {t : TypeExpr Unit} {lt : List Lexeme} {depth n : Nat} (name : String)
    (ht : ReadsType lt t) (hdepth : lt.length < depth) (hrest : Follows [.rightParen, .comma] rest) :
    Takes (parameter fun goal => parse depth goal) ⟨n, parameterLexemes name lt ++ rest⟩ fun p c =>
      p = .mk false ⟨(), name⟩ (.mk () t) ∧ ∃ m, c = ⟨m, rest⟩ := by
  simp [parameter, parameterLexemes, ascription]
  have hends : Ends [.pathSep, .lt] rest := by
    obtain ⟨s, tail, rfl, hs⟩ := hrest
    simp at hs
    rcases hs with rfl | rfl <;> simp
  refine (ht.call hdepth hends).mono ?_
  rintro _ _ ⟨rfl, m', rfl⟩
  simp

/-- A parameter from its name, the lexemes of its type and the type. -/
abbrev ParameterOf := String × List Lexeme × TypeExpr Unit

def ParameterOf.lexemes (p : ParameterOf) : List Lexeme := parameterLexemes p.1 p.2.1

def ParameterOf.form (p : ParameterOf) : Parameter Unit := .mk false ⟨(), p.1⟩ (.mk () p.2.2)

theorem takes_parameters {params : List ParameterOf} {depth : Nat} (n : Nat) (tail : List Lexeme)
    (hparams : ∀ p ∈ params, ReadsType p.2.1 p.2.2)
    (hdepth : (commaLexemes (params.map ParameterOf.lexemes)).length ≤ depth) :
    Takes (commaSeparated .rightParen (parameter fun goal => parse depth goal) [])
      ⟨n, commaLexemes (params.map ParameterOf.lexemes) ++ .symbol .rightParen :: tail⟩ fun ps c =>
        ps = params.map ParameterOf.form ∧ ∃ m, c = ⟨m, .symbol .rightParen :: tail⟩ := by
  let items := params.map fun p => (p.lexemes, p.form)
  have hitems : ∀ i ∈ items, ∃ y tail, i.1 = y :: tail ∧ y ≠ .symbol .rightParen ∧
      ∀ n rest, Follows [.rightParen, .comma] rest →
        Takes (parameter fun goal => parse depth goal) ⟨n, y :: (tail ++ rest)⟩ fun p c =>
          p = i.2 ∧ ∃ m, c = ⟨m, rest⟩ := by
    intro i hi
    obtain ⟨p, hp, rfl⟩ := List.mem_map.1 hi
    have hle := length_le_commaLexemes (List.mem_map_of_mem (f := ParameterOf.lexemes) hp)
    -- a type is shorter than its parameter, and so leaves levels enough
    have hlt : p.2.1.length < p.lexemes.length := by
      simp only [ParameterOf.lexemes, parameterLexemes, List.length_cons]
      omega
    refine ⟨_, _, rfl, by simp, fun n rest hrest => ?_⟩
    exact takes_parameter p.1 (hparams p hp) (by omega) hrest
  have hlist := takes_commaSeparated (by decide) [] n tail hitems
  simp only [items, List.map_map, Function.comp_def, List.reverse_nil, List.nil_append] at hlist
  exact hlist

/-- The lexemes of a function, from those of its types and its body. -/
def functionLexemes (isPublic : Bool) (name : String) (params : List ParameterOf)
    (lt lb : List Lexeme) : List Lexeme :=
  visibilityLexemes isPublic ++ .keyword .fnKw :: .ident name :: .symbol .leftParen ::
    (commaLexemes (params.map ParameterOf.lexemes) ++
      .symbol .rightParen :: .symbol .arrow :: (lt ++ lb))

theorem isItem_function {params : List ParameterOf} {t : TypeExpr Unit} {b : Block Unit}
    {lt lb : List Lexeme} (isPublic : Bool) (name : String)
    (hparams : ∀ p ∈ params, ReadsType p.2.1 p.2.2) (ht : ReadsType lt t) (hb : IsBlock lb b) :
    IsItem (functionLexemes isPublic name params lt lb)
      (.function () (visibilityOf isPublic) [] ⟨(), name⟩ (params.map ParameterOf.form)
        (some (.mk () t)) b) := by
  refine ⟨begins_visibility (.inr rfl), ?_⟩
  rintro depth n rest hdepth -
  simp [functionLexemes] at hdepth
  simp only [step, functionLexemes, List.append_assoc, List.cons_append]
  refine takes_item (by decide) fun m => ?_
  simp only [itemBody, takes_bind, takes_look, List.getElem?_cons_zero, function, takes_keyword,
    takes_identifier, takes_symbol]
  refine (takes_parameters _ _ hparams (by omega)).mono ?_
  rintro _ _ ⟨rfl, m₁, rfl⟩
  obtain ⟨lb', rfl⟩ := hb.begins
  simp [ascription]
  refine (ht.call (by omega) (by simp)).mono ?_
  rintro _ _ ⟨rfl, m₂, rfl⟩
  simp
  refine (hb.reads.call (by omega) trivial).mono ?_
  rintro _ _ ⟨rfl, m₃, rfl⟩
  simp

theorem IsItem.notSymbol {i : Item Unit} {s : Symbol} (h : IsItem ls i) :
    ∃ x tail, ls = x :: tail ∧ x ≠ .symbol s := by
  obtain ⟨x, tail, rfl, hx⟩ := h.begins
  refine ⟨x, tail, rfl, ?_⟩
  rintro rfl
  exact absurd hx (by simp)

/-- One turn of reading the items of a module. -/
def moduleTurn (table : Table σ) (name : String) (items : List (Item σ)) :
    Parser (Turn (List (Item σ)) (List (Item σ))) := do
  match ← peek with
  | some (.symbol .rightBrace) => return .leave items.reverse
  | none => fail (.openModule name)
  | _ => return .again ((← table .item) :: items)

omit [Places σ] in
theorem moduleItems_eq (table : Table σ) (name : String) :
    moduleItems table name = loop (moduleTurn table name) [] := rfl

omit [Places σ] in
theorem takes_moduleTurn {table : Table σ} {name : String} {acc : List (Item σ)} {n : Nat}
    {Q : Turn (List (Item σ)) (List (Item σ)) → Cursor → Prop}
    (hx : x ≠ .symbol .rightBrace) :
    Takes (moduleTurn table name acc) ⟨n, x :: rest⟩ Q ↔
      Takes (table .item) ⟨n, x :: rest⟩ fun i c => Q (.again (i :: acc)) c := by
  simp only [moduleTurn, takes_bind, takes_peek, List.getElem?_cons_zero]
  split
  · next heq => exact absurd (Option.some.inj heq) hx
  · next heq => exact absurd heq (by simp)
  · simp

theorem takes_moduleItems {items : List (List Lexeme × Item Unit)} (name : String)
    (depth n : Nat) (rest : List Lexeme) (acc : List (Item Unit))
    (hitems : ∀ i ∈ items, IsItem i.1 i.2) (hdepth : (items.flatMap Prod.fst).length < depth) :
    Takes (loop (moduleTurn (fun goal => parse depth goal) name) acc)
      ⟨n, items.flatMap Prod.fst ++ .symbol .rightBrace :: rest⟩ fun is c =>
        is = acc.reverse ++ items.map Prod.snd ∧ ∃ m, c = ⟨m, .symbol .rightBrace :: rest⟩ := by
  induction items generalizing acc n with
  | nil =>
    rw [takes_loop]
    simp [moduleTurn]
  | cons i items ih =>
    rw [List.flatMap_cons, List.length_append] at hdepth
    obtain ⟨lexemes, form⟩ := i
    have hi : IsItem lexemes form := hitems (lexemes, form) (by simp)
    obtain ⟨x, tail, rfl, hx⟩ := hi.notSymbol (s := .rightBrace)
    simp only [List.length_cons] at hdepth
    rw [takes_loop, List.flatMap_cons, List.append_assoc, List.cons_append, takes_moduleTurn hx]
    refine (hi.reads.call (by simp; omega) trivial).mono ?_
    rintro i' _ ⟨rfl, m, rfl⟩
    have hrest := ih m (i' :: acc) (fun j hj => hitems j (by simp [hj])) (by omega)
    refine ⟨by simp only [List.length_append, List.length_cons]; omega, hrest.mono ?_⟩
    rintro is c ⟨his, hc⟩
    exact ⟨by simpa using his, hc⟩

/-- The lexemes of a public module, from those of its items. -/
def moduleLexemes (name : String) (items : List (List Lexeme)) : List Lexeme :=
  visibilityLexemes true ++ .keyword .modKw :: .ident name :: .symbol .leftBrace ::
    (items.flatten ++ [Lexeme.symbol .rightBrace])

theorem isItem_module {items : List (List Lexeme × Item Unit)} (name : String)
    (hitems : ∀ i ∈ items, IsItem i.1 i.2) :
    IsItem (moduleLexemes name (items.map Prod.fst))
      (.module () .everywhere [] ⟨(), name⟩ (items.map Prod.snd)) := by
  refine ⟨begins_visibility (.inl rfl), ?_⟩
  rintro depth n rest hdepth -
  rw [moduleLexemes, ← List.flatMap_def] at hdepth ⊢
  simp only [visibilityLexemes, if_true, List.length_append, List.length_cons,
    List.length_nil] at hdepth
  simp only [step, List.append_assoc, List.cons_append, List.nil_append]
  refine takes_item (by decide) fun m => ?_
  -- no item begins with a hash, so the first item is not taken for an inner attribute
  have hinner : ((items.flatMap Prod.fst) ++ .symbol .rightBrace :: rest)[0]? ≠
      some (.symbol .hash) := by
    cases items with
    | nil => simp
    | cons i items =>
      obtain ⟨x, tail, hx, hne⟩ := (hitems i (by simp)).notSymbol (s := .hash)
      simpa [hx] using hne
  simp [itemBody, module, innerAttributes, moduleItems_eq]
  rw [takes_loop]
  simp only [takes_bind, takes_look, hinner, false_and, if_false, takes_pure, List.reverse_nil]
  refine (takes_moduleItems name depth _ rest [] hitems (by omega)).mono ?_
  rintro _ _ ⟨rfl, m', rfl⟩
  simp [visibilityOf]

/-! ### Files -/

/-- A file of one item is read as that item. -/
theorem IsItem.ofLexemes {i : Item Unit} (h : IsItem ls i) :
    File.ofLexemes ls = .ok (⟨[], [i]⟩ : File Unit) := by
  have htakes : Takes (file (parse (ls.length + 1) .item)) ⟨0, ls⟩ fun f _ => f = ⟨[], [i]⟩ := by
    obtain ⟨x, tail, rfl, hx⟩ := h.notSymbol (s := .hash)
    simp [file, innerAttributes]
    rw [takes_loop]
    simp [hx]
    rw [takes_loop]
    simp
    have hcall : Takes (parse ((x :: tail).length + 1) .item) ⟨0, x :: tail ++ []⟩ _ :=
      h.reads.call (by simp) trivial
    rw [List.append_nil] at hcall
    refine hcall.mono ?_
    rintro _ _ ⟨rfl, m, rfl⟩
    refine ⟨by simp, ?_⟩
    rw [takes_loop]
    simp
  obtain ⟨f, c, hrun, rfl⟩ := htakes
  rw [File.ofLexemes, hrun]

end EnsembleCompiler.Target
