import EnsembleCompiler.Proofs.Target.Constructs

/-!
# The nesting of items

The parsers of attributes, items and files keep to the nesting of their lexemes. So does, by
induction on the levels of recursion, the parser of every goal, as far as it has levels enough for
what is pending.
-/

namespace EnsembleCompiler.Target

open Target.Parser Grammar

/-! ### Attributes -/

/-- A turn of the loop over the arguments of an attribute. -/
def argumentTurn (depth : Nat) : Parser (Turn Nat Unit) := do
  match ← peek with
  | none => fail .openAttribute
  | some (.symbol .leftParen) | some (.symbol .leftBracket) | some (.symbol .leftBrace) =>
    shift
    return .again (depth + 1)
  | some (.symbol .rightParen) | some (.symbol .rightBrace) =>
    if depth = 0 then fail .unbalancedAttribute
    shift
    return .again (depth - 1)
  | some (.symbol .rightBracket) =>
    if depth = 0 then return .leave ()
    shift
    return .again (depth - 1)
  | _ =>
    shift
    return .again depth

theorem attributeArguments_eq : attributeArguments = loop argumentTurn 0 := rfl

/-- What a turn does to the depth, by the role of its lexeme. -/
theorem run_argumentTurn (depth m : Nat) (x : Lexeme) (ls : List Lexeme) :
    (argumentTurn depth).run ⟨m, x :: ls⟩ = match x.role with
      | .opener _ => .done (.again (depth + 1)) ⟨m + 1, ls⟩
      | .closer b =>
        if depth = 0 then
          if b = .square then .done (.leave ()) ⟨m, x :: ls⟩ else .failed m .unbalancedAttribute
        else .done (.again (depth - 1)) ⟨m + 1, ls⟩
      | _ => .done (.again depth) ⟨m + 1, ls⟩ := by
  rcases x with k | w | s | v | v | t | i
  · cases k <;> rfl
  · rfl
  · cases s <;> first | rfl | (by_cases hd : depth = 0 <;> simp [argumentTurn, hd] <;> rfl)
  all_goals rfl

/-- What an answer says about the arguments of an attribute. -/
def Reply.Nests {α : Type} (depth : Nat) (ls : List Lexeme) : Reply α → Prop
  | .done _ d => ∃ args, ls = args ++ d.rest ∧ Nested depth args
  | .failed _ cause => cause ≠ .exhausted

theorem nests_again {depth depth' m : Nat} {x : Lexeme} {ls : List Lexeme}
    (hturn : (argumentTurn depth).run ⟨m, x :: ls⟩ = .done (.again depth') ⟨m + 1, ls⟩)
    (hnested : ∀ args, Nested depth' args → Nested depth (x :: args))
    (h : (loopRun argumentTurn depth' ⟨m + 1, ls⟩).Nests depth' ls) :
    (loopRun argumentTurn depth ⟨m, x :: ls⟩).Nests depth (x :: ls) := by
  rw [loopRun, hturn]
  simp only [Nat.lt_add_one, if_true]
  cases hrun : loopRun argumentTurn depth' ⟨m + 1, ls⟩ with
  | done a d =>
    rw [hrun] at h
    obtain ⟨args, rfl, hargs⟩ := h
    exact ⟨x :: args, rfl, hnested args hargs⟩
  | failed q cause =>
    rw [hrun] at h
    exact h

/-- The loop over the arguments passes over brackets that it opens, and ends with their number. -/
theorem nests_arguments (ls : List Lexeme) (depth m : Nat) :
    (loopRun argumentTurn depth ⟨m, ls⟩).Nests depth ls := by
  induction ls generalizing depth m with
  | nil =>
    rw [loopRun]
    show SyntaxCause.openAttribute ≠ .exhausted
    simp
  | cons x ls ih =>
    have hturn := run_argumentTurn depth m x ls
    cases hrole : x.role with
    | opener b =>
      rw [hrole] at hturn
      refine nests_again hturn (fun args hargs => ?_) (ih (depth + 1) (m + 1))
      simpa [Nested, hrole] using hargs
    | closer b =>
      rw [hrole] at hturn
      dsimp only at hturn
      -- at depth zero a closer ends the arguments, and is an error unless it is that of the
      -- attribute
      by_cases hd : depth = 0
      · rw [if_pos hd] at hturn
        subst hd
        by_cases hb : b = .square
        · rw [if_pos hb] at hturn
          rw [loopRun, hturn]
          exact ⟨[], rfl, rfl⟩
        · rw [if_neg hb] at hturn
          rw [loopRun, hturn]
          show SyntaxCause.unbalancedAttribute ≠ .exhausted
          simp
      · rw [if_neg hd] at hturn
        refine nests_again hturn (fun args hargs => ?_) (ih (depth - 1) (m + 1))
        simpa [Nested, hrole, Nat.pos_of_ne_zero hd] using hargs
    | hash | link | boundary | plain =>
      rw [hrole] at hturn
      refine nests_again hturn (fun args hargs => ?_) (ih depth (m + 1))
      simpa [Nested, hrole] using hargs

/-- Behind the bracket of an attribute, the parser passes over its arguments and closer. -/
def EndsAttribute {α : Type} (p : Parser α) : Prop :=
  ∀ m ls, match p.run ⟨m, ls⟩ with
    | .done _ d => ∃ args, ls = args ++ .symbol .rightBracket :: d.rest ∧ Nested 0 args
    | .failed _ cause => cause ≠ .exhausted

section Attributes

variable {α β σ : Type} [Places σ] {e : Extent} {n : Nat} {N : Option Lexeme → Prop}

theorem endsAttribute_arguments (a : α) :
    EndsAttribute (attributeArguments >>= fun _ => symbol .rightBracket >>= fun _ => pure a) := by
  intro m ls
  have h := nests_arguments ls 0 m
  have hloop : attributeArguments.run ⟨m, ls⟩ = loopRun argumentTurn 0 ⟨m, ls⟩ := rfl
  rw [run_bind, hloop]
  cases hrun : loopRun argumentTurn 0 ⟨m, ls⟩ with
  | failed q cause =>
    rw [hrun] at h
    exact h
  | done u d =>
    rw [hrun] at h
    obtain ⟨args, rfl, hargs⟩ := h
    dsimp only
    rw [run_bind]
    obtain ⟨k, rest⟩ := d
    by_cases hx : rest[0]? = some (Lexeme.symbol .rightBracket)
    · cases rest with
      | nil => simp at hx
      | cons y rest =>
        obtain rfl : y = .symbol .rightBracket := by simpa using hx
        rw [run_symbol_cons]
        exact ⟨args, rfl, hargs⟩
    · rw [run_symbol_other hx]
      simp

/-- The path of an attribute holds no brackets. -/
theorem EndsAttribute.behindPath {f : Path → Parser α} (h : ∀ p, EndsAttribute (f p)) :
    EndsAttribute (path >>= f) := by
  intro m ls
  have hpath : Keeps .phrase (ls.length + 1) Always path Always := keeps_path
  have hr := hpath ⟨m, ls⟩ trivial
  rw [run_bind]
  cases hrun : path.run ⟨m, ls⟩ with
  | failed q cause =>
    rw [hrun] at hr
    intro hcause
    -- a path asks for no level, so it is not what was exhausted
    have hle : ls.length + 1 ≤ ls.length := (hr hcause).le_length
    omega
  | done p d =>
    rw [hrun] at hr
    obtain ⟨ms, hms, hbracketed, -⟩ := hr
    dsimp only at hms ⊢
    have hrest := h p d.position d.rest
    cases hdone : (f p).run d with
    | failed q cause =>
      rw [hdone] at hrest
      exact hrest
    | done a c =>
      rw [hdone] at hrest
      obtain ⟨args, hargs, hnested⟩ := hrest
      refine ⟨ms ++ args, ?_, hbracketed.nested.append hnested⟩
      rw [hms, hargs, List.append_assoc]

/-- The mark of an inner attribute may be missing. -/
theorem run_mark (m : Nat) (ls : List Lexeme) : ∃ found k mark rest,
    (accept (.symbol .bang)).run ⟨m, ls⟩ = .done found ⟨k, rest⟩ ∧ ls = mark ++ rest ∧
      (mark = [] ∨ mark = [.symbol .bang]) := by
  by_cases hx : ls[0]? = some (Lexeme.symbol .bang)
  · cases ls with
    | nil => simp at hx
    | cons y rest =>
      obtain rfl : y = .symbol .bang := by simpa using hx
      exact ⟨true, m + 1, [.symbol .bang], rest, run_accept_cons m rest, rfl, .inr rfl⟩
  · exact ⟨false, m, [], ls, run_accept_other hx, rfl, .inl rfl⟩

theorem Behind.attribute {f : Bool → Parser α} (h : ∀ found, EndsAttribute (f found)) :
    Behind e n (.symbol .hash)
      (accept (.symbol .bang) >>= fun found => symbol .leftBracket >>= fun _ => f found) := by
  intro m ls
  obtain ⟨found, k, mark, rest, hrun, rfl, hmark⟩ := run_mark m ls
  rw [run_bind, hrun]
  dsimp only
  rw [run_bind]
  by_cases hx : rest[0]? = some (Lexeme.symbol .leftBracket)
  · cases rest with
    | nil => simp at hx
    | cons y rest =>
      obtain rfl : y = .symbol .leftBracket := by simpa using hx
      rw [run_symbol_cons]
      have hend := h found (k + 1) rest
      dsimp only
      cases hdone : (f found).run ⟨k + 1, rest⟩ with
      | failed q cause =>
        rw [hdone] at hend
        exact fun hcause => absurd hcause hend
      | done a d =>
        rw [hdone] at hend
        obtain ⟨args, rfl, hargs⟩ := hend
        exact ⟨_, by simp, .attr hmark hargs, by simp⟩
  · rw [run_symbol_other hx]
    intro hcause
    cases hcause

theorem keeps_attr : Keeps e n N (attr : Parser (Attribute σ)) Always := by
  unfold attr
  refine keeps_located (keeps_symbol (.attribute fun isInner => ?_))
  exact .behindPath fun p => endsAttribute_arguments _

theorem keeps_innerAttributes :
    Keeps e n N (innerAttributes : Parser (List (Attribute σ))) Never := by
  unfold innerAttributes
  refine keeps_loop (fun attributes => keeps_look fun x next _ => ?_) []
  dsimp only
  split
  · exact keeps_attr.read fun _ => keeps_pure id
  · exact keeps_pure id

theorem keeps_outerAttributes :
    Keeps e n N (outerAttributes : Parser (List (Attribute σ))) Never := by
  unfold outerAttributes
  refine keeps_loop (fun attributes => keeps_look fun x next _ => ?_) []
  dsimp only
  split
  · split
    · exact keeps_fail_bind (by simp)
    · exact keeps_attr.read fun _ => keeps_pure id
  · exact keeps_pure id

theorem keeps_visibility : Keeps .series n N visibility Never := by
  unfold visibility
  refine keeps_accept ?_ (keeps_pure id)
  refine .quiet rfl (keeps_accept (.opener .paren ?_) (keeps_pure id))
  refine closes_peek fun x _ => ?_
  split
  · rename_i k _
    split
    · rename_i hk
      have hquiet : (Lexeme.keyword k).role.Quiet .series := by
        simp only [List.mem_cons, List.not_mem_nil, or_false] at hk
        obtain rfl | rfl | rfl := hk <;> trivial
      refine Keeps.closes (keeps_shiftOver hquiet) fun _ => ?_
      exact closes_symbol .paren (keeps_pure id)
    · exact closes_fail (by simp)
  · exact closes_fail (by simp)

end Attributes

section Items

variable {σ : Type} [Places σ] {n r : Nat} {N : Option Lexeme → Prop} {table : Table σ}

/-! ### Items -/

theorem keeps_parameter (h : Serves n r table) :
    Keeps .series (n - 1) N (parameter table) Always := by
  unfold parameter
  refine Keeps.bind (keeps_optional trivial) fun isMutable => ?_
  refine keeps_binder.read fun name => ?_
  refine keeps_symbol (.quiet trivial ?_)
  exact (keeps_ascription (h.far .type)).loosen.read fun _ => keeps_pure id

theorem keeps_function (h : Serves n 14 table) (v : Visibility)
    (attributes : List (Attribute σ)) :
    Keeps .series n N (function table v attributes) Always := by
  have htype := (keeps_ascription (h.near .type (by simp [Goal.rank]))).loosen
  have hblock := (h.near .block (by simp [Goal.rank])).loosen
  unfold function
  refine keeps_keyword (.quiet rfl ?_)
  refine keeps_identifier.read fun name => ?_
  refine keeps_symbol (.opener .paren ?_)
  refine (keeps_commaSeparated (keeps_parameter h) []).closes fun parameters => ?_
  refine closes_symbol .paren ?_
  exact keeps_optionalPart trivial htype.map fun result => hblock.read fun _ => keeps_pure id

theorem keeps_constant (h : Serves n 14 table) (v : Visibility)
    (attributes : List (Attribute σ)) :
    Keeps .series n N (constant table v attributes) Always := by
  unfold constant
  refine keeps_keyword (.quiet rfl ?_)
  refine keeps_identifier.read fun name => ?_
  refine keeps_symbol (.quiet trivial ?_)
  refine (keeps_ascription (h.near .type (by simp [Goal.rank]))).loosen.read fun type => ?_
  refine keeps_symbol (.quiet trivial ?_)
  refine (h.near .expr (by simp [Goal.rank])).loosen.read fun value => ?_
  exact keeps_symbol (.quiet rfl (keeps_pure id))

omit [Places σ] in
theorem keeps_moduleItems (h : Serves n r table) (name : String) :
    Keeps .series (n - 1) N (moduleItems table name) Never := by
  unfold moduleItems
  refine keeps_loop (fun items => keeps_peek fun x _ => ?_) []
  split
  · exact keeps_pure id
  · exact keeps_fail (by simp)
  · exact (h.far .item).any.read fun _ => keeps_pure id

theorem keeps_module (h : Serves n r table) (v : Visibility)
    (attributes : List (Attribute σ)) :
    Keeps .series n N (module table v attributes) Always := by
  unfold module
  refine keeps_keyword (.quiet rfl ?_)
  refine keeps_identifier.read fun name => ?_
  refine keeps_if_accept (.quiet rfl (keeps_pure id)) ?_
  refine keeps_symbol (.opener .brace ?_)
  refine keeps_innerAttributes.closes fun inner => ?_
  refine (keeps_moduleItems h name.text).closes fun items => ?_
  exact closes_symbol .brace (keeps_pure id)

omit [Places σ] in
theorem keeps_use (h : Serves n 14 table) : Keeps .series n N (use table) Always := by
  unfold use
  refine keeps_keyword (.quiet rfl ?_)
  refine (h.near .useTree (by simp [Goal.rank])).loosen.read fun tree => ?_
  exact keeps_symbol (.quiet rfl (keeps_pure id))

omit [Places σ] in
theorem keeps_useTree (h : Serves n r table) : Keeps .phrase n N (useTree table) Always := by
  unfold useTree
  refine keeps_if_accept (.quiet trivial (keeps_pure id)) ?_
  refine keeps_if_accept (.opener .brace ?_) ?_
  · refine (keeps_commaSeparated (h.far .useTree).loosen []).closes fun trees => ?_
    exact closes_symbol .brace (keeps_pure id)
  · refine keeps_segment.read fun text => ?_
    refine keeps_if_accept (.link rfl ?_) (keeps_pure id)
    exact (h.far .useTree).read fun _ => keeps_pure id

theorem keeps_item (h : Serves n 14 table) : Keeps .series n N (Grammar.item table) Always := by
  unfold Grammar.item
  refine keeps_located (keeps_outerAttributes.bind fun attributes => ?_)
  refine keeps_visibility.bind fun v => keeps_look fun x next _ => ?_
  dsimp only
  split
  · exact keeps_function h v attributes
  · split
    · exact keeps_shift_some (.quiet rfl (keeps_function h v attributes).any)
    · exact keeps_constant h v attributes
  · exact keeps_module h v attributes
  · exact keeps_use h
  · exact keeps_fail (by simp)

/-! ### Levels of recursion -/

/-- The parser of a goal keeps to the nesting if the parsers that it may call do. -/
theorem keeps_step {α : Type} (goal : Goal σ α) (h : Serves n goal.rank table) :
    Keeps goal.extent n N (step table goal) Always := by
  cases goal with
  | type => exact keeps_typeExpr h
  | expr => exact keeps_expr h
  | operand power => exact keeps_operand h
  | unary => exact keeps_unary h
  | cond => exact keeps_cond h
  | block => exact keeps_block h
  | item => exact keeps_item h
  | useTree => exact keeps_useTree h

omit [Places σ] in
theorem Goal.rank_le {α : Type} (goal : Goal σ α) : goal.rank ≤ 14 := by
  cases goal <;> simp only [Goal.rank] <;> omega

/-- With fifteen levels for each opener and link that may be pending, a goal is exhausted only
where more are. With none, its stretch is bracketed all the same. -/
theorem keeps_parse {α : Type} (goal : Goal σ α) (depth n : Nat)
    (h : n = 0 ∨ 15 * n + goal.rank ≤ depth) :
    Keeps goal.extent n Always (Grammar.parse depth goal) Always := by
  induction depth generalizing α n with
  | zero =>
    obtain rfl : n = 0 := by omega
    exact fun _ _ _ => .start
  | succ depth ih =>
    refine keeps_step goal ⟨fun callee => ?_, fun callee hcallee => ?_⟩
    · have hrank := callee.rank_le
      exact ih callee (n - 1) (by omega)
    · exact ih callee n (by omega)

/-- A file whose items keep to the nesting does so itself. -/
theorem keeps_file {item : Parser (Item σ)} (h : Keeps .series n Always item Always) :
    Keeps .series n N (file item) Never := by
  unfold file
  refine keeps_innerAttributes.bind fun attributes => ?_
  refine (keeps_loop (fun items => keeps_peek fun x _ => ?_) []).bind fun items => keeps_pure id
  split
  · exact keeps_pure id
  · exact h.any.read fun _ => keeps_pure id

end Items

end EnsembleCompiler.Target
