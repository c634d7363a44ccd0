import EnsembleCompiler.Proofs.Target.Building

/-!
# The parts of types and blocks

Each parser of the grammar builds the constructs of the tree that it returns, from parts that fill
what it passes over, and is not exhausted where the parsers that it calls are not.
-/

namespace EnsembleCompiler.Target

open Target.Parser Grammar

open LawfulPlaces (extent)

variable {α β σ : Type} [LawfulPlaces σ] {n m start : Nat} {N : List Lexeme → Prop}
  {ps : List (Part σ)}

omit [LawfulPlaces σ] in
theorem rel_of_eq {γ : Type} {R : α → γ → Prop} {a : α} {x y : γ} (h : R a x) (hx : y = x) :
    R a y := hx ▸ h

/-! ### Words -/

theorem forms_identifier : Forms n N (identifier : Parser (Name σ)) fun name qs =>
    qs = [.name name] := by
  refine fun start => builds_peek fun x => ?_
  split
  · exact forms_leaf .name (fun _ hls => hls.2) (fun _ => ⟨rfl, .ident⟩) start
  · exact builds_fail (by simp)

theorem forms_binder : Forms n N (binder : Parser (Name σ)) fun name qs => qs = [.name name] := by
  refine fun start => builds_if_at ?_ (forms_identifier start)
  exact forms_leaf .name (fun _ hls => hls.2) (fun _ => ⟨rfl, .underscore⟩) start

theorem forms_segment : Forms n N Parser.segment fun text (qs : List (Part σ)) =>
    ∃ x, segment? (some x) = some text ∧ qs = [.lexeme x] := by
  refine fun start => builds_peek fun x => ?_
  split
  · rename_i text htext
    cases x with
    | none => cases htext
    | some x => exact builds_shift (fun _ hls => hls.2) (builds_done ⟨x, htext, rfl⟩)
  · exact builds_fail (by simp)

theorem forms_path : Forms n N path fun p (qs : List (Part σ)) =>
    ∃ ls, IsPath p ls ∧ qs = words ls := by
  refine fun start => forms_segment.bind fun first qs hfirst => ?_
  obtain ⟨x, hx, rfl⟩ := hfirst
  refine builds_loop (fun segments qs => ∃ ls, IsPath segments.reverse ls ∧ qs = words ls)
    (fun k hk segments qs hs => ?_) ⟨[x], .first hx, rfl⟩
  obtain ⟨ls, hls, rfl⟩ := hs
  refine builds_look fun here next => builds_ite (fun hnext => ?_) fun _ => builds_leave ⟨ls, hls, rfl⟩
  obtain ⟨rfl, -⟩ : here = some (Lexeme.symbol .pathSep) ∧ (segment? next).isSome = true := by
    simpa using hnext
  refine builds_shift (fun _ hls => hls.2.1) (forms_segment.bind fun text qs htext => ?_)
  obtain ⟨y, hy, rfl⟩ := htext
  refine builds_again (by omega) ⟨ls ++ [.symbol .pathSep, y], ?_, by simp [words]⟩
  rw [List.reverse_cons]
  exact .further hls hy

theorem forms_mut : Forms n N (accept (.keyword .mutKw)) fun isMutable (qs : List (Part σ)) =>
    qs = words (mutLexemes isMutable) :=
  forms_found

/-! ### Lists -/

theorem Separated.nil {separator : α} : Separated separator [] [] := .inl rfl

theorem Separated.eq_nil {separator : α} {whole : List α} (h : Separated separator [] whole) :
    whole = [] := by
  rcases h with h | h
  · exact h
  · simp at h

theorem map_closed (g : α → β) (separator : α) (groups : List (List α)) :
    (groups.flatMap (· ++ [separator])).map g =
      (groups.map (List.map g)).flatMap (· ++ [g separator]) := by
  simp [List.map_flatMap, List.flatMap_map]

theorem Separated.map {separator : α} {groups : List (List α)} {whole : List α}
    (h : Separated separator groups whole) (g : α → β) :
    Separated (g separator) (groups.map (List.map g)) (whole.map g) := by
  rcases h with rfl | h
  · exact .inl (map_closed g separator groups)
  · refine .inr ?_
    rw [← map_closed, ← h]
    simp

theorem Separated.cons {separator : α} {groups : List (List α)} {whole : List α}
    (h : Separated separator groups whole) (first : List α) :
    Separated separator (first :: groups) (first ++ separator :: whole) := by
  rcases h with rfl | h
  · exact .inl (by simp)
  · refine .inr ?_
    rw [List.flatMap_cons, ← h]
    simp

/-- The last group, without a separator behind it. -/
theorem Separated.last {separator : α} (groups : List (List α)) (group : List α) :
    Separated separator (groups ++ [group]) (groups.flatMap (· ++ [separator]) ++ group) :=
  .inr (by simp)

theorem Separated.closed {separator : α} (groups : List (List α)) :
    Separated separator groups (groups.flatMap (· ++ [separator])) := .inl rfl

theorem forms_commaSeparated {close : Symbol} {item : Parser α} {R : α → List (Part σ) → Prop}
    (hitem : Forms n Always item R) (hR : ∀ a qs, R a qs → qs ≠ []) (items : List α) :
    Forms n N (commaSeparated close item items) fun as qs => ∃ bs groups,
      as = items.reverse ++ bs ∧ List.Forall₂ R bs groups ∧ Listed groups qs := by
  refine fun start => builds_loop (fun s qs => ∃ bs groups, s.reverse = items.reverse ++ bs ∧
    List.Forall₂ R bs groups ∧ qs = groups.flatMap (· ++ [.symbol .comma]))
    (fun k hk s qs hs => ?_) ⟨[], [], by simp, .nil, rfl⟩
  obtain ⟨bs, groups, hs, hbs, rfl⟩ := hs
  refine builds_if_at (builds_leave ⟨bs, groups, hs, hbs, .closed groups⟩) ?_
  refine (hitem.any.less hk).read hR fun a qs ha => ?_
  have hread := List.rel_append hbs (.cons ha .nil)
  refine builds_if_accept
    (builds_again (by omega) ⟨bs ++ [a], groups ++ [qs], ?_, hread, by simp⟩)
    (builds_leave ⟨bs ++ [a], groups ++ [qs], ?_, hread, .last groups qs⟩)
  · rw [List.reverse_cons, hs, List.append_assoc]
  · rw [List.reverse_cons, hs, List.append_assoc]

/-- A list of parts that are determined by their values. -/
theorem forms_commaSeparated_map {close : Symbol} {item : Parser α} {g : α → List (Part σ)}
    (hitem : Forms n Always item fun a qs => qs = g a) (hg : ∀ a, g a ≠ []) (items : List α) :
    Forms n N (commaSeparated close item items) fun as qs => ∃ bs,
      as = items.reverse ++ bs ∧ Listed (bs.map g) qs := by
  refine (forms_commaSeparated hitem (fun a qs ha => ha ▸ hg a) items).mono (Nat.le_refl n)
    (fun _ => id) fun as qs h => ?_
  obtain ⟨bs, groups, has, hbs, hlisted⟩ := h
  have hgroups : groups = bs.map g := by
    clear has hlisted
    induction hbs with
    | nil => rfl
    | cons ha _ ih => rw [ha, ih, List.map_cons]
  exact ⟨bs, has, hgroups ▸ hlisted⟩

/-- A part of a construct that is there if a certain lexeme is. -/
theorem builds_optionalPart {x : Lexeme} {part : Parser α} {g : α → Part σ}
    {f : Option α → Parser β} {T : List Lexeme → β → List (Part σ) → Prop}
    (hpart : Forms (n - 1) Always part fun a qs => qs = [g a])
    (hf : ∀ a, Builds n Always start (ps ++ optionalParts [x] g a) (f a) T) :
    Builds n N start ps (accept x >>= fun found =>
      if found = true then some <$> part >>= f else pure none >>= f) T := by
  refine builds_if_accept ?_ ?_
  · have hsome : Forms (n - 1) Always (some <$> part) fun a qs => ∃ b, a = some b ∧ qs = [g b] :=
      hpart.map fun a qs ha => ⟨a, rfl, ha⟩
    refine hsome.bind fun a qs ha => ?_
    obtain ⟨b, rfl, rfl⟩ := ha
    rw [List.append_assoc]
    exact (hf (some b)).mono (Nat.sub_le n 1) (fun _ => id) fun _ _ _ => id
  · have hnone := hf none
    rw [optionalParts, List.append_nil] at hnone
    exact hnone.mono (Nat.le_refl n) (fun _ _ => trivial) fun _ _ _ => id

/-! ### What is said of each goal -/

/-- What a parser of a goal passes over is filled by the construct that it returns, or by the parts
of its type or its import. -/
def Goal.Parts : {α : Type} → Goal σ α → α → List (Part σ) → Prop
  | _, .type => TypeExpr.MadeOf
  | _, .expr => fun e qs => qs = [.expr e]
  | _, .operand _ => fun e qs => qs = [.expr e]
  | _, .unary => fun e qs => qs = [.expr e]
  | _, .cond => fun e qs => qs = [.expr e]
  | _, .block => fun b qs => qs = [.block b]
  | _, .item => fun i qs => qs = [.item i]
  | _, .useTree => fun tree qs => ∃ ls, IsUseTree tree ls ∧ qs = words ls

omit [LawfulPlaces σ] in
/-- A parser of a goal reads something. -/
theorem Goal.Parts.ne_nil {α : Type} {goal : Goal σ α} {a : α} {qs : List (Part σ)}
    (h : goal.Parts a qs) : qs ≠ [] := by
  cases goal with
  | type => exact TypeExpr.MadeOf.ne_nil h
  | useTree =>
    obtain ⟨ls, hls, rfl⟩ := h
    simpa using hls.ne_nil
  | expr | operand | unary | cond | block | item =>
    cases h
    simp

/-- In front of fewer than `n` lexemes, no parser of the table is exhausted, and each builds what it
returns. -/
def Table.Forms (n : Nat) (table : Table σ) : Prop :=
  ∀ {α : Type} (goal : Goal σ α) {m : Nat} {N : List Lexeme → Prop}, m ≤ n →
    Target.Forms m N (table goal) goal.Parts

section Phrases

variable {table : Table σ}

/-! ### Types -/

theorem forms_ascription {type : Parser (TypeExpr σ)} (h : Forms n N type (Goal.Parts .type)) :
    Forms n N (ascription type) fun a qs => qs = [.type a] :=
  forms_located .type fun _ => h.bind fun _ _ ht => builds_done fun _ => ⟨rfl, ht⟩

theorem forms_typeArguments (h : table.Forms n) (hm : m ≤ n) :
    Forms m N (typeArguments table) fun ts qs => ts ≠ [] ∧ ∃ groups,
      List.Forall₂ TypeExpr.MadeOf ts groups ∧ Listed groups qs := by
  refine fun start => builds_loop (fun s qs => ∃ groups,
    List.Forall₂ TypeExpr.MadeOf s.reverse groups ∧
      qs = groups.flatMap (· ++ [Part.symbol .comma])) (fun k hk s qs hs => ?_) ⟨[], .nil, rfl⟩
  obtain ⟨groups, hs, rfl⟩ := hs
  refine (h .type (by omega)).read (fun _ _ => Goal.Parts.ne_nil) fun t qs ht => ?_
  have hread : List.Forall₂ TypeExpr.MadeOf (t :: s).reverse (groups ++ [qs]) := by
    rw [List.reverse_cons]
    exact List.rel_append hs (.cons ht .nil)
  have hcomma : groups.flatMap (· ++ [Part.symbol .comma]) ++ qs ++ [Part.symbol .comma] =
      (groups ++ [qs]).flatMap (· ++ [Part.symbol .comma]) := by simp
  refine builds_if_accept ?_ (builds_leave ⟨by simp, _, hread, .last groups qs⟩)
  rw [hcomma]
  exact builds_if_at (builds_leave ⟨by simp, _, hread, .closed _⟩)
    (builds_again (by omega) ⟨_, hread, rfl⟩)

theorem forms_referenceType (h : table.Forms n) (hm : m ≤ n + 1) {x : Lexeme}
    (hN : ∀ ls, N ls → ls[0]? = some x) : Forms m N (referenceType table) fun t qs =>
      ∃ isMutable target rs, t = .ref isMutable target ∧ TypeExpr.MadeOf target rs ∧
        qs = .lexeme x :: words (mutLexemes isMutable) ++ rs := by
  refine fun start => builds_shift hN (forms_mut.bind fun isMutable qs hmut => ?_)
  subst hmut
  exact (h .type (by omega)).bind fun t rs ht => builds_done ⟨isMutable, t, rs, rfl, ht, rfl⟩

theorem forms_typeExpr (h : table.Forms n) (hm : m ≤ n + 1) :
    Forms m N (typeExpr table) (Goal.Parts .type) := by
  refine fun start => builds_peek fun x => ?_
  dsimp only
  -- by the first lexeme; a double ampersand is two references in one lexeme
  split
  · refine (forms_referenceType h hm fun _ hls => hls.2).mono (Nat.le_refl m) (fun _ => id)
      (fun t qs ht => ?_) start
    obtain ⟨isMutable, target, rs, rfl, htarget, rfl⟩ := ht
    exact .ref htarget
  · refine (forms_referenceType h hm fun _ hls => hls.2).bind fun t qs ht => builds_done ?_
    obtain ⟨isMutable, target, rs, rfl, htarget, rfl⟩ := ht
    exact .refRef htarget
  · refine builds_shift (fun _ hls => hls.2) ((h .type (by omega)).bind fun element qs he => ?_)
    refine builds_if_accept ?_ ?_
    · refine (h .expr (by omega)).bind fun length rs hlength => builds_symbol (builds_done ?_)
      subst hlength
      exact rel_of_eq (TypeExpr.MadeOf.array he) (by simp)
    · refine builds_symbol (builds_done ?_)
      exact rel_of_eq (TypeExpr.MadeOf.slice he) (by simp)
  · refine builds_shift (fun _ hls => hls.2) ?_
    have helement : Forms (m - 1) Always (table .type) TypeExpr.MadeOf := h .type (by omega)
    refine (forms_commaSeparated helement (fun _ _ => TypeExpr.MadeOf.ne_nil) []).bind fun ts qs hts => ?_
    obtain ⟨bs, groups, rfl, hbs, hlisted⟩ := hts
    refine builds_symbol (builds_done ?_)
    exact rel_of_eq (TypeExpr.MadeOf.tuple hbs hlisted) (by simp)
  · exact builds_shift (fun _ hls => hls.2) (builds_done .inferred)
  · refine builds_ite (fun _ => ?_) fun _ => builds_fail (by simp)
    refine forms_path.bind fun p qs hp => ?_
    obtain ⟨ls, hls, rfl⟩ := hp
    refine builds_if_accept ?_ (builds_done (.path hls))
    refine (forms_typeArguments h (by omega)).bind fun ts qs hts => builds_symbol (builds_done ?_)
    obtain ⟨hne, groups, hts, hlisted⟩ := hts
    exact rel_of_eq (TypeExpr.MadeOf.applied hls hne hts hlisted) (by simp)

/-! ### Blocks -/

theorem forms_binding (h : table.Forms n) (hm : m ≤ n + 1) :
    Forms m N (binding table) fun s qs => qs = [.statement s] ∧ s.isBare = false := by
  refine forms_located_and .statement fun start => builds_keyword ?_
  refine forms_mut.bind fun isMutable qs hmut => ?_
  subst hmut
  refine forms_binder.bind fun name qs hname => ?_
  subst hname
  refine builds_optionalPart (g := Part.type) (forms_ascription (h .type (by omega))) fun type => ?_
  refine builds_optionalPart (g := Part.expr) (h .expr (by omega)) fun value => ?_
  refine builds_symbol (builds_done ⟨fun place => ⟨rfl, ?_⟩, fun _ => rfl⟩)
  exact rel_of_eq Statement.MadeOf.binding (by simp)

/-- A block that stands for an expression. -/
theorem forms_blockExpr {p : Parser (Block σ)} (hp : Forms n N p fun b qs => qs = [.block b])
    (g : Expr σ → α) : Forms n N ((fun b => g (.block b)) <$> p) fun a qs =>
      ∃ b, a = g (.block b) ∧ qs = [.expr (.block b)] := by
  refine fun start => hp.bind fun b qs hb => ?_
  subst hb
  exact .regroup (z := .expr (.block b)) rfl .block (builds_done ⟨b, rfl, rfl⟩)

theorem forms_statementExpr (h : table.Forms n) (hm : m ≤ n) (here : Option Lexeme) :
    Forms m N (statementExpr table here) fun e qs => qs = [.expr e] := by
  refine fun start => builds_ite (fun _ => h .cond hm start) fun _ => ?_
  refine builds_ite (fun _ => ?_) fun _ => h .expr hm start
  refine (forms_blockExpr (h .block hm) id).mono (Nat.le_refl m) (fun _ => id) (fun e qs he => ?_)
    start
  obtain ⟨b, rfl, rfl⟩ := he
  rfl

/-- The statements of a block, and what they are made of. -/
abbrev StatementParts (ss : List (Statement σ)) (parts : List (Part σ)) : Prop :=
  Statements True (Part.symbol .semicolon) (fun s qs => qs = [.statement s]) true ss parts

/-- What has been read of a block in front of these lexemes, the last statement first. A semicolon
that comes next is an empty statement. -/
structure BlockSoFar (statements : List (Statement σ)) (parts : List (Part σ))
    (rest : List Lexeme) : Prop where
  made : StatementParts statements.reverse parts
  mayBeEmpty : rest[0]? = some (.symbol .semicolon) →
    Statement.mayBeEmptyAfter true statements.reverse = true

omit [LawfulPlaces σ] in
theorem blockSoFar_nil {rest : List Lexeme} : BlockSoFar ([] : List (Statement σ)) [] rest :=
  ⟨.nil, fun _ => rfl⟩

omit [LawfulPlaces σ] in
/-- Behind a bare expression comes no semicolon: the expression would have taken it. -/
theorem BlockSoFar.push {statements : List (Statement σ)} {parts : List (Part σ)}
    {rest : List Lexeme} (h : StatementParts statements.reverse parts) (s : Statement σ)
    (hbare : s.isBare = true → rest[0]? ≠ some (Lexeme.symbol .semicolon)) :
    BlockSoFar (s :: statements) (parts ++ [.statement s]) rest where
  made := by
    rw [List.reverse_cons]
    exact h.concat rfl
  mayBeEmpty hsemicolon := by
    rw [List.reverse_cons, Statement.mayBeEmptyAfter, List.foldl_append]
    show (!s.isBare) = true
    rw [Bool.not_eq_true', Bool.eq_false_iff]
    exact fun h => hbare h hsemicolon

theorem forms_blockBody (h : table.Forms n) (hm : m ≤ n) (opener : Nat) :
    Forms m N (blockBody table opener) fun body qs => ∃ rs,
      StatementParts body.1 rs ∧ qs = rs ++ optionalParts [] .expr body.2 := by
  refine fun start => builds_loop_before BlockSoFar
    (fun k hk statements rs => .known (fun _ hls => hls.made) fun hs => ?_) fun _ _ => blockSoFar_nil
  refine builds_look fun here next => ?_
  dsimp only
  refine builds_ite (fun _ => builds_leave ⟨rs, hs, by simp [optionalParts]⟩) fun _ => ?_
  refine builds_ite (fun _ => builds_fail_bind (by simp)) fun _ => ?_
  refine builds_ite (fun hhere => ?_) fun _ => ?_
  · refine .known (fun _ hls => hls.1.mayBeEmpty (hls.2.1.trans hhere)) fun hmay => ?_
    refine builds_shift (fun _ hls => hls.2.1.trans hhere) (builds_pure fun _ hrest _ => ?_)
    exact ⟨by omega, hs.concatEmpty trivial hmay, fun _ => hmay⟩
  refine builds_ite (fun _ => ?_) fun _ => ?_
  · refine (forms_binding h (by omega)).read (by simp) fun s qs hs' => ?_
    obtain ⟨rfl, hbare⟩ := hs'
    refine builds_pure fun _ hrest _ => ⟨by omega, .push hs s fun h => ?_⟩
    rw [hbare] at h
    cases h
  refine builds_ite (fun _ => ?_) fun _ => ?_
  · refine (h .item (by omega)).read (fun _ _ => Goal.Parts.ne_nil) fun i qs hi => ?_
    subst hi
    refine .regroup (z := .statement (.item i)) rfl .item (builds_pure fun _ hrest _ => ?_)
    exact ⟨by omega, .push hs _ Bool.noConfusion⟩
  refine .frame fun start => ?_
  refine (forms_statementExpr h (by omega) here).read (by simp) fun e qs he => ?_
  subst he
  refine builds_if_accept ?_
    (builds_if_at (builds_pure fun _ _ _ => ⟨rs, hs, by simp [optionalParts, words]⟩) ?_)
  · refine builds_previousPlace (fun last => .statement (.expr (Places.merge e.place last) e true))
      (begins_construct (.expr e)) (fun _ => rfl) (fun _ => .closed) fun last => ?_
    refine builds_pure fun _ hrest _ => ?_
    exact ⟨by omega, .push hs _ Bool.noConfusion⟩
  · refine builds_ite (fun hblock => ?_) fun _ => builds_fail (by simp)
    refine .regroup (z := .statement (.expr e.place e false)) rfl (.bare hblock)
      (builds_pure fun _ hrest hN => ?_)
    exact ⟨by omega, .push hs _ fun _ => hN.2⟩

theorem forms_block (h : table.Forms n) (hm : m ≤ n + 1) :
    Forms m N (block table) fun b qs => qs = [.block b] := by
  refine forms_located .block fun start => builds_position fun opener => builds_symbol ?_
  refine (forms_blockBody h (by omega) opener).bind fun body qs hbody => builds_symbol ?_
  obtain ⟨rs, hstatements, rfl⟩ := hbody
  refine builds_done fun place => ⟨rfl, ?_⟩
  exact rel_of_eq (Block.MadeOf.mk hstatements) (by simp)

end Phrases

end EnsembleCompiler.Target
