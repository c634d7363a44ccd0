import EnsembleCompiler.Proofs.Target.Enclosure
import EnsembleCompiler.Proofs.Target.ExpressionParts

/-!
# The parts of items and files

By induction on the depth of the recursion, no parser is exhausted in front of fewer lexemes than it
has levels, and each builds what it returns from parts that fill what it passes over.
-/

namespace EnsembleCompiler.Target

open Target.Parser Grammar

open LawfulPlaces (extent)

variable {σ : Type} [LawfulPlaces σ] {n m start : Nat} {N : List Lexeme → Prop}
  {ps : List (Part σ)}

section Items

variable {table : Table σ}

/-! ### Attributes and visibility -/

theorem forms_attributeArguments : Forms m N attributeArguments fun _ (qs : List (Part σ)) =>
    ∃ ls, Nested 0 ls ∧ qs = words ls := by
  rintro start ⟨i, rest⟩ ls hlength - hfills -
  have hnests := nests_arguments rest 0 i
  rw [attributeArguments_eq]
  show (loopRun argumentTurn 0 ⟨i, rest⟩).Builds start ls rest _
  cases hrun : loopRun argumentTurn 0 ⟨i, rest⟩ with
  | done a d =>
    rw [hrun] at hnests
    obtain ⟨arguments, rfl, hnested⟩ := hnests
    cases hfills
    refine ⟨words arguments, arguments, rfl, ?_, arguments, hnested, rfl⟩
    exact .ofWords arguments start
  | failed j cause =>
    rw [hrun] at hnests
    exact hnests

theorem forms_attr : Forms m N (attr : Parser (Attribute σ)) fun a qs => qs = [.attr a] := by
  refine forms_located .attr fun start => builds_symbol (forms_found.bind fun isInner _ hinner => ?_)
  subst hinner
  refine builds_symbol (forms_path.bind fun p _ hp => ?_)
  obtain ⟨ls, hls, rfl⟩ := hp
  refine forms_attributeArguments.bind fun _ _ harguments => builds_symbol ?_
  obtain ⟨arguments, hnested, rfl⟩ := harguments
  refine builds_done fun place => ⟨rfl, ?_⟩
  exact rel_of_eq (Attribute.MadeOf.mk hls hnested) (by simp [words])

/-- An attribute is an inner one if its mark is there. -/
theorem Fills.isInner_iff {a : Attribute σ} {ls : List Lexeme}
    (h : Fills extent [.attr a] start ls) (rest : List Lexeme) :
    (ls ++ rest)[1]? = some (Lexeme.symbol .bang) ↔ a.isInner = true := by
  obtain ⟨inner, hmade, hinner, -⟩ := h.of_one
  obtain ⟨hp, hnested⟩ := hmade
  rename_i place isInner p ks arguments
  rw [hinner.eq_of_words]
  cases isInner <;> simp

theorem forms_innerAttributes : Forms m N (innerAttributes : Parser (List (Attribute σ))) fun as qs =>
    qs = as.map Part.attr ∧ ∀ a ∈ as, a.isInner = true := by
  refine fun start => builds_loop (fun as qs =>
    qs = as.reverse.map Part.attr ∧ ∀ a ∈ as, a.isInner = true) (fun k hk as _ hs => ?_) ⟨rfl, by simp⟩
  obtain ⟨rfl, hall⟩ := hs
  refine builds_look fun x y => builds_ite (fun hmark => ?_) fun _ => builds_leave ⟨rfl, by simpa⟩
  obtain ⟨-, rfl⟩ : x = some (Lexeme.symbol .hash) ∧ y = some (Lexeme.symbol .bang) := by
    simpa using hmark
  refine forms_attr.starting.read (fun a qs ha => by rw [ha.1]; exact List.cons_ne_nil _ _)
    fun a qs ha => builds_again (by omega) ?_
  obtain ⟨rfl, i, ms, rest, hfills, -, -, hsecond⟩ := ha
  have ha : a.isInner = true := (hfills.isInner_iff rest).1 hsecond
  exact ⟨by simp, by simpa using ⟨ha, hall⟩⟩

theorem forms_outerAttributes : Forms m N (outerAttributes : Parser (List (Attribute σ))) fun as qs =>
    qs = as.map Part.attr ∧ ∀ a ∈ as, a.isInner = false := by
  refine fun start => builds_loop (fun as qs =>
    qs = as.reverse.map Part.attr ∧ ∀ a ∈ as, a.isInner = false) (fun k hk as _ hs => ?_) ⟨rfl, by simp⟩
  obtain ⟨rfl, hall⟩ := hs
  refine builds_look fun x y => builds_ite (fun _ => ?_) fun _ => builds_leave ⟨rfl, by simpa⟩
  refine builds_ite (fun _ => builds_fail_bind (by simp)) fun hy => ?_
  refine forms_attr.starting.read (fun a qs ha => by rw [ha.1]; exact List.cons_ne_nil _ _)
    fun a qs ha => builds_again (by omega) ?_
  obtain ⟨rfl, i, ms, rest, hfills, -, -, hsecond⟩ := ha
  have ha : a.isInner = false := by
    by_contra hinner
    have hmark := (hfills.isInner_iff rest).2 (by simpa using hinner)
    exact hy (hsecond.symm.trans hmark)
  exact ⟨by simp, by simpa using ⟨ha, hall⟩⟩

theorem forms_visibility : Forms m N visibility fun v (qs : List (Part σ)) =>
    qs = words v.lexemes := by
  refine fun start => builds_accept (builds_accept ?_ (builds_done rfl)) (builds_done rfl)
  refine builds_peek fun x => ?_
  split
  · refine builds_ite (fun _ => ?_) fun _ => builds_fail (by simp)
    exact builds_shift (fun _ hls => hls.2) (builds_symbol (builds_done rfl))
  · exact builds_fail (by simp)

/-! ### Items -/

theorem forms_parameter (h : table.Forms n) (hm : m ≤ n) :
    Forms m N (parameter table) fun p qs => qs = p.parts := by
  refine fun start => forms_mut.bind fun isMutable _ hmut => forms_binder.bind fun name _ hname => ?_
  subst hmut hname
  refine builds_symbol ((forms_ascription (h .type (by omega))).bind fun type _ htype => ?_)
  subst htype
  exact builds_done (by simp [Parameter.parts])

variable {v : Visibility} {as : List (Attribute σ)}

theorem builds_function (h : table.Forms n) (hm : m ≤ n + 1) {ls : List Lexeme}
    (hls : ls = [] ∨ ls = [.keyword .constKw]) :
    Builds m N start (headParts as v ++ words ls) (function table v as) fun _ => AwaitsPlace .item := by
  refine builds_keyword (forms_identifier.bind fun name _ hname => builds_symbol ?_)
  subst hname
  refine (forms_commaSeparated_map (forms_parameter h (by omega)) (fun p => ?_) []).bind ?_
  · cases p
    simp [Parameter.parts]
  rintro _ qs ⟨parameters, rfl, hlisted⟩
  refine builds_symbol ?_
  refine builds_optionalPart (g := Part.type) (forms_ascription (h .type (by omega))) fun result => ?_
  refine (h .block (by omega)).bind fun body _ hbody => builds_done fun place => ⟨rfl, ?_⟩
  subst hbody
  exact rel_of_eq (Item.MadeOf.function hls hlisted) (by simp)

theorem builds_constant (h : table.Forms n) (hm : m ≤ n + 1) :
    Builds m N start (headParts as v) (constant table v as) fun _ => AwaitsPlace .item := by
  refine builds_keyword (forms_identifier.bind fun name _ hname => builds_symbol ?_)
  subst hname
  refine (forms_ascription (h .type (by omega))).bind fun type _ htype => builds_symbol ?_
  subst htype
  refine (h .expr (by omega)).bind fun value _ hvalue => builds_symbol ?_
  subst hvalue
  refine builds_done fun place => ⟨rfl, ?_⟩
  exact rel_of_eq Item.MadeOf.const (by simp)

theorem forms_moduleItems (h : table.Forms n) (hm : m ≤ n) (name : String) :
    Forms m N (moduleItems table name) fun items qs => qs = items.map .item := by
  refine fun start => builds_loop (fun items qs => qs = items.reverse.map .item)
    (fun k hk items _ hs => builds_peek fun x => ?_) rfl
  subst hs
  dsimp only
  split
  · exact builds_leave rfl
  · exact builds_fail (by simp)
  · refine (h .item (by omega)).any.read (fun _ _ => Goal.Parts.ne_nil) fun i _ hi => ?_
    subst hi
    exact builds_again (by omega) (by simp)

theorem builds_module (h : table.Forms n) (hm : m ≤ n + 1) (houter : ∀ a ∈ as, a.isInner = false) :
    Builds m N start (headParts as v) (module table v as) fun _ => AwaitsPlace .item := by
  refine builds_keyword (forms_identifier.bind fun name _ hname => ?_)
  subst hname
  refine builds_if_accept (builds_done fun place => ⟨rfl, ?_⟩) (builds_symbol ?_)
  · exact rel_of_eq Item.MadeOf.moduleFile (by simp)
  refine forms_innerAttributes.bind fun inner _ hinner => ?_
  obtain ⟨rfl, hinner⟩ := hinner
  refine (forms_moduleItems h (by omega) name.text).bind fun items _ hitems => builds_symbol ?_
  subst hitems
  refine builds_done fun place => ⟨rfl, ?_⟩
  exact rel_of_eq (Item.MadeOf.module houter hinner) (by simp)

theorem builds_use (h : table.Forms n) (hm : m ≤ n + 1) :
    Builds m N start (headParts as v) (use table) fun _ => AwaitsPlace .item := by
  refine builds_keyword ((h .useTree (by omega)).bind fun tree _ htree => builds_symbol ?_)
  obtain ⟨ls, hls, rfl⟩ := htree
  refine builds_done fun place => ⟨rfl, ?_⟩
  have hmade : (Item.use place tree).MadeOf
      (headParts as v ++ Part.keyword .useKw :: words ls ++ [Part.symbol .semicolon]) := .use hls
  exact rel_of_eq hmade (by simp)

omit [LawfulPlaces σ] in
/-- The parts of a list of imports are lexemes. -/
theorem exists_useTrees {trees : List UseTree} {groups : List (List (Part σ))}
    {qs : List (Part σ)} (h : List.Forall₂ (Goal.Parts .useTree) trees groups)
    (hlisted : Listed groups qs) : ∃ lss ls, List.Forall₂ IsUseTree trees lss ∧
      Separated (.symbol .comma) lss ls ∧ qs = words ls := by
  have hgroups : ∃ lss, List.Forall₂ IsUseTree trees lss ∧ groups = lss.map words := by
    clear hlisted
    induction h with
    | nil => exact ⟨[], .nil, rfl⟩
    | cons htree _ ih =>
      obtain ⟨ls, hls, rfl⟩ := htree
      obtain ⟨lss, hlss, rfl⟩ := ih
      exact ⟨ls :: lss, .cons hls hlss, rfl⟩
  obtain ⟨lss, hlss, rfl⟩ := hgroups
  rcases hlisted with rfl | hlisted
  · exact ⟨lss, _, hlss, .inl rfl, (map_closed Part.lexeme (.symbol .comma) lss).symm⟩
  · obtain ⟨ls, ks, hls, rfl, hks⟩ := List.append_eq_map_iff.1
      (hlisted.trans (map_closed Part.lexeme (.symbol .comma) lss).symm)
    obtain ⟨k, rfl, hk⟩ := List.map_eq_singleton_iff.1 hks
    cases hk
    exact ⟨lss, ls, hlss, .inr hls.symm, rfl⟩

theorem forms_useTree (h : table.Forms n) (hm : m ≤ n + 1) :
    Forms m N (useTree table) (Goal.Parts (σ := σ) .useTree) := by
  refine fun start => builds_if_accept (builds_done ⟨_, .glob, rfl⟩) (builds_if_accept ?_ ?_)
  · have htrees : Forms (m - 1) Always (table .useTree) (Goal.Parts .useTree) :=
      h .useTree (by omega)
    refine (forms_commaSeparated htrees (fun _ _ => Goal.Parts.ne_nil) []).bind ?_
    rintro _ qs ⟨trees, groups, rfl, htrees, hlisted⟩
    obtain ⟨lss, ls, hlss, hseparated, rfl⟩ := exists_useTrees htrees hlisted
    exact builds_symbol (builds_done ⟨_, .group hlss hseparated, by simp [words]⟩)
  refine forms_segment.read ?_ ?_
  · rintro text _ ⟨x, -, rfl⟩
    simp
  rintro text _ ⟨x, hx, rfl⟩
  refine builds_if_accept ((h .useTree (by omega)).bind fun rest _ hrest => ?_) ?_
  · obtain ⟨ls, hls, rfl⟩ := hrest
    exact builds_done ⟨_, .segment hx hls, by simp [words]⟩
  · exact builds_done ⟨_, .name hx, rfl⟩

theorem forms_item (h : table.Forms n) (hm : m ≤ n + 1) :
    Forms m N (Grammar.item table) fun i qs => qs = [.item i] := by
  refine forms_located .item fun start => forms_outerAttributes.bind fun as _ has => ?_
  obtain ⟨rfl, houter⟩ := has
  refine forms_visibility.bind fun v _ hv => builds_look fun x y => ?_
  subst hv
  dsimp only
  split
  · show Builds m _ start (headParts as v) _ _
    rw [← List.append_nil (headParts as v)]
    exact builds_function h hm (.inl rfl)
  · refine builds_ite (fun _ => ?_) fun _ => builds_constant h hm
    refine builds_shift (fun _ hls => hls.2.1) ?_
    exact builds_function h (by omega) (.inr rfl)
  · exact builds_module h hm houter
  · exact builds_use h hm
  · exact builds_fail (by simp)

end Items

/-! ### All goals -/

theorem forms_step {table : Table σ} (h : table.Forms n) : Table.Forms (n + 1) (step table) := by
  intro α goal m N hm
  cases goal with
  | type => exact forms_typeExpr h hm
  | expr => exact forms_expr h hm
  | operand power => exact forms_operand h hm power
  | unary => exact forms_unary h hm
  | cond => exact forms_cond h hm
  | block => exact forms_block h hm
  | item => exact forms_item h hm
  | useTree => exact forms_useTree h hm

/-- By induction on the depth of the recursion: at depth 0 there is no number of lexemes below it. -/
theorem forms_parse (depth : Nat) :
    Table.Forms depth fun (goal : Goal σ _) => Grammar.parse depth goal := by
  induction depth with
  | zero =>
    intro α goal m N hm start c ls hlength
    omega
  | succ depth ih => exact forms_step ih

theorem forms_file {item : Parser (Item σ)}
    (h : Forms n Always item (Goal.Parts .item)) : Forms n N (Grammar.file item) fun tree qs =>
      qs = tree.children.map .construct := by
  refine fun start => forms_innerAttributes.bind fun attributes _ hattributes => ?_
  obtain ⟨rfl, -⟩ := hattributes
  refine Forms.bind (R := fun items qs => qs = items.map .item) (fun start => ?_) ?_
  · refine builds_loop (fun items qs => qs = items.reverse.map .item)
      (fun k hk items _ hs => builds_peek fun x => ?_) rfl
    subst hs
    dsimp only
    split
    · exact builds_leave rfl
    · refine (h.any.less hk).read (fun _ _ => Goal.Parts.ne_nil) fun i _ hi => ?_
      subst hi
      exact builds_again (by omega) (by simp)
  · intro items _ hitems
    subst hitems
    refine builds_done ?_
    rw [File.children, List.map_append, List.map_map, List.map_map]
    rfl

/-- The answer to the lexemes of a file. -/
theorem builds_file (ls : List Lexeme) :
    ((Grammar.file (σ := σ) (Grammar.parse (ls.length + 1) .item)).run ⟨0, ls⟩).Builds 0 [] ls
      fun _ tree (qs : List (Part σ)) => qs = tree.children.map .construct := by
  have hitem : Forms (ls.length + 1) Always (Grammar.parse (ls.length + 1) .item)
      (Goal.Parts (σ := σ) .item) :=
    forms_parse (ls.length + 1) .item (Nat.le_refl _)
  exact forms_file (N := Always) hitem 0 ⟨0, ls⟩ [] (Nat.lt_succ_self _) trivial .nil rfl

/-- The outermost constructs of a file fill all of its lexemes. -/
theorem fills_of_ofLexemes {ls : List Lexeme} {tree : File σ}
    (h : File.ofLexemes ls = .ok tree) : Fills extent (tree.children.map .construct) 0 ls := by
  have hr := builds_file (σ := σ) ls
  unfold File.ofLexemes at h
  cases hrun : (file (σ := σ) (Grammar.parse (ls.length + 1) .item)).run ⟨0, ls⟩ with
  | failed i cause =>
    rw [hrun] at h
    cases h
  | done t d =>
    rw [hrun] at h hr
    cases h
    obtain ⟨qs, ms, hms, hfills, rfl⟩ := hr
    rw [rest_of_file hrun, List.append_nil] at hms
    rwa [hms]

end EnsembleCompiler.Target
