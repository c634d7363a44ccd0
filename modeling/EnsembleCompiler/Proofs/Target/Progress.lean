import EnsembleCompiler.Proofs.Target.ItemParts
import EnsembleCompiler.Proofs.Target.Levels

/-!
# The progress of the parser

Every parser of the grammar moves forward among the lexemes of a file and no further than their end,
and what it returns it has read from at least one of them. So there are no more calls of goals active
at once than lexemes and one more, and the parser of a file comes to an end: at a syntax error, or
behind the last lexeme.
-/

namespace EnsembleCompiler.Target

open Target.Parser Grammar

variable {α σ : Type} [Places σ] {ls : List Lexeme} {c d : Cursor}

/-! ### Cursors among the lexemes of a file -/

/-- The cursor stands in front of one of these lexemes, or behind the last. -/
structure Cursor.Among (ls : List Lexeme) (c : Cursor) : Prop where
  le : c.position ≤ ls.length
  rest_eq : c.rest = ls.drop c.position

theorem Cursor.among_start (ls : List Lexeme) : (⟨0, ls⟩ : Cursor).Among ls :=
  ⟨Nat.zero_le _, rfl⟩

theorem Cursor.Among.length_rest (h : c.Among ls) : c.rest.length = ls.length - c.position := by
  rw [h.rest_eq, List.length_drop]

theorem Cursor.Among.reaches (hc : c.Among ls) (h : c.Reaches d) : d.Among ls := by
  have hlength := hc.length_rest
  have hle := hc.le
  have hmoved := h.le
  have hinside := h.inside
  refine ⟨by omega, ?_⟩
  rw [h.rest_eq, hc.rest_eq, List.drop_drop]
  congr 1
  omega

/-- The answer of a parser at this cursor moves no way but forward, and not past the end. -/
def Reply.Forward (ls : List Lexeme) (c : Cursor) : Reply α → Prop
  | .done _ d => c.position ≤ d.position ∧ d.Among ls
  | .failed i _ => c.position ≤ i ∧ i ≤ ls.length

theorem forward_run (p : Parser α) (hc : c.Among ls) : (p.run c).Forward ls c := by
  have hafter := p.after c
  have hlength := hc.length_rest
  have hle := hc.le
  cases hrun : p.run c with
  | done a d =>
    rw [hrun] at hafter
    exact ⟨Cursor.Reaches.le hafter, hc.reaches hafter⟩
  | failed i cause =>
    rw [hrun] at hafter
    obtain ⟨hfirst, hlast⟩ := hafter
    exact ⟨hfirst, by omega⟩

/-- What a parser looks at are the lexemes at its position and behind it. -/
theorem run_look (hc : c.Among ls) :
    look.run c = .done (ls[c.position]?, ls[c.position + 1]?) c := by
  have hrun : look.run c = .done (c.rest[0]?, c.rest[1]?) c := rfl
  rw [hrun, hc.rest_eq, List.getElem?_drop, List.getElem?_drop, Nat.add_zero]

/-! ### Calls that read something -/

/-- A successful call has passed over at least one lexeme. -/
def Parser.Reads (p : Parser α) : Prop :=
  ∀ {c d a}, p.run c = .done a d → c.position < d.position

theorem Keeps.reads {e : Extent} {n : Nat} {p : Parser α} (h : Keeps e n Always p Always) :
    p.Reads := by
  intro c d a hrun
  have hr := h c trivial
  have hafter := p.after c
  rw [hrun] at hr hafter
  obtain ⟨ms, hms, -, hread⟩ := hr
  have hd := Cursor.Reaches.position_eq hafter hms
  have hpos := List.length_pos_iff.2 (hread trivial)
  omega

theorem reads_parse (levels : Nat) (goal : Goal σ α) : (Grammar.parse levels goal).Reads :=
  (keeps_parse goal levels 0 (.inl rfl)).reads

/-- The tables of the grammar keep to the nesting where nothing is pending. -/
theorem serves_parse (levels : Nat) :
    Serves 0 0 fun (goal : Goal σ _) => Grammar.parse levels goal :=
  ⟨fun goal => keeps_parse goal levels 0 (.inl rfl), fun _ hgoal => absurd hgoal (Nat.not_lt_zero _)⟩

theorem reads_binding (levels : Nat) :
    (binding fun (goal : Goal σ _) => Grammar.parse levels goal).Reads :=
  (keeps_binding (serves_parse levels)).reads

theorem reads_statementExpr (levels : Nat) (here : Option Lexeme) :
    (statementExpr (fun (goal : Goal σ _) => Grammar.parse levels goal) here).Reads :=
  (keeps_statementExpr (serves_parse levels) here).reads

theorem reads_path : path.Reads := (keeps_path (e := .phrase) (n := 0)).reads

theorem reads_attr : (attr : Parser (Attribute σ)).Reads := (keeps_attr (e := .phrase) (n := 0)).reads

/-! ### Levels -/

/-- A call is not exhausted if it has more levels of recursion than there are lexemes behind it. -/
theorem parse_not_exhausted {levels : Nat} (goal : Goal σ α) (h : c.rest.length < levels) (i : Nat) :
    (Grammar.parse levels goal).run c ≠ .failed i .exhausted := by
  -- it would be exhausted without places, too
  intro hrun
  have hplain : (Surroundings.forget σ).Repeats .exhausted := ⟨rfl, rfl, fun _ => rfl⟩
  obtain ⟨β, other, hother⟩ := (mirrored_parse (.forget σ) levels).fails hplain goal hrun
  have hforms : Forms levels Always (Grammar.parse levels other) other.Parts :=
    forms_parse levels other (Nat.le_refl levels)
  have hr := hforms c.position c [] h trivial .nil rfl
  have hcursor : c.within (.forget σ) = c := Surroundings.IsPlain.within_eq ⟨rfl, rfl⟩ c
  rw [hcursor] at hother
  rw [show (Grammar.parse levels other).run c = _ from hother] at hr
  exact hr rfl

theorem suffice_length (ls : List Lexeme) : Suffice (ls.length + 1) ls := by
  rw [suffice_iff Unit]
  intro i hrun
  have hr := builds_file (σ := Unit) ls
  unfold fileWithin at hrun
  rw [hrun] at hr
  exact hr rfl

/-- More levels than lexemes are as good as those that a file is read with. -/
theorem ofLexemes_eq {levels : Nat} (h : ls.length < levels) :
    (File.ofLexemes ls : Except SyntaxError (File σ)) = (fileWithin levels ls).result := by
  obtain ⟨further, rfl⟩ := Nat.exists_eq_add_of_le (Nat.succ_le_of_lt h)
  rw [ofLexemes_eq_result, (suffice_length ls).fileWithin_add]

theorem cursor_of_file {levels : Nat} {tree : File σ} (h : fileWithin levels ls = .done tree d) :
    d = ⟨ls.length, []⟩ := by
  have hrest : d.rest = [] := rest_of_file h
  have hforward := forward_run (file (σ := σ) (Grammar.parse levels .item)) (Cursor.among_start ls)
  unfold fileWithin at h
  rw [h] at hforward
  obtain ⟨-, hd⟩ := hforward
  have hlength := hd.length_rest
  have hle := hd.le
  rw [hrest, List.length_nil] at hlength
  obtain ⟨position, rest⟩ := d
  obtain rfl : position = ls.length := by
    dsimp only at hlength hle
    omega
  rw [show rest = [] from hrest]

/-- **The parser makes progress.** For every list of lexemes, as many levels of recursion as there
are lexemes and one more are enough, so that further ones change nothing; then either a syntax error is
found or everything has been read. Meanwhile no parser moves back or past the end or looks at anything
but the next two lexemes, every call of a goal comes to an end in the same way, and what is returned of a
goal, a statement, a path or an attribute has been read from at least one lexeme. -/
theorem file_progress (ls : List Lexeme) :
    (Suffice (ls.length + 1) ls ∧ ∀ further,
      (fileWithin (ls.length + 1 + further) ls : Reply (File σ)) = fileWithin (ls.length + 1) ls) ∧
    (∀ levels (tree : File σ) d, fileWithin levels ls = .done tree d → d = ⟨ls.length, []⟩) ∧
    (∀ {α : Type} (p : Parser α) (c : Cursor), c.Among ls → (p.run c).Forward ls c) ∧
    (∀ c : Cursor, c.Among ls → look.run c = .done (ls[c.position]?, ls[c.position + 1]?) c) ∧
    (∀ {α : Type} (goal : Goal σ α) (levels i : Nat) (c : Cursor), c.Among ls →
      ls.length < c.position + levels → (Grammar.parse levels goal).run c ≠ .failed i .exhausted) ∧
    (∀ {α : Type} (goal : Goal σ α) (levels : Nat), (Grammar.parse levels goal).Reads) ∧
    (∀ levels, (binding fun (goal : Goal σ _) => Grammar.parse levels goal).Reads) ∧
    (∀ levels here,
      (statementExpr (fun (goal : Goal σ _) => Grammar.parse levels goal) here).Reads) ∧
    path.Reads ∧ (attr : Parser (Attribute σ)).Reads := by
  have hsuffice := suffice_length ls
  refine ⟨⟨hsuffice, hsuffice.fileWithin_add⟩, fun levels tree d => cursor_of_file,
    fun p c => forward_run p, fun c => run_look, fun goal levels i c hc hlevels => ?_,
    fun goal levels => reads_parse levels goal, reads_binding, reads_statementExpr, reads_path, reads_attr⟩
  have hlength := hc.length_rest
  have hle := hc.le
  exact parse_not_exhausted goal (by omega) i

end EnsembleCompiler.Target
