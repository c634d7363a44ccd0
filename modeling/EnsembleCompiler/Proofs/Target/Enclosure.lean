import EnsembleCompiler.Proofs.Target.Declarations
import EnsembleCompiler.Proofs.Target.Levels
import EnsembleCompiler.Target.Check

/-!
# Brackets of accepted texts

In an accepted text, every closer closes the opener that was opened last, and no bracket stays
open. The closer is of the opener's kind, unless the opener stands among the arguments of an
attribute: these are passed over with one count for the brackets of all kinds.
-/

namespace EnsembleCompiler.Target

open Target.Parser Grammar

variable {α κ σ : Type} [Places σ]

/-- The lexemes of a text. -/
def lexemesOf (source : String) : List Lexeme := (scan source).tokens.map (·.lexeme)

/-- What holds wherever a turn leaves a loop holds where the loop ends. -/
theorem loopRun_leaves {turn : κ → Parser (Turn κ α)} {P : Cursor → Prop}
    (hturn : ∀ s c a d, (turn s).run c = .done (.leave a) d → P d) {s : κ} {c d : Cursor} {a : α}
    (h : loopRun turn s c = .done a d) : P d := by
  fun_induction loopRun turn s c with
  | case1 s c p e hrun => cases h
  | case2 s c b e hrun =>
    cases h
    exact hturn s c a d hrun
  | case3 s c s' e hrun hlt ih => exact ih h
  | case4 s c s' e hrun hlt => cases h

/-- A file is read to the end of its lexemes. -/
theorem rest_of_file {item : Parser (Item σ)} {c d : Cursor} {tree : File σ}
    (h : (file item).run c = .done tree d) : d.rest = [] := by
  unfold file at h
  obtain ⟨attributes, e, -, h⟩ := bind_done h
  obtain ⟨items, e', hloop, hpure⟩ := bind_done h
  cases hpure
  -- the loop over the items is left in one place, where no lexeme is left
  refine loopRun_leaves (P := fun d => d.rest = []) (fun s c a d hturn => ?_) hloop
  obtain ⟨x, e, hpeek, hturn⟩ := bind_done hturn
  cases hpeek
  obtain ⟨m, _ | ⟨y, ls⟩⟩ := c
  · cases hturn
    rfl
  · obtain ⟨i, e, -, hpure⟩ := bind_done hturn
    cases hpure

/-- The lexemes of a tree are bracketed, as far as attributes are not concerned. -/
theorem bracketed_of_ofLexemes {ls : List Lexeme} {tree : File σ}
    (h : File.ofLexemes ls = .ok tree) : Bracketed .series ls := by
  let item : Parser (Item σ) := Grammar.parse (ls.length + 1) .item
  have hitem : Keeps .series 0 Always item Always := keeps_parse .item (ls.length + 1) 0 (.inl rfl)
  have hfile : Keeps .series 0 Always (file item) Never := keeps_file hitem
  have hr := hfile ⟨0, ls⟩ trivial
  rw [ofLexemes_eq_result, Reply.result_eq_ok] at h
  obtain ⟨d, hrun⟩ := h
  rw [show (file item).run ⟨0, ls⟩ = .done tree d from hrun] at hr
  obtain ⟨ms, hms, hbracketed, -⟩ := hr
  have hrest : d.rest = [] := rest_of_file hrun
  rw [hrest, List.append_nil] at hms
  dsimp only at hms
  rwa [hms]

/-! ### Accepted texts -/

/-- A host refuses a text for its depth, and because it does not start the thread. -/
theorem Host.refuses?_eq_some {host : Host} {depth : Nat} {d : Diagnostic} :
    host.refuses? depth = some d ↔ inlineNesting < depth ∧
      ∃ reason, host.refusal? (parserStack depth) = some reason ∧
        d = threadDiagnostic depth reason := by
  unfold Host.refuses?
  split
  · next h => simp [Nat.not_lt.2 h]
  · next h =>
    rw [Option.map_eq_some_iff]
    constructor
    · rintro ⟨reason, hreason, rfl⟩
      exact ⟨Nat.lt_of_not_le h, reason, hreason, rfl⟩
    · rintro ⟨-, reason, hreason, rfl⟩
      exact ⟨reason, hreason, rfl⟩

theorem Host.refuses?_ample (depth : Nat) : Host.ample.refuses? depth = none := by
  unfold Host.refuses?
  split <;> rfl

/-- On a host, the tree of a text without lexical faults is that of its lexemes, unless the host
cannot parse it. -/
theorem Scan.treeOn_of_lexemes (host : Host) {s : Scan} (hfaults : s.faults = []) :
    s.treeOn host = match host.refuses? (nestingDepth (s.tokens.map (·.lexeme))) with
      | some diagnostic => .error [diagnostic]
      | none =>
        match @File.ofLexemes Span (spans s.tokens.toArray s.stop) (s.tokens.map (·.lexeme)) with
        | .ok file => .ok file
        | .error e => .error [e.diagnostic s.tokens.toArray s.stop] :=
  if_pos (List.isEmpty_iff.mpr hfaults)

/-- The tree of a text without lexical faults is that of its lexemes, and its one diagnostic that of
their syntax error. -/
theorem Scan.tree_eq {s : Scan} (hfaults : s.faults = []) :
    s.tree = match @File.ofLexemes Span (spans s.tokens.toArray s.stop) (s.tokens.map (·.lexeme)) with
      | .ok file => .ok file
      | .error e => .error [e.diagnostic s.tokens.toArray s.stop] := by
  have htree := Scan.treeOn_of_lexemes .ample hfaults
  rw [Host.refuses?_ample] at htree
  exact htree

/-- A host decides no more than whether a text is parsed. -/
theorem Scan.treeOn_eq (host : Host) {s : Scan} (hfaults : s.faults = []) :
    s.treeOn host = match host.refuses? (nestingDepth (s.tokens.map (·.lexeme))) with
      | some diagnostic => .error [diagnostic]
      | none => s.tree := by
  rw [Scan.tree_eq hfaults]
  exact Scan.treeOn_of_lexemes host hfaults

theorem Scan.treeOn_faults (host : Host) {s : Scan} (hfaults : s.faults ≠ []) :
    s.treeOn host = .error (s.faults.map (·.diagnostic)) := by
  rw [Scan.treeOn, if_neg (by rwa [List.isEmpty_iff])]

theorem Scan.tree_faults {s : Scan} (hfaults : s.faults ≠ []) :
    s.tree = .error (s.faults.map (·.diagnostic)) :=
  Scan.treeOn_faults .ample hfaults

/-- What any host accepts is accepted where every thread can be started, with the same tree. -/
theorem parse_of_parseOn {host : Host} {source : String} {file : File Span}
    (h : parseOn host source = .ok file) : parse source = .ok file := by
  rw [parseOn] at h
  by_cases hfaults : (scan source).faults = []
  · rw [Scan.treeOn_eq host hfaults] at h
    split at h
    · cases h
    · exact h
  · rw [Scan.treeOn_faults host hfaults] at h
    cases h

/-- The tree of a scanned text is one of its lexemes. -/
theorem Scan.ofLexemes_of_tree {s : Scan} {file : File Span} (h : s.tree = .ok file) :
    s.faults = [] ∧
      @File.ofLexemes Span (spans s.tokens.toArray s.stop) (s.tokens.map (·.lexeme)) = .ok file := by
  by_cases hfaults : s.faults = []
  · refine ⟨hfaults, ?_⟩
    rw [Scan.tree_eq hfaults] at h
    split at h
    · next htree =>
      cases h
      exact htree
    · cases h
  · rw [Scan.tree_faults hfaults] at h
    cases h

/-- Of an accepted text a host reports nothing, or that it cannot parse it. -/
theorem checkOn_of_parse (host : Host) {source : String} {file : File Span}
    (h : parse source = .ok file) :
    checkOn host source = (host.refuses? (nestingDepth (lexemesOf source))).toList := by
  obtain ⟨hfaults, -⟩ := Scan.ofLexemes_of_tree h
  rw [checkOn, parseOn, Scan.treeOn_eq host hfaults, lexemesOf]
  cases host.refuses? (nestingDepth ((scan source).tokens.map (·.lexeme))) with
  | none =>
    rw [show (scan source).tree = .ok file from h]
    rfl
  | some d => rfl

/-- A text whose lexemes have a tree is accepted, with that tree up to places. -/
theorem Scan.tree_of_ofLexemes {s : Scan} {tree : File Unit} (hfaults : s.faults = [])
    (h : File.ofLexemes (s.tokens.map (·.lexeme)) = .ok tree) :
    ∃ file, s.tree = .ok file ∧ file.erase = tree := by
  let := spans s.tokens.toArray s.stop
  rw [ofLexemes_erase (σ := Span)] at h
  rw [Scan.tree_eq hfaults]
  cases hfile : (File.ofLexemes (s.tokens.map (·.lexeme)) : Except SyntaxError (File Span)) with
  | ok file =>
    rw [hfile] at h
    exact ⟨file, rfl, Except.ok.inj h⟩
  | error e =>
    rw [hfile] at h
    cases h

/-- An accepted text has a syntax tree. -/
theorem parse_of_check {source : String} (h : check source = []) :
    ∃ file, parse source = .ok file := by
  cases hparse : parse source with
  | ok file => exact ⟨file, rfl⟩
  | error diagnostics =>
    rw [check, checkOn, show parseOn .ample source = .error diagnostics from hparse] at h
    subst h
    -- an error comes with a diagnostic, be it lexical or of the syntax
    by_cases hfaults : (scan source).faults = []
    · have htree := Scan.tree_eq hfaults
      rw [show (scan source).tree = .error [] from hparse] at htree
      split at htree <;> simp at htree
    · have htree := Scan.tree_faults hfaults
      rw [show (scan source).tree = .error [] from hparse] at htree
      simp [hfaults] at htree

/-- The tree of a text without its places is that of its lexemes. -/
theorem tree_of_parse {source : String} {file : File Span} (h : parse source = .ok file) :
    (scan source).faults = [] ∧ File.ofLexemes (lexemesOf source) = .ok file.erase := by
  obtain ⟨hfaults, hfile⟩ := Scan.ofLexemes_of_tree h
  refine ⟨hfaults, ?_⟩
  let := spans (scan source).tokens.toArray (scan source).stop
  rw [ofLexemes_erase (σ := Span), lexemesOf, hfile]
  rfl

theorem parse_of_tree {source : String} {tree : File Unit} (hfaults : (scan source).faults = [])
    (h : File.ofLexemes (lexemesOf source) = .ok tree) :
    ∃ file, parse source = .ok file ∧ file.erase = tree :=
  Scan.tree_of_ofLexemes hfaults h

theorem accepted_of_check {source : String} (h : check source = []) :
    (scan source).faults = [] ∧ ∃ tree : File Unit, File.ofLexemes (lexemesOf source) = .ok tree := by
  obtain ⟨file, hparse⟩ := parse_of_check h
  obtain ⟨hfaults, htree⟩ := tree_of_parse hparse
  exact ⟨hfaults, file.erase, htree⟩

/-- An accepted text is bracketed, up to the arguments of its attributes; without attributes it
is bracketed in the strict sense. -/
theorem check_bracketed {source : String} (h : check source = []) :
    BracketedUpToArguments (lexemesOf source) ∧
      (.symbol .hash ∉ lexemesOf source → WellBracketed (lexemesOf source)) := by
  obtain ⟨-, tree, htree⟩ := accepted_of_check h
  have hbracketed := bracketed_of_ofLexemes htree
  exact ⟨hbracketed.upToArguments, hbracketed.wellBracketed⟩

theorem check_bracketed_index : check "fn f() \x7b a[0] \x7d" = [] ∧
    WellBracketed (lexemesOf "fn f() \x7b a[0] \x7d") := by
  have hcheck : check "fn f() \x7b a[0] \x7d" = [] := List.isEmpty_iff.mp (by decide +kernel)
  exact ⟨hcheck, (check_bracketed hcheck).2 (by decide +kernel)⟩

/-- Among the arguments of an attribute, a bracket may be closed by one of another kind. -/
theorem check_mixedArguments :
    check "#![a(]]" = [] ∧ ¬ WellBracketed (lexemesOf "#![a(]]") := by
  have hcheck : check "#![a(]]" = [] := List.isEmpty_iff.mp (by decide +kernel)
  exact ⟨hcheck, by decide +kernel⟩

end EnsembleCompiler.Target
