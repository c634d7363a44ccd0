import EnsembleCompiler.Proofs.Target.Progress

/-!
# The first error of a text

The diagnostic for a syntax error is decided by the tokens up to the one at which the parser stands,
and the one after it. Its message and its span show what stands there; the one cause that names an
earlier token, that of a block that is still open, stands at the end of the text.

Main statement: `TokenList.first_error`.
-/

namespace EnsembleCompiler.Target

open Target.Parser Grammar

/-- The tokens of a text, and the span of the end of the text behind them. -/
structure TokenList where
  tokens : List Token
  stop : Span

namespace TokenList

def lexemes (t : TokenList) : List Lexeme := t.tokens.map (·.lexeme)

/-- What stands at each place, and its span. No lexeme stands at the end, which is the last place. -/
def entries (t : TokenList) : List (Option Lexeme × Span) :=
  t.tokens.map (fun token => (some token.lexeme, token.span)) ++ [(none, t.stop)]

/-- The span of a place; all places behind the tokens are the end. -/
def spanAt (t : TokenList) (i : Nat) : Span :=
  match t.tokens[i]? with
  | some token => token.span
  | none => t.stop

/-- The diagnostic for a syntax error among the tokens. -/
def diagnostic (t : TokenList) (e : SyntaxError) : Diagnostic :=
  ⟨.error, e.cause.message (t.tokens[e.position]?.map (·.lexeme)), t.spanAt e.position,
    e.cause.notes, e.cause.help fun i => (t.spanAt i).start⟩

/-- The places of the lexemes. -/
@[reducible] def spans (t : TokenList) : Places Span where
  token := t.spanAt
  merge := Span.merge
  dummy := .dummy

/-- The syntax tree of the tokens, or their syntax error. -/
def tree (t : TokenList) : Except SyntaxError (File Span) := @File.ofLexemes Span t.spans t.lexemes

/-- The syntax tree of the tokens, or the diagnostics of what is not one. -/
def parseFile (t : TokenList) : Except (List Diagnostic) (File Span) :=
  match t.tree with
  | .ok file => .ok file
  | .error e => .error [t.diagnostic e]

end TokenList

/-- The tokens of a scanned text. -/
def Scan.tokenList (s : Scan) : TokenList := ⟨s.tokens, ⟨s.stop, s.stop⟩⟩

theorem Scan.tree_eq_parseFile {s : Scan} (h : s.faults = []) : s.tree = s.tokenList.parseFile := by
  have hspan (i : Nat) : (spans s.tokens.toArray s.stop).token i = s.tokenList.spanAt i := by
    show (⟨startOf s.tokens.toArray s.stop i, stopOf s.tokens.toArray s.stop i⟩ : Span) = _
    unfold TokenList.spanAt startOf stopOf
    rw [List.getElem?_toArray]
    show _ = (match s.tokens[i]? with | some token => token.span | none => _)
    cases s.tokens[i]? <;> rfl
  have hplaces : spans s.tokens.toArray s.stop = s.tokenList.spans :=
    congrArg (Places.mk · Span.merge Span.dummy) (funext hspan)
  have hdiagnostic (e : SyntaxError) :
      e.diagnostic s.tokens.toArray s.stop = s.tokenList.diagnostic e := by
    have hstart (i : Nat) : startOf s.tokens.toArray s.stop i = (s.tokenList.spanAt i).start :=
      congrArg Span.start (hspan i)
    simp only [SyntaxError.diagnostic, TokenList.diagnostic, hspan, funext hstart,
      List.getElem?_toArray]
    rfl
  rw [Scan.tree_eq h, hplaces]
  simp only [hdiagnostic]
  rfl

namespace TokenList

variable {t u : TokenList} {i n : Nat}

theorem length_entries (t : TokenList) : t.entries.length = t.tokens.length + 1 := by
  simp [entries]

theorem getElem?_entries (h : i ≤ t.tokens.length) :
    t.entries[i]? = some (t.tokens[i]?.map (·.lexeme), t.spanAt i) := by
  unfold entries spanAt
  rcases Nat.lt_or_eq_of_le h with hlt | rfl
  · rw [List.getElem?_append_left (by simpa using hlt), List.getElem?_map,
      List.getElem?_eq_getElem hlt]
    rfl
  · rw [List.getElem?_append_right (by simp)]
    simp

/-- The lexemes at the first places. -/
theorem take_lexemes (t : TokenList) (n : Nat) :
    t.lexemes.take n = (t.entries.take n).filterMap Prod.fst := by
  have hend (k : Nat) : (List.take k [((none : Option Lexeme), t.stop)]).filterMap Prod.fst = [] := by
    cases k <;> simp
  rw [entries, List.take_append, List.filterMap_append, hend, List.append_nil, ← List.map_take,
    List.filterMap_map, lexemes, ← List.map_take, ← List.filterMap_eq_map]
  rfl

/-- What stands at all places is all that there is of a list of tokens. -/
theorem eq_of_entries_eq (h : t.entries = u.entries) : t = u := by
  obtain ⟨htokens, hstop⟩ := List.append_inj' h rfl
  obtain ⟨ts, stop⟩ := t
  obtain ⟨us, stop'⟩ := u
  obtain rfl : stop = stop' := by simpa using hstop
  have hinjective : Function.Injective fun token : Token => (some token.lexeme, token.span) := by
    rintro ⟨l, s⟩ ⟨l', s'⟩ h
    simpa using h
  obtain rfl : ts = us := List.map_injective_iff.2 hinjective htokens
  rfl

/-- A place of both lists of tokens that agree on the first places. -/
theorem le_length_of_take_eq (hi : i ≤ t.tokens.length) (hn : i < n)
    (h : u.entries.take n = t.entries.take n) :
    i ≤ u.tokens.length ∧ u.tokens[i]?.map (·.lexeme) = t.tokens[i]?.map (·.lexeme) ∧
      u.spanAt i = t.spanAt i := by
  have hentry := congrArg (·[i]?) h
  simp only [List.getElem?_take_of_lt hn, getElem?_entries hi] at hentry
  have hlength := (List.getElem?_eq_some_iff.1 hentry).1
  rw [length_entries] at hlength
  have hle : i ≤ u.tokens.length := by omega
  rw [getElem?_entries hle] at hentry
  simpa [hle] using hentry

/-- Lists of tokens that agree up to the end of one of them are the same. -/
theorem eq_of_take_eq (hn : t.tokens.length < n) (h : u.entries.take n = t.entries.take n) :
    u = t := by
  obtain ⟨hle, hlexeme, -⟩ := le_length_of_take_eq (Nat.le_refl _) hn h
  have hend : u.tokens.length ≤ t.tokens.length := by simpa using hlexeme
  rw [List.take_of_length_le (by rw [length_entries]; omega),
    List.take_of_length_le (by rw [length_entries]; omega)] at h
  exact eq_of_entries_eq h

/-! ### The first error -/

variable {cause : SyntaxCause}

theorem length_lexemes (t : TokenList) : t.lexemes.length = t.tokens.length := List.length_map _

/-- The parser stands at one of the tokens or at the end. -/
theorem le_length_of_error (h : t.tree = .error ⟨i, cause⟩) : i ≤ t.tokens.length := by
  let := t.spans
  rw [tree, ofLexemes_eq (Nat.lt_succ_self _), Reply.result_eq_error] at h
  have hafter := (file (σ := Span) (Grammar.parse (t.lexemes.length + 1) .item)).after ⟨0, t.lexemes⟩
  unfold fileWithin at h
  rw [h] at hafter
  have hle : i ≤ 0 + t.lexemes.length := hafter.2
  rw [length_lexemes] at hle
  omega

/-- A syntax error does not depend on places: it is that of a parser with enough levels. -/
theorem tree_eq_error {levels : Nat} (hlevels : t.lexemes.length < levels) :
    t.tree = .error ⟨i, cause⟩ ↔
      (fileWithin levels t.lexemes : Reply (File Unit)) = .failed i cause := by
  let := t.spans
  rw [← Reply.result_eq_error, ← ofLexemes_eq hlevels, ofLexemes_erase (σ := Span),
    show (File.ofLexemes t.lexemes : Except SyntaxError (File Span)) = t.tree from rfl]
  cases t.tree <;> simp [Except.map]

/-- The place and the cause of the first error are those of every list with the same first places. -/
theorem tree_of_take_eq (h : t.tree = .error ⟨i, cause⟩)
    (hsame : u.entries.take (i + 2) = t.entries.take (i + 2)) :
    u.tree = .error ⟨i, cause⟩ := by
  -- both lists are read with levels that are enough for either, and without places
  have ht : t.lexemes.length < t.lexemes.length + u.lexemes.length + 1 := by omega
  have hu : u.lexemes.length < t.lexemes.length + u.lexemes.length + 1 := by omega
  rw [tree_eq_error ht] at h
  rw [tree_eq_error hu]
  have hagree : (⟨0, t.lexemes⟩ : Cursor).Agree ⟨0, u.lexemes⟩ (i - 0 + 2) := by
    refine ⟨rfl, ?_⟩
    show t.lexemes.take (i - 0 + 2) = u.lexemes.take (i - 0 + 2)
    rw [Nat.sub_zero, take_lexemes, take_lexemes, hsame]
  unfold fileWithin at h ⊢
  have hverdict := (file (Grammar.parse _ .item)).isLocal ⟨0, t.lexemes⟩ ⟨0, u.lexemes⟩
    (by rw [h]; exact hagree)
  rw [h] at hverdict
  exact Reply.verdict_failed hverdict

/-- No cause but that of an open block names an earlier token. -/
theorem help_congr (h : ∀ opener, cause ≠ .openBlock opener) (f g : Nat → Nat) :
    cause.help f = cause.help g := by
  cases cause with
  | openBlock opener => exact absurd rfl (h opener)
  | _ => rfl

theorem diagnostic_of_take_eq (h : t.tree = .error ⟨i, cause⟩)
    (hsame : u.entries.take (i + 2) = t.entries.take (i + 2)) :
    u.diagnostic ⟨i, cause⟩ = t.diagnostic ⟨i, cause⟩ := by
  by_cases hopen : ∃ opener, cause = .openBlock opener
  · -- the end is among the first places, so there is nothing else
    obtain ⟨opener, rfl⟩ := hopen
    rw [tree_eq_error (Nat.lt_succ_self _)] at h
    have hend := eq_length_of_openBlock h
    rw [length_lexemes] at hend
    rw [eq_of_take_eq (by omega) hsame]
  · obtain ⟨-, hlexeme, hspan⟩ := le_length_of_take_eq (le_length_of_error h) (by omega) hsame
    simp only [diagnostic, hlexeme, hspan, help_congr (not_exists.1 hopen) (fun j => (u.spanAt j).start)
      fun j => (t.spanAt j).start]

/-- **The first error does not depend on what follows.** Where tokens are no file, with the parser
standing at place `i`, there is exactly one diagnostic, and its span is that of place `i`. All other
tokens that agree with these on the first `i + 2` places, or on all if there are fewer, have the same
diagnostic alone; so has every text without lexical faults whose tokens do. -/
theorem first_error (h : t.tree = .error ⟨i, cause⟩) :
    ∃ here d, t.parseFile = .error [d] ∧ t.entries[i]? = some (here, d.span) ∧
      (∀ u : TokenList, u.entries.take (i + 2) = t.entries.take (i + 2) →
        u.parseFile = .error [d]) ∧
      ∀ source, (scan source).faults = [] →
        (scan source).tokenList.entries.take (i + 2) = t.entries.take (i + 2) →
        parse source = .error [d] := by
  have hothers (u : TokenList) (hu : u.entries.take (i + 2) = t.entries.take (i + 2)) :
      u.parseFile = .error [t.diagnostic ⟨i, cause⟩] := by
    unfold parseFile
    rw [tree_of_take_eq h hu, ← diagnostic_of_take_eq h hu]
  refine ⟨_, t.diagnostic ⟨i, cause⟩, hothers t rfl, getElem?_entries (le_length_of_error h), hothers,
    fun source hfaults hsame => ?_⟩
  rw [show parse source = (scan source).tree from rfl, Scan.tree_eq_parseFile hfaults,
    hothers _ hsame]

/-- A constant without a value, and another item. -/
def missingValue : TokenList := (scan "const A: u8 = ; mod a;").tokenList

theorem first_error_missingValue :
    missingValue.tree = .error ⟨5, .expected .expression⟩ ∧
      ∃ d, missingValue.parseFile = .error [d] ∧ d.span = ⟨14, 15⟩ ∧
        parse "const A: u8 = ; mod )" = .error [d] := by
  have h : missingValue.tree = .error ⟨5, .expected .expression⟩ := by
    have herror : (match missingValue.tree with
        | .ok _ => none
        | .error e => some e) = some ⟨5, .expected .expression⟩ := by decide +kernel
    cases hresult : missingValue.tree <;> simp [hresult] at herror
    rw [herror]
  obtain ⟨here, d, hparse, hspan, -, hothers⟩ := first_error h
  have hentry : missingValue.entries[5]? = some (some (.symbol .semicolon), ⟨14, 15⟩) := by
    decide +kernel
  rw [hentry, Option.some.injEq, Prod.mk.injEq] at hspan
  exact ⟨h, d, hparse, hspan.2.symm, hothers _ (by decide +kernel) (by decide +kernel)⟩

end TokenList

end EnsembleCompiler.Target
