import EnsembleCompiler.Proofs.Target.Transcripts

/-!
# Brackets and semicolons of a text

The brackets and semicolons among the lexemes of a text are those among its characters, in the same
order, if the text has no string and its comments hold none of them (`Calm`). A file that has a
lexeme has a bracket or a semicolon, and what a nested text begins with cannot be nested from a
greater depth. So a text can be rejected for the characters at which it is cut off.
-/

namespace EnsembleCompiler.Target

/-! ### Marks -/

/-- The brackets and the semicolon. -/
def Symbol.isMark : Symbol → Bool
  | leftParen | rightParen | leftBrace | rightBrace | leftBracket | rightBracket => true
  | semicolon => true
  | _ => false

def Lexeme.isMark : Lexeme → Bool
  | .symbol s => s.isMark
  | _ => false

/-- The marks among lexemes. -/
def marksOf (ls : List Lexeme) : List Lexeme := ls.filter Lexeme.isMark

/-- The marks among characters. -/
def marksIn (cs : List Char) : List Lexeme := marksOf ((cs.filterMap singleSymbol?).map .symbol)

theorem marksOf_cons (x : Lexeme) (ls : List Lexeme) :
    marksOf (x :: ls) = marksOf [x] ++ marksOf ls := by
  rw [marksOf, marksOf, marksOf, ← List.filter_append, List.singleton_append]

theorem marksOf_append (ls ms : List Lexeme) : marksOf (ls ++ ms) = marksOf ls ++ marksOf ms :=
  List.filter_append ..

theorem marksIn_append (cs ds : List Char) : marksIn (cs ++ ds) = marksIn cs ++ marksIn ds := by
  simp [marksIn, marksOf]

theorem marksIn_cons (c : Char) (cs : List Char) : marksIn (c :: cs) = marksIn [c] ++ marksIn cs :=
  marksIn_append [c] cs

theorem marksIn_prefix {cs ds : List Char} (h : cs <+: ds) : marksIn cs <+: marksIn ds := by
  obtain ⟨rest, rfl⟩ := h
  exact ⟨marksIn rest, (marksIn_append cs rest).symm⟩

/-- A character that is no mark. -/
def NoMark (c : Char) : Prop := marksIn [c] = []

theorem NoMark.cons {c : Char} (h : NoMark c) (cs : List Char) : marksIn (c :: cs) = marksIn cs := by
  rw [marksIn_cons, h, List.nil_append]

theorem marksIn_eq_nil {cs : List Char} : marksIn cs = [] ↔ ∀ c ∈ cs, NoMark c := by
  induction cs with
  | nil => simp [marksIn, marksOf]
  | cons c cs ih => rw [marksIn_cons, List.append_eq_nil_iff, ih, List.forall_mem_cons, NoMark]

theorem noMark_of_singleSymbol? {c : Char} (h : ∀ s, singleSymbol? c = some s → s.isMark = false) :
    NoMark c := by
  cases hc : singleSymbol? c with
  | none => simp [NoMark, marksIn, marksOf, hc]
  | some s => simp [NoMark, marksIn, marksOf, hc, Lexeme.isMark, h s hc]

theorem noMark_of_continuesWord {c : Char} (h : continuesWord c = true) : NoMark c := by
  refine noMark_of_singleSymbol? fun s hs => ?_
  unfold singleSymbol? at hs
  split at hs <;> first | exact absurd h (by decide) | cases hs

theorem marksIn_of_isIdentifier {name : String} (h : isIdentifier name = true) :
    marksIn name.toList = [] := by
  obtain ⟨c, word, htext, hc, hword, -⟩ := startsLexeme_ident h
  rw [htext, marksIn_eq_nil, List.forall_mem_cons]
  exact ⟨noMark_of_continuesWord (continuesWord_of_startsWord hc),
    fun d hd => noMark_of_continuesWord (hword d hd)⟩

theorem noMark_of_isAsciiBlank {c : Char} (h : isAsciiBlank c = true) : NoMark c := by
  simp only [isAsciiBlank, Bool.or_eq_true, decide_eq_true_eq] at h
  rcases h with (((rfl | rfl) | rfl) | rfl) | rfl <;> rfl

/-! ### Marks that the reader passes over -/

theorem marksIn_dropWhile {p : Char → Bool} (hp : ∀ c, p c = true → NoMark c) (cs : List Char) :
    marksIn (cs.dropWhile p) = marksIn cs := by
  induction cs with
  | nil => rfl
  | cons c cs ih =>
    rw [List.dropWhile_cons]
    split
    · rename_i hc
      rw [ih, (hp c hc).cons]
    · rfl

theorem noMark_of_continuesDigits {c : Char} (h : continuesDigits c = true) : NoMark c := by
  refine noMark_of_continuesWord ?_
  simp only [continuesDigits, Bool.or_eq_true, decide_eq_true_eq] at h
  rcases h with h | rfl
  · exact continuesWord_of_isDigit h
  · decide

theorem noMark_of_continuesRadix {radix : Nat} (hradix : radix ≤ 36) {c : Char}
    (h : continuesRadix radix c = true) : NoMark c := by
  refine noMark_of_singleSymbol? fun s hs => ?_
  have hfar : ∀ d : Char, digitValue d = 36 → d ≠ '_' → c ≠ d := by
    rintro d hd hne rfl
    simp only [continuesRadix, Bool.or_eq_true, decide_eq_true_eq] at h
    rcases h with h | h
    · omega
    · exact hne h
  unfold singleSymbol? at hs
  split at hs <;> first | exact absurd rfl (hfar _ (by decide) (by decide)) | cases hs

theorem marksIn_splitFraction (cs : List Char) : marksIn (splitFraction cs).2 = marksIn cs := by
  have hpoint : NoMark '.' := rfl
  unfold splitFraction
  split
  · rfl
  · split
    · rw [marksIn_dropWhile fun _ => noMark_of_continuesDigits, hpoint.cons]
    · split
      · rfl
      · rw [hpoint.cons]
  · rfl

theorem marksIn_splitSign (cs : List Char) : marksIn (splitSign cs).2 = marksIn cs := by
  unfold splitSign
  split <;> rfl

theorem marksIn_splitExponentDigits (cs : List Char) :
    marksIn (splitExponentDigits cs).2 = marksIn cs := by
  unfold splitExponentDigits
  split
  · split
    · exact marksIn_dropWhile (fun _ => noMark_of_continuesDigits) _
    · rfl
  · rfl

theorem marksIn_splitExponent (cs : List Char) : marksIn (splitExponent cs).2 = marksIn cs := by
  unfold splitExponent
  split
  · rename_i e rest
    split
    · rename_i he
      have hmark : NoMark e := by
        simp only [Bool.or_eq_true, decide_eq_true_eq] at he
        rcases he with rfl | rfl <;> rfl
      dsimp only
      split
      · rfl
      · rw [marksIn_splitExponentDigits, marksIn_splitSign, hmark.cons]
    · rfl
  · rfl

theorem marksIn_splitSuffix (cs : List Char) : marksIn (splitSuffix cs).2 = marksIn cs := by
  unfold splitSuffix
  split
  · split
    · exact marksIn_dropWhile (fun _ => noMark_of_continuesWord) _
    · rfl
  · rfl

theorem marksIn_scanRadix {radix : Nat} (hradix : radix ≤ 36) (mark : Char) (cs : List Char) :
    marksIn (scanRadix radix mark cs).rest = marksIn cs := by
  rw [scanRadix]
  dsimp only
  rw [marksIn_splitSuffix, marksIn_dropWhile fun _ => noMark_of_continuesRadix hradix]

theorem marksIn_scanNumber (cs : List Char) : marksIn (scanNumber cs).rest = marksIn cs := by
  unfold scanNumber
  split
  · exact marksIn_scanRadix (by decide) _ _
  · exact marksIn_scanRadix (by decide) _ _
  · exact marksIn_scanRadix (by decide) _ _
  · rw [scanDecimal]
    dsimp only
    rw [marksIn_splitSuffix, marksIn_splitExponent, marksIn_splitFraction,
      marksIn_dropWhile fun _ => noMark_of_continuesDigits]

theorem marksOf_ofWord (word : String) : marksOf [.ofWord word] = [] := by
  unfold Lexeme.ofWord
  split
  · rfl
  · split
    · rfl
    · split <;> rfl

theorem marksIn_doubleSymbol? {c d : Char} {s : Symbol} (h : doubleSymbol? c d = some s) :
    NoMark c ∧ NoMark d ∧ marksOf [.symbol s] = [] := by
  unfold doubleSymbol? at h
  split at h <;> first | (cases h; exact ⟨rfl, rfl, rfl⟩) | cases h

theorem marksIn_singleSymbol? {c : Char} {s : Symbol} (h : singleSymbol? c = some s) :
    marksIn [c] = marksOf [.symbol s] := by
  simp [marksIn, h]

theorem marksIn_scanSymbol? {c : Char} {rest : List Char} {s : Scanned}
    (h : scanSymbol? c rest = some s) :
    marksIn (c :: rest) = marksOf [s.lexeme] ++ marksIn s.rest := by
  unfold scanSymbol? at h
  split at h
  · split at h
    · rename_i hdouble
      cases h
      obtain ⟨hc, hd, hs⟩ := marksIn_doubleSymbol? hdouble
      rw [hc.cons, hd.cons, hs, List.nil_append]
    · obtain ⟨s, hs, rfl⟩ := Option.map_eq_some_iff.1 h
      rw [marksIn_cons, marksIn_singleSymbol? hs]
  · obtain ⟨s, hs, rfl⟩ := Option.map_eq_some_iff.1 h
    rw [marksIn_cons, marksIn_singleSymbol? hs]

/-- A lexeme other than a string is a mark if its characters are one. -/
theorem marksIn_scanLexeme? {c : Char} {rest : List Char} {s : Scanned}
    (h : scanLexeme? c rest = some s) (hc : c ≠ '"') :
    marksIn (c :: rest) = marksOf [s.lexeme] ++ marksIn s.rest := by
  unfold scanLexeme? at h
  split at h
  · cases h
    show marksIn (c :: rest) = marksOf [.ofWord _] ++ marksIn ((c :: rest).dropWhile continuesWord)
    rw [marksOf_ofWord, marksIn_dropWhile fun _ => noMark_of_continuesWord, List.nil_append]
  · split at h
    · cases h
      have hnumber := isNumber_scanNumber (c :: rest)
      have hmarks : marksOf [(scanNumber (c :: rest)).lexeme] = [] := by
        cases hlexeme : (scanNumber (c :: rest)).lexeme <;>
          first | rfl | simp [hlexeme, Lexeme.isNumber] at hnumber
      rw [hmarks, marksIn_scanNumber, List.nil_append]
    · exact marksIn_scanSymbol? h

/-! ### Comments -/

/-- There is no string and no block comment in the text, and no mark in its line comments. -/
structure Calm (cs : List Char) : Prop where
  noQuote : '"' ∉ cs
  noStar : '*' ∉ cs
  remarks : ∀ tail, '/' :: tail <:+ cs → marksIn (tail.takeWhile (· ≠ '\n')) = []

theorem Calm.suffix {cs ds : List Char} (h : Calm cs) (hds : ds <:+ cs) : Calm ds :=
  ⟨fun hmem => h.noQuote (hds.mem hmem), fun hmem => h.noStar (hds.mem hmem),
    fun tail htail => h.remarks tail (htail.trans hds)⟩

/-- The beginning of a calm text is calm. -/
theorem Calm.cut {cs ds : List Char} (h : Calm cs) (hds : ds <+: cs) : Calm ds := by
  refine ⟨fun hmem => h.noQuote (hds.mem hmem), fun hmem => h.noStar (hds.mem hmem), ?_⟩
  rintro tail ⟨before, rfl⟩
  obtain ⟨rest, rfl⟩ := hds
  have hremark := h.remarks (tail ++ rest) ⟨before, by simp⟩
  refine marksIn_eq_nil.2 fun c hc => marksIn_eq_nil.1 hremark c ?_
  rw [List.takeWhile_append]
  split
  · exact List.mem_append_left _ ((List.takeWhile_sublist _).mem hc)
  · exact hc

theorem Calm.tail {c : Char} {cs : List Char} (h : Calm (c :: cs)) : Calm cs :=
  h.suffix (List.suffix_cons c cs)

/-- What is known of the text behind a place in the trivia. -/
def TriviaState.Calm : TriviaState → List Char → Prop
  | .between, cs => Target.Calm cs
  | .lineComment, cs => Target.Calm cs ∧ marksIn (cs.takeWhile (· ≠ '\n')) = []
  | .blockComment _ _, _ => False

theorem marksIn_skipTrivia {state : TriviaState} {cs : List Char} (h : state.Calm cs)
    (offset : Nat) : marksIn (skipTrivia state offset cs).rest = marksIn cs := by
  have hslash : NoMark '/' := rfl
  -- a calm text has no block comments, and no marks in its line comments
  fun_induction skipTrivia state offset cs with
  | case1 offset rest ih =>
    have hremark := h.remarks ('/' :: rest) (List.suffix_refl _)
    rw [List.takeWhile_cons_of_pos (by decide), hslash.cons] at hremark
    rw [ih ⟨h.tail.tail, hremark⟩, hslash.cons, hslash.cons]
  | case2 offset rest ih => exact absurd (by simp) h.noStar
  | case3 offset c rest hline hblock hblank ih =>
    rw [ih h.tail, (noMark_of_isAsciiBlank hblank).cons]
  | case4 offset c rest hline hblock hblank => rfl
  | case5 offset c rest ih =>
    obtain ⟨hcalm, hremark⟩ := h
    by_cases hc : c = '\n'
    · have hfeed : NoMark '\n' := rfl
      subst hc
      rw [ih hcalm.tail, hfeed.cons]
    · rw [if_neg hc] at ih
      rw [List.takeWhile_cons_of_pos (by simpa using hc), marksIn_cons,
        List.append_eq_nil_iff] at hremark
      have hmark : NoMark c := hremark.1
      rw [if_neg hc, ih ⟨hcalm.tail, hremark.2⟩, hmark.cons]
  | _ => first | exact h.elim | rfl

/-- The marks of a calm text are those of its lexemes. -/
theorem Tokenizes.marksOf_eq {offset : Nat} {cells : List Cell} {tail : List Char}
    {lexemes : List Lexeme} (h : Tokenizes offset cells tail lexemes)
    (hcalm : Calm (Layout.chars ⟨cells, tail⟩)) :
    marksOf lexemes = marksIn (Layout.chars ⟨cells, tail⟩) := by
  induction h with
  | @finish offset tail hfinish =>
    have hbetween : TriviaState.between.Calm tail := hcalm
    have hskip := marksIn_skipTrivia hbetween offset
    rw [Layout.chars_nil]
    rw [← hskip, hfinish]
    rfl
  | @token offset gap word tail c cells lexeme lexemes hafter hs _ ih =>
    rw [Layout.chars_cons] at hcalm ⊢
    dsimp only at hcalm ⊢
    have hbetween : TriviaState.between.Calm _ := hcalm
    have hskip := marksIn_skipTrivia hbetween offset
    rw [hafter] at hskip
    have hrest : Calm (c :: word ++ Layout.chars ⟨cells, tail⟩) :=
      hcalm.suffix (List.suffix_append gap _)
    have hquote : c ≠ '"' := by
      rintro rfl
      exact hrest.noQuote (by simp)
    have hlexeme := marksIn_scanLexeme? hs hquote
    rw [marksOf_cons, ih (hrest.suffix (List.suffix_append _ _)), ← hlexeme]
    exact hskip

/-- The marks of a text without faults that is calm. -/
theorem marksOf_lexemesOf {source : String} (h : (scan source).faults = [])
    (hcalm : Calm source.toList) : marksOf (lexemesOf source) = marksIn source.toList := by
  obtain ⟨cells, tail, hof, hreads⟩ := Layout.exists_isOf h
  rw [← hof.text] at hcalm ⊢
  exact hreads.marksOf_eq hcalm

/-- The marks of a text that spells lexemes. -/
theorem Spells.marksIn_eq {cs : List Char} {ls : List Lexeme} (h : Spells cs ls)
    (hcalm : Calm cs) : marksIn cs = marksOf ls := by
  have htext : (String.ofList cs).toList = cs := String.toList_ofList
  rw [← htext] at h hcalm
  obtain ⟨hfaults, hlexemes⟩ := h.scan
  have hmarks := marksOf_lexemesOf hfaults hcalm
  rw [htext] at hmarks
  rw [← hmarks, ← hlexemes]
  rfl

/-! ### Depths -/

theorem nested_marksOf {depth : Nat} {ls : List Lexeme} :
    Nested depth (marksOf ls) ↔ Nested depth ls := by
  induction ls generalizing depth with
  | nil => rfl
  | cons x ls ih =>
    rw [marksOf, List.filter_cons]
    split
    · simp only [Nested]
      split <;> simp [← ih, marksOf]
    · rename_i hmark
      have hquiet : Nested depth (x :: ls) ↔ Nested depth ls := by
        cases x with
        | symbol s => cases s <;> first | exact absurd rfl hmark | rfl
        | keyword k => cases k <;> rfl
        | _ => rfl
      rw [hquiet, ← ih, marksOf]

theorem nested_flatMap {α : Type} {as : List α} {f : α → List Lexeme}
    (h : ∀ a ∈ as, Nested 0 (f a)) : Nested 0 (as.flatMap f) := by
  induction as with
  | nil => rfl
  | cons a as ih =>
    rw [List.flatMap_cons]
    exact (h a (by simp)).append (ih fun b hb => h b (by simp [hb]))

/-- A nested list begins with no list that is nested from a greater depth. -/
theorem Nested.le_of_prefix {depth inner : Nat} {ls ms : List Lexeme} (h : Nested depth ls)
    (hinner : Nested inner ms) (hbegins : ls <+: ms) : depth ≤ inner := by
  -- both depths change by the same amount with every lexeme
  induction ls generalizing depth inner ms with
  | nil =>
    obtain rfl : depth = 0 := h
    omega
  | cons x ls ih =>
    obtain ⟨rest, rfl⟩ := hbegins
    rw [List.cons_append] at hinner
    unfold Nested at h hinner
    cases hrole : x.role with
    | opener b =>
      rw [hrole] at h hinner
      have hnext := ih h hinner ⟨rest, rfl⟩
      omega
    | closer b =>
      rw [hrole] at h hinner
      have hnext := ih h.2 hinner.2 ⟨rest, rfl⟩
      have hpositive := hinner.1
      omega
    | _ =>
      rw [hrole] at h hinner
      exact ih h hinner ⟨rest, rfl⟩

/-! ### Files have marks -/

theorem marksOf_ne_nil {x : Lexeme} {ls : List Lexeme} (hx : x ∈ ls) (hmark : x.isMark = true) :
    marksOf ls ≠ [] :=
  List.ne_nil_of_mem (List.mem_filter.2 ⟨hx, hmark⟩)

theorem Item.Written.marksOf_ne_nil {m : Manner} {i : Item Unit} {ls : List Lexeme}
    (h : Item.Written m i ls) : marksOf ls ≠ [] := by
  cases h with
  | module => exact Target.marksOf_ne_nil (x := .symbol .rightBrace) (by simp) rfl
  | function => exact Target.marksOf_ne_nil (x := .symbol .leftParen) (by simp) rfl
  | _ => exact Target.marksOf_ne_nil (x := .symbol .semicolon) (by simp) rfl

theorem Attribute.Written.marksOf_ne_nil {m : Manner} {a : Attribute Unit} {ls : List Lexeme}
    (h : Attribute.Written m a ls) : marksOf ls ≠ [] := by
  have hbracket : ∀ arguments, marksOf (a.lexemesWith arguments) ≠ [] := fun arguments =>
    Target.marksOf_ne_nil (x := .symbol .leftBracket) (by simp [Attribute.lexemesWith]) rfl
  cases h with
  | bare => exact hbracket []
  | applied => exact hbracket _

theorem Series.eq_nil_of_marksOf {α : Type} {P : α → List Lexeme → Prop} {as : List α}
    {ls : List Lexeme} (h : Series P as ls) (hP : ∀ a ls, P a ls → marksOf ls ≠ [])
    (hls : marksOf ls = []) : ls = [] := by
  cases h with
  | nil => rfl
  | cons ha _ =>
    rw [marksOf_append, List.append_eq_nil_iff] at hls
    exact absurd hls.1 (hP _ _ ha)

/-- The lexemes of a file hold a bracket or a semicolon, if there are any. -/
theorem eq_nil_of_marksOf {ls : List Lexeme} {file : File Unit} (h : File.Written .free file ls)
    (hls : marksOf ls = []) : ls = [] := by
  obtain ⟨hattributes, hitems⟩ := h
  rw [marksOf_append, List.append_eq_nil_iff] at hls
  rw [hattributes.eq_nil_of_marksOf (fun _ _ => Attribute.Written.marksOf_ne_nil) hls.1,
    hitems.eq_nil_of_marksOf (fun _ _ => Item.Written.marksOf_ne_nil) hls.2, List.nil_append]

/-! ### Accepted texts -/

section

variable {source : String}

/-- The marks of an accepted text that is calm are nested. -/
theorem nested_of_check (h : check source = []) (hcalm : Calm source.toList) :
    Nested 0 (marksIn source.toList) := by
  obtain ⟨hfaults, tree, htree⟩ := accepted_of_check h
  rw [← marksOf_lexemesOf hfaults hcalm]
  exact nested_marksOf.2 (bracketed_of_ofLexemes htree).nested

/-- An accepted text that is calm and has no marks is passed over. -/
theorem skipTrivia_of_check (h : check source = []) (hcalm : Calm source.toList)
    (hmarks : marksIn source.toList = []) : (skipTrivia .between 0 source.toList).rest = [] := by
  obtain ⟨hfaults, tree, htree⟩ := accepted_of_check h
  obtain ⟨cells, tail, hof, hreads⟩ := Layout.exists_isOf hfaults
  have hnil : lexemesOf source = [] := by
    refine eq_nil_of_marksOf (written_of_ofLexemes hreads.genuine htree) ?_
    rw [marksOf_lexemesOf hfaults hcalm, hmarks]
  rw [hnil] at hreads
  rw [← hof.text]
  cases hreads with
  | finish hfinish => rw [Layout.chars_nil, hfinish]

end

end EnsembleCompiler.Target
