import EnsembleCompiler.Proofs.Emission.ModuleTree
import EnsembleCompiler.Proofs.Target.Blocks
import EnsembleCompiler.Proofs.Target.Numbers

/-!
# The lines of a generated module

Every line of a generated text is a line of pieces, and so the lexemes of the text are known. The
lines of a tree, which are made with a list of pending steps, are those of its two subtrees between
lines of their own.
-/

namespace EnsembleCompiler

open Target

/-! ### Lines of text -/

/-- A line of text, with its line feed, is read as the lexemes `ls`. -/
def WritesLine (text : String) (ls : List Lexeme) : Prop := Writes (text.toList ++ ['\n']) ls

/-- Lines of text are read as the lexemes `ls`. -/
def WritesLines (lines : List String) (ls : List Lexeme) : Prop :=
  Writes (lines.flatMap fun line => line.toList ++ ['\n']) ls

theorem writesLines_nil : WritesLines [] [] := writes_nil

theorem WritesLine.lines {text : String} {ls : List Lexeme} (h : WritesLine text ls) :
    WritesLines [text] ls := by
  rw [WritesLines, List.flatMap_singleton]
  exact h

theorem WritesLines.append {xs ys : List String} {ls ms : List Lexeme} (hxs : WritesLines xs ls)
    (hys : WritesLines ys ms) : WritesLines (xs ++ ys) (ls ++ ms) := by
  rw [WritesLines, List.flatMap_append]
  exact Writes.append hxs hys

theorem writesLines_map {α : Type} {xs : List α} {f : α → String} {g : α → List Lexeme}
    (h : ∀ x ∈ xs, WritesLine (f x) (g x)) : WritesLines (xs.map f) (xs.flatMap g) := by
  rw [WritesLines, List.flatMap_map]
  exact writes_flatMap h

theorem writesLine_pieces {text : String} (line : List Piece) (hline : WellSpaced line)
    (htext : text.toList = lineChars line) : WritesLine text (lineLexemes line) := by
  rw [WritesLine, htext]
  exact hline.writes

theorem WritesLine.indent {text : String} {ls : List Lexeme} (level : Nat)
    (h : WritesLine text ls) : WritesLine (indent level ++ text) ls := by
  have hblanks : Trivia (EnsembleCompiler.indent level).toList := by
    refine trivia_blanks fun c hc => ?_
    rw [EnsembleCompiler.indent, String.toList_ofList] at hc
    rw [(List.mem_replicate.1 hc).2]
    decide
  rw [WritesLine, String.toList_append, List.append_assoc]
  exact hblanks.writes.append h

theorem writesLine_blank : WritesLine "" [] := Trivia.writes (trivia_blank (by decide))

theorem writesLine_comment {text : String} (h : '\n' ∉ text.toList) :
    WritesLine ("//" ++ text) [] := by
  have htext : ("//" ++ text).toList ++ ['\n'] = '/' :: '/' :: text.toList ++ ['\n'] := by
    simp [String.toList_append]
  rw [WritesLine, htext]
  exact Trivia.writes (trivia_lineComment h)

/-- A line feed behind the last line, too, makes a text of ended lines. -/
theorem toList_joinLines {lines : List String} (h : lines ≠ []) :
    (joinLines lines ++ "\n").toList = lines.flatMap fun line => line.toList ++ ['\n'] := by
  rw [joinLines, String.toList_append, String.toList_intercalate]
  induction lines with
  | nil => exact absurd rfl h
  | cons line lines ih =>
    cases lines with
    | nil => simp
    | cons next lines =>
      have hrest := ih (by simp)
      simp only [List.map_cons, List.flatMap_cons] at hrest ⊢
      rw [List.intercalate_cons_cons, List.append_assoc, List.append_assoc, hrest]
      simp

/-! ### Pieces -/

def space : Piece := .blanks [' ']

@[simp] theorem valid_space : space.Valid :=
  ⟨by simp, .cons (by decide), trivia_blank (by decide)⟩

@[simp] theorem valid_keyword (k : Keyword) : (Piece.keyword k).Valid ↔ True := Iff.rfl

@[simp] theorem valid_ident (name : String) :
    (Piece.ident name).Valid ↔ isIdentifier name = true := Iff.rfl

@[simp] theorem valid_symbol (s : Symbol) : (Piece.symbol s).Valid ↔ s.isPlain = true := Iff.rfl

@[simp] theorem valid_run (cs : List Char) (ls : List Lexeme) :
    (Piece.run cs ls).Valid ↔ Piece.ReadsAs cs ls := Iff.rfl

/-- The piece of a natural number. -/
def numberPiece (n : Nat) : Piece := .run (Nat.repr n).toList [.integer n none]

theorem valid_numberPiece {n : Nat} (h : n < 2 ^ 64) : (numberPiece n).Valid := by
  have hlt : n < integerBound := Nat.lt_trans h (by decide)
  exact Piece.readsAs_integer hlt

/-! ### Literals -/

namespace Emitter

theorem isIdentifier_typeName (p : Precision) : isIdentifier p.typeName = true := by
  cases p <;> decide

/-- The lexemes of the literal of a value. -/
def literalLexemes {f : FloatFormat} (typeName : String) (x : Binary f) : List Lexeme :=
  match x with
  | .nan => [.ident typeName, .symbol .pathSep, .ident "NAN"]
  | .infinite negative =>
    [.ident typeName, .symbol .pathSep, .ident (if negative then "NEG_INFINITY" else "INFINITY")]
  | .finite negative rank =>
    (if negative then [.symbol .minus] else []) ++
      [.float (readMagnitude rank) (some typeName)]

/-- A constant of a floating-point type is read as its path. -/
theorem readsAs_constant (p : Precision) {name text : String} (hname : isIdentifier name = true)
    (htext : text.toList = p.typeName.toList ++ (Symbol.pathSep.text.toList ++ name.toList)) :
    Piece.ReadsAs text.toList [.ident p.typeName, .symbol .pathSep, .ident name] := by
  rw [htext]
  refine ⟨by simp [Symbol.text], ?_, fun rest more hrest h => ?_⟩
  · cases p <;> exact .cons (by decide)
  · rw [List.append_assoc, List.append_assoc]
    refine .ident (isIdentifier_typeName p) (.cons (by decide)) ?_
    refine .symbol rfl (fun c hc => absurd hc (by simp [Symbol.text])) ?_
    exact .ident hname (hrest.mono fun c hc => hc.1) h

theorem readsAs_literal {f : FloatFormat} (p : Precision) (x : Binary f) :
    Piece.ReadsAs (literalText p.typeName x).toList (literalLexemes p.typeName x) := by
  cases x with
  | nan =>
    have hname : isIdentifier "NAN" = true := by decide
    exact readsAs_constant p hname (by simp [literalText, String.toList_append, Symbol.text])
  | infinite negative =>
    have hname : isIdentifier (if negative then "NEG_INFINITY" else "INFINITY") = true := by
      cases negative <;> decide
    refine readsAs_constant p hname ?_
    cases negative <;> simp [literalText, String.toList_append, Symbol.text]
  | finite negative rank =>
    have hdigits := Piece.readsAs_float p
      (spelt_decimalChars (Binary.shortestDecimal f literalLayout.tie rank))
    rw [literalText, String.toList_append, FloatLayout.text, String.toList_ofList]
    cases negative with
    | false => exact hdigits
    | true => exact Piece.readsAs_negative hdigits

theorem isTerm_literal {f : FloatFormat} (p : Precision) (x : Binary f) :
    IsTerm (literalLexemes p.typeName x) (literalForm p.typeName x) := by
  cases x with
  | nan => exact ((readsPrimary_constant _ _).readsOn ⟨rfl, rfl⟩).isTerm
  | infinite negative => exact ((readsPrimary_constant _ _).readsOn ⟨rfl, rfl⟩).isTerm
  | finite negative rank =>
    have hdigits : IsTerm [.float (readMagnitude rank) (some p.typeName)]
        (.literal () (.float (readMagnitude rank) (some p.typeName))) :=
      Target.isTerm_literal rfl ⟨rfl, rfl⟩
    cases negative with
    | false => exact hdigits
    | true => exact hdigits.prefixed rfl rfl

/-! ### Names -/

/-- A word with an underscore inside is no word of the language. -/
theorem isIdentifier_of_mem {name : String} {c : Char} {word : List Char}
    (htext : name.toList = c :: word) (hc : startsWord c = true)
    (hword : ∀ d ∈ word, continuesWord d = true) (hunderscore : '_' ∈ word) :
    isIdentifier name = true := by
  have hmem : '_' ∈ name.toList := by simp [htext, hunderscore]
  -- no keyword and no reserved word has an underscore inside
  have hkeyword : Keyword.all.find? (·.text = name) = none := by
    refine List.find?_eq_none.2 fun k _ hk => ?_
    have heq : k.text = name := by simpa using hk
    have hnot : '_' ∉ k.text.toList := by cases k <;> decide
    exact hnot (heq ▸ hmem)
  have hreserved : name ∉ reservedWords := by
    intro h
    have hnot : ∀ w ∈ reservedWords, '_' ∉ w.toList := by decide
    exact hnot name h hmem
  have hlong : name ≠ "_" := by
    rintro rfl
    obtain ⟨-, rfl⟩ := List.cons.inj htext
    exact absurd hunderscore (by simp)
  have hof : Lexeme.ofWord name = .ident name := by
    simp only [Lexeme.ofWord, hkeyword, hlong, hreserved, if_false]
  rw [isIdentifier, htext]
  simp only [hc, hof, List.all_eq_true.2 hword, decide_true, Bool.and_self]

/-- The names of the functions of trees are identifiers. -/
theorem isIdentifier_treeName (e : Emitter) (position : Nat)
    (h : isIdentifier e.options.functionName = true) :
    isIdentifier (e.treeName position) = true := by
  obtain ⟨c, word, htext, hc, hword, -⟩ := startsLexeme_ident h
  have hname : (e.treeName position).toList =
      c :: (word ++ "_tree_".toList ++ Nat.toDigits 10 position) := by
    simp [treeName, String.toList_append, htext]
  refine isIdentifier_of_mem hname hc ?_ ?_
  · intro d hd
    simp only [List.mem_append] at hd
    rcases hd with (hd | hd) | hd
    · exact hword d hd
    · have hall : "_tree_".toList.all continuesWord = true := by decide
      exact List.all_eq_true.1 hall d hd
    · exact continuesWord_of_isDigit ((digits_toDigits position).isDigit d hd)
  · simp

end Emitter

end EnsembleCompiler
