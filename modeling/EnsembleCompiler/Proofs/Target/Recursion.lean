import Mathlib.Data.Nat.Find
import EnsembleCompiler.Proofs.Target.Links
import EnsembleCompiler.Proofs.Target.Enclosure
import EnsembleCompiler.Proofs.Target.Levels
import EnsembleCompiler.Proofs.Target.Lexing

/-!
# The depth of the recursion

The parser recurses no deeper into a text than a multiple of its nesting depth and its pending
links. The nesting depth alone is no bound: a path of imports goes one call deeper with each of
its segments and opens no bracket.
-/

namespace EnsembleCompiler.Target

open Target.Parser Grammar

/-- Twenty-nine levels for each bracket and link are enough for every list of lexemes. -/
theorem suffice_levels (ls : List Lexeme) :
    Suffice (29 * (nestingDepth ls + pendingLinks ls + 1)) ls := by
  let item : Parser (Item Unit) := Grammar.parse (29 * (nestingDepth ls + pendingLinks ls + 1)) .item
  have hrank : (Goal.item : Goal Unit _).rank = 14 := rfl
  have hitem : Keeps .series (nestingDepth ls + pendingLinks ls + 1) Always item Always :=
    keeps_parse .item _ _ (.inr (by omega))
  have hfile : ((file item).run ⟨0, ls⟩).Keeps .series (nestingDepth ls + pendingLinks ls + 1)
      Never ls := keeps_file (N := Always) hitem ⟨0, ls⟩ trivial
  rw [suffice_iff Unit]
  intro i hrun
  rw [fileWithin] at hrun
  rw [hrun] at hfile
  have hpending : Pending .series (nestingDepth ls + pendingLinks ls + 1) ls := hfile rfl
  have hle := hpending.le_depth
  omega

theorem exists_suffice (ls : List Lexeme) : ∃ levels, Suffice levels ls := ⟨_, suffice_levels ls⟩

/-- The calls of goals that are active at once where the parser of a file goes deepest: so many
levels of recursion are enough for the lexemes, and no fewer. -/
def recursionDepth (ls : List Lexeme) : Nat := Nat.find (exists_suffice ls)

theorem recursionDepth_le {levels : Nat} {ls : List Lexeme} :
    recursionDepth ls ≤ levels ↔ Suffice levels ls := by
  constructor
  · intro hle
    have hleast : Suffice (recursionDepth ls) ls := Nat.find_spec (exists_suffice ls)
    exact hleast.mono hle
  · exact Nat.find_min' (exists_suffice ls)

/-- The parser recurses into a text no deeper than its nesting depth and its pending links bound,
and what it answers, with places of any type, does not depend on how many levels it is given beyond
that. -/
theorem recursionDepth_bounded (σ : Type) [Places σ] (source : String) (further : Nat) :
    recursionDepth (lexemesOf source) ≤
        29 * (nestingDepth (lexemesOf source) + pendingLinks (lexemesOf source) + 1) ∧
      (fileWithin (recursionDepth (lexemesOf source) + further) (lexemesOf source) :
          Reply (File σ)) =
        fileWithin (recursionDepth (lexemesOf source)) (lexemesOf source) := by
  have hsuffice : Suffice (recursionDepth (lexemesOf source)) (lexemesOf source) :=
    recursionDepth_le.1 (Nat.le_refl _)
  exact ⟨recursionDepth_le.2 (suffice_levels _), hsuffice.fileWithin_add further⟩

example : recursionDepth (lexemesOf "use a::b::c;") = 4 := by decide +kernel

/-! ### Links without brackets -/

/-- What follows `use` in an import with a path of segments. -/
def importPath : Nat → List Lexeme
  | 0 => [.ident "a", .symbol .semicolon]
  | n + 1 => .ident "a" :: .symbol .pathSep :: importPath n

def importPathChars : Nat → List Char
  | 0 => ['a', ';']
  | n + 1 => 'a' :: ':' :: ':' :: importPathChars n

/-- An import whose path has `n` segments before its last. -/
def importText (n : Nat) : String := String.ofList ('u' :: 's' :: 'e' :: ' ' :: importPathChars n)

theorem spells_importPath (n : Nat) : Spells (importPathChars n) (importPath n) := by
  have hident : isIdentifier "a" = true := by decide
  induction n with
  | zero =>
    have hsemicolon : Spells [';'] [.symbol .semicolon] :=
      Spells.symbol (s := .semicolon) rfl (by simp [NextChar]) spells_nil
    exact Spells.ident hident (by simp [NextChar]; decide) hsemicolon
  | succ n ih =>
    have hsep : Spells (':' :: ':' :: importPathChars n) (.symbol .pathSep :: importPath n) :=
      Spells.symbol (s := .pathSep) rfl (fun c hc => by simp [Symbol.text] at hc) ih
    exact Spells.ident hident (by simp [NextChar]; decide) hsep

theorem spells_importText (n : Nat) :
    Spells (importText n).toList (.keyword .useKw :: importPath n) := by
  have hpath : Spells (' ' :: importPathChars n) (importPath n) :=
    (spells_importPath n).trivia (trivia_blank (by decide))
  have huse : Spells (Keyword.useKw.text.toList ++ ' ' :: importPathChars n)
      (.keyword .useKw :: importPath n) :=
    Spells.keyword (by simp [NextChar]; decide) hpath
  rw [importText, String.toList_ofList]
  exact huse

theorem lexemesOf_importText (n : Nat) :
    (scan (importText n)).faults = [] ∧
      lexemesOf (importText n) = .keyword .useKw :: importPath n :=
  (spells_importText n).scan

theorem foldl_importPath (n : Nat) (s : Nesting) :
    ((importPath n).foldl Nesting.read s).deepest = s.deepest ∧
      ((importPath n).foldl Nesting.read s).elseIfs = s.elseIfs := by
  induction n generalizing s with
  | zero => simp [importPath, Nesting.read_deepest, Nesting.read_elseIfs, Lexeme.role, Symbol.role]
  | succ n ih =>
    obtain ⟨hdeepest, helseIfs⟩ := ih ((s.read (.ident "a")).read (.symbol .pathSep))
    rw [importPath, List.foldl_cons, List.foldl_cons, hdeepest, helseIfs]
    simp [Nesting.read_deepest, Nesting.read_elseIfs, Lexeme.role, Symbol.role]

theorem nestingDepth_importPath (n : Nat) : nestingDepth (.keyword .useKw :: importPath n) = 0 := by
  obtain ⟨hdeepest, helseIfs⟩ := foldl_importPath n (Nesting.read {} (.keyword .useKw))
  show (List.foldl Nesting.read _ (importPath n)).deepest +
    (List.foldl Nesting.read _ (importPath n)).elseIfs = 0
  rw [hdeepest, helseIfs]
  rfl

/-- An import path is not read with no more levels than it has links. -/
theorem useTree_exhausted (levels n m : Nat) (h : levels ≤ n) :
    ∃ i, (Grammar.parse levels (.useTree : Goal Unit _)).run ⟨m, importPath n⟩ =
      .failed i .exhausted := by
  induction levels generalizing n m with
  | zero => exact ⟨m, rfl⟩
  | succ levels ih =>
    obtain ⟨n, rfl⟩ : ∃ n', n = n' + 1 := ⟨n - 1, by omega⟩
    obtain ⟨i, hi⟩ := ih n (m + 2) (by omega)
    have hsegment : (Grammar.parse (levels + 1) (.useTree : Goal Unit _)).run
        ⟨m, importPath (n + 1)⟩ =
          (Grammar.parse levels (.useTree : Goal Unit _) >>= fun tree =>
            pure (.segment "a" tree)).run ⟨m + 2, importPath n⟩ := rfl
    rw [hsegment, run_bind, hi]
    exact ⟨i, rfl⟩

theorem item_exhausted (levels n : Nat) (h : levels ≤ n) :
    ∃ i, (Grammar.parse levels (.item : Goal Unit _)).run ⟨0, .keyword .useKw :: importPath n⟩ =
      .failed i .exhausted := by
  cases levels with
  | zero => exact ⟨0, rfl⟩
  | succ levels =>
    obtain ⟨i, hi⟩ := useTree_exhausted levels n 1 (by omega)
    have hattributes : (outerAttributes : Parser (List (Attribute Unit))).run
        ⟨0, .keyword .useKw :: importPath n⟩ = .done [] ⟨0, .keyword .useKw :: importPath n⟩ :=
      run_loop_leave rfl
    have huse : (Grammar.use (Grammar.parse levels : Table Unit)).run
        ⟨0, .keyword .useKw :: importPath n⟩ = .failed i .exhausted := run_bind_failed hi _
    have hplace : (currentPlace : Parser Unit).run ⟨0, .keyword .useKw :: importPath n⟩ =
        .done () ⟨0, .keyword .useKw :: importPath n⟩ := rfl
    refine ⟨i, (run_bind_done hplace _).trans (run_bind_failed ?_ _)⟩
    exact (run_bind_done hattributes _).trans huse

/-- The recursion goes deeper than there are links in an import path. -/
theorem lt_recursionDepth (n : Nat) : n < recursionDepth (.keyword .useKw :: importPath n) := by
  obtain ⟨i, hitem⟩ := item_exhausted n n (Nat.le_refl n)
  have hattributes : (innerAttributes : Parser (List (Attribute Unit))).run
      ⟨0, .keyword .useKw :: importPath n⟩ = .done [] ⟨0, .keyword .useKw :: importPath n⟩ :=
    run_loop_leave rfl
  have hfile : (fileWithin n (.keyword .useKw :: importPath n) : Reply (File Unit)) =
      .failed i .exhausted := by
    refine (run_bind_done hattributes _).trans (run_bind_failed (run_loop_failed ?_) _)
    exact run_bind_failed hitem _
  rw [← Nat.not_le, recursionDepth_le, suffice_iff Unit]
  exact fun h => h i hfile

/-- No multiple of the nesting depth bounds the recursion of the parser. -/
theorem not_bounded_by_nestingDepth : ¬ ∃ k, ∀ source : String, (scan source).faults = [] →
    recursionDepth (lexemesOf source) ≤ k * (nestingDepth (lexemesOf source) + 1) := by
  rintro ⟨k, h⟩
  obtain ⟨hfaults, hlexemes⟩ := lexemesOf_importText k
  have hle := h (importText k) hfaults
  rw [hlexemes, nestingDepth_importPath] at hle
  have hlt := lt_recursionDepth k
  omega

end EnsembleCompiler.Target
