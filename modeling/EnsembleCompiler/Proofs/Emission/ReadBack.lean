import EnsembleCompiler.Proofs.Target.Enclosure
import EnsembleCompiler.Proofs.Emission.Scoring

/-!
# The generated module is read back

The text of every ensemble, under options that pass their check, is read as the tree of its module:
line by line as items, and the items as one file.
-/

namespace EnsembleCompiler.Emitter

open Target

variable (e : Emitter)

/-! ### Runs of items -/

/-- Lines of text are read as items one after the other. -/
def WritesItems (lines : List String) (items : List (Item Unit)) : Prop :=
  ∃ pairs : List (List Lexeme × Item Unit), WritesLines lines (pairs.flatMap Prod.fst) ∧
    (∀ p ∈ pairs, IsItem p.1 p.2) ∧ pairs.map Prod.snd = items

theorem writesItems_nil : WritesItems [] [] := ⟨[], writesLines_nil, by simp, rfl⟩

theorem WritesItem.items {lines : List String} {i : Item Unit} (h : WritesItem lines i) :
    WritesItems lines [i] := by
  obtain ⟨ls, hlines, hitem⟩ := h
  exact ⟨[(ls, i)], by simpa using hlines, by simpa using hitem, rfl⟩

theorem WritesItems.append {xs ys : List String} {is js : List (Item Unit)}
    (hxs : WritesItems xs is) (hys : WritesItems ys js) : WritesItems (xs ++ ys) (is ++ js) := by
  obtain ⟨ps, hps, hpitems, rfl⟩ := hxs
  obtain ⟨qs, hqs, hqitems, rfl⟩ := hys
  refine ⟨ps ++ qs, ?_, List.forall_mem_append.2 ⟨hpitems, hqitems⟩, List.map_append⟩
  rw [List.flatMap_append]
  exact hps.append hqs

theorem WritesItems.blank {lines : List String} {items : List (Item Unit)}
    (h : WritesItems lines items) : WritesItems ([""] ++ lines) items := by
  obtain ⟨ps, hlines, hitems⟩ := h
  exact ⟨ps, writesLine_blank.lines.append hlines, hitems⟩

theorem writesItems_flatMap {α : Type} {xs : List α} {f : α → List String} {g : α → Item Unit}
    (h : ∀ x ∈ xs, WritesItem (f x) (g x)) :
    WritesItems (xs.flatMap fun x => [""] ++ f x) (xs.map g) := by
  induction xs with
  | nil => exact writesItems_nil
  | cons x xs ih =>
    rw [List.flatMap_cons, List.map_cons]
    exact ((h x (by simp)).items.blank).append (ih fun y hy => h y (by simp [hy]))

/-! ### Constants -/

def constantPieces (name type : String) (value : Piece) : List Piece :=
  [.keyword .pubKw, space, .keyword .constKw, space, .ident name, .symbol .colon, space,
    .ident type, space, .symbol .eq, space, value, .symbol .semicolon]

theorem writesItem_constant {name type text : String} {value : Piece} {v : Expr Unit}
    (hname : isIdentifier name = true) (htype : isIdentifier type = true) (hvalue : value.Valid)
    (hfit : Piece.allFit (constantPieces name type value) = true)
    (htext : text.toList = lineChars (constantPieces name type value))
    (hv : IsExpr value.lexemes v) :
    WritesItem [indent 1 ++ text] (constantTree name (.path [type] []) v) := by
  have hline : WritesLine text (lineLexemes (constantPieces name type value)) :=
    writesLine_pieces _
      ⟨by simpa [constantPieces, hname, htype, Symbol.isPlain] using hvalue, hfit⟩ htext
  refine ⟨_, (hline.indent 1).lines, ?_⟩
  have hitem := isItem_constant name (readsType_path type) hv
  simpa [constantPieces, lineLexemes, visibilityLexemes, constantTree, Piece.lexemes, space]
    using hitem

theorem writesItem_integer {name text : String} (n : UInt64) (hname : isIdentifier name = true)
    (htext : text.toList = lineChars (constantPieces name "usize" (numberPiece n.toNat))) :
    WritesItem [indent 1 ++ text] (constantTree name (.path ["usize"] []) (integerTree n.toNat)) :=
  writesItem_constant hname (by decide) (valid_numberPiece n.toNat_lt) rfl htext
    (isTerm_integerTree n.toNat).isExpr

/-- The constants are read from their lines. -/
theorem writesItems_constants (ensemble : Ensemble) :
    WritesItems (e.constantLines ensemble)
      ([constantTree "NUM_CLASSES" (.path ["usize"] []) (integerTree ensemble.numClasses.toNat)]
        ++ (match ensemble.numFeatures with
          | some n => [constantTree "NUM_FEATURES" (.path ["usize"] []) (integerTree n.toNat)]
          | none => [])
        ++ [constantTree "BASE_SCORE" e.typeTree (e.literalTree ensemble.baseScore)]) := by
  have hclasses : WritesItem
      [indent 1 ++ ("pub const NUM_CLASSES: usize = " ++ Nat.repr ensemble.numClasses.toNat ++ ";")]
      (constantTree "NUM_CLASSES" (.path ["usize"] []) (integerTree ensemble.numClasses.toNat)) :=
    writesItem_integer ensemble.numClasses (by decide) (by
      simp [constantPieces, lineChars, Piece.chars, Keyword.text, Symbol.text, space, numberPiece])
  have hscore : WritesItem [indent 1 ++ ("pub const BASE_SCORE: " ++ e.typeName ++ " = "
      ++ e.literal ensemble.baseScore ++ ";")]
      (constantTree "BASE_SCORE" e.typeTree (e.literalTree ensemble.baseScore)) := by
    have htype : isIdentifier e.typeName = true := isIdentifier_typeName e.options.precision
    refine writesItem_constant isIdentifier_baseScore htype
      (e.valid_literalPiece ensemble.baseScore) rfl ?_
      (e.isTerm_literalTree ensemble.baseScore).isExpr
    simp [constantPieces, lineChars, Piece.chars, Keyword.text, Symbol.text, space, literalPiece]
  have hfeatures : WritesItems
      (match ensemble.numFeatures with
        | some n => [indent 1 ++ ("pub const NUM_FEATURES: usize = " ++ Nat.repr n.toNat ++ ";")]
        | none => [])
      (match ensemble.numFeatures with
        | some n => [constantTree "NUM_FEATURES" (.path ["usize"] []) (integerTree n.toNat)]
        | none => []) := by
    cases ensemble.numFeatures with
    | none => exact writesItems_nil
    | some n =>
      refine (writesItem_integer n (by decide) ?_).items
      simp [constantPieces, lineChars, Piece.chars, Keyword.text, Symbol.text, space, numberPiece]
  -- the number of features is written between the other two, where the model has one
  have hall := (hclasses.items.append hfeatures).append hscore.items
  unfold constantLines
  cases h : ensemble.numFeatures <;> simpa [h, String.append_assoc] using hall

/-! ### The module -/

/-- The items of the module are read from their lines. -/
theorem writesItems_module (ensemble : Ensemble)
    (hname : isIdentifier e.options.functionName = true) :
    WritesItems
      (e.constantLines ensemble ++ [""] ++ e.scoringLines ensemble
        ++ (if hasSplits ensemble then [""] ++ e.lookupLines else [])
        ++ ensemble.trees.flatMap fun tree => [""] ++ e.treeLines tree)
      (e.moduleItems ensemble) := by
  have hlookup : WritesItems (if hasSplits ensemble then [""] ++ e.lookupLines else [])
      (if hasSplits ensemble then [e.lookupFunction] else []) := by
    split
    · exact e.writesItem_lookupFunction.items.blank
    · exact writesItems_nil
  have htrees := writesItems_flatMap fun (tree : Tree) (_ : tree ∈ ensemble.trees) =>
    e.writesItem_treeFunction tree (e.isIdentifier_treeName tree.position hname)
  have hscoring := (e.writesItem_scoringFunction ensemble hname).items.blank
  have hall := (((e.writesItems_constants ensemble).append hscoring).append hlookup).append htrees
  cases h : ensemble.numFeatures <;> simpa [moduleItems, h] using hall

theorem writesLines_head (hfingerprint : ∀ text ∈ e.fingerprint, '\n' ∉ text.toList) :
    WritesLines e.headLines [] := by
  have hfirst : WritesLine
      ("//" ++ " Code generated by boostc from an XGBoost model. DO NOT EDIT.") [] :=
    writesLine_comment (by decide)
  unfold headLines
  cases h : e.fingerprint with
  | none => exact (hfirst.lines.append writesLines_nil).append writesLine_blank.lines
  | some text =>
    have htext : '\n' ∉ (" model fingerprint: blake3:" ++ text).toList := by
      simpa [String.toList_append] using hfingerprint text h
    have hline := (writesLine_comment htext).lines
    rw [← String.append_assoc] at hline
    exact (hfirst.lines.append hline).append writesLine_blank.lines

/-- The text of a module is read as its tree. -/
theorem moduleText_tree (ensemble : Ensemble)
    (hmodule : isIdentifier e.options.moduleName = true)
    (hfunction : isIdentifier e.options.functionName = true)
    (hfingerprint : ∀ text ∈ e.fingerprint, '\n' ∉ text.toList) :
    ∃ file, (scan (e.moduleText ensemble)).tree = .ok file ∧
      file.erase = e.moduleTree ensemble := by
  obtain ⟨pairs, hlines, hitems, hforms⟩ := e.writesItems_module ensemble hfunction
  have hopen : WritesLine ("pub mod " ++ e.options.moduleName ++ " \x7b")
      [.keyword .pubKw, .keyword .modKw, .ident e.options.moduleName, .symbol .leftBrace] :=
    writesLine_pieces [.keyword .pubKw, space, .keyword .modKw, space,
        .ident e.options.moduleName, space, .symbol .leftBrace]
      ⟨by simp [hmodule, Symbol.isPlain], rfl⟩
      (by simp [lineChars, Piece.chars, Keyword.text, Symbol.text, space])
  -- the lines of all parts together have the lexemes of the module
  have hall : WritesLines (e.moduleLines ensemble)
      (moduleLexemes e.options.moduleName (pairs.map Prod.fst)) := by
    have h := (((e.writesLines_head hfingerprint).append hopen.lines).append hlines).append
      writesLine_close.lines
    simpa [moduleLines, moduleLexemes, visibilityLexemes, List.flatMap_def] using h
  have hne : e.moduleLines ensemble ≠ [] := by simp [moduleLines]
  have hspells : Spells (e.moduleText ensemble).toList
      (moduleLexemes e.options.moduleName (pairs.map Prod.fst)) := by
    rw [moduleText, toList_joinLines hne]
    simpa using hall [] [] spells_nil
  obtain ⟨hfaults, hlexemes⟩ := hspells.scan
  have htree := (isItem_module e.options.moduleName hitems).ofLexemes
  rw [hforms, ← hlexemes] at htree
  exact Scan.tree_of_ofLexemes hfaults htree

end EnsembleCompiler.Emitter
