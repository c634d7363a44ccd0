import EnsembleCompiler.Proofs.Emission.Functions

/-!
# The scoring function of a generated module

The statements that add up the trees, and the value of the function: one score, or a list of them.
-/

namespace EnsembleCompiler.Emitter

open Target

variable (e : Emitter)

/-! ### Bodies -/

/-- A body of one line. -/
theorem writesBlock_value {line : String} {lt : List Lexeme} {v : Expr Unit}
    (hline : WritesLine line lt) (hv : IsExpr lt v) :
    WritesBlock ([line].map (indent 2 ++ ·)) (valueBlock v) :=
  ⟨lt, (hline.indent 2).lines, hv.tail.isBlock⟩

/-- A body that starts a sum, adds each tree to it and ends with a value. -/
theorem writesBlock_sum {trees : List Tree} {start tail : String} {add : Tree → String}
    {ls lt : List Lexeme} {la : Tree → List Lexeme} {s : Statement Unit}
    {sa : Tree → Statement Unit} {v : Expr Unit}
    (hstart : WritesLine start ls) (hs : IsStatement ls s)
    (hadd : ∀ tree ∈ trees, WritesLine (add tree) (la tree) ∧ IsStatement (la tree) (sa tree))
    (htail : WritesLine tail lt) (hv : IsExpr lt v) :
    WritesBlock (([start] ++ trees.map add ++ [tail]).map (indent 2 ++ ·))
      (.mk () (s :: trees.map sa) (some v)) := by
  refine ⟨ls ++ trees.flatMap la ++ lt, ?_, ?_⟩
  · have hmiddle : WritesLines (trees.map fun tree => indent 2 ++ add tree) (trees.flatMap la) :=
      writesLines_map fun tree htree => (hadd tree htree).1.indent 2
    simpa [Function.comp_def] using
      ((hstart.indent 2).lines.append hmiddle).append (htail.indent 2).lines
  · have hitems : ∀ i ∈ (ls, s) :: trees.map (fun tree => (la tree, sa tree)),
        IsStatement i.1 i.2 := by
      refine List.forall_mem_cons.2 ⟨hs, ?_⟩
      intro i hi
      obtain ⟨tree, htree, rfl⟩ := List.mem_map.1 hi
      exact (hadd tree htree).2
    simpa [blockLexemes, List.flatMap_map, Function.comp_def] using isBlock _ hitems hv.tail

/-! ### Statements -/

def callPieces (tree : Tree) : List Piece :=
  [.ident (e.treeName tree.position), .symbol .leftParen, .ident "features", .symbol .rightParen]

theorem isExpr_treeCall (tree : Tree) :
    IsExpr (lineLexemes (e.callPieces tree)) (e.treeCall tree) :=
  ((readsOn_name (e.treeName tree.position)).call
    ((isExpr_name "features").cons areExprs_nil)).isTerm.isExpr

/-- The pieces of the statement that adds a tree to a sum. -/
def addPieces (target : List Piece) (tree : Tree) : List Piece :=
  target ++ [space, .symbol .plusEq, space] ++ e.callPieces tree ++ [Piece.symbol .semicolon]

theorem isStatement_add {target : List Piece} {t : Expr Unit} (tree : Tree)
    (ht : IsTerm (lineLexemes target) t) :
    IsStatement (lineLexemes (e.addPieces target tree)) (addStatement t (e.treeCall tree)) := by
  have hstatement := (IsOperand.assign ht (e.isExpr_treeCall tree)).statement
  rw [lineLexemes] at hstatement
  simpa [addPieces, lineLexemes, Piece.lexemes, space, addStatement] using hstatement

theorem writesLine_add {target : List Piece} {text : String} (tree : Tree)
    (hname : isIdentifier (e.treeName tree.position) = true) (hvalid : ∀ p ∈ target, p.Valid)
    (hfit : Piece.allFit (e.addPieces target tree) = true)
    (htext : text.toList = lineChars (e.addPieces target tree)) :
    WritesLine text (lineLexemes (e.addPieces target tree)) := by
  refine writesLine_pieces _ ⟨?_, hfit⟩ htext
  have hfeatures : isIdentifier "features" = true := by decide
  simpa [addPieces, callPieces, hname, hfeatures, Symbol.isPlain, or_imp, forall_and] using hvalid

/-- The pieces of the statement that starts a sum. -/
def startPieces (name : String) (value : List Piece) : List Piece :=
  [Piece.keyword .letKw, space, .keyword .mutKw, space, .ident name, space, .symbol .eq, space]
    ++ value ++ [Piece.symbol .semicolon]

theorem isStatement_start {value : List Piece} {v : Expr Unit} (name : String)
    (hv : IsExpr (lineLexemes value) v) :
    IsStatement (lineLexemes (startPieces name value)) (startStatement name v) := by
  have hstatement := hv.binding name
  rw [lineLexemes] at hstatement
  simpa [startPieces, lineLexemes, Piece.lexemes, space, startStatement] using hstatement

theorem writesLine_start {value : List Piece} {name text : String}
    (hname : isIdentifier name = true) (hvalid : ∀ p ∈ value, p.Valid)
    (hfit : Piece.allFit (startPieces name value) = true)
    (htext : text.toList = lineChars (startPieces name value)) :
    WritesLine text (lineLexemes (startPieces name value)) := by
  refine writesLine_pieces _ ⟨?_, hfit⟩ htext
  simpa [startPieces, hname, Symbol.isPlain, or_imp, forall_and] using hvalid

/-- The pieces of a value with the base score added. -/
def basePieces (value : List Piece) : List Piece :=
  value ++ [space, .symbol .plus, space, .ident "BASE_SCORE"]

theorem isIdentifier_baseScore : isIdentifier "BASE_SCORE" = true := by decide

theorem isExpr_withBase {value : List Piece} {v : Expr Unit} (hv : IsTerm (lineLexemes value) v) :
    IsExpr (lineLexemes (basePieces value)) (withBase v) := by
  have hsum := IsOperand.binary (s := .plus) hv (readsOn_name "BASE_SCORE").isTerm.closed (by decide)
    rfl
  rw [lineLexemes] at hsum
  simpa [basePieces, lineLexemes, Piece.lexemes, space, withBase, nameTree] using hsum

/-! ### One class -/

def scorePieces : List Piece := [.ident "score"]

theorem isTerm_score : IsTerm (lineLexemes scorePieces) (nameTree "score") :=
  (readsOn_name "score").isTerm

theorem isIdentifier_score : isIdentifier "score" = true := by decide

/-- The text of the base score alone. -/
theorem writesLine_baseScore : WritesLine "BASE_SCORE" [.ident "BASE_SCORE"] :=
  writesLine_pieces [.ident "BASE_SCORE"] ⟨by simpa using isIdentifier_baseScore, rfl⟩
    (by simp [lineChars, Piece.chars])

theorem writesBlock_single (ensemble : Ensemble)
    (hnames : ∀ tree ∈ ensemble.trees, isIdentifier (e.treeName tree.position) = true) :
    WritesBlock ((e.singleBody ensemble).map (indent 2 ++ ·)) (e.singleBlock ensemble) := by
  unfold singleBody singleBlock
  by_cases hempty : ensemble.trees.isEmpty = true
  · rw [if_pos hempty, if_pos hempty]
    exact writesBlock_value writesLine_baseScore (isExpr_name "BASE_SCORE")
  · rw [if_neg hempty, if_neg hempty]
    -- each statement is read from its own line, and so is the value at the end
    have hzero := e.valid_literalPiece (.zero .double false)
    have hstart : WritesLine ("let mut score = " ++ e.literal (.zero .double false) ++ ";")
        (lineLexemes (startPieces "score" [e.literalPiece (.zero .double false)])) :=
      writesLine_start isIdentifier_score (by simpa using hzero) rfl (by
        simp [startPieces, lineChars, Piece.chars, Keyword.text, Symbol.text, space, literalPiece])
    have hvalue : IsExpr (lineLexemes [e.literalPiece (.zero .double false)]) _ :=
      (e.isTerm_literalTree (.zero .double false)).isExpr.of_eq (by
        simp [lineLexemes, literalPiece, Piece.lexemes])
    have htail : WritesLine "score + BASE_SCORE" (lineLexemes (basePieces scorePieces)) :=
      writesLine_pieces _
        ⟨by simp [basePieces, scorePieces, isIdentifier_score, isIdentifier_baseScore,
          Symbol.isPlain], rfl⟩ rfl
    refine writesBlock_sum hstart (isStatement_start "score" hvalue) (fun tree htree => ⟨?_,
      e.isStatement_add tree isTerm_score⟩) htail (isExpr_withBase isTerm_score)
    refine e.writesLine_add tree (hnames tree htree) ?_ rfl ?_
    · simpa [scorePieces] using isIdentifier_score
    · simp [addPieces, scorePieces, callPieces, lineChars, Piece.chars, Symbol.text, space]

/-! ### Several classes -/

def slotPieces (c : Nat) : List Piece :=
  [.ident "scores", .symbol .leftBracket, numberPiece c, .symbol .rightBracket]

theorem isTerm_slotTree (c : Nat) : IsTerm (lineLexemes (slotPieces c)) (slotTree c) :=
  ((readsOn_name "scores").index (isTerm_integerTree c).isExpr).isTerm

theorem isIdentifier_scores : isIdentifier "scores" = true := by decide

theorem valid_slotPieces {c : Nat} (h : c < 2 ^ 64) : ∀ p ∈ slotPieces c, p.Valid := by
  simpa [slotPieces, isIdentifier_scores, Symbol.isPlain] using valid_numberPiece h

/-- Pieces with commas between them. -/
def commaPieces : List (List Piece) → List Piece
  | [] => []
  | [line] => line
  | line :: lines => line ++ [Piece.symbol .comma, space] ++ commaPieces lines

theorem lineLexemes_commaPieces (lines : List (List Piece)) :
    lineLexemes (commaPieces lines) = commaLexemes (lines.map lineLexemes) := by
  induction lines with
  | nil => rfl
  | cons line lines ih =>
    cases lines with
    | nil => rfl
    | cons next lines =>
      simp only [List.map_cons] at ih
      simp only [commaPieces, List.map_cons, commaLexemes, ← ih]
      simp [lineLexemes, Piece.lexemes, space]

theorem toList_intercalate_comma {α : Type} {xs : List α} {f : α → String} {g : α → List Piece}
    (h : ∀ x, (f x).toList = lineChars (g x)) :
    (", ".intercalate (xs.map f)).toList = lineChars (commaPieces (xs.map g)) := by
  rw [String.toList_intercalate]
  induction xs with
  | nil => rfl
  | cons x xs ih =>
    cases xs with
    | nil => simp [commaPieces, h]
    | cons y xs =>
      simp only [List.map_cons] at ih
      simp only [List.map_cons, List.intercalate_cons_cons, commaPieces]
      rw [ih, h x]
      simp [lineChars, Piece.chars, Symbol.text, space]

theorem mem_commaPieces {lines : List (List Piece)} {p : Piece} (h : p ∈ commaPieces lines) :
    (∃ line ∈ lines, p ∈ line) ∨ p = .symbol .comma ∨ p = space := by
  induction lines with
  | nil => exact absurd h (by simp [commaPieces])
  | cons line lines ih =>
    cases lines with
    | nil => exact .inl ⟨line, by simp, h⟩
    | cons next lines =>
      simp only [commaPieces, List.mem_append, List.mem_cons, List.not_mem_nil, or_false] at h
      rcases h with (h | h) | h
      · exact .inl ⟨line, by simp, h⟩
      · exact .inr h
      · rcases ih h with ⟨l, hl, hp⟩ | hp
        · exact .inl ⟨l, List.mem_cons_of_mem _ hl, hp⟩
        · exact .inr hp

theorem allFit_cons {p : Piece} {line : List Piece} (hp : ∀ q, p.fits q = true) :
    Piece.allFit (p :: line) = Piece.allFit line := by
  cases line with
  | nil => rfl
  | cons q line => simp [Piece.allFit, hp]

/-- The value of a class at the end of the function. -/
def resultPieces (c : Nat) : List Piece := basePieces (slotPieces c)

theorem allFit_slots (cs : List Nat) :
    Piece.allFit (commaPieces (cs.map resultPieces) ++ [Piece.symbol .rightBracket]) = true := by
  induction cs with
  | nil => rfl
  | cons c cs ih =>
    cases cs with
    | nil => rfl
    | cons d cs =>
      have hspace : Piece.allFit
          (space :: (commaPieces ((d :: cs).map resultPieces) ++ [Piece.symbol .rightBracket])) = true :=
        (allFit_cons fun _ => rfl).trans ih
      simp only [List.map_cons, commaPieces, List.append_assoc] at hspace ⊢
      exact hspace

def slotsPieces (cs : List Nat) : List Piece :=
  .symbol .leftBracket :: (commaPieces (cs.map resultPieces) ++ [Piece.symbol .rightBracket])

theorem wellSpaced_slots {cs : List Nat} (h : ∀ c ∈ cs, c < 2 ^ 64) :
    WellSpaced (slotsPieces cs) := by
  constructor
  · intro p hp
    simp only [slotsPieces, List.mem_cons, List.mem_append, List.not_mem_nil, or_false] at hp
    rcases hp with rfl | hp | rfl
    · simp [Symbol.isPlain]
    · rcases mem_commaPieces hp with ⟨line, hline, hp⟩ | rfl | rfl
      · obtain ⟨c, hc, rfl⟩ := List.mem_map.1 hline
        have hvalid : ∀ p ∈ resultPieces c, p.Valid := by
          simpa [resultPieces, basePieces, isIdentifier_baseScore, Symbol.isPlain, or_imp,
            forall_and] using valid_slotPieces (h c hc)
        exact hvalid p hp
      · simp [Symbol.isPlain]
      · simp
    · simp [Symbol.isPlain]
  · rw [slotsPieces, allFit_cons, allFit_slots]
    intro q
    cases q with
    | symbol s => cases s <;> rfl
    | _ => rfl

theorem isExpr_slots {cs : List Nat} (h : cs ≠ []) :
    IsExpr (lineLexemes (slotsPieces cs)) (.array () (cs.map fun c => withBase (slotTree c))) := by
  cases cs with
  | nil => exact absurd rfl h
  | cons c cs =>
    have hitems : AreExprs ((lineLexemes (resultPieces c), withBase (slotTree c)) ::
        cs.map fun d => (lineLexemes (resultPieces d), withBase (slotTree d))) := by
      refine (isExpr_withBase (isTerm_slotTree c)).cons ?_
      intro i hi
      obtain ⟨d, -, rfl⟩ := List.mem_map.1 hi
      exact isExpr_withBase (isTerm_slotTree d)
    have harray := ((readsPrimary_array hitems).readsOn ⟨rfl, rfl⟩).isTerm.isExpr
    simp only [List.map_cons, List.map_map, Function.comp_def] at harray
    refine harray.of_eq ?_
    have hlexemes := lineLexemes_commaPieces ((c :: cs).map resultPieces)
    rw [lineLexemes] at hlexemes
    simp only [slotsPieces, lineLexemes, List.flatMap_cons, List.flatMap_append, hlexemes]
    simp [Piece.lexemes, lineLexemes, Function.comp_def]

theorem writesLine_slots {n : UInt64} :
    WritesLine ("[" ++ ", ".intercalate ((List.range n.toNat).map fun c =>
        "scores[" ++ Nat.repr c ++ "] + BASE_SCORE") ++ "]")
      (lineLexemes (slotsPieces (List.range n.toNat))) := by
  have hbound : ∀ c ∈ List.range n.toNat, c < 2 ^ 64 := by
    intro c hc
    exact Nat.lt_trans (List.mem_range.1 hc) n.toNat_lt
  refine writesLine_pieces _ (wellSpaced_slots hbound) ?_
  have hslot : ∀ c, ("scores[" ++ Nat.repr c ++ "] + BASE_SCORE").toList =
      lineChars (resultPieces c) := by
    intro c
    simp [resultPieces, basePieces, slotPieces, numberPiece, lineChars, Piece.chars, Symbol.text,
      space]
  rw [String.toList_append, String.toList_append, toList_intercalate_comma hslot]
  simp [slotsPieces, lineChars, Piece.chars, Symbol.text]

/-- The pieces of an array that repeats a value for each class. -/
def repeatedPieces (value : Piece) : List Piece :=
  [.symbol .leftBracket, value, .symbol .semicolon, space, .ident "NUM_CLASSES",
    .symbol .rightBracket]

theorem isExpr_repeated {value : Piece} {v : Expr Unit} (hv : IsExpr value.lexemes v) :
    IsExpr (lineLexemes (repeatedPieces value)) (.repeated () v (nameTree "NUM_CLASSES")) := by
  have hrepeated :=
    ((readsPrimary_repeated hv (isExpr_name "NUM_CLASSES")).readsOn ⟨rfl, rfl⟩).isTerm.isExpr
  simpa [repeatedPieces, lineLexemes, Piece.lexemes, space, nameTree] using hrepeated

theorem valid_repeatedPieces {value : Piece} (h : value.Valid) :
    ∀ p ∈ repeatedPieces value, p.Valid := by
  have hclasses : isIdentifier "NUM_CLASSES" = true := by decide
  simpa [repeatedPieces, hclasses, Symbol.isPlain] using h

theorem writesBlock_multiclass (ensemble : Ensemble)
    (hnames : ∀ tree ∈ ensemble.trees, isIdentifier (e.treeName tree.position) = true) :
    WritesBlock ((e.multiclassBody ensemble).map (indent 2 ++ ·)) (e.multiclassBlock ensemble) := by
  unfold multiclassBody multiclassBlock
  by_cases hempty : ensemble.trees.isEmpty = true
  · rw [if_pos hempty, if_pos hempty]
    have hbase : (Piece.ident "BASE_SCORE").Valid := isIdentifier_baseScore
    have hline : WritesLine "[BASE_SCORE; NUM_CLASSES]"
        (lineLexemes (repeatedPieces (.ident "BASE_SCORE"))) :=
      writesLine_pieces _ ⟨valid_repeatedPieces hbase, rfl⟩ rfl
    exact writesBlock_value hline (isExpr_repeated (isExpr_name "BASE_SCORE"))
  · rw [if_neg hempty, if_neg hempty]
    have hzero := e.valid_literalPiece (.zero .double false)
    have hstart : WritesLine ("let mut scores = [" ++ e.literal (.zero .double false)
          ++ "; NUM_CLASSES];")
        (lineLexemes (startPieces "scores"
          (repeatedPieces (e.literalPiece (.zero .double false))))) :=
      writesLine_start isIdentifier_scores (valid_repeatedPieces hzero) rfl (by
        simp [startPieces, repeatedPieces, lineChars, Piece.chars, Keyword.text, Symbol.text, space,
          literalPiece])
    have hvalue : IsExpr (lineLexemes (repeatedPieces (e.literalPiece (.zero .double false)))) _ :=
      isExpr_repeated (e.isTerm_literalTree (.zero .double false)).isExpr
    -- the list of slots has to have one for the value to be read as an array of elements
    have hclasses : List.range ensemble.numClasses.toNat ≠ [] := by
      have hpos := UInt64.lt_iff_toNat_lt.1 ensemble.numClasses_pos
      simp only [ne_eq, List.range_eq_nil]
      exact Nat.pos_iff_ne_zero.1 hpos
    refine writesBlock_sum hstart (isStatement_start "scores" hvalue) (fun tree htree => ⟨?_,
      e.isStatement_add tree (isTerm_slotTree _)⟩) writesLine_slots (isExpr_slots hclasses)
    refine e.writesLine_add tree (hnames tree htree) (valid_slotPieces ?_) rfl ?_
    · exact tree.classIndex.toNat_lt
    · simp [addPieces, slotPieces, numberPiece, callPieces, lineChars, Piece.chars, Symbol.text,
        space]

/-! ### The function -/

theorem writesLine_scoringRemark : WritesLine e.scoringRemark [] := by
  have hremark : ∃ text, '\n' ∉ text.toList ∧ e.scoringRemark = "//" ++ text := by
    unfold scoringRemark
    cases e.options.missing with
    | nan => exact ⟨"/ Scores one feature vector. NaN marks a missing feature.", by decide, rfl⟩
    | absent => exact ⟨"/ Scores one feature vector. `None` marks a missing feature.", by decide, rfl⟩
  obtain ⟨text, htext, heq⟩ := hremark
  rw [heq]
  exact writesLine_comment htext

/-- The pieces of the type of the scores. -/
def scoresPieces (isMulticlass : Bool) : List Piece :=
  if isMulticlass then repeatedPieces (.ident e.typeName) else [.ident e.typeName]

theorem readsType_scores (isMulticlass : Bool) :
    ReadsType (lineLexemes (e.scoresPieces isMulticlass))
      (if isMulticlass then .array e.typeTree (nameTree "NUM_CLASSES") else e.typeTree) := by
  cases isMulticlass with
  | false => exact e.readsType_typeTree
  | true => exact e.readsType_typeTree.array (isExpr_name "NUM_CLASSES")

/-- The scoring function is read from its lines. -/
theorem writesItem_scoringFunction (ensemble : Ensemble)
    (hname : isIdentifier e.options.functionName = true) :
    WritesItem (e.scoringLines ensemble) (e.scoringFunction ensemble) := by
  have hnames : ∀ tree ∈ ensemble.trees, isIdentifier (e.treeName tree.position) = true :=
    fun tree _ => e.isIdentifier_treeName tree.position hname
  have hvalid : (Piece.ident e.typeName).Valid := isIdentifier_typeName e.options.precision
  -- the two forms of the function differ in its result type and its body
  have hbody : WritesBlock
      ((if ensemble.isMulticlass then e.multiclassBody ensemble else e.singleBody ensemble).map
        (indent 2 ++ ·))
      (if ensemble.isMulticlass then e.multiclassBlock ensemble else e.singleBlock ensemble) := by
    split
    · exact e.writesBlock_multiclass ensemble hnames
    · exact e.writesBlock_single ensemble hnames
  have hresult : ∀ p ∈ e.scoresPieces ensemble.isMulticlass, p.Valid := by
    cases ensemble.isMulticlass with
    | false => simpa [scoresPieces] using hvalid
    | true => exact valid_repeatedPieces hvalid
  have hfit : Piece.allFit
      (space :: (e.scoresPieces ensemble.isMulticlass ++ [space, .symbol .leftBrace])) = true := by
    cases ensemble.isMulticlass <;> rfl
  have htext : (if ensemble.isMulticlass then "[" ++ e.typeName ++ "; NUM_CLASSES]"
      else e.typeName).toList = lineChars (e.scoresPieces ensemble.isMulticlass) := by
    cases ensemble.isMulticlass <;>
      simp [scoresPieces, repeatedPieces, lineChars, Piece.chars, Symbol.text, space]
  obtain ⟨ls, hlines, hitem⟩ := e.writesItem_featuresFunction true (!ensemble.trees.isEmpty) _ hname
    hresult hfit htext (e.readsType_scores ensemble.isMulticlass) hbody
  refine ⟨ls, ?_, hitem⟩
  have hall := (e.writesLine_scoringRemark.indent 1).lines.append hlines
  simpa [scoringLines, String.append_assoc] using hall

end EnsembleCompiler.Emitter
