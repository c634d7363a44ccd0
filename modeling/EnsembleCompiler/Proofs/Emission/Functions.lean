import EnsembleCompiler.Proofs.Emission.Lines

/-!
# The functions of a generated module

The lines of each function are read as lexemes that the parser reads as the tree of the function.
For the function of a tree this is by recursion on the tree.
-/

namespace EnsembleCompiler.Emitter

open Target

variable (e : Emitter)

/-- The piece of a literal. -/
def literalPiece (x : Binary64) : Piece :=
  .run (e.literal x).toList (literalLexemes e.typeName (x.convert e.options.precision.format))

theorem valid_literalPiece (x : Binary64) : (e.literalPiece x).Valid :=
  readsAs_literal e.options.precision (x.convert e.options.precision.format)

theorem isTerm_literalTree (x : Binary64) :
    IsTerm (literalLexemes e.typeName (x.convert e.options.precision.format)) (e.literalTree x) :=
  isTerm_literal e.options.precision _

theorem isTerm_integerTree (n : Nat) : IsTerm [.integer n none] (integerTree n) :=
  Target.isTerm_literal rfl ⟨rfl, rfl⟩

/-! ### The function of a tree -/

def conditionPieces (feature : UInt64) (threshold : Binary64) (defaultLeft : Bool) : List Piece :=
  [.ident "feature_value", .symbol .leftParen, .ident "features", .symbol .comma, space,
    numberPiece feature.toNat, .symbol .rightParen, .symbol .dot, .ident "map_or",
    .symbol .leftParen, .keyword (if defaultLeft then .trueKw else .falseKw), .symbol .comma, space,
    .symbol .pipe, .ident "value", .symbol .pipe, space, .ident "value", space, .symbol .lt, space,
    e.literalPiece threshold, .symbol .rightParen]

def conditionLexemes (feature : UInt64) (threshold : Binary64) (defaultLeft : Bool) : List Lexeme :=
  lineLexemes (e.conditionPieces feature threshold defaultLeft)

theorem toList_condition (feature : UInt64) (threshold : Binary64) (defaultLeft : Bool) :
    (e.condition feature threshold defaultLeft).toList =
      lineChars (e.conditionPieces feature threshold defaultLeft) := by
  unfold condition conditionPieces lineChars
  simp only [List.flatMap_cons, List.flatMap_nil, Piece.chars, List.append_assoc, List.append_nil,
    String.toList_append, Symbol.text, space, numberPiece, literalPiece]
  cases defaultLeft <;> simp [Keyword.text]

theorem isExpr_condition (feature : UInt64) (threshold : Binary64) (defaultLeft : Bool) :
    IsExpr (e.conditionLexemes feature threshold defaultLeft)
      (e.conditionTree feature threshold defaultLeft) := by
  have hcompare := IsOperand.binary (s := .lt) (readsOn_name "value").isTerm
    (e.isTerm_literalTree threshold).closed (by decide) rfl
  have hdefault : IsExpr [.keyword (if defaultLeft then .trueKw else .falseKw)]
      (.literal () (.bool defaultLeft)) := by
    cases defaultLeft <;> exact (Target.isTerm_literal rfl ⟨rfl, rfl⟩).isExpr
  have hcall := (readsOn_name "feature_value").call
    ((isExpr_name "features").cons ((isTerm_integerTree feature.toNat).isExpr.cons areExprs_nil))
  have hmethod := hcall.method "map_or"
    (hdefault.cons ((isExpr_closure "value" hcompare).cons areExprs_nil))
  refine IsExpr.of_eq hmethod.isTerm.isExpr ?_
  simp [conditionLexemes, lineLexemes, conditionPieces, Piece.lexemes, space, numberPiece,
    literalPiece, argumentLexemes, commaLexemes]

/-- The lines of a subtree, by recursion on it. -/
def subtreeLines : Node → Nat → List String
  | .leaf _ weight, level => [indent level ++ e.literal weight]
  | .split _ feature threshold defaultLeft left right, level =>
    [indent level ++ ("if " ++ e.condition feature threshold defaultLeft ++ " \x7b")]
      ++ subtreeLines left (level + 1)
      ++ [indent level ++ "\x7d else \x7b"]
      ++ subtreeLines right (level + 1)
      ++ [indent level ++ "\x7d"]

/-- A pending tree is written as its lines before what is pending after it. -/
theorem stepLines_visit (node : Node) (written : List String) (level : Nat) (rest : List Step) :
    e.stepLines written (.visit node level :: rest) =
      e.stepLines ((e.subtreeLines node level).reverse ++ written) rest := by
  induction node generalizing written level rest with
  | leaf id weight =>
    rw [stepLines, subtreeLines]
    rfl
  | split id feature threshold defaultLeft left right ihl ihr =>
    rw [stepLines, ihl, stepLines, ihr, stepLines, subtreeLines]
    simp

theorem nodeLines_eq (node : Node) (level : Nat) :
    e.nodeLines node level = e.subtreeLines node level := by
  rw [nodeLines, stepLines_visit, stepLines]
  simp

def blockLexemes (ls : List Lexeme) : List Lexeme :=
  .symbol .leftBrace :: (ls ++ [Lexeme.symbol .rightBrace])

/-- The lexemes of a subtree. -/
def nodeLexemes : Node → List Lexeme
  | .leaf _ weight => literalLexemes e.typeName (weight.convert e.options.precision.format)
  | .split _ feature threshold defaultLeft left right =>
    condLexemes (e.conditionLexemes feature threshold defaultLeft)
      (blockLexemes (nodeLexemes left)) (blockLexemes (nodeLexemes right))

theorem isTail_nodeTree (node : Node) : IsTail (e.nodeLexemes node) (e.nodeTree node) := by
  induction node with
  | leaf id weight => exact (e.isTerm_literalTree weight).isExpr.tail
  | split id feature threshold defaultLeft left right ihl ihr =>
    exact isTail_cond (e.isExpr_condition feature threshold defaultLeft) ihl.isBlock ihr.isBlock

theorem wellSpaced_literal (x : Binary64) : WellSpaced [e.literalPiece x] :=
  ⟨by simpa using e.valid_literalPiece x, rfl⟩

theorem wellSpaced_condition (feature : UInt64) (threshold : Binary64) (defaultLeft : Bool) :
    WellSpaced (.keyword .ifKw :: space :: (e.conditionPieces feature threshold defaultLeft ++
      [space, .symbol .leftBrace])) := by
  refine ⟨?_, rfl⟩
  have hvalue := e.valid_literalPiece threshold
  have hnumber := valid_numberPiece feature.toNat_lt
  simp [conditionPieces, hvalue, hnumber, Symbol.isPlain]
  decide

theorem writesLine_else :
    WritesLine "\x7d else \x7b" [.symbol .rightBrace, .keyword .elseKw, .symbol .leftBrace] :=
  writesLine_pieces [.symbol .rightBrace, space, .keyword .elseKw, space, .symbol .leftBrace]
    ⟨by simp [Symbol.isPlain], rfl⟩ rfl

theorem writesLine_close : WritesLine "\x7d" [.symbol .rightBrace] :=
  writesLine_pieces [.symbol .rightBrace] ⟨by simp [Symbol.isPlain], rfl⟩ rfl

/-- The lines of a subtree are read as its lexemes. -/
theorem writesLines_subtree (node : Node) (level : Nat) :
    WritesLines (e.subtreeLines node level) (e.nodeLexemes node) := by
  induction node generalizing level with
  | leaf id weight =>
    have hline : WritesLine (e.literal weight) _ :=
      writesLine_pieces _ (e.wellSpaced_literal weight)
        (by simp [lineChars, literalPiece, Piece.chars])
    rw [subtreeLines, nodeLexemes]
    simpa [lineLexemes, literalPiece, Piece.lexemes] using (hline.indent level).lines
  | split id feature threshold defaultLeft left right ihl ihr =>
    have hhead : WritesLine ("if " ++ e.condition feature threshold defaultLeft ++ " \x7b") _ :=
      writesLine_pieces _ (e.wellSpaced_condition feature threshold defaultLeft) (by
        rw [String.toList_append, String.toList_append, toList_condition]
        simp [lineChars, Piece.chars, Keyword.text, Symbol.text, space])
    have hlines := ((((hhead.indent level).lines.append (ihl (level + 1))).append
      (writesLine_else.indent level).lines).append (ihr (level + 1))).append
        (writesLine_close.indent level).lines
    rw [subtreeLines, nodeLexemes]
    simpa [condLexemes, blockLexemes, conditionLexemes, lineLexemes, Piece.lexemes, space]
      using hlines

/-! ### Functions -/

/-- Lines of text between braces are read as a block. -/
def WritesBlock (body : List String) (b : Block Unit) : Prop :=
  ∃ ls, WritesLines body ls ∧ IsBlock (blockLexemes ls) b

/-- Lines of text are read as an item. -/
def WritesItem (lines : List String) (i : Item Unit) : Prop :=
  ∃ ls, WritesLines lines ls ∧ IsItem ls i

/-- The pieces of the first line of a function. -/
def headPieces (isPublic : Bool) (name : String) (parameters result : List Piece) : List Piece :=
  (if isPublic then [Piece.keyword .pubKw, space] else [])
    ++ [Piece.keyword .fnKw, space, .ident name, .symbol .leftParen] ++ parameters
    ++ [Piece.symbol .rightParen, space, .symbol .arrow, space] ++ result
    ++ [space, .symbol .leftBrace]

theorem valid_headPieces {name : String} {parameters result : List Piece} (isPublic : Bool)
    (hname : isIdentifier name = true) (hparameters : ∀ p ∈ parameters, p.Valid)
    (hresult : ∀ p ∈ result, p.Valid) :
    ∀ p ∈ headPieces isPublic name parameters result, p.Valid := by
  have hmark : ∀ p ∈ (if isPublic then [.keyword .pubKw, space] else []), p.Valid := by
    cases isPublic <;> simp
  simp only [headPieces, List.forall_mem_append]
  refine ⟨⟨⟨⟨⟨hmark, ?_⟩, hparameters⟩, ?_⟩, hresult⟩, ?_⟩ <;> simp [hname, Symbol.isPlain]

/-- How the first line of a function is written. -/
theorem lineChars_headPieces (isPublic : Bool) (name : String) (parameters result : List Piece) :
    lineChars (headPieces isPublic name parameters result) =
      (if isPublic then "pub fn " else "fn ").toList ++ (name.toList ++ ("(".toList ++
        (lineChars parameters ++ (") -> ".toList ++ (lineChars result ++ " \x7b".toList))))) := by
  cases isPublic <;>
    simp [headPieces, lineChars, Piece.chars, Symbol.text, Keyword.text, space]

/-- A function is read from its first line and the lines of its body. -/
theorem writesItem_function {head : String} {body : List String} {params : List ParameterOf}
    {parameters result : List Piece} {t : TypeExpr Unit} {b : Block Unit} (isPublic : Bool)
    (name : String)
    (hhead : WritesLine head (lineLexemes (headPieces isPublic name parameters result)))
    (hlexemes : lineLexemes parameters = commaLexemes (params.map ParameterOf.lexemes))
    (hparams : ∀ p ∈ params, ReadsType p.2.1 p.2.2) (ht : ReadsType (lineLexemes result) t)
    (hbody : WritesBlock body b) :
    WritesItem ([indent 1 ++ head] ++ body ++ [indent 1 ++ "\x7d"])
      (functionTree (visibilityOf isPublic) name (params.map fun p => (p.1, p.2.2)) t b) := by
  obtain ⟨lb, hlines, hblock⟩ := hbody
  have hitem := isItem_function isPublic name hparams ht hblock
  refine ⟨functionLexemes isPublic name params (lineLexemes result) (blockLexemes lb), ?_, ?_⟩
  · have hall := ((hhead.indent 1).lines.append hlines).append (writesLine_close.indent 1).lines
    rw [lineLexemes] at hlexemes
    cases isPublic <;>
      simpa [headPieces, lineLexemes, Piece.lexemes, space, functionLexemes, visibilityLexemes,
        blockLexemes, hlexemes] using hall
  · rw [functionTree, List.map_map]
    exact hitem

/-! ### Parameters for the features -/

def elementPieces : List Piece :=
  match e.options.missing with
  | .nan => [.ident e.typeName]
  | .absent => [.ident "Option", .symbol .lt, .ident e.typeName, .symbol .gt]

def featuresLexemes : List Lexeme :=
  .symbol .amp :: .symbol .leftBracket ::
    (lineLexemes e.elementPieces ++ [Lexeme.symbol .rightBracket])

theorem readsType_typeTree : ReadsType [.ident e.typeName] e.typeTree := readsType_path _

theorem readsType_elementTree : ReadsType (lineLexemes e.elementPieces) e.elementTree := by
  unfold elementPieces elementTree
  cases e.options.missing with
  | nan => exact e.readsType_typeTree
  | absent => exact e.readsType_typeTree.argument "Option"

theorem readsType_featuresTree : ReadsType e.featuresLexemes e.featuresTree :=
  e.readsType_elementTree.slice.ref (by decide)

/-- The pieces of a parameter for the features. -/
def featuresPieces (name : String) : List Piece :=
  [Piece.ident name, .symbol .colon, space, .symbol .amp, .symbol .leftBracket] ++ e.elementPieces
    ++ [Piece.symbol .rightBracket]

theorem toList_elementType :
    (e.elementType).toList = lineChars e.elementPieces := by
  unfold elementType elementPieces MissingMode.elementType
  cases e.options.missing with
  | nan => simp [lineChars, Piece.chars, typeName]
  | absent => simp [lineChars, Piece.chars, Symbol.text, typeName, String.toList_append]

theorem valid_elementPieces : ∀ p ∈ e.elementPieces, p.Valid := by
  have htype : isIdentifier e.typeName = true := isIdentifier_typeName e.options.precision
  have hoption : isIdentifier "Option" = true := by decide
  unfold elementPieces
  cases e.options.missing <;> simp [htype, hoption, Symbol.isPlain]

theorem valid_featuresPieces {name : String} (hname : isIdentifier name = true) :
    ∀ p ∈ e.featuresPieces name, p.Valid := by
  simp only [featuresPieces, List.forall_mem_append]
  refine ⟨⟨?_, e.valid_elementPieces⟩, ?_⟩ <;> simp [hname, Symbol.isPlain]

theorem lineChars_featuresPieces (name : String) :
    lineChars (e.featuresPieces name) =
      name.toList ++ (": &[".toList ++ (e.elementType.toList ++ "]".toList)) := by
  rw [toList_elementType]
  simp [featuresPieces, lineChars, Piece.chars, Symbol.text, space]

/-- The first line of a function of the features. -/
theorem writesLine_head {name text : String} (isPublic isUsed : Bool) (result : List Piece)
    (hname : isIdentifier name = true) (hresult : ∀ p ∈ result, p.Valid)
    (hfit : Piece.allFit (space :: (result ++ [space, .symbol .leftBrace])) = true)
    (htext : text.toList = lineChars result) :
    WritesLine ((if isPublic then "pub fn " else "fn ") ++ name ++ "(" ++ parameterName isUsed
        ++ ": &[" ++ e.elementType ++ "]) -> " ++ text ++ " \x7b")
      (lineLexemes (headPieces isPublic name (e.featuresPieces (parameterName isUsed)) result)) := by
  refine writesLine_pieces _ ⟨?_, ?_⟩ ?_
  · have hparameter : isIdentifier (parameterName isUsed) = true := by cases isUsed <;> decide
    exact valid_headPieces isPublic hname (e.valid_featuresPieces hparameter) hresult
  · unfold headPieces featuresPieces elementPieces
    cases isPublic <;> cases e.options.missing <;> exact hfit
  · rw [lineChars_headPieces, lineChars_featuresPieces, ← htext]
    simp [String.toList_append]

/-- A function of the features is read from the lines of its body. -/
theorem writesItem_featuresFunction {name text : String} {body : List String} {t : TypeExpr Unit}
    {b : Block Unit} (isPublic isUsed : Bool) (result : List Piece)
    (hname : isIdentifier name = true) (hresult : ∀ p ∈ result, p.Valid)
    (hfit : Piece.allFit (space :: (result ++ [space, .symbol .leftBrace])) = true)
    (htext : text.toList = lineChars result) (ht : ReadsType (lineLexemes result) t)
    (hbody : WritesBlock body b) :
    WritesItem
      ([indent 1 ++ ((if isPublic then "pub fn " else "fn ") ++ name ++ "("
          ++ parameterName isUsed ++ ": &[" ++ e.elementType ++ "]) -> " ++ text ++ " \x7b")]
        ++ body ++ [indent 1 ++ "\x7d"])
      (functionTree (visibilityOf isPublic) name [(parameterName isUsed, e.featuresTree)] t b) := by
  have hparams : ∀ p ∈ [(parameterName isUsed, e.featuresLexemes, e.featuresTree)],
      ReadsType p.2.1 p.2.2 := by
    simpa using e.readsType_featuresTree
  refine writesItem_function isPublic name
    (e.writesLine_head isPublic isUsed result hname hresult hfit htext) ?_ hparams ht hbody
  simp [featuresPieces, lineLexemes, Piece.lexemes, space, commaLexemes, ParameterOf.lexemes,
    parameterLexemes, featuresLexemes]

/-- The function of a tree is read from its lines. -/
theorem writesItem_treeFunction (tree : Tree)
    (hname : isIdentifier (e.treeName tree.position) = true) :
    WritesItem (e.treeLines tree) (e.treeFunction tree) := by
  have hbody : WritesBlock (e.nodeLines tree.root 2) (valueBlock (e.nodeTree tree.root)) := by
    rw [nodeLines_eq]
    exact ⟨_, e.writesLines_subtree tree.root 2, (e.isTail_nodeTree tree.root).isBlock⟩
  have htype : isIdentifier e.typeName = true := isIdentifier_typeName e.options.precision
  have htext : e.typeName.toList = lineChars [.ident e.typeName] := by simp [lineChars, Piece.chars]
  have hitem := e.writesItem_featuresFunction false (!tree.root.isLeaf) _ hname (by simpa using htype)
    rfl htext e.readsType_typeTree hbody
  simpa [treeLines, treeFunction, visibilityOf, String.append_assoc] using hitem

/-! ### The function that looks a feature up -/

def lookupPieces : List Piece :=
  [Piece.ident "features", .symbol .dot, .ident "get", .symbol .leftParen, .ident "index",
      .symbol .rightParen, .symbol .dot, .ident "copied", .symbol .leftParen, .symbol .rightParen]
    ++ (match e.options.missing with
      | .nan => []
      | .absent =>
        [.symbol .dot, .ident "flatten", .symbol .leftParen, .symbol .rightParen])
    ++ [Piece.symbol .dot, .ident "filter", .symbol .leftParen, .symbol .pipe, .ident "value",
      .symbol .pipe, space, .symbol .bang, .ident "value", .symbol .dot, .ident "is_nan",
      .symbol .leftParen, .symbol .rightParen, .symbol .rightParen]

/-- The value that the function returns. -/
def filterTree : Expr Unit :=
  methodTree e.lookupTree "filter"
    [.closure () [⟨(), "value"⟩] (.unary () .not (methodTree (nameTree "value") "is_nan" []))]

theorem isExpr_lookup : IsExpr (lineLexemes e.lookupPieces) e.filterTree := by
  have hfound := ((readsOn_name "features").method "get"
    ((isExpr_name "index").cons areExprs_nil)).method "copied" areExprs_nil
  have hcheck : IsTerm _ _ := ((readsOn_name "value").method "is_nan" areExprs_nil).isTerm.prefixed
    (s := .bang) rfl rfl
  have hclosure := (isExpr_closure "value" hcheck.isExpr).cons areExprs_nil
  unfold lookupPieces filterTree lookupTree
  cases e.options.missing with
  | nan =>
    refine IsExpr.of_eq (hfound.method "filter" hclosure).isTerm.isExpr ?_
    simp [lineLexemes, Piece.lexemes, space, argumentLexemes, commaLexemes]
  | absent =>
    have hflat := hfound.method "flatten" areExprs_nil
    refine IsExpr.of_eq (hflat.method "filter" hclosure).isTerm.isExpr ?_
    simp [lineLexemes, Piece.lexemes, space, argumentLexemes, commaLexemes]

theorem writesLine_lookupHead :
    WritesLine ("fn feature_value(features: &[" ++ e.elementType ++ "], index: usize) -> Option<"
        ++ e.typeName ++ "> \x7b")
      (lineLexemes (headPieces false "feature_value"
        (e.featuresPieces "features" ++ [.symbol .comma, space, .ident "index", .symbol .colon,
          space, .ident "usize"])
        [.ident "Option", .symbol .lt, .ident e.typeName, .symbol .gt])) := by
  refine writesLine_pieces _ ⟨?_, ?_⟩ ?_
  · have hname : isIdentifier "feature_value" = true := by decide +kernel
    have hfeatures : isIdentifier "features" = true := by decide
    have hindex : isIdentifier "index" = true := by decide
    have hsize : isIdentifier "usize" = true := by decide
    have hoption : isIdentifier "Option" = true := by decide
    have htype : isIdentifier e.typeName = true := isIdentifier_typeName e.options.precision
    refine valid_headPieces false hname ?_ (by simp [hoption, htype, Symbol.isPlain])
    refine List.forall_mem_append.2 ⟨e.valid_featuresPieces hfeatures, ?_⟩
    simp [hindex, hsize, Symbol.isPlain]
  · unfold headPieces featuresPieces elementPieces
    cases e.options.missing <;> rfl
  · have hresult : lineChars [.ident "Option", .symbol .lt, .ident e.typeName, .symbol .gt] =
        "Option<".toList ++ (e.typeName.toList ++ ">".toList) := by
      simp [lineChars, Piece.chars, Symbol.text]
    have hindex : lineChars (e.featuresPieces "features" ++ [.symbol .comma, space, .ident "index",
          .symbol .colon, space, .ident "usize"]) =
        lineChars (e.featuresPieces "features") ++ ", index: usize".toList := by
      simp [lineChars, Piece.chars, Symbol.text, space]
    rw [lineChars_headPieces, hindex, hresult, lineChars_featuresPieces]
    simp [String.toList_append]

/-- What is looked up, as it is written. -/
theorem writesLine_lookup : WritesLine
    ((match e.options.missing with
      | .nan => "features.get(index).copied()"
      | .absent => "features.get(index).copied().flatten()") ++
        ".filter(|value| !value.is_nan())")
    (lineLexemes e.lookupPieces) := by
  refine writesLine_pieces _ ⟨?_, ?_⟩ ?_
  · unfold lookupPieces
    cases e.options.missing <;> simp [Symbol.isPlain] <;> decide +kernel
  · unfold lookupPieces
    cases e.options.missing <;> rfl
  · unfold lookupPieces
    cases e.options.missing <;>
      simp [lineChars, Piece.chars, Symbol.text, space]

/-- The function that looks a feature up is read from its lines. -/
theorem writesItem_lookupFunction : WritesItem e.lookupLines e.lookupFunction := by
  have hbody : WritesBlock [indent 2 ++ _] (valueBlock e.filterTree) :=
    ⟨_, (e.writesLine_lookup.indent 2).lines, e.isExpr_lookup.tail.isBlock⟩
  have hparams : ∀ p ∈ [("features", e.featuresLexemes, e.featuresTree),
      ("index", [.ident "usize"], .path ["usize"] [])], ReadsType p.2.1 p.2.2 :=
    List.forall_mem_cons.2 ⟨e.readsType_featuresTree,
      List.forall_mem_cons.2 ⟨readsType_path _, by simp⟩⟩
  have hitem := writesItem_function false "feature_value" e.writesLine_lookupHead
    (by
      simp [featuresPieces, lineLexemes, Piece.lexemes, space, commaLexemes, ParameterOf.lexemes,
        parameterLexemes, featuresLexemes])
    hparams (e.readsType_typeTree.argument "Option") hbody
  unfold lookupLines
  cases h : e.options.missing <;>
    simpa [h, lookupFunction, filterTree, visibilityOf, String.append_assoc] using hitem

end EnsembleCompiler.Emitter
