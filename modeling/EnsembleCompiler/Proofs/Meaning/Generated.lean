import EnsembleCompiler.Proofs.Emission.Lines
import EnsembleCompiler.Proofs.Meaning.Rules
import EnsembleCompiler.Proofs.Meaning.Scores
import Mathlib.Data.List.Nodup

/-!
# The meaning of a generated module

Every name of the module stands for one item, and every function returns what its tree or its
ensemble says: the lookup the known value of a feature, the function of a tree the weight of a
leaf, and the scoring function the scores.
-/

namespace EnsembleCompiler.Emitter

open Target

variable (e : Emitter)

/-! ### Names -/

theorem toList_treeName (position : Nat) : (e.treeName position).toList =
    e.options.functionName.toList ++ ("_tree_".toList ++ Nat.toDigits 10 position) := by
  rw [treeName, String.toList_append, String.toList_append, List.append_assoc]
  simp

theorem treeName_injective {i j : Nat} (h : e.treeName i = e.treeName j) : i = j := by
  have hlists := congrArg String.toList h
  rw [toList_treeName, toList_treeName] at hlists
  have hdigits := List.append_cancel_left (List.append_cancel_left hlists)
  calc
    i = Nat.ofDigitChars 10 (Nat.toDigits 10 i) 0 := Nat.ofDigitChars_ten_toDigits.symm
    _ = Nat.ofDigitChars 10 (Nat.toDigits 10 j) 0 := by rw [hdigits]
    _ = j := Nat.ofDigitChars_ten_toDigits

theorem treeName_ne_functionName (position : Nat) :
    e.treeName position ≠ e.options.functionName := by
  intro h
  have hlength := congrArg (fun name => name.toList.length) h
  simp only [toList_treeName, List.length_append] at hlength
  have hunderscore : "_tree_".toList.length = 6 := by decide
  omega

def endsInDigit (name : String) : Bool := name.toList.getLast?.any Char.isDigit

theorem endsInDigit_treeName (position : Nat) : endsInDigit (e.treeName position) = true := by
  have hdigits := digits_toDigits position
  have hlast : (e.treeName position).toList.getLast? = some ((Nat.toDigits 10 position).getLast
      hdigits.ne_nil) := by
    rw [toList_treeName, ← List.append_assoc, List.getLast?_append,
      List.getLast?_eq_some_getLast hdigits.ne_nil, Option.some_or]
  rw [endsInDigit, hlast]
  exact hdigits.isDigit _ (List.getLast_mem hdigits.ne_nil)

theorem treeName_ne {name : String} (position : Nat) (h : endsInDigit name = false) :
    e.treeName position ≠ name := by
  intro hname
  rw [← hname, endsInDigit_treeName] at h
  cases h

/-- The names of the items before the functions of trees. -/
def headNames (ensemble : Ensemble) : List String :=
  ["NUM_CLASSES"] ++ (if ensemble.numFeatures.isSome then ["NUM_FEATURES"] else [])
    ++ ["BASE_SCORE", e.options.functionName]
    ++ (if hasSplits ensemble then ["feature_value"] else [])

theorem valueNames_moduleItems (ensemble : Ensemble) :
    (e.moduleItems ensemble).map Item.valueName? =
      (e.headNames ensemble ++ ensemble.trees.map fun tree => e.treeName tree.position).map some := by
  unfold moduleItems headNames
  cases ensemble.numFeatures <;> cases hasSplits ensemble <;>
    simp [Function.comp_def, Item.valueName?, constantTree, functionTree, scoringFunction,
      lookupFunction, treeFunction]

theorem nodup_headNames (ensemble : Ensemble) (hname : e.options.functionName ∉ definedNames) :
    (e.headNames ensemble).Nodup := by
  simp only [definedNames, List.mem_cons, List.not_mem_nil, or_false, not_or] at hname
  obtain ⟨hlookup, hclasses, hfeatures, hscore⟩ := hname
  unfold headNames
  cases ensemble.numFeatures.isSome <;> cases hasSplits ensemble <;>
    simp [hlookup, Ne.symm hclasses, Ne.symm hfeatures, Ne.symm hscore]

/-- All items of the module have different names. -/
theorem nodup_valueNames {ensemble : Ensemble} (hname : e.options.functionName ∉ definedNames)
    (hpositions : (ensemble.trees.map (·.position)).Nodup) :
    ((e.moduleItems ensemble).map Item.valueName?).Nodup := by
  have htrees : (ensemble.trees.map fun tree => e.treeName tree.position).Nodup := by
    have hinjective : Function.Injective e.treeName := fun i j => e.treeName_injective
    have hmap := List.Nodup.map hinjective hpositions
    rwa [List.map_map] at hmap
  rw [valueNames_moduleItems]
  refine List.Nodup.map (Option.some_injective _) ?_
  refine List.nodup_append.2 ⟨e.nodup_headNames ensemble hname, htrees, ?_⟩
  intro name hhead other htree
  obtain ⟨tree, -, rfl⟩ := List.mem_map.1 htree
  -- a tree has a longer name than the public function, and no other name ends in a digit
  have hne : e.treeName tree.position ≠ name := by
    by_cases hfunction : name = e.options.functionName
    · rw [hfunction]
      exact e.treeName_ne_functionName tree.position
    · have hdefined : name ∈ definedNames := by
        unfold headNames at hhead
        revert hhead
        cases ensemble.numFeatures.isSome <;> cases hasSplits ensemble <;>
          simp +contextual [hfunction, definedNames, or_imp]
      have hletter : ∀ name ∈ definedNames, endsInDigit name = false := by decide
      exact e.treeName_ne tree.position (hletter name hdefined)
  exact hne.symm

/-! ### Literals -/

theorem ofName?_typeName (p : Precision) : Precision.ofName? p.typeName = some p := by
  cases p <;> rfl

variable {items : List (Item Unit)} {scope : Scope}

theorem evaluates_integerTree {n : Nat} (h : n < UInt64.size) :
    Evaluates items scope (integerTree n) (.index (UInt64.ofNat n)) scope :=
  evaluates_literal (by simp [Literal.value?, h])

theorem evaluates_wordTree (n : UInt64) :
    Evaluates items scope (integerTree n.toNat) (.index n) scope :=
  evaluates_literal (by simp only [Literal.value?, n.toNat_lt_size, if_true, UInt64.ofNat_toNat])

/-- A literal evaluates to the value that is read back from it. -/
theorem evaluates_literalTree (x : Binary64) : Evaluates items scope (e.literalTree x)
    (.float e.options.precision (e.options.precision.readBack x)) scope := by
  have htype : Precision.ofName? e.typeName = some e.options.precision := ofName?_typeName _
  unfold literalTree literalForm Precision.readBack
  cases x.convert e.options.precision.format with
  | nan => exact evaluates_floatConstant (by simp [floatConstant?, htype])
  | infinite negative =>
    cases negative <;> exact evaluates_floatConstant (by simp [floatConstant?, htype])
  | finite negative rank =>
    have hdigits : Evaluates items scope
        (.literal () (.float (readMagnitude rank) (some e.typeName)))
        (.float e.options.precision ((readMagnitude rank).convert e.options.precision.format))
        scope := evaluates_literal (by simp [Literal.value?, htype])
    cases negative with
    | false => exact hdigits
    | true => exact hdigits.unary rfl

/-! ### Features -/

/-- The value that the lookup finds before it drops what is no number. -/
theorem evaluates_lookupTree {mode : MissingMode} (hmode : e.options.missing = mode)
    (features : List (mode.Element (Binary e.options.precision.format))) {feature : UInt64}
    (hfeatures : scope.lookup "features" =
      some (.array (features.map (mode.value e.options.precision))))
    (hindex : scope.lookup "index" = some (.index feature)) :
    Evaluates items scope e.lookupTree (.option ((features[feature.toNat]?.bind mode.present).map
      fun x => .float e.options.precision x)) scope := by
  have hvector : Evaluates items scope (nameTree "features") _ scope := evaluates_variable hfeatures
  have hfeature : Evaluates items scope (nameTree "index") _ scope := evaluates_variable hindex
  have hget : Evaluates items scope (methodTree _ "get" _) _ scope :=
    hvector.method (hfeature.cons evaluateAll_nil) rfl (settles_of_eq fun _ => rfl)
  have hcopied : Evaluates items scope (methodTree _ "copied" []) _ scope :=
    hget.method evaluateAll_nil rfl (settles_of_eq fun _ => rfl)
  rw [List.getElem?_map] at hcopied
  generalize features[feature.toNat]? = found at hcopied ⊢
  rw [lookupTree, hmode]
  -- a vector of optional features has one more option to flatten
  cases mode with
  | nan =>
    have hvalue : found.map (MissingMode.value .nan e.options.precision) =
        (found.bind some).map fun x => .float e.options.precision x := by
      cases found <;> rfl
    rw [hvalue] at hcopied
    exact hcopied
  | absent =>
    refine hcopied.method evaluateAll_nil rfl (settles_of_eq fun _ => ?_)
    cases found with
    | none => rfl
    | some x => cases x <;> rfl

/-- A number that is filtered out by the lookup, or kept. -/
theorem settles_filter (p : Precision) (content : Option (Binary p.format)) :
    Settles (fun fuel => Method.filter.call?
        (fun f v => Evaluation.apply items (evaluate items fuel) f [v])
        (.option (content.map fun x => .float p x))
        [.closure scope ["value"] (.unary () .not (methodTree (nameTree "value") "is_nan" []))])
      (.option ((content.filter fun x => !x.isNaN).map fun x => .float p x)) := by
  cases content with
  | none => exact settles_of_eq fun _ => rfl
  | some x =>
    have hvalue : Evaluates items (("value", .float p x) :: scope) (nameTree "value")
        (.float p x) _ := evaluates_variable rfl
    have hnan : Evaluates items _ (methodTree (nameTree "value") "is_nan" []) (.bool x.isNaN) _ :=
      hvalue.method evaluateAll_nil rfl (settles_of_eq fun _ => rfl)
    have hnot : unary? .not (.bool x.isNaN) = some (.bool !x.isNaN) := rfl
    have hkept : Method.keptIf (.float p x) (.bool !x.isNaN) = some (.option
        (((some x).filter fun x => !x.isNaN).map fun x => .float p x)) := by
      cases h : x.isNaN <;> simp [Method.keptIf, h]
    exact Settles.bind (settles_applyClosure (hnan.unary hnot)) (settles_of_eq fun _ => hkept)

/-- The lookup returns the known value of a feature. -/
theorem settles_lookup {mode : MissingMode} (hmode : e.options.missing = mode)
    (features : List (mode.Element (Binary e.options.precision.format))) (feature : UInt64)
    (hitem : onlyItem? Item.valueName? items "feature_value" = some e.lookupFunction) :
    Settles (fun fuel => Evaluation.apply items (evaluate items fuel) (.function "feature_value")
        [.array (features.map (mode.value e.options.precision)), .index feature])
      (.option ((mode.known features feature).map fun x => .float e.options.precision x)) := by
  refine settles_applyFunction hitem (BlockEvaluates.call rfl rfl (Evaluates.block ?_))
  have hfound : Evaluates items [("features", .array _), ("index", .index feature)] e.lookupTree _ _ :=
    e.evaluates_lookupTree hmode features rfl rfl
  exact hfound.method (evaluates_closure.cons evaluateAll_nil) rfl
    (settles_filter e.options.precision _)

/-! ### Trees -/

section

variable {mode : MissingMode} (hmode : e.options.missing = mode)
  (features : List (mode.Element (Binary e.options.precision.format)))

include hmode

/-- Whether a feature vector goes left at a split. -/
theorem evaluates_conditionTree (feature : UInt64) (threshold : Binary64) (defaultLeft : Bool)
    (hfeatures : scope.lookup "features" =
      some (.array (features.map (mode.value e.options.precision))))
    (hfree : scope.lookup "feature_value" = none)
    (hitem : onlyItem? Item.valueName? items "feature_value" = some e.lookupFunction) :
    Evaluates items scope (e.conditionTree feature threshold defaultLeft)
      (.bool (goesLeft e.options.precision.readBack (mode.known features) feature threshold
        defaultLeft)) scope := by
  have hvector : Evaluates items scope (nameTree "features") _ scope := evaluates_variable hfeatures
  have hindex : Evaluates items scope (integerTree feature.toNat) (.index feature) scope :=
    evaluates_wordTree feature
  have hlookup : Evaluates items scope (.call () (nameTree "feature_value")
      [nameTree "features", integerTree feature.toNat]) _ scope :=
    (evaluates_function hfree hitem).call
      (hvector.cons (hindex.cons evaluateAll_nil))
      (e.settles_lookup hmode features feature hitem)
  have hdefault : Evaluates items scope (.literal () (.bool defaultLeft)) (.bool defaultLeft) scope :=
    evaluates_literal rfl
  refine hlookup.method (hdefault.cons (evaluates_closure.cons evaluateAll_nil)) rfl ?_
  rw [goesLeft]
  -- an unknown feature leaves the default; a known one is handed to the closure
  cases mode.known features feature with
  | none => exact settles_of_eq fun _ => rfl
  | some x =>
    have hvalue : Evaluates items (("value", .float e.options.precision x) :: scope)
        (nameTree "value") (.float e.options.precision x) _ := evaluates_variable rfl
    exact settles_applyClosure (hvalue.binary (e.evaluates_literalTree threshold) (binary?_lt _ _))

/-- A subtree evaluates to the weight of the leaf that is reached. -/
theorem evaluates_nodeTree (node : Node)
    (hfeatures : scope.lookup "features" =
      some (.array (features.map (mode.value e.options.precision))))
    (hfree : scope.lookup "feature_value" = none)
    (hitem : onlyItem? Item.valueName? items "feature_value" = some e.lookupFunction) :
    Evaluates items scope (e.nodeTree node) (.float e.options.precision
      (node.weight e.options.precision.readBack (mode.known features))) scope := by
  induction node with
  | leaf id weight => exact e.evaluates_literalTree weight
  | split id feature threshold defaultLeft left right ihl ihr =>
    have hcondition := e.evaluates_conditionTree hmode features feature threshold defaultLeft
      hfeatures hfree hitem
    refine hcondition.cond ?_
    rw [Node.weight]
    cases goesLeft e.options.precision.readBack (mode.known features) feature threshold defaultLeft with
    | true => exact ihl.block
    | false => exact ihr.block

/-- The function of a tree returns the weight of the leaf that is reached. -/
theorem settles_treeFunction {tree : Tree}
    (htree : onlyItem? Item.valueName? items (e.treeName tree.position) = some (e.treeFunction tree))
    (hlookup : tree.root.isLeaf = false →
      onlyItem? Item.valueName? items "feature_value" = some e.lookupFunction) :
    Settles (fun fuel => Evaluation.apply items (evaluate items fuel)
        (.function (e.treeName tree.position))
        [.array (features.map (mode.value e.options.precision))])
      (.float e.options.precision
        (tree.root.weight e.options.precision.readBack (mode.known features))) := by
  refine settles_applyFunction htree (BlockEvaluates.call rfl rfl (Evaluates.block ?_))
  cases hroot : tree.root with
  | leaf id weight => exact e.evaluates_literalTree weight
  | split id feature threshold defaultLeft left right =>
    exact e.evaluates_nodeTree hmode features _ rfl rfl (hlookup (by rw [hroot]; rfl))

end

/-! ### Items of the module -/

section

variable {ensemble : Ensemble} (hnames : ((e.moduleItems ensemble).map Item.valueName?).Nodup)

include hnames

theorem onlyItem?_numClasses : onlyItem? Item.valueName? (e.moduleItems ensemble) "NUM_CLASSES" =
    some (constantTree "NUM_CLASSES" (.path ["usize"] [])
      (integerTree ensemble.numClasses.toNat)) :=
  onlyItem?_of_mem hnames (by simp [moduleItems]) rfl

theorem onlyItem?_baseScore : onlyItem? Item.valueName? (e.moduleItems ensemble) "BASE_SCORE" =
    some (constantTree "BASE_SCORE" e.typeTree (e.literalTree ensemble.baseScore)) :=
  onlyItem?_of_mem hnames (by simp [moduleItems]) rfl

theorem onlyItem?_scoring :
    onlyItem? Item.valueName? (e.moduleItems ensemble) e.options.functionName =
      some (e.scoringFunction ensemble) :=
  onlyItem?_of_mem hnames (by simp [moduleItems]) rfl

theorem onlyItem?_tree {tree : Tree} (htree : tree ∈ ensemble.trees) :
    onlyItem? Item.valueName? (e.moduleItems ensemble) (e.treeName tree.position) =
      some (e.treeFunction tree) := by
  have hmem : e.treeFunction tree ∈ ensemble.trees.map e.treeFunction := List.mem_map_of_mem htree
  exact onlyItem?_of_mem hnames (List.mem_append_right _ hmem) rfl

theorem onlyItem?_lookup {tree : Tree} (htree : tree ∈ ensemble.trees)
    (hsplit : tree.root.isLeaf = false) :
    onlyItem? Item.valueName? (e.moduleItems ensemble) "feature_value" = some e.lookupFunction := by
  have hsplits : hasSplits ensemble = true := List.any_eq_true.2 ⟨tree, htree, by simp [hsplit]⟩
  exact onlyItem?_of_mem hnames (by simp [moduleItems, hsplits]) rfl

theorem evaluates_numClasses (hfree : scope.lookup "NUM_CLASSES" = none) :
    Evaluates (e.moduleItems ensemble) scope (nameTree "NUM_CLASSES")
      (.index ensemble.numClasses) scope :=
  evaluates_constant hfree (e.onlyItem?_numClasses hnames) (evaluates_wordTree _)

theorem evaluates_baseScore (hfree : scope.lookup "BASE_SCORE" = none) :
    Evaluates (e.moduleItems ensemble) scope (nameTree "BASE_SCORE")
      (.float e.options.precision (e.options.precision.readBack ensemble.baseScore)) scope :=
  evaluates_constant hfree (e.onlyItem?_baseScore hnames) (e.evaluates_literalTree _)

end

end EnsembleCompiler.Emitter
