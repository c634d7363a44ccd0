import EnsembleCompiler.Proofs.Assembly.Ensemble
import EnsembleCompiler.Proofs.Compilation
import EnsembleCompiler.Proofs.Emission.Scope
import EnsembleCompiler.Proofs.Meaning.Generated

/-!
# Generated modules are closed

Every name in a generated module stands for a parameter, a local variable, a constant of a
floating-point type or one item of the module. The items have different names exactly where the
trees have different positions: positions are the only numbers in the names of tree functions, and
ensembles that are put together by hand can repeat them.
-/

namespace EnsembleCompiler.Emitter

open Target

/-- The constants of floating-point types that literals are written as. -/
def IsFloatConstant (p : Path) : Prop :=
  ∃ type ∈ ["f32", "f64"], ∃ name ∈ ["NAN", "INFINITY", "NEG_INFINITY"], p = [type, name]

/-- A path in a module stands for a constant of a floating-point type, or its name for exactly one
item of the module. -/
def Resolves (items : List (Item Unit)) (p : Path) : Prop :=
  IsFloatConstant p ∨
    ∃ name item, p = [name] ∧ onlyItem? Item.valueName? items name = some item

variable (e : Emitter) {defined : Path → Prop} {scope : List String}

/-! ### Trees -/

theorem typeName_mem : e.typeName ∈ ["f32", "f64"] := by
  unfold typeName
  cases e.options.precision <;> decide

theorem wellScoped_literalTree (hfloat : ∀ p, IsFloatConstant p → defined p) (x : Binary64) :
    (e.literalTree x).WellScoped defined scope := by
  have hconstant : ∀ name ∈ ["NAN", "INFINITY", "NEG_INFINITY"],
      (Expr.path () [e.typeName, name]).WellScoped defined scope := fun name hname =>
    Expr.wellScoped_defined (hfloat _ ⟨e.typeName, e.typeName_mem, name, hname, rfl⟩) ()
  unfold literalTree
  cases x.convert e.options.precision.format with
  | nan => exact hconstant "NAN" (by decide)
  | infinite negative => cases negative <;> exact hconstant _ (by decide)
  | finite negative rank =>
    unfold literalForm
    dsimp only
    split <;> trivial

theorem wellScoped_elementTree : e.elementTree.WellScoped defined scope := by
  unfold elementTree
  cases e.options.missing <;> simp [typeTree, TypeExpr.WellScoped, TypeExpr.AllWellScoped]

theorem wellScoped_featuresTree : e.featuresTree.WellScoped defined scope :=
  e.wellScoped_elementTree

theorem wellScoped_typeTree : e.typeTree.WellScoped defined scope := trivial

theorem wellScoped_conditionTree (hfloat : ∀ p, IsFloatConstant p → defined p)
    (hfeatures : "features" ∈ scope) (hlookup : defined ["feature_value"]) (feature : UInt64)
    (threshold : Binary64) (defaultLeft : Bool) :
    (e.conditionTree feature threshold defaultLeft).WellScoped defined scope := by
  have hcall : (Expr.call () (nameTree "feature_value")
      [nameTree "features", integerTree feature.toNat]).WellScoped defined scope :=
    ⟨Expr.wellScoped_defined hlookup (), Expr.wellScoped_name hfeatures (), trivial, trivial⟩
  have hvalue : "value" ∈ "value" :: scope := List.mem_cons_self
  exact ⟨hcall, trivial, ⟨Expr.wellScoped_name hvalue (), e.wellScoped_literalTree hfloat threshold⟩,
    trivial⟩

/-- A tree looks at features and thresholds and at nothing else. -/
theorem wellScoped_nodeTree (hfloat : ∀ p, IsFloatConstant p → defined p)
    (hfeatures : "features" ∈ scope) (hlookup : defined ["feature_value"]) (node : Node) :
    (e.nodeTree node).WellScoped defined scope := by
  induction node with
  | leaf id weight => exact e.wellScoped_literalTree hfloat weight
  | split id feature threshold defaultLeft left right ihl ihr =>
    have hcondition := e.wellScoped_conditionTree hfloat hfeatures hlookup feature threshold defaultLeft
    exact ⟨hcondition, ⟨trivial, ihl⟩, trivial, ihr⟩

/-! ### Functions -/

theorem wellScoped_functionTree {visibility : Visibility} {name : String}
    {parameters : List (String × TypeExpr Unit)} {result : TypeExpr Unit} {body : Block Unit}
    (hparameters : ∀ p ∈ parameters, p.2.WellScoped defined [])
    (hresult : result.WellScoped defined [])
    (hbody : body.WellScoped defined (parameters.map Prod.fst)) :
    (functionTree visibility name parameters result body).WellScoped defined := by
  refine ⟨fun p hp => ?_, hresult, ?_⟩
  · obtain ⟨q, hq, rfl⟩ := List.mem_map.1 hp
    exact hparameters q hq
  · rw [List.map_map]
    exact hbody

/-- A function of a feature vector alone. -/
theorem wellScoped_featuresFunction {visibility : Visibility} {name parameter : String}
    {result : TypeExpr Unit} {body : Block Unit} (hresult : result.WellScoped defined [])
    (hbody : body.WellScoped defined [parameter]) :
    (functionTree visibility name [(parameter, e.featuresTree)] result body).WellScoped defined := by
  refine wellScoped_functionTree (fun p hp => ?_) hresult hbody
  obtain rfl := List.mem_singleton.1 hp
  exact e.wellScoped_featuresTree

theorem wellScoped_treeFunction (hfloat : ∀ p, IsFloatConstant p → defined p) (tree : Tree)
    (hlookup : tree.root.isLeaf = false → defined ["feature_value"]) :
    (e.treeFunction tree).WellScoped defined := by
  refine e.wellScoped_featuresFunction e.wellScoped_typeTree ⟨trivial, ?_⟩
  cases hroot : tree.root with
  | leaf id weight => exact e.wellScoped_literalTree hfloat weight
  | split id feature threshold defaultLeft left right =>
    exact e.wellScoped_nodeTree hfloat List.mem_cons_self (hlookup (by rw [hroot]; rfl)) _

theorem wellScoped_lookupTree : e.lookupTree.WellScoped defined ["features", "index"] := by
  have hfeatures : "features" ∈ ["features", "index"] := by decide
  have hindex : "index" ∈ ["features", "index"] := by decide
  have hfound : (methodTree (methodTree (nameTree "features") "get" [nameTree "index"])
      "copied" []).WellScoped defined ["features", "index"] :=
    ⟨⟨Expr.wellScoped_name hfeatures (), Expr.wellScoped_name hindex (), trivial⟩, trivial⟩
  unfold lookupTree
  cases e.options.missing with
  | nan => exact hfound
  | absent => exact ⟨hfound, trivial⟩

theorem wellScoped_lookupFunction : e.lookupFunction.WellScoped defined := by
  refine wellScoped_functionTree ?_ ⟨e.wellScoped_typeTree, trivial⟩
    ⟨trivial, e.wellScoped_lookupTree, ⟨?_, trivial⟩, trivial⟩
  · intro p hp
    rcases List.mem_cons.1 hp with rfl | hp
    · exact e.wellScoped_featuresTree
    · obtain rfl := List.mem_singleton.1 hp
      trivial
  · have hvalue : "value" ∈ ["value", "features", "index"] := by decide
    exact Expr.wellScoped_name hvalue ()

/-! ### The scoring function -/

theorem wellScoped_withBase (hscore : defined ["BASE_SCORE"]) {value : Expr Unit}
    (h : value.WellScoped defined scope) : (withBase value).WellScoped defined scope :=
  ⟨h, Expr.wellScoped_defined hscore ()⟩

theorem wellScoped_addStatement {target : Expr Unit} {tree : Tree}
    (htarget : target.WellScoped defined scope) (hfeatures : "features" ∈ scope)
    (htree : defined [e.treeName tree.position]) :
    (addStatement target (e.treeCall tree)).WellScoped defined scope :=
  ⟨htarget, Expr.wellScoped_defined htree (), Expr.wellScoped_name hfeatures (), trivial⟩

section

variable {ensemble : Ensemble} (htrees : ∀ tree ∈ ensemble.trees, defined [e.treeName tree.position])
include htrees

/-- A variable that is started, then the trees added to it, then a value made from it. -/
theorem wellScoped_sumBlock {name : String} {start value : Expr Unit} {target : Tree → Expr Unit}
    (hstart : start.WellScoped defined ["features"])
    (htarget : ∀ tree, (target tree).WellScoped defined [name, "features"])
    (hvalue : value.WellScoped defined [name, "features"]) :
    (Block.mk ()
      (startStatement name start
        :: ensemble.trees.map fun tree => addStatement (target tree) (e.treeCall tree))
      (some value)).WellScoped defined ["features"] := by
  have hadd : ∀ s ∈ ensemble.trees.map fun tree => addStatement (target tree) (e.treeCall tree),
      s.WellScoped defined [name, "features"] ∧
        s.scopeAfter [name, "features"] = [name, "features"] := by
    intro s hs
    obtain ⟨tree, htree, rfl⟩ := List.mem_map.1 hs
    have hfeatures : "features" ∈ [name, "features"] := by simp
    exact ⟨e.wellScoped_addStatement (htarget tree) hfeatures (htrees tree htree), rfl⟩
  obtain ⟨hstatements, hscope⟩ := Statement.allWellScoped_of_expr hadd
  refine ⟨⟨⟨trivial, hstart⟩, hstatements⟩, ?_⟩
  show value.WellScoped defined (List.foldl Statement.scopeAfter [name, "features"] _)
  rwa [hscope]

variable (hfloat : ∀ p, IsFloatConstant p → defined p) (hscore : defined ["BASE_SCORE"])
include hfloat hscore

theorem wellScoped_singleBlock : (e.singleBlock ensemble).WellScoped defined
    [parameterName (!ensemble.trees.isEmpty)] := by
  unfold singleBlock
  cases hempty : ensemble.trees.isEmpty with
  | true => exact ⟨trivial, Expr.wellScoped_defined hscore ()⟩
  | false =>
    have hname : "score" ∈ ["score", "features"] := by decide
    exact e.wellScoped_sumBlock htrees (e.wellScoped_literalTree hfloat _)
      (fun _ => Expr.wellScoped_name hname ())
      (wellScoped_withBase hscore (Expr.wellScoped_name hname ()))

variable (hclasses : defined ["NUM_CLASSES"])
include hclasses

theorem wellScoped_multiclassBlock : (e.multiclassBlock ensemble).WellScoped defined
    [parameterName (!ensemble.trees.isEmpty)] := by
  unfold multiclassBlock
  cases hempty : ensemble.trees.isEmpty with
  | true =>
    exact ⟨trivial, Expr.wellScoped_defined hscore (), Expr.wellScoped_defined hclasses ()⟩
  | false =>
    have hname : "scores" ∈ ["scores", "features"] := by decide
    have hslot : ∀ c, (slotTree c).WellScoped defined ["scores", "features"] := fun c =>
      ⟨Expr.wellScoped_name hname (), trivial⟩
    refine e.wellScoped_sumBlock htrees
      ⟨e.wellScoped_literalTree hfloat _, Expr.wellScoped_defined hclasses ()⟩
      (fun tree => hslot tree.classIndex.toNat) ?_
    refine Expr.allWellScoped_iff.2 fun slot hmem => ?_
    obtain ⟨c, -, rfl⟩ := List.mem_map.1 hmem
    exact wellScoped_withBase hscore (hslot c)

theorem wellScoped_scoringFunction : (e.scoringFunction ensemble).WellScoped defined := by
  unfold scoringFunction
  cases ensemble.isMulticlass with
  | true =>
    exact e.wellScoped_featuresFunction ⟨e.wellScoped_typeTree, Expr.wellScoped_defined hclasses ()⟩
      (e.wellScoped_multiclassBlock htrees hfloat hscore hclasses)
  | false =>
    exact e.wellScoped_featuresFunction e.wellScoped_typeTree
      (e.wellScoped_singleBlock htrees hfloat hscore)

end

/-! ### Modules -/

variable {ensemble : Ensemble}

/-- Where the names of the items are different, all names of the module resolve. -/
theorem wellScoped_moduleItems
    (hnames : ((e.moduleItems ensemble).map Item.valueName?).Nodup) :
    ∀ item ∈ e.moduleItems ensemble, item.WellScoped (Resolves (e.moduleItems ensemble)) := by
  have hfloat : ∀ p, IsFloatConstant p → Resolves (e.moduleItems ensemble) p := fun p hp => .inl hp
  have hitem : ∀ {name item},
      onlyItem? Item.valueName? (e.moduleItems ensemble) name = some item →
        Resolves (e.moduleItems ensemble) [name] := fun h => .inr ⟨_, _, rfl, h⟩
  intro item hmem
  simp only [moduleItems, List.mem_append] at hmem
  -- one case for each part of the module; only functions mention names of other items
  rcases hmem with ((((hmem | hmem) | hmem) | hmem) | hmem) | hmem
  · obtain rfl := List.mem_singleton.1 hmem
    exact ⟨trivial, trivial⟩
  · cases hfeatures : ensemble.numFeatures with
    | none => simp [hfeatures] at hmem
    | some n =>
      obtain rfl : item = _ := by simpa [hfeatures] using hmem
      exact ⟨trivial, trivial⟩
  · obtain rfl := List.mem_singleton.1 hmem
    exact ⟨e.wellScoped_typeTree, e.wellScoped_literalTree hfloat _⟩
  · obtain rfl := List.mem_singleton.1 hmem
    exact e.wellScoped_scoringFunction (fun tree htree => hitem (e.onlyItem?_tree hnames htree))
      hfloat (hitem (e.onlyItem?_baseScore hnames)) (hitem (e.onlyItem?_numClasses hnames))
  · split at hmem
    · obtain rfl := List.mem_singleton.1 hmem
      exact e.wellScoped_lookupFunction
    · cases hmem
  · obtain ⟨tree, htree, rfl⟩ := List.mem_map.1 hmem
    exact e.wellScoped_treeFunction hfloat tree fun hsplit =>
      hitem (e.onlyItem?_lookup hnames htree hsplit)

/-- The names of the items are different exactly where the positions of the trees are. -/
theorem nodup_valueNames_iff (hname : e.options.functionName ∉ definedNames) :
    ((e.moduleItems ensemble).map Item.valueName?).Nodup ↔
      (ensemble.trees.map (·.position)).Nodup := by
  refine ⟨fun h => ?_, e.nodup_valueNames hname⟩
  rw [valueNames_moduleItems] at h
  have htrees := (List.nodup_append.1 (List.Nodup.of_map _ h)).2.1
  have hpositions : (ensemble.trees.map (·.position)).map e.treeName =
      ensemble.trees.map fun tree => e.treeName tree.position := by rw [List.map_map]; rfl
  rw [← hpositions] at htrees
  exact List.Nodup.of_map _ htrees

end EnsembleCompiler.Emitter

namespace EnsembleCompiler

open Target Emitter

/-- Under accepted options every ensemble has a text, which reads as the tree of its module. -/
theorem compileEnsemble_tree {options : Options} (h : options.validate = .ok ())
    (ensemble : Ensemble) :
    ∃ text file, compileEnsemble ensemble options = .ok text ∧ parse text = .ok file ∧
      file.erase = moduleTree ⟨options, none⟩ ensemble := by
  have hparse := parse_moduleText h none (by simp) ensemble
  cases hfile : parse (moduleText ⟨options, none⟩ ensemble) with
  | error diagnostics =>
    rw [hfile] at hparse
    cases hparse
  | ok file =>
    rw [hfile] at hparse
    exact ⟨_, file, compileEnsemble_eq h ensemble, hfile, by injection hparse⟩

/-- **Generated modules are closed.** Under accepted options the text of every ensemble is handed
out and reads as one module of named items. Their names are different exactly where the positions of
the trees are, as they always are in an ensemble that is assembled from a model. Then every tree has
a function of its own, and every name in the module resolves. -/
theorem compileEnsemble_closed {options : Options} (h : options.validate = .ok ())
    (ensemble : Ensemble) :
    ∃ text file items, compileEnsemble ensemble options = .ok text ∧ parse text = .ok file ∧
      file.erase = ⟨[], [.module () .everywhere [] ⟨(), options.moduleName⟩ items]⟩ ∧
      items.map Item.valueName? = (headNames ⟨options, none⟩ ensemble
        ++ ensemble.trees.map fun tree => treeName ⟨options, none⟩ tree.position).map some ∧
      ((items.map Item.valueName?).Nodup ↔ (ensemble.trees.map (·.position)).Nodup) ∧
      (∀ raw, Ensemble.ofRaw raw = .ok ensemble → (ensemble.trees.map (·.position)).Nodup) ∧
      ((ensemble.trees.map (·.position)).Nodup →
        (∀ tree ∈ ensemble.trees,
          onlyItem? Item.valueName? items (treeName ⟨options, none⟩ tree.position) =
            some (treeFunction ⟨options, none⟩ tree)) ∧
        ∀ item ∈ items, item.WellScoped (Resolves items)) := by
  let e : Emitter := ⟨options, none⟩
  have hname : options.functionName ∉ definedNames := Options.functionName_not_mem h
  have hnames : ((e.moduleItems ensemble).map Item.valueName?).Nodup ↔
      (ensemble.trees.map (·.position)).Nodup := e.nodup_valueNames_iff hname
  obtain ⟨text, file, htext, hfile, herase⟩ := compileEnsemble_tree h ensemble
  refine ⟨text, file, e.moduleItems ensemble, htext, hfile, herase,
    e.valueNames_moduleItems ensemble, hnames, fun raw => Ensemble.nodup_positions, fun hnodup => ?_⟩
  exact ⟨fun tree htree => e.onlyItem?_tree (hnames.2 hnodup) htree,
    e.wellScoped_moduleItems (hnames.2 hnodup)⟩

/-- A split and a leaf, not in the order of their positions. -/
def splitAndLeaf : Ensemble :=
  ⟨[⟨4, 1, .split 0 2 .nan true (.leaf 1 .nan) (.leaf 2 .nan)⟩, ⟨2, 0, .leaf 0 (.infinite true)⟩],
    .nan, 2, some 3, Nat.two_pos, by decide⟩

theorem compileEnsemble_closed_splitAndLeaf :
    Options.default.validate = .ok () ∧
      ∃ text file items, compileEnsemble splitAndLeaf .default = .ok text ∧ parse text = .ok file ∧
        file.erase = ⟨[], [.module () .everywhere [] ⟨(), "model"⟩ items]⟩ ∧
        (items.map Item.valueName?).Nodup ∧ ∀ item ∈ items, item.WellScoped (Resolves items) := by
  have hoptions : Options.default.validate = .ok () := by decide
  have hpositions : (splitAndLeaf.trees.map (·.position)).Nodup := by decide
  obtain ⟨text, file, items, htext, hfile, herase, -, hnames, -, hclosed⟩ :=
    compileEnsemble_closed hoptions splitAndLeaf
  exact ⟨hoptions, text, file, items, htext, hfile, herase, hnames.2 hpositions,
    (hclosed hpositions).2⟩

/-- Two trees at one position. -/
def twins : Ensemble :=
  ⟨[⟨0, 0, .leaf 0 (.zero .double false)⟩, ⟨0, 0, .leaf 0 (.zero .double false)⟩],
    .zero .double false, 1, none, Nat.one_pos, by decide⟩

/-- Two trees at one position give two functions of one name. -/
theorem twins_share_name :
    ∃ text file items, compileEnsemble twins .default = .ok text ∧ parse text = .ok file ∧
      file.erase = ⟨[], [.module () .everywhere [] ⟨(), "model"⟩ items]⟩ ∧
      ¬ (items.map Item.valueName?).Nodup := by
  have hoptions : Options.default.validate = .ok () := by decide
  have hname := Options.functionName_not_mem hoptions
  obtain ⟨text, file, htext, hfile, herase⟩ := compileEnsemble_tree hoptions twins
  refine ⟨text, file, _, htext, hfile, herase, fun hnodup => ?_⟩
  have hpositions := (nodup_valueNames_iff ⟨.default, none⟩ hname).1 hnodup
  exact absurd hpositions (by decide)

end EnsembleCompiler
