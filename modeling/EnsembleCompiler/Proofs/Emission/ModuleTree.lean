import EnsembleCompiler.Emission.Emitter
import EnsembleCompiler.Target.Place

/-!
# The tree of a generated module

The syntax tree that the text of a module stands for, without places: it is defined from the
ensemble and the options alone, and not through the text.
-/

namespace EnsembleCompiler.Emitter

open Target

variable (e : Emitter)

/-! ### Expressions and types -/

def nameTree (name : String) : Expr Unit := .path () [name]

def typeTree : TypeExpr Unit := .path [e.typeName] []

/-- The type of the elements of a feature vector. -/
def elementTree : TypeExpr Unit :=
  match e.options.missing with
  | .nan => e.typeTree
  | .absent => .path ["Option"] [e.typeTree]

def featuresTree : TypeExpr Unit := .ref false (.slice e.elementTree)

/-- The 64-bit value that is read from the digits of a finite magnitude. -/
def readMagnitude {f : FloatFormat} (rank : Fin f.infinityRank) : Binary64 :=
  Binary.ofDecimal .double false (Binary.shortestDecimal f .upward rank)

/-- The literal of a value of the chosen format. -/
def literalForm {f : FloatFormat} (typeName : String) (x : Binary f) : Expr Unit :=
  match x with
  | .nan => .path () [typeName, "NAN"]
  | .infinite negative => .path () [typeName, if negative then "NEG_INFINITY" else "INFINITY"]
  | .finite negative rank =>
    let digits := .literal () (.float (readMagnitude rank) (some typeName))
    if negative then .unary () .neg digits else digits

/-- The literal of a value, which is rounded to the chosen precision. -/
def literalTree (x : Binary64) : Expr Unit :=
  literalForm e.typeName (x.convert e.options.precision.format)

def integerTree (n : Nat) : Expr Unit := .literal () (.integer n none)

/-- Whether a feature goes left at a split. -/
def conditionTree (feature : UInt64) (threshold : Binary64) (defaultLeft : Bool) : Expr Unit :=
  .methodCall ()
    (.call () (nameTree "feature_value") [nameTree "features", integerTree feature.toNat])
    ⟨(), "map_or"⟩
    [.literal () (.bool defaultLeft),
      .closure () [⟨(), "value"⟩] (.binary () .lt (nameTree "value") (e.literalTree threshold))]

/-- A block that is a value and no more. -/
def valueBlock (value : Expr Unit) : Block Unit := .mk () [] (some value)

def nodeTree : Node → Expr Unit
  | .leaf _ weight => e.literalTree weight
  | .split _ feature threshold defaultLeft left right =>
    .cond () (e.conditionTree feature threshold defaultLeft) (valueBlock (nodeTree left))
      (some (.block (valueBlock (nodeTree right))))

/-! ### Items -/

def constantTree (name : String) (type : TypeExpr Unit) (value : Expr Unit) : Item Unit :=
  .const () .everywhere [] ⟨(), name⟩ (.mk () type) value

def functionTree (visibility : Visibility) (name : String)
    (parameters : List (String × TypeExpr Unit)) (result : TypeExpr Unit) (body : Block Unit) :
    Item Unit :=
  .function () visibility [] ⟨(), name⟩
    (parameters.map fun p => .mk false ⟨(), p.1⟩ (.mk () p.2)) (some (.mk () result)) body

def treeFunction (tree : Tree) : Item Unit :=
  functionTree .inherited (e.treeName tree.position)
    [(parameterName (!tree.root.isLeaf), e.featuresTree)] e.typeTree
    (valueBlock (e.nodeTree tree.root))

/-- A method call on an expression. -/
def methodTree (receiver : Expr Unit) (name : String) (arguments : List (Expr Unit)) : Expr Unit :=
  .methodCall () receiver ⟨(), name⟩ arguments

/-- The value that is looked up, before not-a-number is dropped. -/
def lookupTree : Expr Unit :=
  let found := methodTree (methodTree (nameTree "features") "get" [nameTree "index"]) "copied" []
  match e.options.missing with
  | .nan => found
  | .absent => methodTree found "flatten" []

def lookupFunction : Item Unit :=
  functionTree .inherited "feature_value"
    [("features", e.featuresTree), ("index", .path ["usize"] [])] (.path ["Option"] [e.typeTree])
    (valueBlock (methodTree e.lookupTree "filter"
      [.closure () [⟨(), "value"⟩]
        (.unary () .not (methodTree (nameTree "value") "is_nan" []))]))

/-- The call of the function of a tree. -/
def treeCall (tree : Tree) : Expr Unit :=
  .call () (nameTree (e.treeName tree.position)) [nameTree "features"]

def addStatement (target value : Expr Unit) : Statement Unit :=
  .expr () (.assign () (some .add) target value) true

def startStatement (name : String) (value : Expr Unit) : Statement Unit :=
  .binding () true ⟨(), name⟩ none (some value)

/-- The place of a class among the scores. -/
def slotTree (classIndex : Nat) : Expr Unit :=
  .index () (nameTree "scores") (integerTree classIndex)

def withBase (value : Expr Unit) : Expr Unit := .binary () .add value (nameTree "BASE_SCORE")

/-- The body of the scoring function for several classes. -/
def multiclassBlock (ensemble : Ensemble) : Block Unit :=
  if ensemble.trees.isEmpty then
    valueBlock (.repeated () (nameTree "BASE_SCORE") (nameTree "NUM_CLASSES"))
  else
    .mk ()
      (startStatement "scores"
          (.repeated () (e.literalTree (.zero .double false)) (nameTree "NUM_CLASSES"))
        :: ensemble.trees.map fun tree =>
          addStatement (slotTree tree.classIndex.toNat) (e.treeCall tree))
      (some (.array () ((List.range ensemble.numClasses.toNat).map fun c => withBase (slotTree c))))

/-- The body of the scoring function for one class. -/
def singleBlock (ensemble : Ensemble) : Block Unit :=
  if ensemble.trees.isEmpty then valueBlock (nameTree "BASE_SCORE")
  else
    .mk ()
      (startStatement "score" (e.literalTree (.zero .double false))
        :: ensemble.trees.map fun tree => addStatement (nameTree "score") (e.treeCall tree))
      (some (withBase (nameTree "score")))

def scoringFunction (ensemble : Ensemble) : Item Unit :=
  functionTree .everywhere e.options.functionName
    [(parameterName (!ensemble.trees.isEmpty), e.featuresTree)]
    (if ensemble.isMulticlass then .array e.typeTree (nameTree "NUM_CLASSES") else e.typeTree)
    (if ensemble.isMulticlass then e.multiclassBlock ensemble else e.singleBlock ensemble)

/-- The items of the module in their order. -/
def moduleItems (ensemble : Ensemble) : List (Item Unit) :=
  [constantTree "NUM_CLASSES" (.path ["usize"] []) (integerTree ensemble.numClasses.toNat)]
    ++ (match ensemble.numFeatures with
      | some n => [constantTree "NUM_FEATURES" (.path ["usize"] []) (integerTree n.toNat)]
      | none => [])
    ++ [constantTree "BASE_SCORE" e.typeTree (e.literalTree ensemble.baseScore)]
    ++ [e.scoringFunction ensemble]
    ++ (if hasSplits ensemble then [e.lookupFunction] else [])
    ++ ensemble.trees.map e.treeFunction

/-- The tree of the module. -/
def moduleTree (ensemble : Ensemble) : File Unit :=
  ⟨[], [.module () .everywhere [] ⟨(), e.options.moduleName⟩ (e.moduleItems ensemble)]⟩

end EnsembleCompiler.Emitter
