import EnsembleCompiler.Binary.Decimal
import EnsembleCompiler.Model.Ensemble
import EnsembleCompiler.Text.Blank

/-!
# Model documents

The JSON form of a gradient-boosted model. Scalar parameters may be numbers or text, base scores
may stand in brackets, and flags may be truth values or the integers 0 and 1; nothing that has no
value gets one by default.
-/

namespace EnsembleCompiler.Document

open Json (Shape Fields Scalar Flag)

/-- A tree: its number of nodes and the arrays that are indexed by node. -/
def treeShape : Shape :=
  .record "TreeDocument" <|
    .field "tree_param" true (.record "TreeParam" (.field "num_nodes" true .scalar .none)) <|
    .field "left_children" true (.list .integer) <|
    .field "right_children" true (.list .integer) <|
    .field "split_indices" true (.list .integer) <|
    .field "split_conditions" true (.list .real) <|
    .field "default_left" true (.list .flag) .none

/-- The trees of a model and their classes. -/
def boosterModelShape : Shape :=
  .record "BoosterModel" <|
    .field "tree_info" true (.list .integer) <|
    .field "trees" true (.list treeShape) .none

def gradientBoosterShape : Shape :=
  .record "GradientBooster" <|
    .field "name" false (.optional .text) <|
    .field "model" false (.optional boosterModelShape) .none

def attributesShape : Shape :=
  .record "Attributes" (.field "best_iteration" false (.optional .scalar) .none)

def modelParamShape : Shape :=
  .record "LearnerModelParam" <|
    .field "base_score" true .scalar <|
    .field "num_class" true .scalar <|
    .field "num_feature" false (.optional .scalar) .none

def learnerShape : Shape :=
  .record "Learner" <|
    .field "attributes" false attributesShape <|
    .field "gradient_booster" true gradientBoosterShape <|
    .field "learner_model_param" true modelParamShape .none

/-- A whole document. -/
def shape : Shape := .record "ModelDocument" (.field "learner" true learnerShape .none)

/-- The integer that a text without blanks around it stands for: an optional sign and digits. -/
def integerOfText? (cs : List Char) : Option Int64 :=
  match cs with
  | '-' :: rest => magnitude? rest >>= fun n => within (-(n : Int))
  | '+' :: rest => magnitude? rest >>= fun n => within n
  | rest => magnitude? rest >>= fun n => within n
where
  magnitude? (cs : List Char) : Option Nat :=
    if !cs.isEmpty && cs.all Char.isDigit then some (Nat.ofDigitChars 10 cs 0) else none
  within (n : Int) : Option Int64 :=
    if Int64.minValue.toInt ≤ n ∧ n ≤ Int64.maxValue.toInt then some (Int64.ofInt n) else none

/-- The value of a scalar as an integer. -/
def integerOf (scalar : Scalar) : Except FieldCause Int64 :=
  let value :=
    match scalar with
    | .number n => n.toInteger?
    | .text s => integerOfText? (Text.trim s.toList)
  match value with
  | some n => .ok n
  | none => .error (.notInteger scalar)

/-- Text without the brackets around it, if there are both. -/
def stripBrackets (cs : List Char) : List Char :=
  match cs with
  | '[' :: rest => if rest.getLast? = some ']' then rest.dropLast else cs
  | _ => cs

/-- The value of a scalar as a floating-point number, which as text may stand in brackets. -/
def realOf (scalar : Scalar) : Except FieldCause Binary64 :=
  match scalar with
  | .number n => .ok n.toReal
  | .text s =>
    match Binary.ofChars? .double (Text.trim (stripBrackets (Text.trim s.toList))) with
    | some x => .ok x
    | none => .error (.notNumber scalar)

/-- Whether a scalar is text of nothing but blanks. -/
def isBlank : Scalar → Bool
  | .text s => (Text.trim s.toList).isEmpty
  | .number _ => false

/-- A count, which is not negative. -/
def countOf (scalar : Scalar) : Except FieldCause UInt64 := do
  let n ← integerOf scalar
  if n < 0 then .error (.isNegative n)
  return n.toUInt64

/-- A flag as a truth value; `node` is its index. -/
def truthOf (node : Nat) (flag : Flag) : Except FieldCause Bool :=
  match flag with
  | .bool value => .ok value
  | .integer n =>
    if n = 0 then .ok false
    else if n = 1 then .ok true
    else .error (.notFlag node n)

/-- Puts the name of a field, and of a tree, to a cause. -/
def inField {α : Type} (field : Field) (tree : Option Nat) (result : Except FieldCause α) :
    Except ModelError α :=
  result.mapError (.field field tree)

/-- An array has one entry for each node. -/
def checkLength (position nodes : Nat) (field : Field) (found : Nat) : Except ModelError Unit :=
  if found = nodes then .ok ()
  else .error (.field field (some position) (.notNodeCount nodes found))

/-- The number of nodes that a tree says it has. -/
def numNodesOf (tree : treeShape.Val) : Scalar := tree.1.1

/-- The tree at a position. -/
def treeOf (position : Nat) (tree : treeShape.Val) : Except ModelError RawTree := do
  let left : List Int64 := tree.2.1
  let right : List Int64 := tree.2.2.1
  let feature : List Int64 := tree.2.2.2.1
  let condition : List Binary64 := tree.2.2.2.2.1
  let defaultLeft : List Flag := tree.2.2.2.2.2.1
  let nodes ← inField .numNodes (some position) (countOf (numNodesOf tree))
  checkLength position nodes.toNat .leftChildren left.length
  checkLength position nodes.toNat .rightChildren right.length
  checkLength position nodes.toNat .splitIndices feature.length
  checkLength position nodes.toNat .splitConditions condition.length
  checkLength position nodes.toNat .defaultLeft defaultLeft.length
  let flags ← inField .defaultLeft (some position) ((defaultLeft.mapIdx truthOf).mapM id)
  return ⟨left.toArray, right.toArray, feature.toArray, condition.toArray, flags.toArray⟩

/-- The model of a booster, which has to be one of trees. -/
def boosterModelOf (booster : gradientBoosterShape.Val) : Except ModelError boosterModelShape.Val :=
  let name : Option String := booster.1
  match name, booster.2.1 with
  | some "gbtree", some model | none, some model => .ok model
  | some "gbtree", none | none, none => .error (.field .gradientBooster none .missingModel)
  | some other, _ => .error (.field .gradientBooster none (.unsupportedBooster other))

/-- The best iteration, which is absent also where its text is blank. -/
def bestIterationOf (attributes : attributesShape.Val) : Except ModelError (Option Int64) :=
  let field : Option Scalar := attributes.1
  match field with
  | none => .ok none
  | some scalar =>
    if isBlank scalar then .ok none
    else inField .bestIteration none ((integerOf scalar).map some)

/-- The number of output classes; zero is written for a single output. -/
def numClassesOf (params : modelParamShape.Val) : Except ModelError UInt64 :=
  inField .numClass none ((countOf params.2.1).map fun n => if n = 0 then 1 else n)

/-- The number of features, if the model has it. -/
def numFeaturesOf (params : modelParamShape.Val) : Except ModelError (Option UInt64) :=
  let field : Option Scalar := params.2.2.1
  inField .numFeature none (field.mapM countOf)

/-- The model that a document of the right shape holds. -/
def modelOf (document : shape.Val) : Except ModelError RawEnsemble := do
  let learner : learnerShape.Val := document.1
  let params : modelParamShape.Val := learner.2.2.1
  let model ← boosterModelOf learner.2.1
  let treeInfo : List Int64 := model.1
  let trees : List treeShape.Val := model.2.1
  let baseScore ← inField .baseScore none (realOf params.1)
  let numClasses ← numClassesOf params
  let numFeatures ← numFeaturesOf params
  let bestIteration ← bestIterationOf learner.1
  if treeInfo.length < trees.length then
    .error (.field .treeInfo none (.tooFewClasses trees.length treeInfo.length))
  let trees ← (trees.mapIdx treeOf).mapM id
  return { trees, treeInfo, bestIteration, baseScore, numClasses, numFeatures }

end EnsembleCompiler.Document
