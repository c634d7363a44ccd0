import EnsembleCompiler.Emission.Literal
import EnsembleCompiler.Model.Ensemble

/-!
# The generated module

Every tree becomes a function of nested conditionals. The scoring function adds up the trees of
each class and then the base score; a further function looks a feature up, if a tree has a split.
The text is made line by line.
-/

namespace EnsembleCompiler

/-- What is needed besides an ensemble to write its module. -/
structure Emitter where
  options : Options
  /-- The fingerprint of the document, for the head of the module. -/
  fingerprint : Option String

/-- The deepest indentation that is written. -/
def maxIndentLevel : Nat := 32

/-- The indentation of a level: four spaces for each up to the deepest. -/
def indent (level : Nat) : String :=
  String.ofList (List.replicate (4 * min level maxIndentLevel) ' ')

/-- Lines as one text, without a line feed after the last. -/
def joinLines (lines : List String) : String := "\n".intercalate lines

namespace Emitter

def typeName (e : Emitter) : String := e.options.precision.typeName

def elementType (e : Emitter) : String := e.options.missing.elementType e.options.precision

def literal (e : Emitter) (x : Binary64) : String := floatLiteral x e.options.precision

/-- The name of the function of a tree. -/
def treeName (e : Emitter) (position : Nat) : String :=
  e.options.functionName ++ "_tree_" ++ Nat.repr position

/-- Whether a feature goes left at a split. -/
def condition (e : Emitter) (feature : UInt64) (threshold : Binary64) (defaultLeft : Bool) :
    String :=
  "feature_value(features, " ++ Nat.repr feature.toNat ++ ").map_or("
    ++ (if defaultLeft then "true" else "false") ++ ", |value| value < " ++ e.literal threshold
    ++ ")"

/-- What is still to be written of a tree. -/
inductive Step where
  | visit (node : Node) (level : Nat)
  | close (text : String) (level : Nat)

namespace Step

/-- How much work a step is. -/
def work : Step → Nat
  | visit node _ => 3 * node.size
  | close _ _ => 1

def totalWork (steps : List Step) : Nat := steps.foldr (fun step total => step.work + total) 0

end Step

/-- The lines of pending steps after those written before, which are kept last first. -/
def stepLines (e : Emitter) (written : List String) : List Step → List String
  | [] => written.reverse
  | .close text level :: rest => stepLines e ((indent level ++ text) :: written) rest
  | .visit (.leaf _ weight) level :: rest =>
    stepLines e ((indent level ++ e.literal weight) :: written) rest
  | .visit (.split _ feature threshold defaultLeft left right) level :: rest =>
    let head := "if " ++ e.condition feature threshold defaultLeft ++ " \x7b"
    stepLines e ((indent level ++ head) :: written)
      (.visit left (level + 1) :: .close "\x7d else \x7b" level :: .visit right (level + 1)
        :: .close "\x7d" level :: rest)
termination_by steps => Step.totalWork steps
decreasing_by
  · simp [Step.totalWork, Step.work]
  · simp [Step.totalWork, Step.work, Node.size]
  · simp [Step.totalWork, Step.work, Node.size]; omega

/-- The lines of a tree at a level of indentation. -/
def nodeLines (e : Emitter) (node : Node) (level : Nat) : List String :=
  e.stepLines [] [.visit node level]

/-- The name of the parameter for the features, which is marked where they are not used. -/
def parameterName (isUsed : Bool) : String := if isUsed then "features" else "_features"

/-- The lines of the function of a tree. -/
def treeLines (e : Emitter) (tree : Tree) : List String :=
  [indent 1 ++ "fn " ++ e.treeName tree.position ++ "(" ++ parameterName (!tree.root.isLeaf)
      ++ ": &[" ++ e.elementType ++ "]) -> " ++ e.typeName ++ " \x7b"]
    ++ e.nodeLines tree.root 2
    ++ [indent 1 ++ "\x7d"]

/-- The function of a tree. -/
def treeText (e : Emitter) (tree : Tree) : String := joinLines (e.treeLines tree)

/-- The lines of the function that looks a feature up. -/
def lookupLines (e : Emitter) : List String :=
  let lookup :=
    match e.options.missing with
    | .nan => "features.get(index).copied()"
    | .absent => "features.get(index).copied().flatten()"
  [indent 1 ++ "fn feature_value(features: &[" ++ e.elementType
      ++ "], index: usize) -> Option<" ++ e.typeName ++ "> \x7b",
    indent 2 ++ lookup ++ ".filter(|value| !value.is_nan())",
    indent 1 ++ "\x7d"]

/-- The remark above the scoring function. -/
def scoringRemark (e : Emitter) : String :=
  match e.options.missing with
  | .nan => "/// Scores one feature vector. NaN marks a missing feature."
  | .absent => "/// Scores one feature vector. `None` marks a missing feature."

/-- The statements of the scoring function for several classes. -/
def multiclassBody (e : Emitter) (ensemble : Ensemble) : List String :=
  if ensemble.trees.isEmpty then ["[BASE_SCORE; NUM_CLASSES]"]
  else
    let slots := (List.range ensemble.numClasses.toNat).map fun c =>
      "scores[" ++ Nat.repr c ++ "] + BASE_SCORE"
    ["let mut scores = [" ++ e.literal (.zero .double false) ++ "; NUM_CLASSES];"]
      ++ (ensemble.trees.map fun tree =>
        "scores[" ++ Nat.repr tree.classIndex.toNat ++ "] += " ++ e.treeName tree.position
          ++ "(features);")
      ++ ["[" ++ ", ".intercalate slots ++ "]"]

/-- The statements of the scoring function for one class. -/
def singleBody (e : Emitter) (ensemble : Ensemble) : List String :=
  if ensemble.trees.isEmpty then ["BASE_SCORE"]
  else
    ["let mut score = " ++ e.literal (.zero .double false) ++ ";"]
      ++ (ensemble.trees.map fun tree => "score += " ++ e.treeName tree.position ++ "(features);")
      ++ ["score + BASE_SCORE"]

/-- The lines of the scoring function. -/
def scoringLines (e : Emitter) (ensemble : Ensemble) : List String :=
  let result :=
    if ensemble.isMulticlass then "[" ++ e.typeName ++ "; NUM_CLASSES]" else e.typeName
  let body :=
    if ensemble.isMulticlass then e.multiclassBody ensemble else e.singleBody ensemble
  [indent 1 ++ e.scoringRemark,
    indent 1 ++ "pub fn " ++ e.options.functionName ++ "("
      ++ parameterName (!ensemble.trees.isEmpty) ++ ": &[" ++ e.elementType ++ "]) -> "
      ++ result ++ " \x7b"]
    ++ body.map (indent 2 ++ ·)
    ++ [indent 1 ++ "\x7d"]

/-- The lines above the module. -/
def headLines (e : Emitter) : List String :=
  ["// Code generated by boostc from an XGBoost model. DO NOT EDIT."]
    ++ (match e.fingerprint with
      | some fingerprint => ["// model fingerprint: blake3:" ++ fingerprint]
      | none => [])
    ++ [""]

/-- The constants of the module. -/
def constantLines (e : Emitter) (ensemble : Ensemble) : List String :=
  [indent 1 ++ "pub const NUM_CLASSES: usize = " ++ Nat.repr ensemble.numClasses.toNat ++ ";"]
    ++ (match ensemble.numFeatures with
      | some n => [indent 1 ++ "pub const NUM_FEATURES: usize = " ++ Nat.repr n.toNat ++ ";"]
      | none => [])
    ++ [indent 1 ++ "pub const BASE_SCORE: " ++ e.typeName ++ " = "
      ++ e.literal ensemble.baseScore ++ ";"]

/-- Whether a tree looks a feature up. -/
def hasSplits (ensemble : Ensemble) : Bool := ensemble.trees.any (!·.root.isLeaf)

/-- All lines of the text. -/
def moduleLines (e : Emitter) (ensemble : Ensemble) : List String :=
  e.headLines
    ++ ["pub mod " ++ e.options.moduleName ++ " \x7b"]
    ++ e.constantLines ensemble
    ++ [""] ++ e.scoringLines ensemble
    ++ (if hasSplits ensemble then [""] ++ e.lookupLines else [])
    ++ (ensemble.trees.flatMap fun tree => [""] ++ e.treeLines tree)
    ++ ["\x7d"]

/-- The text of the module. -/
def moduleText (e : Emitter) (ensemble : Ensemble) : String :=
  joinLines (e.moduleLines ensemble) ++ "\n"

end Emitter

end EnsembleCompiler
