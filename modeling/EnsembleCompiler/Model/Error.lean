import EnsembleCompiler.Json.Shape

/-!
# Errors of models

What can be wrong with a model: a field has no usable value, or the nodes of a tree form no tree.
-/

namespace EnsembleCompiler

/-- The fields that errors name. -/
inductive Field where
  | gradientBooster
  | baseScore
  | numClass
  | numFeature
  | bestIteration
  | treeInfo
  | numNodes
  | leftChildren
  | rightChildren
  | splitIndices
  | splitConditions
  | defaultLeft
  deriving DecidableEq, Repr

def Field.name : Field → String
  | gradientBooster => "gradient_booster"
  | baseScore => "base_score"
  | numClass => "num_class"
  | numFeature => "num_feature"
  | bestIteration => "best_iteration"
  | treeInfo => "tree_info"
  | numNodes => "num_nodes"
  | leftChildren => "left_children"
  | rightChildren => "right_children"
  | splitIndices => "split_indices"
  | splitConditions => "split_conditions"
  | defaultLeft => "default_left"

/-- Why a field has no usable value. -/
inductive FieldCause where
  | notNumber (found : Json.Scalar)
  | notInteger (found : Json.Scalar)
  | isNegative (found : Int64)
  | unsupportedBooster (name : String)
  | missingModel
  | tooFewClasses (trees found : Nat)
  /-- An array that does not have as many entries as the tree says it has nodes. -/
  | notNodeCount (nodes found : Nat)
  /-- An array that is not as long as the first one of its tree. -/
  | wrongLength (expected found : Nat)
  | notFlag (node : Nat) (found : Int64)
  | noNodes
  | noClasses
  | tooFewTrees (best : Int64) (needed available : Nat)
  deriving DecidableEq

/-- How a message shows a scalar. -/
def Json.Scalar.shown : Json.Scalar → String
  | .number n => n.text
  | .text s => Text.quoted s

namespace FieldCause

def message : FieldCause → String
  | notNumber found => "expected a number, found " ++ found.shown
  | notInteger found => "expected an integer, found " ++ found.shown
  | isNegative found => "must not be negative, found " ++ Int.repr found.toInt
  | unsupportedBooster name =>
    "unsupported booster `" ++ name ++ "`, only `gbtree` models can be compiled"
  | missingModel => "missing `model` object"
  | tooFewClasses trees found =>
    "expected a class for each of " ++ Nat.repr trees ++ " trees, found " ++ Nat.repr found
  | notNodeCount nodes found =>
    "expected " ++ Nat.repr nodes ++ " entries (num_nodes), found " ++ Nat.repr found
  | wrongLength expected found =>
    "expected " ++ Nat.repr expected ++ " entries, found " ++ Nat.repr found
  | notFlag node found =>
    "expected 0 or 1 at node " ++ Nat.repr node ++ ", found " ++ Int.repr found.toInt
  | noNodes => "tree has no nodes"
  | noClasses => "an ensemble needs at least one output class"
  | tooFewTrees best needed available =>
    "best iteration " ++ Int.repr best.toInt ++ " needs " ++ Nat.repr needed
      ++ " trees but the model has " ++ Nat.repr available

end FieldCause

/-- Why the nodes of a tree form no tree, or no tree of its ensemble. -/
inductive StructuralCause where
  | leftMissing (right : Int64)
  | rightMissing (left : Int64)
  | childOutOfRange (child : Int64) (nodes : Nat)
  | sharedChild (child : Nat)
  | negativeFeature (feature : Int64)
  | notAssembled (child : Nat)
  | negativeClass (classIndex : Int64)
  | classOutOfRange (classIndex classes : UInt64)
  deriving DecidableEq

namespace StructuralCause

def message : StructuralCause → String
  | leftMissing right => "left child is missing but right child is " ++ Int.repr right.toInt
  | rightMissing left => "right child is missing but left child is " ++ Int.repr left.toInt
  | childOutOfRange child nodes =>
    "child index " ++ Int.repr child.toInt ++ " is out of range for " ++ Nat.repr nodes ++ " nodes"
  | sharedChild child =>
    "node " ++ Nat.repr child ++ " is already reachable through another parent"
  | negativeFeature feature => "negative split feature index " ++ Int.repr feature.toInt
  | notAssembled child => "node " ++ Nat.repr child ++ " was not assembled"
  | negativeClass classIndex => "negative class index " ++ Int.repr classIndex.toInt
  | classOutOfRange classIndex classes =>
    "class index " ++ Nat.repr classIndex.toNat ++ " is out of range for "
      ++ Nat.repr classes.toNat ++ " output class(es)"

end StructuralCause

inductive ModelError where
  /-- A field of the model, or of one of its trees, has no usable value. -/
  | field (field : Field) (tree : Option Nat) (cause : FieldCause)
  /-- A tree is malformed at a node. -/
  | structural (tree node : Nat) (cause : StructuralCause)
  deriving DecidableEq

def ModelError.message : ModelError → String
  | field f tree cause =>
    let place :=
      match tree with
      | some position => " in tree " ++ Nat.repr position
      | none => ""
    "invalid field `" ++ f.name ++ "`" ++ place ++ ": " ++ cause.message
  | structural tree node cause =>
    "malformed tree " ++ Nat.repr tree ++ " at node " ++ Nat.repr node ++ ": " ++ cause.message

end EnsembleCompiler
