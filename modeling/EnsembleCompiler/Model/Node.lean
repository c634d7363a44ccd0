import EnsembleCompiler.Binary.Basic

/-!
# Decision trees

A node is a leaf with a weight, or a split that sends a feature vector left or right. Every node
keeps the index that it had in the arrays of its model. The measures walk a list of pending
nodes, so that no tree is too deep for them.
-/

namespace EnsembleCompiler

/-- A decision tree. At a split, a feature below the threshold goes left, any other goes right,
and a missing one goes to the side of `defaultLeft`. -/
inductive Node where
  | leaf (id : Nat) (weight : Binary64)
  | split (id : Nat) (feature : UInt64) (threshold : Binary64) (defaultLeft : Bool)
      (left right : Node)
  deriving DecidableEq

namespace Node

def id : Node → Nat
  | leaf id _ => id
  | split id _ _ _ _ _ => id

def isLeaf : Node → Bool
  | leaf _ _ => true
  | split _ _ _ _ _ _ => false

/-- The number of nodes. -/
def size : Node → Nat
  | leaf _ _ => 1
  | split _ _ _ _ left right => left.size + right.size + 1

/-- The number of nodes of pending trees. -/
def pendingSize (pending : List Node) : Nat := pending.foldr (fun node total => node.size + total) 0

/-- The greatest number of splits above a leaf, counting `deepest` and those above the pending
nodes. -/
def depthFrom (deepest : Nat) : List (Node × Nat) → Nat
  | [] => deepest
  | (leaf _ _, above) :: pending => depthFrom (max deepest above) pending
  | (split _ _ _ _ left right, above) :: pending =>
    depthFrom deepest ((right, above + 1) :: (left, above + 1) :: pending)
termination_by pending => pendingSize (pending.map Prod.fst)
decreasing_by
  · simp [pendingSize, size]
  · simp [pendingSize, size]; omega

/-- The number of splits on the longest way from the root to a leaf. -/
def depth (node : Node) : Nat := depthFrom 0 [(node, 0)]

/-- The number of leaves of the pending nodes and those counted before. -/
def leafCountFrom (count : Nat) : List Node → Nat
  | [] => count
  | leaf _ _ :: pending => leafCountFrom (count + 1) pending
  | split _ _ _ _ left right :: pending => leafCountFrom count (right :: left :: pending)
termination_by pending => pendingSize pending
decreasing_by
  · simp [pendingSize, size]
  · simp [pendingSize, size]; omega

/-- The number of leaves. -/
def leafCount (node : Node) : Nat := leafCountFrom 0 [node]

end Node

/-- A tree in an ensemble: its place in boosting order, and the output class that it adds to. -/
structure Tree where
  position : Nat
  classIndex : UInt64
  root : Node
  deriving DecidableEq

end EnsembleCompiler
