import EnsembleCompiler.Model.Error

/-!
# Trees as arrays

A model stores a tree as arrays that are indexed by node; node 0 is the root. The conditions are
thresholds at splits and weights at leaves.
-/

namespace EnsembleCompiler

structure RawTree where
  leftChildren : Array Int64
  rightChildren : Array Int64
  splitIndices : Array Int64
  splitConditions : Array Binary64
  defaultLeft : Array Bool
  deriving DecidableEq

/-- The entry that says that a node has no child on this side. -/
def noChild : Int64 := -1

/-- The arrays of a tree of `n` nodes. -/
structure NodeTable (n : Nat) where
  left : Vector Int64 n
  right : Vector Int64 n
  feature : Vector Int64 n
  condition : Vector Binary64 n
  defaultLeft : Vector Bool n

namespace RawTree

def numNodes (raw : RawTree) : Nat := raw.leftChildren.size

/-- The node table of a tree whose arrays are all as long as the first, or the array that is not. -/
def table (raw : RawTree) : Except (Field × FieldCause) (NodeTable raw.numNodes) :=
  let n := raw.numNodes
  if hr : raw.rightChildren.size = n then
    if hf : raw.splitIndices.size = n then
      if hc : raw.splitConditions.size = n then
        if hd : raw.defaultLeft.size = n then
          .ok ⟨⟨raw.leftChildren, rfl⟩, ⟨raw.rightChildren, hr⟩, ⟨raw.splitIndices, hf⟩,
            ⟨raw.splitConditions, hc⟩, ⟨raw.defaultLeft, hd⟩⟩
        else .error (.defaultLeft, .wrongLength n raw.defaultLeft.size)
      else .error (.splitConditions, .wrongLength n raw.splitConditions.size)
    else .error (.splitIndices, .wrongLength n raw.splitIndices.size)
  else .error (.rightChildren, .wrongLength n raw.rightChildren.size)

end RawTree

namespace NodeTable

variable {n : Nat}

/-- The node that a child entry names. -/
def child (entry : Int64) : Except StructuralCause (Fin n) :=
  if h : 0 ≤ entry.toInt ∧ entry.toInt.toNat < n then .ok ⟨entry.toInt.toNat, h.2⟩
  else .error (.childOutOfRange entry n)

/-- The children of a node; a leaf has none. -/
def children (table : NodeTable n) (node : Fin n) :
    Except StructuralCause (Option (Fin n × Fin n)) :=
  let left := table.left.get node
  let right := table.right.get node
  if left = noChild then
    if right = noChild then .ok none else .error (.leftMissing right)
  else if right = noChild then .error (.rightMissing left)
  else
    match child left with
    | .error cause => .error cause
    | .ok l =>
      match child right with
      | .error cause => .error cause
      | .ok r => .ok (some (l, r))

end NodeTable

end EnsembleCompiler
