import EnsembleCompiler.Model.Node
import EnsembleCompiler.Model.RawTree

/-!
# Assembling trees

The nodes of a tree are found by a walk down from the root, in which every child is claimed by
its parent; a second claim means that nodes share a child or form a cycle. The tree is then built
from the nodes found last to the root. Nodes that the walk does not reach are left out.
-/

namespace EnsembleCompiler

/-- A structural error at a node of a tree of `n` nodes. -/
structure NodeFault (n : Nat) where
  node : Fin n
  cause : StructuralCause

namespace NodeTable

variable {n : Nat}

/-- The nodes that no parent has claimed. -/
def unclaimed (claimed : Vector Bool n) : Nat := claimed.count false

/-- Claims a node. -/
def claim (claimed : Vector Bool n) (node : Fin n) : Vector Bool n :=
  claimed.set node true node.isLt

theorem unclaimed_claim {claimed : Vector Bool n} {node : Fin n} (h : claimed.get node = false) :
    unclaimed (claim claimed node) + 1 = unclaimed claimed := by
  have hmem : 0 < claimed.count false :=
    Vector.count_pos_iff.2 (h ▸ Vector.getElem_mem node.isLt)
  have h' : claimed[node.val] = false := h
  simp only [unclaimed, claim, Vector.count_set node.isLt, h']
  simp
  omega

/-- Walks down from pending nodes, and gives the nodes found, the last first. The right side of a
node is walked before the left. -/
def walk (table : NodeTable n) (claimed : Vector Bool n) (found : List (Fin n)) :
    List (Fin n) → Except (NodeFault n) (List (Fin n))
  | [] => .ok found
  | node :: pending =>
    match table.children node with
    | .error cause => .error ⟨node, cause⟩
    | .ok none => walk table claimed (node :: found) pending
    | .ok (some (l, r)) =>
      match hl : claimed.get l with
      | true => .error ⟨node, .sharedChild l⟩
      | false =>
        have _hl := unclaimed_claim hl
        match hr : (claim claimed l).get r with
        | true => .error ⟨node, .sharedChild r⟩
        | false =>
          have _hr := unclaimed_claim hr
          walk table (claim (claim claimed l) r) (node :: found) (r :: l :: pending)
termination_by pending => 2 * unclaimed claimed + pending.length
decreasing_by all_goals simp only [List.length_cons]; omega

/-- Takes the tree of a child, which has been built before its parent. -/
def take (built : Vector (Option Node) n) (parent child : Fin n) :
    Except (NodeFault n) (Node × Vector (Option Node) n) :=
  match built.get child with
  | some tree => .ok (tree, built.set child none child.isLt)
  | none => .error ⟨parent, .notAssembled child⟩

/-- Builds the tree of a node whose children have been built. -/
def buildNode (table : NodeTable n) (built : Vector (Option Node) n) (node : Fin n) :
    Except (NodeFault n) (Vector (Option Node) n) := do
  match table.children node with
  | .error cause => .error ⟨node, cause⟩
  | .ok none => return built.set node (some (.leaf node (table.condition.get node))) node.isLt
  | .ok (some (l, r)) =>
    let feature := table.feature.get node
    if feature < 0 then .error ⟨node, .negativeFeature feature⟩
    let (left, built) ← take built node l
    let (right, built) ← take built node r
    let tree : Node :=
      .split node feature.toUInt64 (table.condition.get node) (table.defaultLeft.get node)
        left right
    return built.set node (some tree) node.isLt

/-- The nodes that a walk down from the root finds, the last first. -/
def reachable (table : NodeTable n) (root : Fin n) : Except (NodeFault n) (List (Fin n)) :=
  table.walk (claim (Vector.replicate n false) root) [] [root]

/-- The tree of the root. -/
def build (table : NodeTable n) (root : Fin n) : Except (NodeFault n) Node := do
  let found ← table.reachable root
  let built ← found.foldlM table.buildNode (Vector.replicate n none)
  return (← take built root root).1

end NodeTable

namespace RawTree

/-- The tree that the arrays hold. `position` names it in errors. -/
def assemble (raw : RawTree) (position : Nat) : Except ModelError Node :=
  if h : 0 < raw.numNodes then
    match raw.table with
    | .error (field, cause) => .error (.field field (some position) cause)
    | .ok table =>
      match table.build ⟨0, h⟩ with
      | .ok root => .ok root
      | .error fault => .error (.structural position fault.node fault.cause)
  else .error (.field .numNodes (some position) .noNodes)

/-- How many nodes a walk down from the root does not find. Nothing if the arrays are no table
or the walk fails. -/
def unreachableCount? (raw : RawTree) : Option Nat :=
  if h : 0 < raw.numNodes then
    match raw.table with
    | .error _ => none
    | .ok table =>
      match table.reachable ⟨0, h⟩ with
      | .ok found => some (raw.numNodes - found.length)
      | .error _ => none
  else none

end RawTree

end EnsembleCompiler
