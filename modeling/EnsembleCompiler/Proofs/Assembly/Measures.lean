import EnsembleCompiler.Proofs.Assembly.Build
import Mathlib.Algebra.Ring.Nat
import Mathlib.Data.Fintype.Card
import Mathlib.Order.Bounds.Defs

/-!
# Measures of trees

The measures of a tree are taken with a list of pending nodes; here they are told by recursion on the
tree. A tree with one more leaf than splits has twice as many nodes as leaves, less one, and the
nodes of an assembled tree are those of its arrays that the root reaches, each of them once. So the
number of leaves is bounded by the length of the arrays.

Main statement: `Node.measures_exact`.
-/

namespace EnsembleCompiler

namespace Node

/-! ### Leaves -/

/-- A pending tree is counted before what is pending after it. -/
theorem leafCountFrom_cons (node : Node) (count : Nat) (pending : List Node) :
    leafCountFrom count (node :: pending) = leafCountFrom (count + node.leafCount) pending := by
  induction node generalizing count pending with
  | leaf id weight => simp only [leafCount, leafCountFrom, Nat.zero_add]
  | split id feature threshold defaultLeft left right ihl ihr =>
    rw [leafCount, leafCountFrom, leafCountFrom, ihr, ihl, ihr, ihl, leafCountFrom]
    congr 1
    omega

@[simp] theorem leafCount_leaf (id : Nat) (weight : Binary64) : (leaf id weight).leafCount = 1 := by
  simp [leafCount, leafCountFrom]

@[simp] theorem leafCount_split (id : Nat) (feature : UInt64) (threshold : Binary64)
    (defaultLeft : Bool) (left right : Node) :
    (split id feature threshold defaultLeft left right).leafCount =
      left.leafCount + right.leafCount := by
  rw [leafCount, leafCountFrom, leafCountFrom_cons, leafCountFrom_cons, leafCountFrom]
  omega

theorem leafCount_pos (node : Node) : 0 < node.leafCount := by
  induction node with
  | leaf id weight => simp
  | split id feature threshold defaultLeft left right ihl ihr =>
    rw [leafCount_split]
    omega

/-- `Below depth node sub` says that `sub` stands `depth` splits below the root of `node`. -/
inductive Below : Nat → Node → Node → Prop
  | here (node : Node) : Below 0 node node
  | left {depth id : Nat} {feature : UInt64} {threshold : Binary64} {defaultLeft : Bool}
      {left right sub : Node} :
      Below depth left sub → Below (depth + 1) (split id feature threshold defaultLeft left right) sub
  | right {depth id : Nat} {feature : UInt64} {threshold : Binary64} {defaultLeft : Bool}
      {left right sub : Node} :
      Below depth right sub → Below (depth + 1) (split id feature threshold defaultLeft left right) sub

/-- The number of leaves, by recursion on the tree. -/
def leafTotal : Node → Nat
  | leaf _ _ => 1
  | split _ _ _ _ left right => left.leafTotal + right.leafTotal

/-- The number of splits. -/
def splitTotal : Node → Nat
  | leaf _ _ => 0
  | split _ _ _ _ left right => left.splitTotal + right.splitTotal + 1

theorem leafCount_eq_leafTotal (node : Node) : node.leafCount = node.leafTotal := by
  induction node with
  | leaf id weight => rw [leafCount_leaf, leafTotal]
  | split id feature threshold defaultLeft left right ihl ihr =>
    rw [leafCount_split, leafTotal, ihl, ihr]

theorem leafCount_eq_splitTotal (node : Node) : node.leafCount = node.splitTotal + 1 := by
  induction node with
  | leaf id weight => rw [leafCount_leaf, splitTotal]
  | split id feature threshold defaultLeft left right ihl ihr =>
    rw [leafCount_split, splitTotal, ihl, ihr]
    omega

/-! ### Depth -/

/-- The number of splits on the longest way to a leaf, by recursion on the tree. -/
def height : Node → Nat
  | leaf _ _ => 0
  | split _ _ _ _ left right => max left.height right.height + 1

/-- A pending tree is measured before what is pending after it. -/
theorem depthFrom_cons (node : Node) (deepest above : Nat) (pending : List (Node × Nat)) :
    depthFrom deepest ((node, above) :: pending) =
      depthFrom (max deepest (above + node.height)) pending := by
  induction node generalizing deepest above pending with
  | leaf id weight => rw [depthFrom, height, Nat.add_zero]
  | split id feature threshold defaultLeft left right ihl ihr =>
    rw [depthFrom, ihr, ihl, height]
    congr 1
    omega

theorem depth_eq_height (node : Node) : node.depth = node.height := by
  rw [depth, depthFrom_cons, depthFrom]
  omega

/-- What stands below a node is no deeper than the node. -/
theorem Below.add_height_le {depth : Nat} {node sub : Node} (h : Below depth node sub) :
    depth + sub.height ≤ node.height := by
  induction h with
  | here node => exact (Nat.zero_add _).le
  | left _ ih =>
    rw [height]
    omega
  | right _ ih =>
    rw [height]
    omega

/-- Some leaf stands below as many splits as the tree is deep. -/
theorem exists_deepest_leaf (node : Node) :
    ∃ id weight, Below node.height node (leaf id weight) := by
  induction node with
  | leaf id weight => exact ⟨id, weight, .here _⟩
  | split id feature threshold defaultLeft left right ihl ihr =>
    rw [height]
    rcases Nat.le_total right.height left.height with hle | hle
    · obtain ⟨i, weight, hbelow⟩ := ihl
      rw [Nat.max_eq_left hle]
      exact ⟨i, weight, .left hbelow⟩
    · obtain ⟨i, weight, hbelow⟩ := ihr
      rw [Nat.max_eq_right hle]
      exact ⟨i, weight, .right hbelow⟩

/-- The depth is the greatest number of splits above a leaf. -/
theorem isGreatest_depth (node : Node) :
    IsGreatest {depth | ∃ id weight, Below depth node (leaf id weight)} node.depth := by
  rw [depth_eq_height]
  refine ⟨node.exists_deepest_leaf, ?_⟩
  rintro depth ⟨id, weight, hbelow⟩
  exact hbelow.add_height_le

theorem height_lt_leafCount (node : Node) : node.height < node.leafCount := by
  induction node with
  | leaf id weight => simp [height]
  | split id feature threshold defaultLeft left right ihl ihr =>
    rw [height, leafCount_split]
    omega

theorem leafCount_le_two_pow (node : Node) : node.leafCount ≤ 2 ^ node.height := by
  induction node with
  | leaf id weight => simp [height]
  | split id feature threshold defaultLeft left right ihl ihr =>
    -- both subtrees are full at the height of the deeper one
    have hleft : 2 ^ left.height ≤ 2 ^ max left.height right.height :=
      Nat.pow_le_pow_right (by decide) (Nat.le_max_left _ _)
    have hright : 2 ^ right.height ≤ 2 ^ max left.height right.height :=
      Nat.pow_le_pow_right (by decide) (Nat.le_max_right _ _)
    rw [leafCount_split, height, Nat.pow_succ]
    omega

/-! ### Nodes -/

theorem length_ids (node : Node) : node.ids.length = 2 * node.leafCount - 1 := by
  induction node with
  | leaf id weight => simp [ids]
  | split id feature threshold defaultLeft left right ihl ihr =>
    have hl := left.leafCount_pos
    have hr := right.leafCount_pos
    rw [ids, List.length_cons, List.length_append, ihl, ihr, leafCount_split]
    omega

end Node

namespace NodeTable

variable {n : Nat} {table : NodeTable n} {root i : Fin n}

/-- The identifiers of a tree that the entries below a node spell out are the nodes that it
reaches. -/
theorem Represents.mem_ids {t : Node} (h : table.Represents i t) (k : Nat) :
    k ∈ t.ids ↔ ∃ c, table.Reachable i c ∧ c.val = k := by
  induction h with
  | @leaf i hleaf =>
    rw [Node.ids, List.mem_singleton]
    refine ⟨fun hk => ⟨i, .refl, hk.symm⟩, ?_⟩
    rintro ⟨c, hreach, rfl⟩
    rcases hreach.cases_head with rfl | ⟨d, ⟨s, hchild⟩, -⟩
    · rfl
    · exact absurd hchild hleaf.not_isChild
  | @split i l r feature left right hl hr hf _ _ ihl ihr =>
    rw [Node.ids, List.mem_cons, List.mem_append, ihl, ihr]
    constructor
    · rintro (rfl | ⟨c, hreach, rfl⟩ | ⟨c, hreach, rfl⟩)
      · exact ⟨i, .refl, rfl⟩
      · exact ⟨c, .head ⟨.left, hl⟩ hreach, rfl⟩
      · exact ⟨c, .head ⟨.right, hr⟩ hreach, rfl⟩
    · rintro ⟨c, hreach, rfl⟩
      -- a way down from the node ends there or goes through one of its two children
      rcases hreach.cases_head with rfl | ⟨d, ⟨s, hchild⟩, hbelow⟩
      · exact .inl rfl
      · rcases isChild_cases hl hr hchild with ⟨-, rfl⟩ | ⟨-, rfl⟩
        · exact .inr (.inl ⟨c, hbelow, rfl⟩)
        · exact .inr (.inr ⟨c, hbelow, rfl⟩)

/-- Where the nodes below the root form a tree, a walk finds each of them once. -/
theorem Proper.exists_reachable (hproper : table.Proper root) :
    ∃ order, table.reachable root = .ok order ∧ order.Nodup ∧
      ∀ c, c ∈ order ↔ table.Reachable root c := by
  have hstart : table.WalkInv root _ [] [root] := walkInv_start
  have hspec := walk_spec hstart
  rw [reachable]
  cases hwalk : table.walk (claim (Vector.replicate n false) root) [] [root] with
  | error fault =>
    rw [hwalk] at hspec
    exact absurd hproper (hspec.2.not_proper hspec.1)
  | ok order =>
    rw [hwalk] at hspec
    obtain ⟨claimed, hw⟩ := hspec
    exact ⟨order, rfl, by simpa using hw.nodup, fun c => hw.mem_iff⟩

end NodeTable

namespace RawTree

variable {raw : RawTree} {position : Nat} {node : Node}

theorem aligned_of_assemble (h : raw.assemble position = .ok node) :
    raw.Aligned ∧ 0 < raw.numNodes := by
  unfold assemble at h
  split at h
  · next hpos =>
    split at h
    · cases h
    · next table htable => exact ⟨aligned_of_table htable, hpos⟩
  · cases h

/-- The nodes of an assembled tree and those that its root does not reach are all that the arrays
hold. -/
theorem length_ids_of_assemble (h : raw.assemble position = .ok node) :
    ∃ dropped, raw.unreachableCount? = some dropped ∧ node.ids.length + dropped = raw.numNodes := by
  obtain ⟨haligned, hpos⟩ := aligned_of_assemble h
  have hspec := @assemble_spec raw position haligned hpos
  rw [h] at hspec
  obtain ⟨hproper, hrep, hnodup⟩ := hspec
  obtain ⟨order, hreachable, horder, hmem⟩ := hproper.exists_reachable
  have hperm : (order.map Fin.val).Perm node.ids := by
    rw [List.perm_ext_iff_of_nodup (horder.map fun _ _ => Fin.ext) hnodup]
    intro k
    rw [hrep.mem_ids, List.mem_map]
    simp only [hmem]
  have hlength : order.length = node.ids.length := by simpa using hperm.length_eq
  have hle : order.length ≤ raw.numNodes := by simpa using horder.length_le_card
  refine ⟨raw.numNodes - order.length, ?_, by omega⟩
  rw [unreachableCount?, dif_pos hpos, table_eq haligned]
  simp only [hreachable]

end RawTree

namespace Node

/-- **The measures of a tree are right.** The depth taken with a list of pending nodes is that of the
recursion on the tree, which is the greatest number of splits above a leaf; the number of leaves is
that of the recursion as well, one more than the number of splits, and at least one more than the
depth and at most two to its power. A tree that is assembled from arrays has no more nodes than they
have entries: what it lacks is what the root does not reach. -/
theorem measures_exact (node : Node) :
    node.depth = node.height ∧
      IsGreatest {depth | ∃ id weight, Below depth node (leaf id weight)} node.depth ∧
      node.leafCount = node.leafTotal ∧ node.leafCount = node.splitTotal + 1 ∧
      node.depth + 1 ≤ node.leafCount ∧ node.leafCount ≤ 2 ^ node.depth ∧
      ∀ (raw : RawTree) (position : Nat), raw.assemble position = .ok node →
        2 * node.leafCount - 1 ≤ raw.numNodes ∧ ∃ dropped, raw.unreachableCount? = some dropped ∧
          2 * node.leafCount - 1 + dropped = raw.numNodes := by
  refine ⟨node.depth_eq_height, node.isGreatest_depth, node.leafCount_eq_leafTotal,
    node.leafCount_eq_splitTotal, ?_, ?_, fun raw position h => ?_⟩
  · rw [depth_eq_height]
    exact node.height_lt_leafCount
  · rw [depth_eq_height]
    exact node.leafCount_le_two_pow
  · obtain ⟨dropped, hcount, htotal⟩ := RawTree.length_ids_of_assemble h
    rw [length_ids] at htotal
    exact ⟨by omega, dropped, hcount, htotal⟩

/-- Three leaves, two splits one below the other, and one node that nothing reaches. -/
theorem measures_exact_shuffled :
    RawTree.shuffled.assemble 7 = .ok RawTree.shuffledTree ∧
      RawTree.shuffledTree.depth = 2 ∧ RawTree.shuffledTree.leafCount = 3 ∧
      2 * RawTree.shuffledTree.leafCount - 1 ≤ 6 ∧
      RawTree.shuffled.unreachableCount? = some 1 := by
  have h : RawTree.shuffled.assemble 7 = .ok RawTree.shuffledTree := by decide +kernel
  obtain ⟨hdepth, -, hleaves, -, -, -, hassembled⟩ := measures_exact RawTree.shuffledTree
  have hthree : RawTree.shuffledTree.leafCount = 3 := hleaves.trans rfl
  obtain ⟨hle, dropped, hcount, htotal⟩ := hassembled RawTree.shuffled 7 h
  have hnodes : RawTree.shuffled.numNodes = 6 := rfl
  obtain rfl : dropped = 1 := by omega
  exact ⟨h, hdepth.trans rfl, hthree, hnodes ▸ hle, hcount⟩

end Node

end EnsembleCompiler
