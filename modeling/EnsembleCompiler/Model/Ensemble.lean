import EnsembleCompiler.Model.Assembly

/-!
# Ensembles

A raw ensemble is what a model document holds; an ensemble has its trees assembled, those past the
best iteration dropped, and every tree adds to one of the output classes.
-/

namespace EnsembleCompiler

/-- A model before its trees are assembled. `treeInfo` gives the class of each tree, and
`bestIteration` the index of the last tree to keep. -/
structure RawEnsemble where
  trees : List RawTree
  treeInfo : List Int64
  bestIteration : Option Int64
  baseScore : Binary64
  numClasses : UInt64
  numFeatures : Option UInt64
  deriving DecidableEq

/-- Assembled trees, each for one of at least one output class, and the constants of a model. -/
structure Ensemble where
  trees : List Tree
  baseScore : Binary64
  numClasses : UInt64
  numFeatures : Option UInt64
  numClasses_pos : 0 < numClasses
  class_lt : ∀ tree ∈ trees, tree.classIndex < numClasses

namespace Ensemble

/-- The ensemble of the given trees, if there is a class and every tree is for a class. -/
def ofTrees (trees : List Tree) (baseScore : Binary64) (numClasses : UInt64)
    (numFeatures : Option UInt64) : Except ModelError Ensemble :=
  if hpos : 0 < numClasses then
    match hfind : trees.find? fun tree => !decide (tree.classIndex < numClasses) with
    | some tree =>
      .error (.structural tree.position tree.root.id (.classOutOfRange tree.classIndex numClasses))
    | none =>
      .ok
        { trees, baseScore, numClasses, numFeatures
          numClasses_pos := hpos
          class_lt := fun tree htree => by
            have := List.find?_eq_none.1 hfind tree htree
            simpa using this }
  else .error (.field .numClass none .noClasses)

/-- How many trees are kept: those up to the best iteration, or all without one. -/
def keptCount (bestIteration : Option Int64) (available : Nat) : Except ModelError Nat :=
  match bestIteration with
  | none => .ok available
  | some best =>
    if best < 0 then .error (.field .bestIteration none (.isNegative best))
    else
      let kept := best.toInt.toNat + 1
      if available < kept then
        .error (.field .bestIteration none (.tooFewTrees best kept available))
      else .ok kept

/-- A class as an index; negative ones are an error of the tree. -/
def classOf (position : Nat) (entry : Int64) : Except ModelError UInt64 :=
  if entry < 0 then .error (.structural position 0 (.negativeClass entry))
  else .ok entry.toUInt64

/-- The tree at a position, from its arrays and its class. -/
def treeOf (position : Nat) (raw : RawTree) (entry : Int64) : Except ModelError Tree := do
  let classIndex ← classOf position entry
  let root ← raw.assemble position
  return ⟨position, classIndex, root⟩

/-- The kept trees with their positions and classes. -/
def keptEntries (raw : RawEnsemble) (kept : Nat) : List (Nat × RawTree × Int64) :=
  (raw.trees.zip raw.treeInfo).take kept |>.mapIdx fun position entry => (position, entry)

/-- The ensemble of a raw one: trees past the best iteration are dropped unseen, and the others
are assembled in order. -/
def ofRaw (raw : RawEnsemble) : Except ModelError Ensemble := do
  if raw.treeInfo.length < raw.trees.length then
    .error (.field .treeInfo none (.tooFewClasses raw.trees.length raw.treeInfo.length))
  let kept ← keptCount raw.bestIteration raw.trees.length
  let trees ← (keptEntries raw kept).mapM fun (position, tree, entry) => treeOf position tree entry
  ofTrees trees raw.baseScore raw.numClasses raw.numFeatures

def isMulticlass (e : Ensemble) : Bool := 1 < e.numClasses

/-- The number of trees that add to a class. -/
def treesForClass (e : Ensemble) (classIndex : Nat) : Nat :=
  e.trees.countP (·.classIndex.toNat = classIndex)

end Ensemble

end EnsembleCompiler
