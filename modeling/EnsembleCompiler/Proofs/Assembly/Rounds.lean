import EnsembleCompiler.Proofs.Assembly.Truncation
import Mathlib.Data.Int.CardIntervalMod

/-!
# Rounds and trees

A boosting round adds one tree for each class, and a model stores the trees of its rounds one after
another. The best iteration counts trees: it keeps the trees at the positions up to it, so that a
marker inside a round keeps a tree of that round for some classes and none for the others. It
counts rounds only where a round is a single tree.
-/

namespace EnsembleCompiler

/-- The trees of `rounds` boosting rounds, one for each class in the order of the classes, all of
which can be assembled. -/
structure RawEnsemble.InRounds (raw : RawEnsemble) (classes rounds : Nat) : Prop where
  numClasses : raw.numClasses.toNat = classes
  classes_pos : 0 < classes
  length : raw.trees.length = rounds * classes
  treeInfo : ∀ i < rounds * classes, ∃ entry,
    raw.treeInfo[i]? = some entry ∧ entry.toInt = ((i % classes : Nat) : Int)
  assembles : ∀ i (tree : RawTree), raw.trees[i]? = some tree → ∃ root, tree.assemble i = .ok root

/-- A traversal succeeds where each of its steps does. -/
theorem exists_mapM_ok {ε α β : Type} {f : α → Except ε β} {xs : List α}
    (h : ∀ x ∈ xs, ∃ y, f x = .ok y) : ∃ ys, xs.mapM f = .ok ys := by
  induction xs with
  | nil => exact ⟨[], rfl⟩
  | cons x xs ih =>
    obtain ⟨y, hy⟩ := h x List.mem_cons_self
    obtain ⟨ys, hys⟩ := ih fun z hz => h z (List.mem_cons_of_mem x hz)
    exact ⟨y :: ys, by rw [List.mapM_cons, hy, hys]; rfl⟩

namespace Ensemble

variable {raw : RawEnsemble} {classes rounds : Nat} {best : Int64}

theorem length_treeInfo_of_inRounds (h : raw.InRounds classes rounds) :
    raw.trees.length ≤ raw.treeInfo.length := by
  rw [h.length]
  by_contra hlt
  obtain ⟨entry, hentry, -⟩ := h.treeInfo raw.treeInfo.length (Nat.lt_of_not_le hlt)
  simp at hentry

/-- The entry of a position in rounds names its class, which is one of the model. -/
theorem treeOf_of_inRounds (h : raw.InRounds classes rounds) {i : Nat} {arrays : RawTree}
    {entry : Int64} (harrays : raw.trees[i]? = some arrays)
    (hentry : raw.treeInfo[i]? = some entry) :
    ∃ tree, treeOf i arrays entry = .ok tree ∧ tree.classIndex.toNat = i % classes := by
  have hi : i < rounds * classes := by
    rw [← h.length]
    exact (List.getElem?_eq_some_iff.1 harrays).1
  obtain ⟨root, hroot⟩ := h.assembles i arrays harrays
  obtain ⟨entry', hentry', hvalue⟩ := h.treeInfo i hi
  rw [hentry] at hentry'
  cases hentry'
  have hneg : ¬ entry < 0 := not_neg_of_toInt (by omega)
  have hclass : classOf i entry = .ok entry.toUInt64 := if_neg hneg
  refine ⟨⟨i, entry.toUInt64, root⟩, treeOf_eq_ok.2 ⟨_, _, hclass, hroot, rfl⟩, ?_⟩
  have := classOf_eq_ok hclass
  dsimp only
  omega

theorem exists_ofRaw_of_inRounds (h : raw.InRounds classes rounds)
    (hbest : raw.bestIteration = some best) (hle : 0 ≤ best.toInt)
    (hlt : best.toInt < rounds * classes) : ∃ ensemble, ofRaw raw = .ok ensemble := by
  have hinfo := length_treeInfo_of_inRounds h
  have hkept : keptCount raw.bestIteration raw.trees.length = .ok (best.toInt.toNat + 1) := by
    rw [hbest]
    refine keptCount_of_inside hle ?_
    rw [h.length]
    exact_mod_cast hlt
  let n := best.toInt.toNat + 1
  -- in this layout every kept place has an entry, arrays that assemble, and a class of the model
  have hstep : ∀ i (hi : i < (keptEntries raw n).length), ∃ tree,
      treeOf (keptEntries raw n)[i].1 (keptEntries raw n)[i].2.1 (keptEntries raw n)[i].2.2 =
        .ok tree ∧ tree.classIndex < raw.numClasses := by
    intro i hi
    obtain ⟨arrays, entry, harrays, hentry, hget⟩ := getElem_keptEntries hi
    obtain ⟨tree, htree, hclass⟩ := treeOf_of_inRounds h harrays hentry
    refine ⟨tree, by rw [hget]; exact htree, ?_⟩
    rw [UInt64.lt_iff_toNat_lt, hclass, h.numClasses]
    exact Nat.mod_lt i h.classes_pos
  obtain ⟨trees, htrees⟩ : ∃ trees, ((keptEntries raw n).mapM
      fun kept => treeOf kept.1 kept.2.1 kept.2.2) = .ok trees := by
    refine exists_mapM_ok fun x hx => ?_
    obtain ⟨i, hi, rfl⟩ := List.getElem_of_mem hx
    exact (hstep i hi).imp fun _ htree => htree.1
  obtain ⟨hlength, hget⟩ := getElem_of_mapM htrees
  have hclasses : ∀ tree ∈ trees, tree.classIndex < raw.numClasses := by
    intro tree htree
    obtain ⟨i, hi, rfl⟩ := List.getElem_of_mem htree
    obtain ⟨tree, htree, hclass⟩ := hstep i (by omega)
    have heq : tree = trees[i] := Except.ok.inj (htree.symm.trans (hget i (by omega) hi))
    rwa [← heq]
  have hpos : 0 < raw.numClasses := by
    rw [UInt64.lt_iff_toNat_lt, h.numClasses]
    exact h.classes_pos
  exact ⟨_, ofRaw_eq_ok.2 ⟨hinfo, n, trees, hkept, htrees, ofTrees_eq_ok hpos hclasses⟩⟩

/-- Among trees whose classes go round, the trees of a class are those of the full rounds, and one
more where the last round has got to the class. -/
theorem treesForClass_of_turns {ensemble : Ensemble} (hpos : 0 < classes)
    (h : ∀ i tree, ensemble.trees[i]? = some tree → tree.classIndex.toNat = i % classes)
    {j : Nat} (hj : j < classes) :
    ensemble.treesForClass j = ensemble.trees.length / classes +
      if j < ensemble.trees.length % classes then 1 else 0 := by
  have hturns : ensemble.trees.map (·.classIndex.toNat) =
      (List.range ensemble.trees.length).map (· % classes) := by
    refine List.ext_getElem (by simp) fun i hi hi' => ?_
    rw [List.length_map] at hi
    simpa using h i _ (List.getElem?_eq_getElem hi)
  -- the trees of a class are counted as the places below the length that are congruent to it
  have hcount : ensemble.treesForClass j =
      ensemble.trees.length.count (· ≡ j [MOD classes]) := by
    calc
      ensemble.treesForClass j =
          (ensemble.trees.map (·.classIndex.toNat)).countP (· = j) := by
        rw [List.countP_map]
        rfl
      _ = (List.range ensemble.trees.length).countP (· % classes = j) := by
        rw [hturns, List.countP_map]
        rfl
      _ = ensemble.trees.length.count (· ≡ j [MOD classes]) := by
        refine List.countP_congr fun i _ => ?_
        simp [Nat.ModEq, Nat.mod_eq_of_lt hj]
  rw [hcount, Nat.count_modEq_card _ hpos, Nat.mod_eq_of_lt hj]

/-- The classes of the trees that are kept go round. -/
theorem turns_of_inRounds {ensemble : Ensemble} {n : Nat} (h : raw.InRounds classes rounds)
    (hkept : keptCount raw.bestIteration raw.trees.length = .ok n) (hn : n ≤ raw.trees.length)
    (hraw : ofRaw raw = .ok ensemble) (i : Nat) (tree : Tree)
    (htree : ensemble.trees[i]? = some tree) : tree.classIndex.toNat = i % classes := by
  obtain ⟨hlength, htrees⟩ := trees_of_ofRaw hraw hkept hn
  obtain ⟨entry, hentry, hclass⟩ := (htrees i tree htree).classIndex
  have hi : i < rounds * classes := by
    have := (List.getElem?_eq_some_iff.1 htree).1
    rw [← h.length]
    omega
  obtain ⟨entry', hentry', hvalue⟩ := h.treeInfo i hi
  rw [hentry] at hentry'
  cases hentry'
  omega

/-- Where there are several classes, the last of them has fewer turns than there are trees. -/
theorem turns_last_lt {n : Nat} (hclasses : 1 < classes) (hn : 0 < n) :
    (n / classes + if classes - 1 < n % classes then 1 else 0) < n := by
  have hmod := Nat.mod_lt n (by omega : 0 < classes)
  rw [if_neg (by omega), Nat.add_zero]
  exact Nat.div_lt_self hn hclasses

/-- **Truncation counts trees, not rounds.** A model in rounds whose best iteration is one of its
trees is accepted. Each class keeps a tree of every round that ends at the marker or before it, and
the classes that the marker's round has got to keep one more. So the classes keep the trees of as
many rounds as the marker says just where a round is one tree; for every larger number of classes,
and every marker, one of them is short. -/
theorem ofRaw_inRounds (h : raw.InRounds classes rounds) (hbest : raw.bestIteration = some best)
    (hle : 0 ≤ best.toInt) (hlt : best.toInt < rounds * classes) :
    ∃ ensemble, ofRaw raw = .ok ensemble ∧
      (∀ j < classes, ensemble.treesForClass j = (best.toInt.toNat + 1) / classes +
        if j < (best.toInt.toNat + 1) % classes then 1 else 0) ∧
      ((∀ j < classes, ensemble.treesForClass j = best.toInt.toNat + 1) ↔ classes = 1) := by
  have hpos := h.classes_pos
  obtain ⟨ensemble, hraw⟩ := exists_ofRaw_of_inRounds h hbest hle hlt
  have hinside : best.toInt < raw.trees.length := by
    rw [h.length]
    exact_mod_cast hlt
  have hkept := keptCount_of_inside hle hinside
  rw [← hbest] at hkept
  have hn : best.toInt.toNat + 1 ≤ raw.trees.length := by omega
  obtain ⟨hlength, -⟩ := trees_of_ofRaw hraw hkept hn
  have hcount : ∀ j < classes, ensemble.treesForClass j = (best.toInt.toNat + 1) / classes +
      if j < (best.toInt.toNat + 1) % classes then 1 else 0 := by
    intro j hj
    rw [treesForClass_of_turns hpos (turns_of_inRounds h hkept hn hraw) hj, hlength]
  refine ⟨ensemble, hraw, hcount, fun hall => ?_, ?_⟩
  · by_contra hne
    -- the last class is the one that comes short
    have hlast := hall (classes - 1) (by omega)
    rw [hcount (classes - 1) (by omega)] at hlast
    exact (turns_last_lt (by omega) (by omega)).ne hlast
  · rintro rfl j hj
    rw [hcount j hj]
    simp [Nat.mod_one]

/-- A tree of one leaf. -/
def loneLeaf : RawTree := ⟨#[-1], #[-1], #[0], #[.nan], #[true]⟩

/-- Two rounds of three classes, each tree a leaf. -/
def twoRounds (best : Option Int64) : RawEnsemble where
  trees := List.replicate 6 loneLeaf
  treeInfo := [0, 1, 2, 0, 1, 2]
  bestIteration := best
  baseScore := .nan
  numClasses := 3
  numFeatures := none

theorem twoRounds_inRounds (best : Option Int64) : (twoRounds best).InRounds 3 2 where
  numClasses := rfl
  classes_pos := by decide
  length := rfl
  treeInfo i hi := by
    have h : ∀ i < 6, ∃ entry ∈ (twoRounds none).treeInfo[i]?,
        entry.toInt = ((i % 3 : Nat) : Int) := by decide
    obtain ⟨entry, hentry, hvalue⟩ := h i hi
    exact ⟨entry, hentry, hvalue⟩
  assembles i tree htree := by
    have h : ∀ i < 6, loneLeaf.assemble i = .ok (.leaf 0 .nan) := by decide +kernel
    obtain rfl : tree = loneLeaf := (List.mem_replicate.1 (List.mem_of_getElem? htree)).2
    exact ⟨.leaf 0 .nan, h i (List.getElem?_eq_some_iff.1 htree).1⟩

theorem ofRaw_inRounds_twoRounds :
    (twoRounds (some 3)).InRounds 3 2 ∧ ∃ ensemble, ofRaw (twoRounds (some 3)) = .ok ensemble ∧
      ensemble.treesForClass 0 = 2 ∧ ensemble.treesForClass 2 = 1 := by
  obtain ⟨ensemble, hraw, hcount, -⟩ :=
    ofRaw_inRounds (twoRounds_inRounds (some 3)) rfl (by decide) (by decide)
  exact ⟨twoRounds_inRounds _, ensemble, hraw, hcount 0 (by decide), hcount 2 (by decide)⟩

/-- A marker for the first round of three classes keeps its first tree, and leaves two of the classes
without any. -/
theorem twoRounds_first_short : (twoRounds (some 0)).InRounds 3 2 ∧
    ∃ ensemble, ofRaw (twoRounds (some 0)) = .ok ensemble ∧
      ensemble.treesForClass 0 = 1 ∧ ensemble.treesForClass 1 = 0 ∧
        ensemble.treesForClass 2 = 0 := by
  refine ⟨twoRounds_inRounds _, ⟨[⟨0, 0, .leaf 0 .nan⟩], .nan, 3, none, by decide, by decide⟩, ?_,
    by decide⟩
  refine ofRaw_eq_ok.2 ⟨by decide, 1, [⟨0, 0, .leaf 0 .nan⟩], rfl, by decide +kernel, ?_⟩
  exact ofTrees_eq_ok (by decide) (by decide)

end Ensemble

end EnsembleCompiler
