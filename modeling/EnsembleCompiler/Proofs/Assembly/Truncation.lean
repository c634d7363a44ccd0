import EnsembleCompiler.Proofs.Assembly.Build
import EnsembleCompiler.Proofs.Assembly.Ensemble
import Mathlib.Algebra.BigOperators.Group.Finset.Piecewise

/-!
# Dropped trees have no say

A raw ensemble with a best iteration gives what the raw ensemble of its first trees gives: neither
the arrays of a dropped tree nor its class are looked at. What is accepted has exactly the kept
trees, and each of them counts for one class.
-/

namespace EnsembleCompiler

/-- The raw ensemble of the first `n` trees, all of which are to be kept. -/
def RawEnsemble.upTo (raw : RawEnsemble) (n : Nat) : RawEnsemble :=
  { raw with
    trees := raw.trees.take n
    treeInfo := raw.treeInfo.take n
    bestIteration := none }

/-- Two raw ensembles agree on their first `n` trees, the classes of these and all that is said of
the model as a whole, the best iteration apart. -/
structure RawEnsemble.AgreeUpTo (raw other : RawEnsemble) (n : Nat) : Prop where
  trees : raw.trees.take n = other.trees.take n
  treeInfo : raw.treeInfo.take n = other.treeInfo.take n
  baseScore : raw.baseScore = other.baseScore
  numClasses : raw.numClasses = other.numClasses
  numFeatures : raw.numFeatures = other.numFeatures

theorem RawEnsemble.AgreeUpTo.upTo_eq {raw other : RawEnsemble} {n : Nat}
    (h : raw.AgreeUpTo other n) : raw.upTo n = other.upTo n := by
  unfold upTo
  rw [h.trees, h.treeInfo, h.baseScore, h.numClasses, h.numFeatures]

/-- What a traversal gives at each place is what its step gives there. -/
theorem getElem_of_mapM {ε α β : Type} {f : α → Except ε β} {xs : List α} {ys : List β}
    (h : xs.mapM f = .ok ys) :
    ys.length = xs.length ∧
      ∀ i (hx : i < xs.length) (hy : i < ys.length), f xs[i] = .ok ys[i] := by
  induction xs generalizing ys with
  | nil =>
    rw [List.mapM_nil] at h
    cases h
    exact ⟨rfl, fun i hx => absurd hx (Nat.not_lt_zero i)⟩
  | cons x xs ih =>
    rw [List.mapM_cons, bind_eq_ok] at h
    obtain ⟨y, hy, h⟩ := h
    obtain ⟨rest, hrest, h⟩ := bind_eq_ok.1 h
    cases h
    obtain ⟨hlength, hstep⟩ := ih hrest
    refine ⟨by rw [List.length_cons, List.length_cons, hlength], fun i hx hy' => ?_⟩
    cases i with
    | zero => exact hy
    | succ i => exact hstep i (Nat.lt_of_succ_lt_succ hx) (Nat.lt_of_succ_lt_succ hy')

namespace Ensemble

/-! ### How many trees are kept -/

variable {best : Int64} {available : Nat}

theorem not_neg_of_toInt (h : 0 ≤ best.toInt) : ¬ best < 0 := by
  rw [Int64.lt_iff_toInt_lt, Int64.toInt_zero]
  omega

theorem keptCount_of_inside (hle : 0 ≤ best.toInt) (hlt : best.toInt < available) :
    keptCount (some best) available = .ok (best.toInt.toNat + 1) := by
  have henough : ¬ available < best.toInt.toNat + 1 := by omega
  exact (if_neg (not_neg_of_toInt hle)).trans (if_neg henough)

/-- Outside the trees a best iteration is an error of its own field. -/
theorem keptCount_of_outside (h : best.toInt < 0 ∨ (available : Int) ≤ best.toInt) :
    ∃ cause, keptCount (some best) available = .error (.field .bestIteration none cause) := by
  by_cases hneg : best < 0
  · exact ⟨.isNegative best, if_pos hneg⟩
  · have hle : 0 ≤ best.toInt := by
      rw [Int64.lt_iff_toInt_lt, Int64.toInt_zero] at hneg
      omega
    have hfew : available < best.toInt.toNat + 1 := by omega
    exact ⟨.tooFewTrees best (best.toInt.toNat + 1) available, (if_neg hneg).trans (if_pos hfew)⟩

/-! ### The kept trees alone -/

variable {raw : RawEnsemble}

/-- The trees of the first `kept` entries, in order. -/
def keptTrees (raw : RawEnsemble) (kept : Nat) : Except ModelError (List Tree) :=
  (keptEntries raw kept).mapM fun (position, tree, entry) => treeOf position tree entry

theorem keptTrees_upTo (raw : RawEnsemble) (n : Nat) :
    keptTrees (raw.upTo n) n = keptTrees raw n := by
  have hzip : ((raw.trees.take n).zip (raw.treeInfo.take n)).take n =
      (raw.trees.zip raw.treeInfo).take n := by
    rw [List.zip_eq_zipWith, List.zip_eq_zipWith, ← List.take_zipWith, List.take_take, Nat.min_self]
  unfold keptTrees keptEntries RawEnsemble.upTo
  rw [hzip]

/-- After the lengths have been compared: the count, the trees, the classes. -/
theorem ofRaw_eq (h : raw.trees.length ≤ raw.treeInfo.length) :
    ofRaw raw = keptCount raw.bestIteration raw.trees.length >>= fun kept =>
      keptTrees raw kept >>= fun trees =>
        ofTrees trees raw.baseScore raw.numClasses raw.numFeatures := by
  unfold ofRaw
  rw [if_neg (Nat.not_lt.2 h)]
  rfl

theorem ofRaw_eq_upTo (h : raw.trees.length ≤ raw.treeInfo.length)
    (hbest : raw.bestIteration = some best) (hle : 0 ≤ best.toInt)
    (hlt : best.toInt < raw.trees.length) :
    ofRaw raw = ofRaw (raw.upTo (best.toInt.toNat + 1)) := by
  let n := best.toInt.toNat + 1
  have hkept : n ≤ raw.trees.length := by omega
  have htrees : (raw.upTo n).trees.length = n := List.length_take_of_le hkept
  have hinfo : (raw.upTo n).treeInfo.length = n := List.length_take_of_le (hkept.trans h)
  let rest := fun trees => ofTrees trees raw.baseScore raw.numClasses raw.numFeatures
  calc
    ofRaw raw = keptTrees raw n >>= rest := by
      rw [ofRaw_eq h, hbest, keptCount_of_inside hle hlt]
      rfl
    _ = keptTrees (raw.upTo n) n >>= rest := by rw [keptTrees_upTo]
    _ = ofRaw (raw.upTo n) := by
      rw [ofRaw_eq (by rw [htrees, hinfo]), htrees]
      rfl

/-! ### What is accepted -/

theorem classOf_eq_ok {position : Nat} {entry : Int64} {classIndex : UInt64} :
    classOf position entry = .ok classIndex → (classIndex.toNat : Int) = entry.toInt := by
  intro h
  unfold classOf at h
  split at h
  · cases h
  · next hneg =>
    cases h
    exact NodeTable.toNat_toUInt64 hneg

/-- The tree of an ensemble at each place: its position, its class and its nodes are those of the
raw ensemble there. -/
structure TreeAt (raw : RawEnsemble) (i : Nat) (tree : Tree) : Prop where
  position : tree.position = i
  classIndex : ∃ entry, raw.treeInfo[i]? = some entry ∧ (tree.classIndex.toNat : Int) = entry.toInt
  class_lt : tree.classIndex < raw.numClasses
  root : ∃ arrays, raw.trees[i]? = some arrays ∧ arrays.assemble i = .ok tree.root

theorem numClasses_of_ofTrees {trees : List Tree} {baseScore : Binary64} {numClasses : UInt64}
    {numFeatures : Option UInt64} {ensemble : Ensemble}
    (h : ofTrees trees baseScore numClasses numFeatures = .ok ensemble) :
    ensemble.numClasses = numClasses := by
  unfold ofTrees at h
  split at h
  · split at h
    · cases h
    · cases h
      rfl
  · cases h

theorem getElem_keptEntries {kept i : Nat} (hi : i < (keptEntries raw kept).length) :
    ∃ arrays entry, raw.trees[i]? = some arrays ∧ raw.treeInfo[i]? = some entry ∧
      (keptEntries raw kept)[i] = (i, arrays, entry) := by
  have hlength : i < raw.trees.length ∧ i < raw.treeInfo.length := by
    simp [keptEntries] at hi
    omega
  refine ⟨raw.trees[i], raw.treeInfo[i], List.getElem?_eq_getElem hlength.1,
    List.getElem?_eq_getElem hlength.2, ?_⟩
  simp [keptEntries]

theorem trees_of_ofRaw {ensemble : Ensemble} {kept : Nat} (hraw : ofRaw raw = .ok ensemble)
    (hkept : keptCount raw.bestIteration raw.trees.length = .ok kept)
    (hle : kept ≤ raw.trees.length) :
    ensemble.trees.length = kept ∧
      ∀ i tree, ensemble.trees[i]? = some tree → TreeAt raw i tree := by
  obtain ⟨hinfo, kept', trees, hkept', hmap, htrees⟩ := ofRaw_eq_ok.1 hraw
  rw [hkept] at hkept'
  cases hkept'
  obtain ⟨hlength, hstep⟩ := getElem_of_mapM hmap
  have hentries : (keptEntries raw kept).length = kept := by
    simp [keptEntries]
    omega
  rw [trees_of_ofTrees htrees]
  refine ⟨by rw [hlength, hentries], fun i tree htree => ?_⟩
  obtain ⟨hi, rfl⟩ := List.getElem?_eq_some_iff.1 htree
  have hi' : i < (keptEntries raw kept).length := by rwa [← hlength]
  obtain ⟨arrays, entry, harrays, hentry, hget⟩ := getElem_keptEntries hi'
  have htreeOf := hstep i hi' hi
  rw [hget] at htreeOf
  obtain ⟨classIndex, root, hclass, hroot, heq⟩ := treeOf_eq_ok.1 htreeOf
  have hmem : trees[i] ∈ ensemble.trees := by
    rw [trees_of_ofTrees htrees]
    exact List.getElem_mem hi
  have hlt := ensemble.class_lt _ hmem
  rw [numClasses_of_ofTrees htrees] at hlt
  rw [heq] at hlt ⊢
  exact ⟨rfl, ⟨entry, hentry, classOf_eq_ok hclass⟩, hlt, ⟨arrays, harrays, hroot⟩⟩

/-- Trees for classes below `n` are counted once, each for its class. -/
theorem sum_countP_class {n : Nat} {trees : List Tree}
    (h : ∀ tree ∈ trees, tree.classIndex.toNat < n) :
    ∑ c ∈ Finset.range n, trees.countP (·.classIndex.toNat = c) = trees.length := by
  induction trees with
  | nil => simp
  | cons tree trees ih =>
    have hhead : tree.classIndex.toNat ∈ Finset.range n :=
      Finset.mem_range.2 (h tree List.mem_cons_self)
    have htail := ih fun t ht => h t (List.mem_cons_of_mem tree ht)
    simp only [List.countP_cons, Finset.sum_add_distrib, htail, decide_eq_true_eq,
      Finset.sum_ite_eq, hhead, if_true, List.length_cons]

theorem sum_treesForClass (ensemble : Ensemble) :
    ∑ c ∈ Finset.range ensemble.numClasses.toNat, ensemble.treesForClass c =
      ensemble.trees.length := by
  refine sum_countP_class fun tree htree => ?_
  exact UInt64.lt_iff_toNat_lt.1 (ensemble.class_lt tree htree)

/-- **Truncation isolates the kept trees.** With a best iteration among the trees, a raw ensemble
gives the ensemble or the error of its kept trees alone, and so of every other raw ensemble that
agrees with it on them. An accepted one has exactly the kept trees, each with its position, its
class and its nodes, and its classes share the trees out. With a best iteration outside the trees
it is always an error of that field. -/
theorem ofRaw_truncates (h : raw.trees.length ≤ raw.treeInfo.length)
    (hbest : raw.bestIteration = some best) :
    (0 ≤ best.toInt → best.toInt < raw.trees.length →
      ofRaw raw = ofRaw (raw.upTo (best.toInt.toNat + 1)) ∧
      (∀ other : RawEnsemble, other.trees.length ≤ other.treeInfo.length →
        other.bestIteration = some best → best.toInt < other.trees.length →
        raw.AgreeUpTo other (best.toInt.toNat + 1) → ofRaw other = ofRaw raw) ∧
      ∀ ensemble, ofRaw raw = .ok ensemble →
        ensemble.trees.length = best.toInt.toNat + 1 ∧
        (∀ i tree, ensemble.trees[i]? = some tree → TreeAt raw i tree) ∧
        ∑ c ∈ Finset.range ensemble.numClasses.toNat, ensemble.treesForClass c =
          ensemble.trees.length) ∧
    (best.toInt < 0 ∨ raw.trees.length ≤ best.toInt →
      ∃ cause, ofRaw raw = .error (.field .bestIteration none cause)) := by
  refine ⟨fun hle hlt => ⟨ofRaw_eq_upTo h hbest hle hlt, ?_, ?_⟩, fun houtside => ?_⟩
  · -- both are what the part that they agree on gives
    intro other hother hbest' hlt' hagree
    rw [ofRaw_eq_upTo hother hbest' hle hlt', ← hagree.upTo_eq]
    exact (ofRaw_eq_upTo h hbest hle hlt).symm
  · intro ensemble hraw
    have hkept := keptCount_of_inside hle hlt
    rw [← hbest] at hkept
    obtain ⟨hlength, htrees⟩ := trees_of_ofRaw hraw hkept (by omega)
    exact ⟨hlength, htrees, sum_treesForClass ensemble⟩
  · obtain ⟨cause, hcause⟩ : ∃ cause, keptCount (some best) raw.trees.length =
        .error (.field .bestIteration none cause) := keptCount_of_outside houtside
    rw [ofRaw_eq h, hbest, hcause]
    exact ⟨cause, rfl⟩

/-- Two trees, the second of which has no valid class, a cycle and too short an array. -/
def brokenTail : RawEnsemble where
  trees := [⟨#[-1], #[-1], #[0], #[.nan], #[true]⟩, ⟨#[0, 1], #[1, 0], #[-1, 0], #[], #[true]⟩]
  treeInfo := [1, -5, 3]
  bestIteration := some 0
  baseScore := .nan
  numClasses := 2
  numFeatures := none

theorem ofRaw_truncates_brokenTail :
    brokenTail.trees.length ≤ brokenTail.treeInfo.length ∧
      brokenTail.bestIteration = some 0 ∧ ofRaw brokenTail = ofRaw (brokenTail.upTo 1) ∧
      ∃ ensemble, ofRaw brokenTail = .ok ensemble ∧ ensemble.trees.length = 1 := by
  have hlength : brokenTail.trees.length ≤ brokenTail.treeInfo.length := by decide
  obtain ⟨heq, -, hok⟩ := (ofRaw_truncates hlength rfl).1 (by decide) (by decide)
  refine ⟨hlength, rfl, heq, ⟨[⟨0, 1, .leaf 0 .nan⟩], .nan, 2, none, by decide, by decide⟩, ?_, rfl⟩
  exact ofRaw_eq_ok.2 ⟨hlength, 1, _, rfl, by decide +kernel, ofTrees_eq_ok (by decide) (by decide)⟩

end Ensemble

end EnsembleCompiler
