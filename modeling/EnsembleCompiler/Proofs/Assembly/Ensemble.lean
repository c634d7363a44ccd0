import EnsembleCompiler.Model.Ensemble
import Mathlib.Data.List.Nodup

/-!
# Ensembles of assembled trees

What an accepted raw ensemble gives: every step of its assembly has succeeded, and every tree keeps
the position of its arrays.
-/

namespace EnsembleCompiler

/-! ### Steps that succeed -/

theorem bind_eq_ok {ε α β : Type} {x : Except ε α} {f : α → Except ε β} {b : β} :
    (x >>= f) = .ok b ↔ ∃ a, x = .ok a ∧ f a = .ok b := by
  cases x with
  | error e => simp [bind, Except.bind]
  | ok a => simp [bind, Except.bind]

/-- What a step keeps of each element is kept by all steps together. -/
theorem map_of_mapM {ε α β γ : Type} {f : α → Except ε β} {before : α → γ} {after : β → γ}
    (hstep : ∀ x y, f x = .ok y → after y = before x) {xs : List α} {ys : List β}
    (h : xs.mapM f = .ok ys) : ys.map after = xs.map before := by
  induction xs generalizing ys with
  | nil =>
    rw [List.mapM_nil] at h
    cases h
    rfl
  | cons x xs ih =>
    rw [List.mapM_cons, bind_eq_ok] at h
    obtain ⟨y, hy, h⟩ := h
    obtain ⟨rest, hrest, h⟩ := bind_eq_ok.1 h
    cases h
    rw [List.map_cons, List.map_cons, hstep x y hy, ih hrest]

namespace Ensemble

/-! ### Trees -/

theorem treeOf_eq_ok {position : Nat} {raw : RawTree} {entry : Int64} {tree : Tree} :
    treeOf position raw entry = .ok tree ↔
      ∃ classIndex root, classOf position entry = .ok classIndex ∧
        raw.assemble position = .ok root ∧ tree = ⟨position, classIndex, root⟩ := by
  rw [treeOf, bind_eq_ok]
  constructor
  · rintro ⟨classIndex, hclass, h⟩
    obtain ⟨root, hroot, h⟩ := bind_eq_ok.1 h
    cases h
    exact ⟨classIndex, root, hclass, hroot, rfl⟩
  · rintro ⟨classIndex, root, hclass, hroot, rfl⟩
    exact ⟨classIndex, hclass, bind_eq_ok.2 ⟨root, hroot, rfl⟩⟩

theorem position_of_treeOf {position : Nat} {raw : RawTree} {entry : Int64} {tree : Tree}
    (h : treeOf position raw entry = .ok tree) : tree.position = position := by
  obtain ⟨classIndex, root, -, -, rfl⟩ := treeOf_eq_ok.1 h
  rfl

theorem ofTrees_eq_ok {trees : List Tree} {baseScore : Binary64} {numClasses : UInt64}
    {numFeatures : Option UInt64} (hpos : 0 < numClasses)
    (hclass : ∀ tree ∈ trees, tree.classIndex < numClasses) :
    ofTrees trees baseScore numClasses numFeatures =
      .ok ⟨trees, baseScore, numClasses, numFeatures, hpos, hclass⟩ := by
  unfold ofTrees
  rw [dif_pos hpos]
  split
  · next tree hfind =>
    have hlt := hclass tree (List.mem_of_find?_eq_some hfind)
    exact absurd (List.find?_some hfind) (by simpa using hlt)
  · rfl

theorem trees_of_ofTrees {trees : List Tree} {baseScore : Binary64} {numClasses : UInt64}
    {numFeatures : Option UInt64} {ensemble : Ensemble}
    (h : ofTrees trees baseScore numClasses numFeatures = .ok ensemble) :
    ensemble.trees = trees := by
  unfold ofTrees at h
  split at h
  · split at h
    · cases h
    · cases h
      rfl
  · cases h

/-! ### Raw ensembles -/

theorem ofRaw_eq_ok {raw : RawEnsemble} {ensemble : Ensemble} :
    ofRaw raw = .ok ensemble ↔
      raw.trees.length ≤ raw.treeInfo.length ∧
        ∃ kept trees, keptCount raw.bestIteration raw.trees.length = .ok kept ∧
          ((keptEntries raw kept).mapM fun (position, tree, entry) => treeOf position tree entry) =
            .ok trees ∧
          ofTrees trees raw.baseScore raw.numClasses raw.numFeatures = .ok ensemble := by
  unfold ofRaw
  by_cases hshort : raw.treeInfo.length < raw.trees.length
  · simp [hshort, bind, Except.bind, Nat.not_le.2 hshort]
  · rw [if_neg hshort]
    show ((keptCount raw.bestIteration raw.trees.length >>= _) = _) ↔ _
    simp only [bind_eq_ok, Nat.not_lt.1 hshort, true_and]
    constructor
    · rintro ⟨kept, hkept, trees, htrees, h⟩
      exact ⟨kept, trees, hkept, htrees, h⟩
    · rintro ⟨kept, trees, hkept, htrees, h⟩
      exact ⟨kept, hkept, trees, htrees, h⟩

theorem nodup_positions_keptEntries (raw : RawEnsemble) (kept : Nat) :
    ((keptEntries raw kept).map Prod.fst).Nodup := by
  have hrange : (keptEntries raw kept).map Prod.fst =
      List.range ((raw.trees.zip raw.treeInfo).take kept).length := by
    refine List.ext_getElem (by simp [keptEntries]) fun i hi hi' => ?_
    simp [keptEntries]
  rw [hrange]
  exact List.nodup_range

/-- The trees of a model have different positions. -/
theorem nodup_positions {raw : RawEnsemble} {ensemble : Ensemble}
    (h : ofRaw raw = .ok ensemble) : (ensemble.trees.map (·.position)).Nodup := by
  obtain ⟨-, kept, trees, -, htrees, hensemble⟩ := ofRaw_eq_ok.1 h
  rw [trees_of_ofTrees hensemble, map_of_mapM (fun x y => position_of_treeOf) htrees]
  exact nodup_positions_keptEntries raw kept

end Ensemble

end EnsembleCompiler
