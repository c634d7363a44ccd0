import EnsembleCompiler.Proofs.Assembly.ProperTree
import Mathlib.Tactic.ByContra

/-!
# The claiming walk

What the walk down from the root keeps: the claimed nodes are those found and those pending, each
claimed by one parent that was found, the root by none. A walk that ends has found the reachable
nodes, children in front of their parents; one that fails stands at a reachable node with the
defect that its error names.
-/

namespace EnsembleCompiler.NodeTable

variable {n : Nat} {table : NodeTable n} {root node l r c : Fin n}
  {claimed : Vector Bool n} {found pending : List (Fin n)}

theorem get_set {α : Type} (v : Vector α n) (i j : Fin n) (x : α) :
    (v.set i x i.isLt).get j = if i = j then x else v.get j := by
  show (v.set i x i.isLt)[j.val] = _
  rw [Vector.getElem_set]
  simp only [Fin.ext_iff]
  rfl

theorem get_claim : (claim claimed node).get c = true ↔ c = node ∨ claimed.get c = true := by
  rw [claim, get_set]
  by_cases h : node = c
  · simp [h]
  · simp [h, Ne.symm h]

/-- The walk starts with the root claimed and nothing else. -/
theorem get_claim_start : (claim (Vector.replicate n false) root).get c = true ↔ c = root := by
  have hnone : (Vector.replicate n false).get c = false := Vector.getElem_replicate c.isLt
  rw [get_claim, hnone]
  simp

/-- What is not claimed with another node is another node, and was not claimed before. -/
theorem unclaimed_of_claim (h : (claim claimed node).get c = false) :
    c ≠ node ∧ claimed.get c = false := by
  have hnot : ¬ (c = node ∨ claimed.get c = true) := fun hclaimed => by
    simp [get_claim.2 hclaimed] at h
  exact ⟨fun hc => hnot (.inl hc), eq_false_of_ne_true fun hc => hnot (.inr hc)⟩

/-- Two children that are not the same stand on two sides. -/
theorem side_unique {s t : Side} (hl : table.IsChild node .left l)
    (hr : table.IsChild node .right r) (hlr : l ≠ r) (hs : table.IsChild node s c)
    (ht : table.IsChild node t c) : s = t := by
  rcases isChild_cases hl hr hs with ⟨rfl, rfl⟩ | ⟨rfl, rfl⟩ <;>
    rcases isChild_cases hl hr ht with ⟨rfl, he⟩ | ⟨rfl, he⟩
  · rfl
  · exact absurd he hlr
  · exact absurd he.symm hlr
  · rfl

/-- What holds whenever the walk takes the next pending node. -/
structure WalkInv (table : NodeTable n) (root : Fin n) (claimed : Vector Bool n)
    (found pending : List (Fin n)) : Prop where
  nodup : (pending ++ found).Nodup
  claimed_iff : ∀ c, claimed.get c = true ↔ c ∈ pending ∨ c ∈ found
  claimed_by : ∀ c, claimed.get c = true → c = root ∨ ∃ i ∈ found, ∃ s, table.IsChild i s c
  root_claimed : claimed.get root = true
  child_claimed : ∀ i ∈ found, ∀ s c, table.IsChild i s c → claimed.get c = true
  reachable : ∀ c, claimed.get c = true → table.Reachable root c
  shape : ∀ i ∈ found, table.IsLeafEntry i ∨ table.IsSplitEntry i
  claimed_once : ∀ i ∈ found, ∀ j ∈ found, ∀ s t c,
    table.IsChild i s c → table.IsChild j t c → i = j ∧ s = t
  root_unclaimed : ∀ i ∈ found, ∀ s, ¬ table.IsChild i s root
  not_self : ∀ i ∈ found, ∀ s, ¬ table.IsChild i s i
  children_first : found.Pairwise fun i j => ∀ s, ¬ table.IsChild i s j

theorem walkInv_start : table.WalkInv root (claim (Vector.replicate n false) root) [] [root] where
  nodup := by simp
  claimed_iff c := by rw [get_claim_start]; simp
  claimed_by c h := .inl (get_claim_start.1 h)
  root_claimed := get_claim_start.2 rfl
  child_claimed := by simp
  reachable c h := by
    obtain rfl := get_claim_start.1 h
    exact Reachable.refl
  shape := by simp
  claimed_once := by simp
  root_unclaimed := by simp
  not_self := by simp
  children_first := .nil

namespace WalkInv

theorem head_claimed (h : table.WalkInv root claimed found (node :: pending)) :
    claimed.get node = true :=
  (h.claimed_iff node).2 (.inl (by simp))

theorem head_notMem (h : table.WalkInv root claimed found (node :: pending)) : node ∉ found := by
  have := h.nodup
  simp only [List.cons_append, List.nodup_cons, List.mem_append, not_or] at this
  exact this.1.2

theorem leaf (h : table.WalkInv root claimed found (node :: pending))
    (hleaf : table.IsLeafEntry node) : table.WalkInv root claimed (node :: found) pending where
  nodup := (List.perm_middle.nodup_iff).2 h.nodup
  claimed_iff c := by
    rw [h.claimed_iff, List.mem_cons, List.mem_cons, or_assoc, or_left_comm]
  claimed_by c hc := by
    refine (h.claimed_by c hc).imp_right fun ⟨i, hi, hic⟩ => ⟨i, ?_, hic⟩
    exact List.mem_cons_of_mem _ hi
  root_claimed := h.root_claimed
  -- a leaf is the parent of nothing, so the clauses about parents are about the nodes found before
  child_claimed i hi s c hc := by
    rcases List.mem_cons.1 hi with rfl | hi
    · exact absurd hc hleaf.not_isChild
    · exact h.child_claimed i hi s c hc
  reachable := h.reachable
  shape i hi := by
    rcases List.mem_cons.1 hi with rfl | hi
    · exact .inl hleaf
    · exact h.shape i hi
  claimed_once i hi j hj s t c hic hjc := by
    rcases List.mem_cons.1 hi with rfl | hi
    · exact absurd hic hleaf.not_isChild
    · rcases List.mem_cons.1 hj with rfl | hj
      · exact absurd hjc hleaf.not_isChild
      · exact h.claimed_once i hi j hj s t c hic hjc
  root_unclaimed i hi s hc := by
    rcases List.mem_cons.1 hi with rfl | hi
    · exact hleaf.not_isChild hc
    · exact h.root_unclaimed i hi s hc
  not_self i hi s hc := by
    rcases List.mem_cons.1 hi with rfl | hi
    · exact hleaf.not_isChild hc
    · exact h.not_self i hi s hc
  children_first := List.pairwise_cons.2 ⟨fun _ _ _ => hleaf.not_isChild, h.children_first⟩

/-- Two nodes that are not claimed are neither pending nor found. -/
theorem nodup_split (h : table.WalkInv root claimed found (node :: pending))
    (hlc : claimed.get l = false) (hrc : (claim claimed l).get r = false) :
    (r :: l :: (pending ++ node :: found)).Nodup := by
  obtain ⟨hrl, hrc'⟩ := unclaimed_of_claim hrc
  have hnew : ∀ c, claimed.get c = false → c ∉ pending ++ node :: found := by
    intro c hc hmem
    rw [List.perm_middle.mem_iff, List.mem_cons, List.mem_append, ← or_assoc, ← List.mem_cons,
      ← h.claimed_iff] at hmem
    simp [hmem] at hc
  have hbase : (pending ++ node :: found).Nodup := (List.perm_middle.nodup_iff).2 h.nodup
  refine List.nodup_cons.2 ⟨fun hmem => ?_, List.nodup_cons.2 ⟨hnew l hlc, hbase⟩⟩
  rcases List.mem_cons.1 hmem with hrl' | hmem
  · exact hrl hrl'
  · exact hnew r hrc' hmem

theorem split (h : table.WalkInv root claimed found (node :: pending))
    (hl : table.IsChild node .left l) (hr : table.IsChild node .right r)
    (hlc : claimed.get l = false) (hrc : (claim claimed l).get r = false) :
    table.WalkInv root (claim (claim claimed l) r) (node :: found) (r :: l :: pending) := by
  obtain ⟨hrl, hrc'⟩ := unclaimed_of_claim hrc
  -- what is claimed already is no child of the node
  have hfresh : ∀ c, claimed.get c = true → ∀ s, ¬ table.IsChild node s c := by
    intro c hclaimed s hc
    rcases isChild_cases hl hr hc with ⟨-, rfl⟩ | ⟨-, rfl⟩
    · simp [hclaimed] at hlc
    · simp [hclaimed] at hrc'
  have hfound : ∀ i ∈ found, claimed.get i = true := fun i hi => (h.claimed_iff i).2 (.inr hi)
  constructor
  case nodup => exact h.nodup_split hlc hrc
  case claimed_iff =>
    intro c
    rw [get_claim, get_claim, h.claimed_iff]
    simp only [List.mem_cons]
    grind
  case claimed_by =>
    intro c hc
    rw [get_claim, get_claim] at hc
    rcases hc with rfl | rfl | hc
    · exact .inr ⟨node, by simp, _, hr⟩
    · exact .inr ⟨node, by simp, _, hl⟩
    · exact (h.claimed_by c hc).imp_right fun ⟨i, hi, hic⟩ => ⟨i, List.mem_cons_of_mem _ hi, hic⟩
  case root_claimed => exact get_claim.2 (.inr (get_claim.2 (.inr h.root_claimed)))
  case child_claimed =>
    intro i hi s c hc
    rw [get_claim, get_claim]
    rcases List.mem_cons.1 hi with rfl | hi
    · rcases isChild_cases hl hr hc with ⟨-, rfl⟩ | ⟨-, rfl⟩
      · exact .inr (.inl rfl)
      · exact .inl rfl
    · exact .inr (.inr (h.child_claimed i hi s c hc))
  case reachable =>
    intro c hc
    have hnode := h.reachable node h.head_claimed
    rw [get_claim, get_claim] at hc
    rcases hc with rfl | rfl | hc
    · exact hnode.child hr
    · exact hnode.child hl
    · exact h.reachable c hc
  case shape =>
    intro i hi
    rcases List.mem_cons.1 hi with rfl | hi
    · exact .inr (isSplitEntry_of hl hr)
    · exact h.shape i hi
  case claimed_once =>
    intro i hi j hj s t c hic hjc
    rcases List.mem_cons.1 hi with rfl | hi' <;> rcases List.mem_cons.1 hj with rfl | hj'
    · exact ⟨rfl, side_unique hl hr hrl.symm hic hjc⟩
    · exact absurd hic (hfresh c (h.child_claimed j hj' t c hjc) s)
    · exact absurd hjc (hfresh c (h.child_claimed i hi' s c hic) t)
    · exact h.claimed_once i hi' j hj' s t c hic hjc
  case root_unclaimed =>
    intro i hi s
    rcases List.mem_cons.1 hi with rfl | hi
    · exact hfresh root h.root_claimed s
    · exact h.root_unclaimed i hi s
  case not_self =>
    intro i hi s
    rcases List.mem_cons.1 hi with rfl | hi
    · exact hfresh i h.head_claimed s
    · exact h.not_self i hi s
  case children_first =>
    exact List.pairwise_cons.2 ⟨fun j hj => hfresh j (hfound j hj), h.children_first⟩

/-- A child that is claimed already is the root, or another entry names it. -/
theorem sharedChild (h : table.WalkInv root claimed found (node :: pending)) {s : Side}
    (hc : table.IsChild node s c) (hclaimed : claimed.get c = true) :
    table.FaultAt root node (.sharedChild c) := by
  refine ⟨s, c, rfl, hc, (h.claimed_by c hclaimed).imp_right ?_⟩
  rintro ⟨i, hi, t, hic⟩
  refine ⟨i, t, h.reachable i ((h.claimed_iff i).2 (.inr hi)), hic, .inl ?_⟩
  rintro rfl
  exact h.head_notMem hi

end WalkInv

/-- A walk ends with all that is reachable found, or at a defect. -/
theorem walk_spec (h : table.WalkInv root claimed found pending) :
    match table.walk claimed found pending with
    | .ok order => ∃ claimed, table.WalkInv root claimed order []
    | .error fault => table.Reachable root fault.node ∧ table.FaultAt root fault.node fault.cause := by
  fun_induction walk table claimed found pending with
  | case1 claimed found => exact ⟨claimed, h⟩
  | case2 claimed found node pending cause hcause =>
    exact ⟨h.reachable node h.head_claimed, children_eq_error hcause⟩
  | case3 claimed found node pending hleaf ih => exact ih (h.leaf (children_eq_none hleaf))
  | case4 claimed found node pending l r hsplit hl =>
    obtain ⟨hcl, -⟩ := children_eq_some hsplit
    exact ⟨h.reachable node h.head_claimed, h.sharedChild hcl hl⟩
  | case5 claimed found node pending l r hsplit hl _ hr =>
    obtain ⟨hcl, hcr⟩ := children_eq_some hsplit
    refine ⟨h.reachable node h.head_claimed, ?_⟩
    rcases get_claim.1 hr with rfl | hr
    · exact ⟨.right, r, rfl, hcr, .inr ⟨node, .left, h.reachable node h.head_claimed, hcl, by simp⟩⟩
    · exact h.sharedChild hcr hr
  | case6 claimed found node pending l r hsplit hl _ hr _ ih =>
    obtain ⟨hcl, hcr⟩ := children_eq_some hsplit
    exact ih (h.split hcl hcr hl hr)

namespace WalkInv

/-- The nodes that a walk finds are the reachable ones. -/
theorem mem_iff {order : List (Fin n)} (h : table.WalkInv root claimed order []) :
    c ∈ order ↔ table.Reachable root c := by
  have hmem : ∀ c, claimed.get c = true ↔ c ∈ order := fun c => by simpa using h.claimed_iff c
  refine ⟨fun hc => h.reachable c ((hmem c).2 hc), fun hc => ?_⟩
  refine hc.mem_of_closed (p := (· ∈ order)) ((hmem root).1 h.root_claimed) fun i s c hi hic => ?_
  exact (hmem c).1 (h.child_claimed i hi s c hic)

/-- The entries of a node that the walk has passed over can be read. -/
theorem children_isOk (h : table.WalkInv root claimed found pending) (hc : c ∈ found) :
    ∃ pair, table.children c = .ok pair := by
  rcases h.shape c hc with hleaf | hsplit
  · exact ⟨none, hleaf.children_eq⟩
  · obtain ⟨l, r, hlr⟩ := hsplit.children_eq
    exact ⟨some (l, r), hlr⟩

/-- A walk that ends over a table that spells out a tree shows that the table is proper. -/
theorem proper {order : List (Fin n)} {t : Node} (h : table.WalkInv root claimed order [])
    (ht : table.Represents root t) : table.Proper root where
  children i hi := h.shape i (h.mem_iff.2 hi)
  claimed_once i j s t c hi hj := h.claimed_once i (h.mem_iff.2 hi) j (h.mem_iff.2 hj) s t c
  root_unclaimed i s hi := h.root_unclaimed i (h.mem_iff.2 hi) s
  feature i hi hsplit := by
    obtain ⟨u, hu⟩ := ht.of_reachable hi
    cases hu with
    | leaf hleaf =>
      obtain ⟨c, hc⟩ := hsplit .left
      exact absurd hc hleaf.not_isChild
    | split _ _ hf => omega

end WalkInv

end EnsembleCompiler.NodeTable
