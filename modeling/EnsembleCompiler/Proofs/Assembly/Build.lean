import EnsembleCompiler.Proofs.Assembly.Walk
import Mathlib.Data.List.Nodup

/-!
# Building the tree of a walk

The nodes of a walk are built children first. While they are, the trees that no parent has taken
are those of the built nodes without a built parent; they spell out their entries and share no
node. So no child is ever missing, and the only error left is a negative feature.

Main statement: `RawTree.assemble_exact`.
-/

namespace EnsembleCompiler

namespace NodeTable

variable {n : Nat} {table : NodeTable n} {root node l r : Fin n} {claimed : Vector Bool n}
  {done todo : List (Fin n)} {built : Vector (Option Node) n}

theorem take_eq {parent child : Fin n} {t : Node} (h : built.get child = some t) :
    take built parent child = .ok (t, built.set child none child.isLt) := by
  simp [take, h]

/-- What holds when the nodes of `done` have been built. -/
structure BuildInv (table : NodeTable n) (built : Vector (Option Node) n) (done : List (Fin n)) :
    Prop where
  represents : ∀ i t, built.get i = some t → table.Represents i t
  present : ∀ i ∈ done, (∀ j ∈ done, ∀ s, ¬ table.IsChild j s i) → ∃ t, built.get i = some t
  ids_mem : ∀ i t, built.get i = some t → ∀ k ∈ t.ids, ∃ c ∈ done, c.val = k
  ids_nodup : ∀ i t, built.get i = some t → t.ids.Nodup
  ids_disjoint : ∀ i j t u, i ≠ j → built.get i = some t → built.get j = some u →
    t.ids.Disjoint u.ids

theorem buildInv_start : table.BuildInv (Vector.replicate n none) [] := by
  constructor <;> simp [Vector.get]

namespace BuildInv

theorem notMem_ids (h : table.BuildInv built done) (hnew : node ∉ done) {i : Fin n} {t : Node}
    (ht : built.get i = some t) : node.val ∉ t.ids := by
  intro hk
  obtain ⟨c, hc, hck⟩ := h.ids_mem i t ht _ hk
  exact hnew (Fin.ext hck ▸ hc)

/-- A tree is added for a node, and `kept` are the trees that it has not taken. -/
theorem add {kept : Vector (Option Node) n} {t : Node} (h : table.BuildInv built done)
    (hkept : ∀ i u, kept.get i = some u → built.get i = some u)
    (hfree : ∀ i, (∀ s, ¬ table.IsChild node s i) → kept.get i = built.get i)
    (ht : table.Represents node t) (hids : ∀ k ∈ t.ids, ∃ c ∈ done ++ [node], c.val = k)
    (hnodup : t.ids.Nodup) (hdisjoint : ∀ i u, kept.get i = some u → t.ids.Disjoint u.ids) :
    table.BuildInv (kept.set node (some t) node.isLt) (done ++ [node]) := by
  -- what a slot holds now is the new tree, or was kept and so was there before; each clause of the
  -- invariant splits on this
  have hget : ∀ i u, (kept.set node (some t) node.isLt).get i = some u →
      (i = node ∧ u = t) ∨ kept.get i = some u := by
    intro i u hu
    rw [get_set] at hu
    split_ifs at hu with hi
    · exact .inl ⟨hi.symm, (Option.some.inj hu).symm⟩
    · exact .inr hu
  constructor
  case represents =>
    intro i u hu
    rcases hget i u hu with ⟨rfl, rfl⟩ | hu
    · exact ht
    · exact h.represents i u (hkept i u hu)
  case present =>
    intro i hi hnone
    rw [get_set]
    split_ifs with hni
    · exact ⟨_, rfl⟩
    · have hi' : i ∈ done := by simpa [Ne.symm hni] using hi
      rw [hfree i fun s => hnone node (by simp) s]
      exact h.present i hi' fun j hj s => hnone j (List.mem_append_left _ hj) s
  case ids_mem =>
    intro i u hu k hk
    rcases hget i u hu with ⟨rfl, rfl⟩ | hu
    · exact hids k hk
    · obtain ⟨c, hc, hck⟩ := h.ids_mem i u (hkept i u hu) k hk
      exact ⟨c, List.mem_append_left _ hc, hck⟩
  case ids_nodup =>
    intro i u hu
    rcases hget i u hu with ⟨rfl, rfl⟩ | hu
    · exact hnodup
    · exact h.ids_nodup i u (hkept i u hu)
  case ids_disjoint =>
    intro i j u v hij hu hv
    rcases hget i u hu with ⟨rfl, rfl⟩ | hui <;> rcases hget j v hv with ⟨rfl, rfl⟩ | hvj
    · exact absurd rfl hij
    · exact hdisjoint j v hvj
    · exact List.disjoint_comm.1 (hdisjoint i u hui)
    · exact h.ids_disjoint i j u v hij (hkept i u hui) (hkept j v hvj)

variable (h : table.BuildInv built done) (hnew : node ∉ done)
include h hnew

theorem leaf (hleaf : table.IsLeafEntry node) :
    table.BuildInv (built.set node (some (.leaf node (table.condition.get node))) node.isLt)
      (done ++ [node]) := by
  refine h.add (fun _ _ => id) (fun _ _ => rfl) (.leaf hleaf) ?_ (List.nodup_singleton _) ?_
  · intro k hk
    exact ⟨node, by simp, (List.mem_singleton.1 hk).symm⟩
  · intro i u hu
    exact List.singleton_disjoint.2 (h.notMem_ids hnew hu)

theorem split {left right : Node} {feature : UInt64} (hl : table.IsChild node .left l)
    (hr : table.IsChild node .right r) (hlr : l ≠ r)
    (hf : (feature.toNat : Int) = (table.feature.get node).toInt)
    (hleft : built.get l = some left) (hright : built.get r = some right) :
    table.BuildInv (((built.set l none l.isLt).set r none r.isLt).set node
      (some (.split node feature (table.condition.get node) (table.defaultLeft.get node) left right))
      node.isLt) (done ++ [node]) := by
  -- both subtrees have been taken out of their slots
  have hkept : ∀ i u, ((built.set l none l.isLt).set r none r.isLt).get i = some u →
      i ≠ l ∧ i ≠ r ∧ built.get i = some u := by
    intro i u hu
    rw [get_set, get_set] at hu
    split_ifs at hu with hir hil
    exact ⟨Ne.symm hil, Ne.symm hir, hu⟩
  refine h.add (fun i u hu => (hkept i u hu).2.2) ?_
    (.split hl hr hf (h.represents l left hleft) (h.represents r right hright)) ?_ ?_ ?_
  · -- a node without a parent is neither of the two children, so its slot is as it was
    intro i hnone
    have hil : l ≠ i := fun he => hnone .left (he ▸ hl)
    have hir : r ≠ i := fun he => hnone .right (he ▸ hr)
    rw [get_set, get_set, if_neg hir, if_neg hil]
  · intro k hk
    have hold : ∀ j u, built.get j = some u → k ∈ u.ids → ∃ c ∈ done ++ [node], c.val = k := by
      intro j u hu hk
      obtain ⟨c, hc, hck⟩ := h.ids_mem j u hu k hk
      exact ⟨c, List.mem_append_left _ hc, hck⟩
    rw [Node.ids, List.mem_cons, List.mem_append] at hk
    rcases hk with rfl | hk | hk
    · exact ⟨node, by simp, rfl⟩
    · exact hold l left hleft hk
    · exact hold r right hright hk
  · rw [Node.ids, List.nodup_cons, List.mem_append, not_or, List.nodup_append']
    exact ⟨⟨h.notMem_ids hnew hleft, h.notMem_ids hnew hright⟩, h.ids_nodup l left hleft,
      h.ids_nodup r right hright, h.ids_disjoint l r left right hlr hleft hright⟩
  · intro i u hu
    obtain ⟨hil, hir, hu⟩ := hkept i u hu
    rw [Node.ids, List.disjoint_cons_left, List.disjoint_append_left]
    exact ⟨h.notMem_ids hnew hu, h.ids_disjoint l i left u hil.symm hleft hu,
      h.ids_disjoint r i right u hir.symm hright hu⟩

end BuildInv

/-- A feature that is not negative is itself as an unsigned number. -/
theorem toNat_toUInt64 {x : Int64} (h : ¬ x < 0) : (x.toUInt64.toNat : Int) = x.toInt := by
  have h0 : (0 : Int64) ≤ x := Int64.not_lt.1 h
  have hx : 0 ≤ x.toInt := Int64.le_iff_toInt_le.1 h0
  rw [Int64.toNat_toUInt64_of_le h0, Int64.toNatClampNeg]
  omega

/-- A child of the node that is built next is built, and nothing has taken its tree. -/
theorem BuildInv.exists_child (h : table.BuildInv built done) (hnew : node ∉ done)
    (hw : table.WalkInv root claimed (done ++ node :: todo) []) {s : Side} {c : Fin n}
    (hc : table.IsChild node s c) : ∃ t, built.get c = some t := by
  have hnode : node ∈ done ++ node :: todo := by simp
  have hcorder : c ∈ done ++ node :: todo := hw.mem_iff.2 ((hw.mem_iff.1 hnode).child hc)
  have hlater : c ∉ todo := by
    intro hmem
    have hpair := hw.children_first
    rw [List.pairwise_append] at hpair
    exact (List.pairwise_cons.1 hpair.2.1).1 c hmem s hc
  have hself : c ≠ node := by
    rintro rfl
    exact hw.not_self c hnode s hc
  refine h.present c ?_ fun j hj t hjc => ?_
  · rw [List.mem_append, List.mem_cons] at hcorder
    exact hcorder.resolve_right (by simp [hself, hlater])
  · obtain ⟨rfl, -⟩ := hw.claimed_once j (by simp [hj]) node hnode t s c hjc hc
    exact hnew hj

/-- One node is built from its children, or its feature is negative. -/
theorem buildNode_spec (hw : table.WalkInv root claimed (done ++ node :: todo) [])
    (h : table.BuildInv built done) :
    match table.buildNode built node with
    | .ok built => table.BuildInv built (done ++ [node])
    | .error fault => fault.node = node ∧ table.FaultAt root node fault.cause := by
  have hnode : node ∈ done ++ node :: todo := by simp
  have hnew : node ∉ done := by
    have hnodup : (done ++ node :: todo).Nodup := by simpa using hw.nodup
    rw [List.nodup_append'] at hnodup
    exact fun hmem => hnodup.2.2 hmem (by simp)
  -- the walk has found the children of this node before, so they are no error now
  cases hres : table.children node with
  | error cause =>
    obtain ⟨pair, hpair⟩ := hw.children_isOk hnode
    rw [hpair] at hres
    exact absurd hres (by simp)
  | ok pair =>
    obtain _ | ⟨l, r⟩ := pair
    · simp only [buildNode, hres]
      exact h.leaf hnew (children_eq_none hres)
    · obtain ⟨hl, hr⟩ := children_eq_some hres
      simp only [buildNode, hres]
      by_cases hneg : table.feature.get node < 0
      · rw [if_pos hneg]
        exact ⟨rfl, isSplitEntry_of hl hr, rfl, Int64.lt_iff_toInt_lt.1 hneg⟩
      · have hlr : l ≠ r := by
          rintro rfl
          simpa using (hw.claimed_once node hnode node hnode _ _ l hl hr).2
        obtain ⟨left, hleft⟩ := h.exists_child hnew hw hl
        obtain ⟨right, hright⟩ := h.exists_child hnew hw hr
        -- taking the left subtree leaves the slot of the right one alone
        have hright' : (built.set l none l.isLt).get r = some right := by
          rw [get_set, if_neg hlr, hright]
        rw [if_neg hneg, take_eq hleft]
        simp only [bind, Except.bind, take_eq hright', pure, Except.pure]
        exact h.split hnew hl hr hlr (toNat_toUInt64 hneg) hleft hright

/-- The nodes of a walk are built to the last, or one with a negative feature is met. -/
theorem foldlM_buildNode_spec (hw : table.WalkInv root claimed (done ++ todo) [])
    (h : table.BuildInv built done) :
    match todo.foldlM table.buildNode built with
    | .ok built => table.BuildInv built (done ++ todo)
    | .error fault => table.Reachable root fault.node ∧ table.FaultAt root fault.node fault.cause := by
  induction todo generalizing done built with
  | nil =>
    rw [List.append_nil]
    exact h
  | cons node todo ih =>
    have hnode : node ∈ done ++ node :: todo := by simp
    have hstep := buildNode_spec hw h
    rw [List.foldlM_cons]
    cases hres : table.buildNode built node with
    | error fault =>
      rw [hres] at hstep
      exact ⟨hstep.1 ▸ hw.mem_iff.1 hnode, hstep.1 ▸ hstep.2⟩
    | ok built' =>
      rw [hres] at hstep
      rw [List.append_cons] at hw ⊢
      exact ih hw hstep

/-- A tree is built exactly for a proper table, and an error names a defect. -/
theorem build_spec (table : NodeTable n) (root : Fin n) :
    match table.build root with
    | .ok t => table.Proper root ∧ table.Represents root t ∧ t.ids.Nodup
    | .error fault => table.Reachable root fault.node ∧ table.FaultAt root fault.node fault.cause := by
  have hstart : table.WalkInv root _ [] [root] := walkInv_start
  have hwalk := walk_spec hstart
  unfold build reachable
  cases hres : table.walk (claim (Vector.replicate n false) root) [] [root] with
  | error fault =>
    rw [hres] at hwalk
    exact hwalk
  | ok order =>
    rw [hres] at hwalk
    obtain ⟨claimed, hw⟩ := hwalk
    have hbuild := foldlM_buildNode_spec (by rwa [List.nil_append]) buildInv_start
    simp only [bind, Except.bind]
    cases hfold : order.foldlM table.buildNode (Vector.replicate n none) with
    | error fault =>
      rw [hfold] at hbuild
      exact hbuild
    | ok built =>
      rw [hfold] at hbuild
      -- no node has the root for a child, so nobody has taken its tree
      have hroot : root ∈ order := hw.mem_iff.2 .refl
      obtain ⟨t, ht⟩ := hbuild.present root hroot fun j hj s => hw.root_unclaimed j hj s
      have hrep := hbuild.represents root t ht
      simp only [take_eq ht, pure, Except.pure]
      exact ⟨hw.proper hrep, hrep, hbuild.ids_nodup root t ht⟩

end NodeTable

namespace RawTree

/-- The arrays of a tree all have as many entries as there are nodes. -/
structure Aligned (raw : RawTree) : Prop where
  right : raw.rightChildren.size = raw.numNodes
  feature : raw.splitIndices.size = raw.numNodes
  condition : raw.splitConditions.size = raw.numNodes
  defaultLeft : raw.defaultLeft.size = raw.numNodes

theorem size_leftChildren (raw : RawTree) : raw.leftChildren.size = raw.numNodes := rfl

/-- The node table of aligned arrays. -/
def alignedTable (raw : RawTree) (h : raw.Aligned) : NodeTable raw.numNodes :=
  ⟨⟨raw.leftChildren, raw.size_leftChildren⟩, ⟨raw.rightChildren, h.right⟩, ⟨raw.splitIndices, h.feature⟩,
    ⟨raw.splitConditions, h.condition⟩, ⟨raw.defaultLeft, h.defaultLeft⟩⟩

variable {raw : RawTree} {position : Nat}

theorem table_eq (h : raw.Aligned) : raw.table = .ok (raw.alignedTable h) := by
  unfold table
  rw [dif_pos h.right, dif_pos h.feature, dif_pos h.condition, dif_pos h.defaultLeft]
  rfl

theorem aligned_of_table {table : NodeTable raw.numNodes} (h : raw.table = .ok table) :
    raw.Aligned := by
  unfold RawTree.table at h
  dsimp only at h
  split_ifs at h with hr hf hc hd
  exact ⟨hr, hf, hc, hd⟩

/-- What assembling aligned arrays with a root gives. -/
theorem assemble_spec (h : raw.Aligned) (hpos : 0 < raw.numNodes) :
    match raw.assemble position with
    | .ok t => (raw.alignedTable h).Proper ⟨0, hpos⟩ ∧
      (raw.alignedTable h).Represents ⟨0, hpos⟩ t ∧ t.ids.Nodup
    | .error e => ∃ node cause, e = .structural position node.val cause ∧
      (raw.alignedTable h).Reachable ⟨0, hpos⟩ node ∧
      (raw.alignedTable h).FaultAt ⟨0, hpos⟩ node cause := by
  have hbuild := (raw.alignedTable h).build_spec ⟨0, hpos⟩
  unfold assemble
  rw [dif_pos hpos, table_eq h]
  dsimp only
  cases hres : (raw.alignedTable h).build ⟨0, hpos⟩ with
  | ok t =>
    rw [hres] at hbuild
    exact hbuild
  | error fault =>
    rw [hres] at hbuild
    exact ⟨fault.node, fault.cause, rfl, hbuild⟩

/-- No arrays at all, aligned or not, leave a child without its tree. -/
theorem assemble_ne_notAssembled (tree node child : Nat) :
    raw.assemble position ≠ .error (.structural tree node (.notAssembled child)) := by
  by_cases h : raw.Aligned ∧ 0 < raw.numNodes
  · have hspec := @assemble_spec raw position h.1 h.2
    intro he
    rw [he] at hspec
    obtain ⟨i, cause, heq, -, hfault⟩ := hspec
    obtain ⟨-, -, rfl⟩ := ModelError.structural.inj heq
    exact hfault
  · unfold assemble
    split
    · next hpos =>
      split
      · simp
      · next table ht => exact absurd ⟨aligned_of_table ht, hpos⟩ h
    · simp

/-- **Assembly is exact.** Aligned arrays with a root give a tree if and only if the nodes below
the root form a proper binary tree; it is the only tree that the entries spell out, and all its
identifiers are distinct. Otherwise the error names a reachable node and its defect. That a child
has no tree is never the error. -/
theorem assemble_exact (raw : RawTree) (position : Nat) :
    (∀ (h : raw.Aligned) (hpos : 0 < raw.numNodes),
      ((∃ t, raw.assemble position = .ok t) ↔ (raw.alignedTable h).Proper ⟨0, hpos⟩) ∧
      (∀ t, raw.assemble position = .ok t →
        t.id = 0 ∧ (raw.alignedTable h).Represents ⟨0, hpos⟩ t ∧
          (∀ u, (raw.alignedTable h).Represents ⟨0, hpos⟩ u → u = t) ∧ t.ids.Nodup) ∧
      (∀ e, raw.assemble position = .error e →
        ∃ node cause, e = .structural position node.val cause ∧
          (raw.alignedTable h).Reachable ⟨0, hpos⟩ node ∧
          (raw.alignedTable h).FaultAt ⟨0, hpos⟩ node cause)) ∧
    (∀ tree node child,
      raw.assemble position ≠ .error (.structural tree node (.notAssembled child))) := by
  refine ⟨fun h hpos => ?_, assemble_ne_notAssembled⟩
  have hspec := @assemble_spec raw position h hpos
  refine ⟨⟨?_, fun hproper => ?_⟩, ?_, ?_⟩
  · rintro ⟨t, ht⟩
    rw [ht] at hspec
    exact hspec.1
  · -- an error names a defect of a node that is reached, and a proper table has none
    cases hres : raw.assemble position with
    | ok t => exact ⟨t, rfl⟩
    | error e =>
      rw [hres] at hspec
      obtain ⟨node, cause, -, hreach, hfault⟩ := hspec
      exact absurd hproper (hfault.not_proper hreach)
  · intro t ht
    rw [ht] at hspec
    obtain ⟨-, hrep, hnodup⟩ := hspec
    exact ⟨hrep.id_eq, hrep, fun u hu => hu.unique hrep, hnodup⟩
  · intro e he
    rw [he] at hspec
    exact hspec

/-- A split above a leaf and a split, its nodes in no order, and a node that nothing reaches. -/
def shuffled : RawTree where
  leftChildren := #[4, -1, 1, -1, -1, 9]
  rightChildren := #[2, -1, 3, -1, -1, -1]
  splitIndices := #[1, 0, 0, 0, 0, -7]
  splitConditions := Array.replicate 6 .nan
  defaultLeft := #[true, false, false, false, false, true]

def shuffledTree : Node :=
  .split 0 1 .nan true (.leaf 4 .nan) (.split 2 0 .nan false (.leaf 1 .nan) (.leaf 3 .nan))

theorem shuffled_aligned : shuffled.Aligned := ⟨rfl, rfl, rfl, rfl⟩

theorem assemble_exact_shuffled :
    shuffled.assemble 7 = .ok shuffledTree ∧
      (shuffled.alignedTable shuffled_aligned).Proper ⟨0, by decide⟩ ∧
      (shuffled.alignedTable shuffled_aligned).Represents ⟨0, by decide⟩ shuffledTree := by
  have ht : shuffled.assemble 7 = .ok shuffledTree := by decide +kernel
  obtain ⟨hiff, hok, -⟩ := (assemble_exact shuffled 7).1 shuffled_aligned (by decide)
  exact ⟨ht, hiff.1 ⟨_, ht⟩, (hok _ ht).2.1⟩

end RawTree

end EnsembleCompiler
