import EnsembleCompiler.Proofs.Assembly.Build
import EnsembleCompiler.Proofs.Emission.Functions
import Mathlib.Data.Fintype.Card

/-!
# Layouts of a tree

The arrays of a tree may list its nodes in any order, with any others between them. Where the
reachable nodes of one table stand in another, each with its data and with entries that name its
children there, both tables are proper or neither is, and they spell out trees that differ in
nothing but the identifiers of their nodes. No identifier is ever written.

Main statement: `RawTree.assemble_relaid`.
-/

namespace EnsembleCompiler

namespace Node

/-- A tree without the identifiers of its nodes. -/
def withoutIds : Node → Node
  | leaf _ weight => leaf 0 weight
  | split _ feature threshold defaultLeft left right =>
    split 0 feature threshold defaultLeft left.withoutIds right.withoutIds

@[simp]
theorem isLeaf_withoutIds (t : Node) : t.withoutIds.isLeaf = t.isLeaf := by
  cases t <;> rfl

end Node

namespace Emitter

variable (e : Emitter)

@[simp]
theorem subtreeLines_withoutIds (t : Node) (level : Nat) :
    e.subtreeLines t.withoutIds level = e.subtreeLines t level := by
  induction t generalizing level with
  | leaf id weight => rfl
  | split id feature threshold defaultLeft left right ihl ihr =>
    rw [Node.withoutIds, subtreeLines, subtreeLines, ihl, ihr]

/-- No identifier of a node is written. -/
theorem treeText_withoutIds (position : Nat) (classIndex : UInt64) (t : Node) :
    e.treeText ⟨position, classIndex, t.withoutIds⟩ = e.treeText ⟨position, classIndex, t⟩ := by
  simp only [treeText, treeLines, nodeLines_eq, subtreeLines_withoutIds, Node.isLeaf_withoutIds]

end Emitter

namespace NodeTable

variable {n m : Nat} {table : NodeTable n} {other : NodeTable m} {place : Fin n → Fin m}
  {inside : Fin n → Prop} {root i j c : Fin n} {s : Side}

/-- The nodes of a set stand at their places in another table: no two at one place, each with its
data, and with entries that name the places of its children. An entry that names no node is the
same there, and names none there. -/
structure Copies (table : NodeTable n) (other : NodeTable m) (place : Fin n → Fin m)
    (inside : Fin n → Prop) : Prop where
  injective : ∀ i j, inside i → inside j → place i = place j → i = j
  feature : ∀ i, inside i → other.feature.get (place i) = table.feature.get i
  condition : ∀ i, inside i → other.condition.get (place i) = table.condition.get i
  defaultLeft : ∀ i, inside i → other.defaultLeft.get (place i) = table.defaultLeft.get i
  child : ∀ i s c, inside i → table.IsChild i s c → other.IsChild (place i) s (place c)
  noNode : ∀ i s, inside i → (∀ c, ¬ table.IsChild i s c) →
    other.entry s (place i) = table.entry s i ∧ ∀ c, ¬ other.IsChild (place i) s c

/-- All nodes are renumbered, in the five arrays and in the entries that name nodes. -/
structure Permutes (table : NodeTable n) (other : NodeTable m) (place : Fin n ≃ Fin m) :
    Prop where
  feature : ∀ i, other.feature.get (place i) = table.feature.get i
  condition : ∀ i, other.condition.get (place i) = table.condition.get i
  defaultLeft : ∀ i, other.defaultLeft.get (place i) = table.defaultLeft.get i
  child : ∀ i s c, table.IsChild i s c → other.IsChild (place i) s (place c)
  noNode : ∀ i s, (∀ c, ¬ table.IsChild i s c) → other.entry s (place i) = table.entry s i

/-- Tables of one size have the same entries that name a node. -/
theorem Permutes.copies {place : Fin n ≃ Fin m} (h : table.Permutes other place)
    (inside : Fin n → Prop) : table.Copies other place inside where
  injective _ _ _ _ heq := place.injective heq
  feature i _ := h.feature i
  condition i _ := h.condition i
  defaultLeft i _ := h.defaultLeft i
  child i s c _ := h.child i s c
  noNode i s _ hnone := by
    obtain rfl : n = m := by simpa using Fintype.card_congr place
    refine ⟨h.noNode i s hnone, fun c hc => hnone c ?_⟩
    rwa [IsChild, h.noNode i s hnone] at hc

/-- What an entry becomes when the nodes are renumbered. -/
def renumbered (place : Fin n ≃ Fin n) (e : Int64) : Int64 :=
  match child e with
  | .ok c => Int64.ofNat (place c)
  | .error _ => e

/-- The table with its nodes in another order. -/
def permute (table : NodeTable n) (place : Fin n ≃ Fin n) : NodeTable n where
  left := .ofFn fun i => renumbered place (table.left.get (place.symm i))
  right := .ofFn fun i => renumbered place (table.right.get (place.symm i))
  feature := .ofFn fun i => table.feature.get (place.symm i)
  condition := .ofFn fun i => table.condition.get (place.symm i)
  defaultLeft := .ofFn fun i => table.defaultLeft.get (place.symm i)

theorem get_permuted {α : Type} (f : Fin n → α) (place : Fin n ≃ Fin n) (i : Fin n) :
    (Vector.ofFn fun j => f (place.symm j)).get (place i) = f i :=
  (Vector.getElem_ofFn (place i).isLt).trans (congrArg f (place.symm_apply_apply i))

theorem entry_permute (place : Fin n ≃ Fin n) (s : Side) (i : Fin n) :
    (table.permute place).entry s (place i) = renumbered place (table.entry s i) := by
  cases s with
  | left => exact get_permuted (fun j => renumbered place (table.left.get j)) place i
  | right => exact get_permuted (fun j => renumbered place (table.right.get j)) place i

/-- Every order of nodes that entries can name is an order of the table. -/
theorem permutes_permute (table : NodeTable n) (place : Fin n ≃ Fin n) (hsize : n ≤ 2 ^ 63) :
    table.Permutes (table.permute place) place where
  feature := get_permuted table.feature.get place
  condition := get_permuted table.condition.get place
  defaultLeft := get_permuted table.defaultLeft.get place
  child i s c hc := by
    have hlt := (place c).isLt
    have hname : (Int64.ofInt (place c).val).toInt = (place c).val :=
      Int64.toInt_ofInt_of_le (by omega) (by omega)
    rw [IsChild, entry_permute, renumbered, child_eq_ok.2 hc]
    rwa [Int64.ofInt_eq_ofNat] at hname
  noNode i s hnone := by
    rw [entry_permute, renumbered]
    split
    · next c hc => exact absurd (child_eq_ok.1 hc) (hnone c)
    · rfl

theorem Copies.mono {smaller : Fin n → Prop} (h : table.Copies other place inside)
    (hsub : ∀ i, smaller i → inside i) : table.Copies other place smaller where
  injective i j hi hj := h.injective i j (hsub i hi) (hsub j hj)
  feature i hi := h.feature i (hsub i hi)
  condition i hi := h.condition i (hsub i hi)
  defaultLeft i hi := h.defaultLeft i (hsub i hi)
  child i s c hi := h.child i s c (hsub i hi)
  noNode i s hi := h.noNode i s (hsub i hi)

namespace Copies

/-! ### One node -/

section Node

variable (h : table.Copies other place inside) (hi : inside i)
include h hi

theorem isChild_iff {c' : Fin m} :
    other.IsChild (place i) s c' ↔ ∃ c, table.IsChild i s c ∧ place c = c' := by
  constructor
  · intro hc'
    by_cases hsome : ∃ c, table.IsChild i s c
    · obtain ⟨c, hc⟩ := hsome
      exact ⟨c, hc, (h.child i s c hi hc).unique hc'⟩
    · exact absurd hc' ((h.noNode i s hi (not_exists.1 hsome)).2 c')
  · rintro ⟨c, hc, rfl⟩
    exact h.child i s c hi hc

theorem isLeafEntry_iff : other.IsLeafEntry (place i) ↔ table.IsLeafEntry i := by
  refine forall_congr' fun s => ?_
  by_cases hsome : ∃ c, table.IsChild i s c
  · obtain ⟨c, hc⟩ := hsome
    exact iff_of_false (h.child i s c hi hc).entry_ne hc.entry_ne
  · rw [(h.noNode i s hi (not_exists.1 hsome)).1]

theorem isSplitEntry_iff : other.IsSplitEntry (place i) ↔ table.IsSplitEntry i := by
  refine forall_congr' fun s => ⟨?_, ?_⟩
  · rintro ⟨c', hc'⟩
    obtain ⟨c, hc, -⟩ := (h.isChild_iff hi).1 hc'
    exact ⟨c, hc⟩
  · rintro ⟨c, hc⟩
    exact ⟨place c, h.child i s c hi hc⟩

end Node

/-! ### The nodes below the root -/

section Below

variable (h : table.Copies other place (table.Reachable root))
include h

theorem reachable (hi : table.Reachable root i) : other.Reachable (place root) (place i) := by
  -- the set to close holds the reachability of the node itself too
  have hboth : table.Reachable root i ∧ other.Reachable (place root) (place i) := by
    refine hi.mem_of_closed (p := fun i => table.Reachable root i ∧
      other.Reachable (place root) (place i)) ⟨.refl, .refl⟩ ?_
    rintro i s c ⟨hi, hi'⟩ hc
    exact ⟨hi.child hc, hi'.child (h.child i s c hi hc)⟩
  exact hboth.2

/-- What the other table reaches are the places of reachable nodes. -/
theorem exists_of_reachable {i' : Fin m} (hi' : other.Reachable (place root) i') :
    ∃ i, table.Reachable root i ∧ place i = i' := by
  refine hi'.mem_of_closed (p := fun i' => ∃ i, table.Reachable root i ∧ place i = i')
    ⟨root, .refl, rfl⟩ ?_
  rintro _ s c' ⟨i, hi, rfl⟩ hc'
  obtain ⟨c, hc, rfl⟩ := (h.isChild_iff hi).1 hc'
  exact ⟨c, hi.child hc, rfl⟩

theorem proper_other (hp : table.Proper root) : other.Proper (place root) where
  children i' hi' := by
    obtain ⟨i, hi, rfl⟩ := h.exists_of_reachable hi'
    exact (hp.children i hi).imp (h.isLeafEntry_iff hi).2 (h.isSplitEntry_iff hi).2
  claimed_once i' j' s t c' hi' hj' hic hjc := by
    obtain ⟨i, hi, rfl⟩ := h.exists_of_reachable hi'
    obtain ⟨j, hj, rfl⟩ := h.exists_of_reachable hj'
    obtain ⟨c, hc, rfl⟩ := (h.isChild_iff hi).1 hic
    obtain ⟨d, hd, heq⟩ := (h.isChild_iff hj).1 hjc
    obtain rfl := h.injective d c (hj.child hd) (hi.child hc) heq
    obtain ⟨rfl, hst⟩ := hp.claimed_once i j s t d hi hj hc hd
    exact ⟨rfl, hst⟩
  root_unclaimed i' s hi' hroot := by
    obtain ⟨i, hi, rfl⟩ := h.exists_of_reachable hi'
    obtain ⟨c, hc, heq⟩ := (h.isChild_iff hi).1 hroot
    obtain rfl := h.injective c root (hi.child hc) .refl heq
    exact hp.root_unclaimed i s hi hc
  feature i' hi' hsplit := by
    obtain ⟨i, hi, rfl⟩ := h.exists_of_reachable hi'
    rw [h.feature i hi]
    exact hp.feature i hi ((h.isSplitEntry_iff hi).1 hsplit)

theorem proper_of_other (hp : other.Proper (place root)) : table.Proper root where
  children i hi :=
    (hp.children _ (h.reachable hi)).imp (h.isLeafEntry_iff hi).1 (h.isSplitEntry_iff hi).1
  claimed_once i j s t c hi hj hic hjc := by
    obtain ⟨heq, hst⟩ := hp.claimed_once _ _ s t _ (h.reachable hi) (h.reachable hj)
      (h.child i s c hi hic) (h.child j t c hj hjc)
    exact ⟨h.injective i j hi hj heq, hst⟩
  root_unclaimed i s hi hroot :=
    hp.root_unclaimed _ s (h.reachable hi) (h.child i s root hi hroot)
  feature i hi hsplit := by
    rw [← h.feature i hi]
    exact hp.feature _ (h.reachable hi) ((h.isSplitEntry_iff hi).2 hsplit)

theorem proper_iff : other.Proper (place root) ↔ table.Proper root :=
  ⟨h.proper_of_other, h.proper_other⟩

/-- The same entries spell out the same tree at another place, with other identifiers. -/
theorem represents {t : Node} (hi : table.Reachable root i) (ht : table.Represents i t) :
    ∃ u, other.Represents (place i) u ∧ u.withoutIds = t.withoutIds := by
  induction ht with
  | leaf hleaf =>
    refine ⟨_, .leaf ((h.isLeafEntry_iff hi).2 hleaf), ?_⟩
    rw [Node.withoutIds, Node.withoutIds, h.condition _ hi]
  | split hl hr hf _ _ ihl ihr =>
    obtain ⟨left, hleft, hleftIds⟩ := ihl (hi.child hl)
    obtain ⟨right, hright, hrightIds⟩ := ihr (hi.child hr)
    have hfeature := hf.trans (congrArg Int64.toInt (h.feature _ hi).symm)
    refine ⟨_, .split (h.child _ _ _ hi hl) (h.child _ _ _ hi hr) hfeature hleft hright, ?_⟩
    rw [Node.withoutIds, Node.withoutIds, h.condition _ hi, h.defaultLeft _ hi, hleftIds, hrightIds]

end Below

end Copies

end NodeTable

namespace RawTree

variable {raw other : RawTree} {position : Nat}

/-- Two trees in aligned arrays that agree on what node 0 reaches, wherever it stands; node 0
stays. All other nodes may be anything. -/
structure Relaid (raw other : RawTree) : Prop where
  aligned : raw.Aligned
  aligned_other : other.Aligned
  root_iff : 0 < raw.numNodes ↔ 0 < other.numNodes
  copies : ∀ (hpos : 0 < raw.numNodes) (hpos' : 0 < other.numNodes),
    ∃ place : Fin raw.numNodes → Fin other.numNodes, place ⟨0, hpos⟩ = ⟨0, hpos'⟩ ∧
      (raw.alignedTable aligned).Copies (other.alignedTable aligned_other) place
        ((raw.alignedTable aligned).Reachable ⟨0, hpos⟩)

/-- Two trees in aligned arrays, one with the nodes of the other in another order; node 0 stays. -/
structure Permuted (raw other : RawTree) : Prop where
  aligned : raw.Aligned
  aligned_other : other.Aligned
  permutes : ∃ place : Fin raw.numNodes ≃ Fin other.numNodes,
    (∀ hpos, (place ⟨0, hpos⟩).val = 0) ∧
      (raw.alignedTable aligned).Permutes (other.alignedTable aligned_other) place

theorem Permuted.relaid (h : raw.Permuted other) : raw.Relaid other := by
  obtain ⟨aligned, aligned_other, place, hroot, hpermutes⟩ := h
  have hsize : raw.numNodes = other.numNodes := by simpa using Fintype.card_congr place
  exact
    { aligned, aligned_other
      root_iff := by rw [hsize]
      copies := fun hpos _ => ⟨place, Fin.ext (hroot hpos), hpermutes.copies _⟩ }

/-- Aligned arrays with a root assemble if the nodes below the root form a proper tree, and only
then. -/
theorem exists_assemble_iff (h : raw.Aligned) (hpos : 0 < raw.numNodes) :
    (∃ t, raw.assemble position = .ok t) ↔ (raw.alignedTable h).Proper ⟨0, hpos⟩ := by
  have hspec := @assemble_spec raw position h hpos
  cases hres : raw.assemble position with
  | ok t =>
    rw [hres] at hspec
    exact iff_of_true ⟨t, rfl⟩ hspec.1
  | error e =>
    rw [hres] at hspec
    obtain ⟨node, cause, -, hreach, hfault⟩ := hspec
    exact iff_of_false (by simp) (hfault.not_proper hreach)

theorem represents_of_assemble {t : Node} (h : raw.Aligned) (hpos : 0 < raw.numNodes)
    (ht : raw.assemble position = .ok t) : (raw.alignedTable h).Represents ⟨0, hpos⟩ t := by
  have hspec := @assemble_spec raw position h hpos
  rw [ht] at hspec
  exact hspec.2.1

theorem assemble_of_empty (hpos : ¬ 0 < raw.numNodes) :
    raw.assemble position = .error (.field .numNodes (some position) .noNodes) := by
  rw [assemble, dif_neg hpos]

namespace Relaid

variable (h : raw.Relaid other)
include h

theorem exists_assemble_iff :
    (∃ t, raw.assemble position = .ok t) ↔ ∃ u, other.assemble position = .ok u := by
  by_cases hpos : 0 < raw.numNodes
  · have hpos' := h.root_iff.1 hpos
    obtain ⟨place, hroot, hcopies⟩ := h.copies hpos hpos'
    rw [RawTree.exists_assemble_iff h.aligned hpos,
      RawTree.exists_assemble_iff h.aligned_other hpos', ← hroot, hcopies.proper_iff]
  · have hpos' : ¬ 0 < other.numNodes := fun hpos' => hpos (h.root_iff.2 hpos')
    rw [assemble_of_empty hpos, assemble_of_empty hpos']

theorem withoutIds_eq {t u : Node} (ht : raw.assemble position = .ok t)
    (hu : other.assemble position = .ok u) : t.withoutIds = u.withoutIds := by
  by_cases hpos : 0 < raw.numNodes
  · have hpos' := h.root_iff.1 hpos
    obtain ⟨place, hroot, hcopies⟩ := h.copies hpos hpos'
    obtain ⟨v, hv, hids⟩ := hcopies.represents .refl (represents_of_assemble h.aligned hpos ht)
    rw [hroot] at hv
    rw [← hids, hv.unique (represents_of_assemble h.aligned_other hpos' hu)]
  · rw [assemble_of_empty hpos] at ht
    cases ht

end Relaid

/-- **The layout of the arrays does not matter.** Where two trees in aligned arrays have their
nodes in different orders, or agree on what node 0 reaches and have any other nodes besides, one
assembles if and only if the other does, into trees that are the same up to the identifiers of
their nodes, and the texts of their functions are the same. -/
theorem assemble_relaid (h : raw.Permuted other ∨ raw.Relaid other) (position : Nat) :
    ((∃ t, raw.assemble position = .ok t) ↔ ∃ u, other.assemble position = .ok u) ∧
    ∀ t u, raw.assemble position = .ok t → other.assemble position = .ok u →
      t.withoutIds = u.withoutIds ∧
      ∀ (e : Emitter) (classIndex : UInt64),
        e.treeText ⟨position, classIndex, t⟩ = e.treeText ⟨position, classIndex, u⟩ := by
  have hrelaid : raw.Relaid other := h.elim Permuted.relaid id
  refine ⟨hrelaid.exists_assemble_iff, fun t u ht hu => ?_⟩
  have hids := hrelaid.withoutIds_eq ht hu
  refine ⟨hids, fun e classIndex => ?_⟩
  rw [← e.treeText_withoutIds, hids, e.treeText_withoutIds]

instance {n : Nat} (table : NodeTable n) (i : Fin n) (s : Side) (c : Fin n) :
    Decidable (table.IsChild i s c) :=
  inferInstanceAs (Decidable ((table.entry s i).toInt = c.val))

instance {p : Side → Prop} [DecidablePred p] : Decidable (∀ s, p s) :=
  decidable_of_iff (p .left ∧ p .right)
    ⟨fun h s => by cases s <;> simp [h], fun h => ⟨h .left, h .right⟩⟩

/-- A split above two leaves, and a node that nothing reaches, with the root for a child. -/
def scattered : RawTree where
  leftChildren := #[3, -1, 0, -1]
  rightChildren := #[1, -1, 9, -1]
  splitIndices := #[6, 0, -7, 0]
  splitConditions := #[.zero .double false, .infinite false, .nan, .infinite true]
  defaultLeft := #[true, false, true, false]

/-- The same split, its nodes from left to right, and no other node. -/
def compact : RawTree where
  leftChildren := #[1, -1, -1]
  rightChildren := #[2, -1, -1]
  splitIndices := #[6, 0, 0]
  splitConditions := #[.zero .double false, .infinite true, .infinite false]
  defaultLeft := #[true, false, false]

theorem scattered_aligned : scattered.Aligned := ⟨rfl, rfl, rfl, rfl⟩

theorem compact_aligned : compact.Aligned := ⟨rfl, rfl, rfl, rfl⟩

theorem scattered_relaid : scattered.Relaid compact where
  aligned := scattered_aligned
  aligned_other := compact_aligned
  root_iff := by decide
  copies hpos hpos' := by
    let place (i : Fin scattered.numNodes) : Fin compact.numNodes :=
      ⟨if i.val = 1 then 2 else if i.val = 3 then 1 else 0, by split_ifs <;> decide⟩
    have hcopies : (scattered.alignedTable scattered_aligned).Copies
        (compact.alignedTable compact_aligned) place fun i => i.val ≠ 2 := by
      constructor <;> decide +kernel
    refine ⟨place, rfl, hcopies.mono fun i hi => ?_⟩
    exact hi.mem_of_closed (p := fun i => i.val ≠ 2) (Nat.zero_ne_add_one 1) (by decide +kernel)

theorem assemble_relaid_compact :
    scattered.Relaid compact ∧
      ∃ t u, scattered.assemble 7 = .ok t ∧ compact.assemble 7 = .ok u ∧ t ≠ u ∧
        t.withoutIds = u.withoutIds ∧
        ∀ e : Emitter, e.treeText ⟨7, 0, t⟩ = e.treeText ⟨7, 0, u⟩ := by
  let t : Node :=
    .split 0 6 (.zero .double false) true (.leaf 3 (.infinite true)) (.leaf 1 (.infinite false))
  let u : Node :=
    .split 0 6 (.zero .double false) true (.leaf 1 (.infinite true)) (.leaf 2 (.infinite false))
  have ht : scattered.assemble 7 = .ok t := by decide +kernel
  have hu : compact.assemble 7 = .ok u := by decide +kernel
  obtain ⟨hids, htext⟩ := (assemble_relaid (.inr scattered_relaid) 7).2 t u ht hu
  exact ⟨scattered_relaid, t, u, ht, hu, by decide +kernel, hids, fun e => htext e 0⟩

end RawTree

end EnsembleCompiler
