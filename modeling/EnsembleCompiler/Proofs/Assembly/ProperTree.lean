import EnsembleCompiler.Model.Assembly
import Mathlib.Logic.Relation
import Mathlib.Tactic.SplitIfs

/-!
# Node tables that hold a tree

What it means for the nodes that a root reaches to form a proper binary tree, which tree they then
form, and what is wrong at a node where they do not. All of it is said about the entries of the
table, without a walk or an order of building.

* `IsChild`, `Reachable`: the edges of the table, and the nodes below the root.
* `Proper`: every reachable node is a leaf or has two children, no child is claimed twice, nothing
  claims the root, and features are not negative.
* `Represents`: the tree that the entries below a node spell out (`Represents.unique`).
* `FaultAt`: the defect that an error message names.
-/

namespace EnsembleCompiler

/-- The identifiers of all nodes of a tree. -/
def Node.ids : Node → List Nat
  | .leaf id _ => [id]
  | .split id _ _ _ left right => id :: (left.ids ++ right.ids)

/-- The two child entries of a node. -/
inductive Side where
  | left
  | right
  deriving DecidableEq, Repr

namespace NodeTable

variable {n : Nat}

def entry (table : NodeTable n) : Side → Fin n → Int64
  | .left, i => table.left.get i
  | .right, i => table.right.get i

/-- The entry of node `i` on this side names node `c`. -/
def IsChild (table : NodeTable n) (i : Fin n) (side : Side) (c : Fin n) : Prop :=
  (table.entry side i).toInt = c.val

/-- A way along child entries leads from the root to the node. -/
def Reachable (table : NodeTable n) (root node : Fin n) : Prop :=
  Relation.ReflTransGen (fun i c => ∃ side, table.IsChild i side c) root node

def IsLeafEntry (table : NodeTable n) (i : Fin n) : Prop :=
  ∀ side, table.entry side i = noChild

def IsSplitEntry (table : NodeTable n) (i : Fin n) : Prop :=
  ∀ side, ∃ c, table.IsChild i side c

/-- The nodes below the root form a proper binary tree. -/
structure Proper (table : NodeTable n) (root : Fin n) : Prop where
  children : ∀ i, table.Reachable root i → table.IsLeafEntry i ∨ table.IsSplitEntry i
  claimed_once : ∀ i j s t c, table.Reachable root i → table.Reachable root j →
    table.IsChild i s c → table.IsChild j t c → i = j ∧ s = t
  root_unclaimed : ∀ i s, table.Reachable root i → ¬ table.IsChild i s root
  feature : ∀ i, table.Reachable root i → table.IsSplitEntry i → 0 ≤ (table.feature.get i).toInt

/-- The entries below node `i` spell out this tree. -/
inductive Represents (table : NodeTable n) : Fin n → Node → Prop where
  | leaf {i : Fin n} (hi : table.IsLeafEntry i) :
    Represents table i (.leaf i (table.condition.get i))
  | split {i l r : Fin n} {feature : UInt64} {left right : Node}
    (hl : table.IsChild i .left l) (hr : table.IsChild i .right r)
    (hf : (feature.toNat : Int) = (table.feature.get i).toInt)
    (left_rep : Represents table l left) (right_rep : Represents table r right) :
    Represents table i
      (.split i feature (table.condition.get i) (table.defaultLeft.get i) left right)

/-- The defect at a node that a cause of an error names. -/
def FaultAt (table : NodeTable n) (root node : Fin n) : StructuralCause → Prop
  | .leftMissing right =>
    table.entry .left node = noChild ∧ table.entry .right node = right ∧ right ≠ noChild
  | .rightMissing left =>
    table.entry .right node = noChild ∧ table.entry .left node = left ∧ left ≠ noChild
  | .childOutOfRange child nodes =>
    nodes = n ∧ (∀ side, table.entry side node ≠ noChild) ∧
      (∃ side, table.entry side node = child) ∧ ∀ c : Fin n, child.toInt ≠ c.val
  | .sharedChild c =>
    ∃ side child, child.val = c ∧ table.IsChild node side child ∧
      (child = root ∨ ∃ other side', table.Reachable root other ∧
        table.IsChild other side' child ∧ (other ≠ node ∨ side' ≠ side))
  | .negativeFeature feature =>
    table.IsSplitEntry node ∧ table.feature.get node = feature ∧ feature.toInt < 0
  | _ => False

variable {table : NodeTable n} {root i j l r c d : Fin n} {s : Side}

theorem noChild_toInt : noChild.toInt = -1 := rfl

theorem IsChild.entry_ne (h : table.IsChild i s c) : table.entry s i ≠ noChild := by
  intro he
  rw [IsChild, he, noChild_toInt] at h
  omega

theorem IsChild.unique (h : table.IsChild i s c) (k : table.IsChild i s d) : c = d := by
  rw [IsChild] at h k
  exact Fin.ext (by omega)

theorem IsLeafEntry.not_isChild (h : table.IsLeafEntry i) : ¬ table.IsChild i s c :=
  fun hc => hc.entry_ne (h s)

theorem Reachable.refl : table.Reachable root root := Relation.ReflTransGen.refl

theorem Reachable.child (h : table.Reachable root i) (hc : table.IsChild i s c) :
    table.Reachable root c :=
  Relation.ReflTransGen.tail h ⟨s, hc⟩

/-- A set of nodes that holds the root and is closed under children holds what is reachable. -/
theorem Reachable.mem_of_closed {p : Fin n → Prop} (h : table.Reachable root i) (hroot : p root)
    (hclosed : ∀ i s c, p i → table.IsChild i s c → p c) : p i := by
  induction h with
  | refl => exact hroot
  | tail _ hc ih =>
    obtain ⟨s, hc⟩ := hc
    exact hclosed _ s _ ih hc

/-- The entries below a node spell out one tree at most. -/
theorem Represents.unique {t u : Node} (h : table.Represents i t) (k : table.Represents i u) :
    t = u := by
  induction h generalizing u with
  | leaf hi =>
    cases k with
    | leaf => rfl
    | split hl => exact absurd hl hi.not_isChild
  | split hl hr hf _ _ ihl ihr =>
    cases k with
    | leaf hi => exact absurd hl hi.not_isChild
    | split hl' hr' hf' left_rep right_rep =>
      obtain rfl := hl.unique hl'
      obtain rfl := hr.unique hr'
      obtain rfl := ihl left_rep
      obtain rfl := ihr right_rep
      have : ∀ a b : UInt64, (a.toNat : Int) = b.toNat → a = b := fun a b hab =>
        UInt64.toNat_inj.1 (by omega)
      rw [this _ _ (hf.trans hf'.symm)]

theorem Represents.id_eq {t : Node} (h : table.Represents i t) : t.id = i.val := by
  cases h <;> rfl

/-- Every node below the root of a tree that is spelled out has a tree itself. -/
theorem Represents.of_reachable {t : Node} (h : table.Represents root t)
    (hi : table.Reachable root i) : ∃ u, table.Represents i u := by
  refine hi.mem_of_closed (p := fun i => ∃ u, table.Represents i u) ⟨t, h⟩ ?_
  rintro i s c ⟨u, hu⟩ hc
  cases hu with
  | leaf hi => exact absurd hc hi.not_isChild
  | split hl hr _ left_rep right_rep =>
    cases s with
    | left => exact ⟨_, hc.unique hl ▸ left_rep⟩
    | right => exact ⟨_, hc.unique hr ▸ right_rep⟩

/-! ## Reading the entries of one node -/

theorem child_eq_ok {e : Int64} : child e = .ok c ↔ e.toInt = c.val := by
  unfold child
  split
  · next h =>
    rw [Except.ok.injEq, Fin.ext_iff]
    show e.toInt.toNat = c.val ↔ _
    omega
  · next h =>
    refine ⟨fun he => by simp at he, fun he => absurd ⟨by omega, ?_⟩ h⟩
    have := c.isLt
    omega

theorem child_eq_error {e : Int64} {cause : StructuralCause} (h : child (n := n) e = .error cause) :
    cause = .childOutOfRange e n ∧ ∀ c : Fin n, e.toInt ≠ c.val := by
  refine ⟨?_, fun c hc => by rw [child_eq_ok.2 hc] at h; simp at h⟩
  unfold child at h
  split at h
  · simp at h
  · exact (Except.error.inj h).symm

theorem children_eq_none (h : table.children i = .ok none) : table.IsLeafEntry i := by
  unfold children at h
  dsimp only at h
  split_ifs at h with hl hr
  · intro s
    cases s
    · exact hl
    · exact hr
  · split at h
    · simp at h
    · split at h <;> simp at h

theorem children_eq_some (h : table.children i = .ok (some (l, r))) :
    table.IsChild i .left l ∧ table.IsChild i .right r := by
  unfold children at h
  dsimp only at h
  split_ifs at h with hl hr
  · simp at h
  · split at h
    · simp at h
    · next l' hl' =>
      split at h
      · simp at h
      · next r' hr' =>
        simp only [Except.ok.injEq, Option.some.injEq, Prod.mk.injEq] at h
        obtain ⟨rfl, rfl⟩ := h
        exact ⟨child_eq_ok.1 hl', child_eq_ok.1 hr'⟩

theorem IsLeafEntry.children_eq (h : table.IsLeafEntry i) : table.children i = .ok none := by
  have hl : table.left.get i = noChild := h .left
  have hr : table.right.get i = noChild := h .right
  simp [children, hl, hr]

theorem IsSplitEntry.children_eq (h : table.IsSplitEntry i) :
    ∃ l r, table.children i = .ok (some (l, r)) := by
  obtain ⟨l, hl⟩ := h .left
  obtain ⟨r, hr⟩ := h .right
  have hlne : ¬ table.left.get i = noChild := hl.entry_ne
  have hrne : ¬ table.right.get i = noChild := hr.entry_ne
  refine ⟨l, r, ?_⟩
  simp only [children, hlne, hrne, if_false]
  rw [child_eq_ok.2 (show (table.left.get i).toInt = l.val from hl),
    child_eq_ok.2 (show (table.right.get i).toInt = r.val from hr)]

theorem children_eq_error {cause : StructuralCause} (h : table.children i = .error cause) :
    table.FaultAt root i cause := by
  unfold children at h
  dsimp only at h
  -- a single child is found before any child is looked up; then the left one comes first
  split_ifs at h with hl hr hr
  · obtain rfl := Except.error.inj h
    exact ⟨hl, rfl, hr⟩
  · obtain rfl := Except.error.inj h
    exact ⟨hr, rfl, hl⟩
  · have hne : ∀ side, table.entry side i ≠ noChild := fun side => by
      cases side
      · exact hl
      · exact hr
    split at h
    · next hc =>
      obtain ⟨rfl, hout⟩ := child_eq_error hc
      obtain rfl := Except.error.inj h
      exact ⟨rfl, hne, ⟨.left, rfl⟩, hout⟩
    · split at h
      · next hc =>
        obtain ⟨rfl, hout⟩ := child_eq_error hc
        obtain rfl := Except.error.inj h
        exact ⟨rfl, hne, ⟨.right, rfl⟩, hout⟩
      · simp at h

theorem isSplitEntry_of (hl : table.IsChild i .left l) (hr : table.IsChild i .right r) :
    table.IsSplitEntry i := by
  intro s
  cases s with
  | left => exact ⟨l, hl⟩
  | right => exact ⟨r, hr⟩

/-- The two children of a node are its only ones. -/
theorem isChild_cases (hl : table.IsChild i .left l) (hr : table.IsChild i .right r)
    (hc : table.IsChild i s c) : (s = .left ∧ c = l) ∨ (s = .right ∧ c = r) := by
  cases s with
  | left => exact .inl ⟨rfl, hc.unique hl⟩
  | right => exact .inr ⟨rfl, hc.unique hr⟩

/-- A defect at a reachable node keeps the table from being proper. -/
theorem FaultAt.not_proper {cause : StructuralCause} (h : table.FaultAt root i cause)
    (hi : table.Reachable root i) : ¬ table.Proper root := by
  intro hp
  -- a node with one missing entry is neither leaf nor split
  have hmixed : ∀ s t, table.entry s i = noChild → table.entry t i ≠ noChild → False := by
    intro s t hs ht
    rcases hp.children i hi with hleaf | hsplit
    · exact ht (hleaf t)
    · obtain ⟨c, hc⟩ := hsplit s
      exact hc.entry_ne hs
  cases cause with
  | leftMissing right =>
    obtain ⟨hl, hr, hne⟩ := h
    exact hmixed .left .right hl (hr ▸ hne)
  | rightMissing left =>
    obtain ⟨hr, hl, hne⟩ := h
    exact hmixed .right .left hr (hl ▸ hne)
  | childOutOfRange child nodes =>
    obtain ⟨-, hne, ⟨s, rfl⟩, hout⟩ := h
    rcases hp.children i hi with hleaf | hsplit
    · exact hne s (hleaf s)
    · obtain ⟨c, hc⟩ := hsplit s
      exact hout c hc
  | sharedChild k =>
    obtain ⟨s, c, rfl, hc, rfl | ⟨j, t, hj, hjc, hne⟩⟩ := h
    · exact hp.root_unclaimed i s hi hc
    · obtain ⟨rfl, rfl⟩ := hp.claimed_once _ _ _ _ _ hj hi hjc hc
      simp at hne
  | negativeFeature feature =>
    obtain ⟨hsplit, rfl, hneg⟩ := h
    have := hp.feature i hi hsplit
    omega
  | notAssembled _ => exact h
  | negativeClass _ => exact h
  | classOutOfRange _ _ => exact h

end NodeTable

end EnsembleCompiler
