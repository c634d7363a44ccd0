import EnsembleCompiler.Proofs.Assembly.Truncation
import EnsembleCompiler.Proofs.Document.Decoding

/-!
# What decoding assures

Decoding compares lengths and counts that assembly compares again. So a model that comes from a
document fails to assemble only through its best iteration, a kept tree without nodes, or a defect
at a node of a kept tree.

Main statement: `decodeDocument_assures`.
-/

namespace EnsembleCompiler

open Json (Spaced Value)

/-! ### Steps that fail -/

section Steps

variable {ε α β : Type}

theorem bind_eq_error {x : Except ε α} {f : α → Except ε β} {e : ε} :
    (x >>= f) = .error e ↔ x = .error e ∨ ∃ a, x = .ok a ∧ f a = .error e := by
  cases x with
  | error e' => simp [bind, Except.bind]
  | ok a => simp [bind, Except.bind]

theorem eq_ok_of_toOption {x : Except ε α} {a : α} (h : x.toOption = some a) : x = .ok a := by
  cases x with
  | error e => cases h
  | ok b => rw [Option.some.inj h]

theorem mapError_eq_ok {ε' : Type} {f : ε → ε'} {result : Except ε α} {a : α}
    (h : result.mapError f = .ok a) : result = .ok a := by
  cases result with
  | error e => cases h
  | ok b =>
    cases h
    rfl

/-- A traversal fails as its step does on one of the elements. -/
theorem exists_of_mapM_error {f : α → Except ε β} {xs : List α} {e : ε}
    (h : xs.mapM f = .error e) : ∃ i, ∃ hi : i < xs.length, f xs[i] = .error e := by
  induction xs with
  | nil => cases h
  | cons x xs ih =>
    rw [List.mapM_cons, bind_eq_error] at h
    rcases h with hx | ⟨y, -, h⟩
    · exact ⟨0, Nat.zero_lt_succ _, hx⟩
    · rcases bind_eq_error.1 h with hrest | ⟨ys, -, h⟩
      · obtain ⟨i, hi, hf⟩ := ih hrest
        exact ⟨i + 1, Nat.succ_lt_succ hi, hf⟩
      · cases h

/-- What a traversal with indices gives at each place is what its step gives there. -/
theorem getElem_of_mapM_mapIdx {f : Nat → α → Except ε β} {xs : List α} {ys : List β}
    (h : (xs.mapIdx f).mapM id = .ok ys) :
    ys.length = xs.length ∧
      ∀ i (hx : i < xs.length) (hy : i < ys.length), f i xs[i] = .ok ys[i] := by
  obtain ⟨hlength, hstep⟩ := getElem_of_mapM h
  refine ⟨hlength.trans List.length_mapIdx, fun i hx hy => ?_⟩
  have := hstep i (by rwa [List.length_mapIdx]) hy
  rwa [List.getElem_mapIdx] at this

end Steps

/-! ### Models that can be assembled or blamed -/

/-- There is a class, every tree has one, and the arrays of every tree are as long as each other. -/
structure RawEnsemble.Assured (raw : RawEnsemble) : Prop where
  numClasses_pos : 0 < raw.numClasses
  treeInfo_le : raw.trees.length ≤ raw.treeInfo.length
  aligned : ∀ tree ∈ raw.trees, tree.Aligned

/-- The tree at a position, which no best iteration drops. -/
structure RawEnsemble.Keeps (raw : RawEnsemble) (position : Nat) (tree : RawTree) : Prop where
  tree_eq : raw.trees[position]? = some tree
  le_best : ∀ best, raw.bestIteration = some best → (position : Int) ≤ best.toInt

/-- The errors of a model that decoding does not rule out. -/
inductive RawEnsemble.RemainingError (raw : RawEnsemble) : ModelError → Prop where
  | negativeIteration {best : Int64} (hbest : raw.bestIteration = some best) (hneg : best < 0) :
    RemainingError raw (.field .bestIteration none (.isNegative best))
  | tooFewTrees {best : Int64} {needed : Nat} (hbest : raw.bestIteration = some best)
    (hneeded : (needed : Int) = best.toInt + 1) (hfew : raw.trees.length < needed) :
    RemainingError raw (.field .bestIteration none (.tooFewTrees best needed raw.trees.length))
  | noNodes {i : Nat} {tree : RawTree} (hkept : raw.Keeps i tree) (hnone : tree.numNodes = 0) :
    RemainingError raw (.field .numNodes (some i) .noNodes)
  | malformed {i : Nat} {tree : RawTree} {cause : StructuralCause} (hkept : raw.Keeps i tree)
    (h : tree.Aligned) (hpos : 0 < tree.numNodes) {node : Fin tree.numNodes}
    (hreach : (tree.alignedTable h).Reachable ⟨0, hpos⟩ node)
    (hfault : (tree.alignedTable h).FaultAt ⟨0, hpos⟩ node cause) :
    RemainingError raw (.structural i node cause)
  | negativeClass {i : Nat} {tree : RawTree} {entry : Int64} (hkept : raw.Keeps i tree)
    (hentry : raw.treeInfo[i]? = some entry) (hneg : entry < 0) :
    RemainingError raw (.structural i 0 (.negativeClass entry))
  | classOutOfRange {i : Nat} {tree : RawTree} {entry : Int64} {classIndex : UInt64}
    (hkept : raw.Keeps i tree) (hentry : raw.treeInfo[i]? = some entry)
    (hclass : (classIndex.toNat : Int) = entry.toInt) (hout : raw.numClasses ≤ classIndex) :
    RemainingError raw (.structural i 0 (.classOutOfRange classIndex raw.numClasses))

/-! ### Decoding -/

namespace Document

variable {position : Nat} {x : treeShape.Val} {tree : RawTree}

theorem eq_of_checkLength {nodes found : Nat} {field : Field} {u : Unit}
    (h : checkLength position nodes field found = .ok u) : found = nodes := by
  unfold checkLength at h
  split at h
  · assumption
  · cases h

/-- A decoded tree has as many entries in each array as it says it has nodes. -/
theorem aligned_of_treeOf (h : treeOf position x = .ok tree) : tree.Aligned := by
  simp only [treeOf, bind_eq_ok] at h
  obtain ⟨nodes, -, _, hleft, _, hright, _, hfeature, _, hcondition, _, hdefault, flags, hflags,
    heq⟩ := h
  cases heq
  have hleft := (eq_of_checkLength hleft).symm
  have hlength := (getElem_of_mapM_mapIdx (mapError_eq_ok hflags)).1
  exact ⟨(eq_of_checkLength hright).trans hleft, (eq_of_checkLength hfeature).trans hleft,
    (eq_of_checkLength hcondition).trans hleft,
    hlength.trans ((eq_of_checkLength hdefault).trans hleft)⟩

/-- The class that is written as zero is counted as one. -/
theorem pos_of_numClassesOf {params : modelParamShape.Val} {n : UInt64}
    (h : numClassesOf params = .ok n) : 0 < n := by
  have hcount := mapError_eq_ok h
  cases hwritten : countOf params.2.1 with
  | error e =>
    rw [hwritten] at hcount
    cases hcount
  | ok written =>
    rw [hwritten] at hcount
    obtain rfl : (if written = 0 then 1 else written) = n := Except.ok.inj hcount
    split
    · decide
    · next hne => exact UInt64.pos_iff_ne_zero.2 hne

theorem assured_of_modelOf {document : shape.Val} {raw : RawEnsemble}
    (h : modelOf document = .ok raw) : raw.Assured := by
  simp only [modelOf, bind_eq_ok] at h
  obtain ⟨model, -, baseScore, -, numClasses, hclasses, numFeatures, -, best, -, h⟩ := h
  split at h
  · obtain ⟨_, h, -⟩ := bind_eq_ok.1 h
    cases h
  · next hinfo =>
    obtain ⟨trees, htrees, heq⟩ := bind_eq_ok.1 h
    cases heq
    obtain ⟨hlength, hstep⟩ := getElem_of_mapM_mapIdx htrees
    refine ⟨pos_of_numClassesOf hclasses, hlength.trans_le (Nat.not_lt.1 hinfo), fun tree htree => ?_⟩
    obtain ⟨i, hi, rfl⟩ := List.mem_iff_getElem.1 htree
    exact aligned_of_treeOf (hstep i (hlength ▸ hi) hi)

end Document

theorem assured_of_decodeDocument {source : String} {raw : RawEnsemble}
    (h : decodeDocument source = .ok raw) : raw.Assured := by
  unfold decodeDocument at h
  split at h
  · cases h
  · exact Document.assured_of_modelOf (mapError_eq_ok h)

/-! ### Assembly after decoding -/

namespace Ensemble

variable {raw : RawEnsemble} {e : ModelError} {kept i : Nat} {tree : RawTree}

/-- Only a best iteration outside the trees keeps them from being counted. -/
theorem remaining_of_keptCount (h : keptCount raw.bestIteration raw.trees.length = .error e) :
    raw.RemainingError e := by
  cases hbest : raw.bestIteration with
  | none =>
    rw [hbest] at h
    cases h
  | some best =>
    rw [hbest] at h
    unfold keptCount at h
    dsimp only at h
    split_ifs at h with hneg hfew
    · cases h
      exact .negativeIteration hbest hneg
    · cases h
      have hle : 0 ≤ best.toInt := by
        rw [Int64.lt_iff_toInt_lt, Int64.toInt_zero] at hneg
        omega
      exact .tooFewTrees hbest (by omega) hfew

/-- The kept trees are those up to the best iteration. -/
theorem keeps_of_lt (hkept : keptCount raw.bestIteration raw.trees.length = .ok kept)
    (htree : raw.trees[i]? = some tree) (hi : i < kept) : raw.Keeps i tree := by
  refine ⟨htree, fun best hbest => ?_⟩
  rw [hbest] at hkept
  unfold keptCount at hkept
  dsimp only at hkept
  split_ifs at hkept with hneg hfew
  cases hkept
  rw [Int64.lt_iff_toInt_lt, Int64.toInt_zero] at hneg
  omega

theorem lt_of_lt_keptEntries (hi : i < (keptEntries raw kept).length) : i < kept := by
  simp only [keptEntries, List.length_mapIdx, List.length_take] at hi
  omega

/-- Aligned arrays fail to assemble for want of nodes or at a node. -/
theorem remaining_of_assemble (hkept : raw.Keeps i tree) (haligned : tree.Aligned)
    (h : tree.assemble i = .error e) : raw.RemainingError e := by
  by_cases hpos : 0 < tree.numNodes
  · have hspec := @RawTree.assemble_spec tree i haligned hpos
    rw [h] at hspec
    obtain ⟨node, cause, rfl, hreach, hfault⟩ := hspec
    exact .malformed hkept haligned hpos hreach hfault
  · rw [RawTree.assemble, dif_neg hpos] at h
    cases h
    exact .noNodes hkept (Nat.eq_zero_of_not_pos hpos)

theorem remaining_of_treeOf {entry : Int64} (hkept : raw.Keeps i tree) (haligned : tree.Aligned)
    (hentry : raw.treeInfo[i]? = some entry) (h : treeOf i tree entry = .error e) :
    raw.RemainingError e := by
  rcases bind_eq_error.1 h with hclass | ⟨classIndex, -, h⟩
  · unfold classOf at hclass
    split at hclass
    · next hneg =>
      cases hclass
      exact .negativeClass hkept hentry hneg
    · cases hclass
  · rcases bind_eq_error.1 h with hroot | ⟨root, -, h⟩
    · exact remaining_of_assemble hkept haligned hroot
    · cases h

/-- Where there is a class, trees fail to be an ensemble only through the class of one of them. -/
theorem exists_of_ofTrees_error {trees : List Tree} {baseScore : Binary64} {numClasses : UInt64}
    {numFeatures : Option UInt64} (hpos : 0 < numClasses)
    (h : ofTrees trees baseScore numClasses numFeatures = .error e) :
    ∃ i, ∃ hi : i < trees.length, numClasses ≤ trees[i].classIndex ∧
      e = .structural trees[i].position trees[i].root.id
        (.classOutOfRange trees[i].classIndex numClasses) := by
  unfold ofTrees at h
  rw [dif_pos hpos] at h
  split at h
  · next tree hfind =>
    cases h
    obtain ⟨i, hi, rfl⟩ := List.mem_iff_getElem.1 (List.mem_of_find?_eq_some hfind)
    have hout := List.find?_some hfind
    exact ⟨i, hi, by simpa using hout, rfl⟩
  · cases h

/-- A tree that is assembled has the root of its arrays. -/
theorem id_of_assemble {root : Node} (haligned : tree.Aligned) (h : tree.assemble i = .ok root) :
    root.id = 0 := by
  by_cases hpos : 0 < tree.numNodes
  · have hspec := @RawTree.assemble_spec tree i haligned hpos
    rw [h] at hspec
    exact hspec.2.1.id_eq
  · rw [RawTree.assemble, dif_neg hpos] at h
    cases h

theorem remaining_of_ofRaw (hraw : raw.Assured) (h : ofRaw raw = .error e) :
    raw.RemainingError e := by
  rw [ofRaw_eq hraw.treeInfo_le] at h
  rcases bind_eq_error.1 h with hcount | ⟨kept, hkept, h⟩
  · exact remaining_of_keptCount hcount
  -- the entry at a place, and what is known of its tree
  have hentryAt : ∀ i (hi : i < (keptEntries raw kept).length), ∃ tree entry,
      (keptEntries raw kept)[i] = (i, tree, entry) ∧ raw.treeInfo[i]? = some entry ∧
        raw.Keeps i tree ∧ tree.Aligned := fun i hi => by
    obtain ⟨tree, entry, htree, hentry, hget⟩ := getElem_keptEntries hi
    exact ⟨tree, entry, hget, hentry, keeps_of_lt hkept htree (lt_of_lt_keptEntries hi),
      hraw.aligned tree (List.mem_of_getElem? htree)⟩
  rcases bind_eq_error.1 h with htrees | ⟨trees, htrees, h⟩
  · obtain ⟨i, hi, hstep⟩ := exists_of_mapM_error htrees
    obtain ⟨tree, entry, hget, hentry, hkeeps, haligned⟩ := hentryAt i hi
    rw [hget] at hstep
    exact remaining_of_treeOf hkeeps haligned hentry hstep
  · obtain ⟨i, hi, hout, rfl⟩ := exists_of_ofTrees_error hraw.numClasses_pos h
    obtain ⟨hlength, hstep⟩ := getElem_of_mapM htrees
    have hi' : i < (keptEntries raw kept).length := by rwa [← hlength]
    obtain ⟨tree, entry, hget, hentry, hkeeps, haligned⟩ := hentryAt i hi'
    have htree := hstep i hi' hi
    rw [hget] at htree
    obtain ⟨classIndex, root, hclass, hroot, heq⟩ := treeOf_eq_ok.1 htree
    rw [heq] at hout ⊢
    rw [id_of_assemble haligned hroot]
    exact .classOutOfRange hkeeps hentry (classOf_eq_ok hclass) hout

end Ensemble

/-- No error that remains is about the list of classes, the number of classes or the length of an
array, nor that a child has no tree. -/
theorem RawEnsemble.RemainingError.not_checked {raw : RawEnsemble} {e : ModelError}
    (h : raw.RemainingError e) :
    (∀ tree cause, e ≠ .field .treeInfo tree cause ∧ e ≠ .field .numClass tree cause) ∧
    (∀ field tree expected found, e ≠ .field field tree (.wrongLength expected found)) ∧
    (∀ tree node child, e ≠ .structural tree node (.notAssembled child)) := by
  cases h with
  | malformed _ _ _ _ hfault =>
    refine ⟨fun _ _ => ⟨nofun, nofun⟩, nofun, ?_⟩
    rintro _ _ _ ⟨⟩
    exact hfault
  | _ => exact ⟨fun _ _ => ⟨nofun, nofun⟩, nofun, nofun⟩

/-! ### A tree without nodes -/

namespace Document

theorem isDigit_zero : '0'.isDigit = true := rfl

theorem isDigit_seven : '7'.isDigit = true := rfl

def emptyTreeValue : Value :=
  .ofMembers
    [("tree_param", .ofMembers [("num_nodes", .number (Json.Numeral.digit false '0' isDigit_zero))]),
     ("left_children", .ofItems []), ("right_children", .ofItems []),
     ("split_indices", .ofItems []), ("split_conditions", .ofItems []),
     ("default_left", .ofItems [])]

/-- A tree without nodes, whose class is also none of the model. -/
def emptyTreeDocument : Spaced Value where
  before := .none
  value := .ofMembers
    [("learner", .ofMembers
       [("gradient_booster", .ofMembers
          [("model", .ofMembers
             [("tree_info", .ofItems [.number (Json.Numeral.digit false '7' isDigit_seven)]),
              ("trees", .ofItems [emptyTreeValue])])]),
        ("learner_model_param", .ofMembers
          [("base_score", .number (Json.Numeral.digit false '0' isDigit_zero)),
           ("num_class", .number (Json.Numeral.digit false '0' isDigit_zero))])])]
  after := .none

def emptyTreeModel : RawEnsemble where
  trees := [⟨#[], #[], #[], #[], #[]⟩]
  treeInfo := [7]
  bestIteration := none
  baseScore := Binary.ofNat .double 0
  numClasses := 1
  numFeatures := none

end Document

open Document (emptyTreeDocument emptyTreeModel)

/-- **Decoding assures what assembly relies on.** A decoded model has a class, a class entry for
every tree and arrays of one length in every tree. So all that can still be wrong, also where the
ensemble of the document is loaded, is its best iteration, a kept tree without nodes, or a child,
a feature or the class of a kept tree; the other checks of assembly never fail. -/
theorem decodeDocument_assures {source : String} {raw : RawEnsemble}
    (h : decodeDocument source = .ok raw) :
    (1 ≤ raw.numClasses ∧ raw.trees.length ≤ raw.treeInfo.length ∧
      ∀ tree ∈ raw.trees, tree.rightChildren.size = tree.leftChildren.size ∧
        tree.splitIndices.size = tree.leftChildren.size ∧
        tree.splitConditions.size = tree.leftChildren.size ∧
        tree.defaultLeft.size = tree.leftChildren.size) ∧
    (∀ e, Ensemble.ofRaw raw = .error e → raw.RemainingError e) ∧
    (∀ error, loadEnsemble source = .error error → ∃ e, error = .model e ∧ raw.RemainingError e) ∧
    (∀ e, Ensemble.ofRaw raw = .error e →
      (∀ tree cause, e ≠ .field .treeInfo tree cause ∧ e ≠ .field .numClass tree cause) ∧
      (∀ field tree expected found, e ≠ .field field tree (.wrongLength expected found)) ∧
      (∀ tree node child, e ≠ .structural tree node (.notAssembled child))) := by
  have hraw := assured_of_decodeDocument h
  refine ⟨⟨?_, hraw.treeInfo_le, fun tree htree => ?_⟩,
    fun e he => Ensemble.remaining_of_ofRaw hraw he, fun error herror => ?_,
    fun e he => (Ensemble.remaining_of_ofRaw hraw he).not_checked⟩
  · have hpos := UInt64.lt_iff_toNat_lt.1 hraw.numClasses_pos
    exact UInt64.le_iff_toNat_le.2 hpos
  · have := hraw.aligned tree htree
    exact ⟨this.right, this.feature, this.condition, this.defaultLeft⟩
  · rw [loadEnsemble, h] at herror
    -- the document decodes, so loading it fails as its ensemble does
    change (Ensemble.ofRaw raw).mapError CompileError.model = _ at herror
    cases hresult : Ensemble.ofRaw raw with
    | ok ensemble =>
      rw [hresult] at herror
      cases herror
    | error e =>
      rw [hresult] at herror
      cases herror
      exact ⟨e, rfl, Ensemble.remaining_of_ofRaw hraw hresult⟩

theorem decodeDocument_assures_emptyTree :
    decodeDocument emptyTreeDocument.source = .ok emptyTreeModel ∧
      emptyTreeModel.RemainingError (.field .numNodes (some 0) .noNodes) ∧
      loadEnsemble emptyTreeDocument.source = .error (.model (.field .numNodes (some 0) .noNodes)) := by
  have hvalue : (Document.shape.ofValue? emptyTreeDocument.value).bind
      (fun x => (Document.modelOf x).toOption) = some emptyTreeModel := by decide +kernel
  have h : decodeDocument emptyTreeDocument.source = .ok emptyTreeModel :=
    eq_ok_of_toOption ((toOption_decodeDocument emptyTreeDocument).trans hvalue)
  have he : Ensemble.ofRaw emptyTreeModel = .error (.field .numNodes (some 0) .noNodes) := rfl
  refine ⟨h, (decodeDocument_assures h).2.1 _ he, ?_⟩
  rw [loadEnsemble, h]
  exact congrArg (Except.mapError CompileError.model) he

end EnsembleCompiler
