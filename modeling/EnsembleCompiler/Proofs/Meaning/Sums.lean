import EnsembleCompiler.Proofs.Meaning.Generated

/-!
# The sums of a generated module

The statements of the scoring function keep, in the variable that they start, the sum for every
class of the trees that have been added so far.
-/

namespace EnsembleCompiler.Emitter

open Target

variable (e : Emitter) {ensemble : Ensemble} {mode : MissingMode} {scope : Scope}
  (features : List (mode.Element (Binary e.options.precision.format)))

/-- The feature vector in the scope of a function. -/
def vectorValue : Value := .array (features.map (mode.value e.options.precision))

/-- The weight of a tree for the features. -/
def treeWeight (tree : Tree) : Binary e.options.precision.format :=
  tree.root.weight e.options.precision.readBack (mode.known features)

/-- The scope of the scoring function after its sum has been started. -/
def sumScope (name : String) (v : Value) : Scope := [(name, v), ("features", e.vectorValue features)]

theorem lookup_treeName (position : Nat) (name : String) (v : Value)
    (h : endsInDigit name = false) :
    (e.sumScope features name v).lookup (e.treeName position) = none := by
  have hname := e.treeName_ne position h
  have hfeatures : e.treeName position ≠ "features" := e.treeName_ne position (by decide)
  simp [sumScope, hname, hfeatures]

theorem evaluates_sum {items : List (Item Unit)} (name : String) (v : Value) :
    Evaluates items (e.sumScope features name v) (nameTree name) v (e.sumScope features name v) :=
  evaluates_variable (by simp [sumScope])

theorem assignName_sumScope (name : String) (v w : Value) :
    Evaluation.assignName name w (e.sumScope features name v) =
      some (e.sumScope features name w) := by
  simp [Evaluation.assignName, sumScope]

section

variable (hmode : e.options.missing = mode)
  (hnames : ((e.moduleItems ensemble).map Item.valueName?).Nodup)

include hmode hnames

/-- The call of the function of a tree returns the weight of a leaf. -/
theorem evaluates_treeCall {tree : Tree} (htree : tree ∈ ensemble.trees)
    (hfeatures : scope.lookup "features" = some (e.vectorValue features))
    (hfree : scope.lookup (e.treeName tree.position) = none) :
    Evaluates (e.moduleItems ensemble) scope (e.treeCall tree)
      (.float e.options.precision (e.treeWeight features tree)) scope := by
  have hitem := e.onlyItem?_tree hnames htree
  have hvector : Evaluates (e.moduleItems ensemble) scope (nameTree "features") _ scope :=
    evaluates_variable hfeatures
  exact (evaluates_function hfree hitem).call (hvector.cons evaluateAll_nil)
    (e.settles_treeFunction hmode features hitem (e.onlyItem?_lookup hnames htree))

theorem statementsLead_single (trees : List Tree) (htrees : ∀ tree ∈ trees, tree ∈ ensemble.trees)
    (sum : Binary e.options.precision.format) :
    StatementsLead (e.moduleItems ensemble)
      (e.sumScope features "score" (.float e.options.precision sum))
      (trees.map fun tree => addStatement (nameTree "score") (e.treeCall tree))
      (e.sumScope features "score" (.float e.options.precision
        (trees.foldl (fun sum tree => sum.add (e.treeWeight features tree)) sum))) := by
  induction trees generalizing sum with
  | nil => exact statementsLead_nil
  | cons tree trees ih =>
    have hrest := ih (fun t ht => htrees t (List.mem_cons_of_mem _ ht))
      (sum.add (e.treeWeight features tree))
    have hcall := e.evaluates_treeCall features hmode hnames (htrees tree List.mem_cons_self) rfl
      (e.lookup_treeName features tree.position "score" (.float _ sum) (by decide))
    have hsum : (e.sumScope features "score" (.float _ sum)).lookup "score" =
        some (.float e.options.precision sum) := rfl
    have hassign := hcall.assign (settles_assignName (some .add) hsum
      (binary?_add sum (e.treeWeight features tree)) (e.assignName_sumScope features "score" _ _))
    exact hassign.statementThen hrest

end

/-! ### Several classes -/

/-- The value of a list of scores, one for each of `n` classes. -/
def scoresValue (n : Nat) (score : Nat → Binary e.options.precision.format) : Value :=
  .array ((List.range n).map fun c => .float e.options.precision (score c))

theorem element?_scoresValue {n : Nat} {c : UInt64} (hc : c.toNat < n)
    (score : Nat → Binary e.options.precision.format) :
    element? (e.scoresValue n score) (.index c) =
      some (.float e.options.precision (score c.toNat)) := by
  simp [element?, scoresValue, hc]

/-- The scores with another one for a class. -/
theorem setElement?_scoresValue {n : Nat} {c : UInt64} (hc : c.toNat < n)
    (score : Nat → Binary e.options.precision.format) (x : Binary e.options.precision.format) :
    setElement? (e.scoresValue n score) (.index c) (.float e.options.precision x) =
      some (e.scoresValue n fun d => if c.toNat = d then x else score d) := by
  have hset : ((List.range n).map fun d => Value.float e.options.precision (score d)).set c.toNat
      (.float e.options.precision x) =
        (List.range n).map fun d => .float e.options.precision (if c.toNat = d then x else score d) := by
    refine List.ext_getElem (by simp) fun i hi hi' => ?_
    rw [List.getElem_set]
    by_cases h : c.toNat = i <;> simp [h]
  simp only [setElement?, scoresValue, List.length_map, List.length_range, hc, if_true, hset]

section

variable (hmode : e.options.missing = mode)
  (hnames : ((e.moduleItems ensemble).map Item.valueName?).Nodup)

include hmode hnames

theorem statementsLead_multiclass (trees : List Tree)
    (htrees : ∀ tree ∈ trees, tree ∈ ensemble.trees)
    (score : Nat → Binary e.options.precision.format) :
    StatementsLead (e.moduleItems ensemble)
      (e.sumScope features "scores" (e.scoresValue ensemble.numClasses.toNat score))
      (trees.map fun tree => addStatement (slotTree tree.classIndex.toNat) (e.treeCall tree))
      (e.sumScope features "scores" (e.scoresValue ensemble.numClasses.toNat fun c =>
        Ensemble.sumFrom e.options.precision.readBack (mode.known features) (score c) trees c)) := by
  -- tree by tree: the scores so far are those of the trees in front
  induction trees generalizing score with
  | nil => exact statementsLead_nil
  | cons tree trees ih =>
    have htree := htrees tree List.mem_cons_self
    have hclass : tree.classIndex.toNat < ensemble.numClasses.toNat :=
      UInt64.lt_iff_toNat_lt.1 (ensemble.class_lt tree htree)
    let sum := (score tree.classIndex.toNat).add (e.treeWeight features tree)
    have hrest := ih (fun t ht => htrees t (List.mem_cons_of_mem _ ht))
      fun c => if tree.classIndex.toNat = c then sum else score c
    have hcall := e.evaluates_treeCall features hmode hnames htree rfl
      (e.lookup_treeName features tree.position "scores" (e.scoresValue ensemble.numClasses.toNat score)
        (by decide))
    have hassign := hcall.assign (settles_assignElement (some .add)
      (evaluates_wordTree tree.classIndex) rfl (e.element?_scoresValue hclass score)
      (binary?_add _ (e.treeWeight features tree)) (e.setElement?_scoresValue hclass score sum)
      (e.assignName_sumScope features "scores" _ _))
    -- the statement changes the slot of one class; the sums of the other classes skip the tree
    have hscores : (fun c => Ensemble.sumFrom e.options.precision.readBack (mode.known features)
        (if tree.classIndex.toNat = c then sum else score c) trees c) =
          fun c => Ensemble.sumFrom e.options.precision.readBack (mode.known features)
            (score c) (tree :: trees) c := by
      funext c
      by_cases h : tree.classIndex.toNat = c
      · subst h
        simp [Ensemble.sumFrom, sum, treeWeight]
      · simp [Ensemble.sumFrom, h]
    rw [hscores] at hrest
    exact hassign.statementThen hrest

end

/-! ### The scoring function -/

theorem readBack_zero (p : Precision) :
    p.readBack (.zero .double false) = .zero p.format false := by
  cases p <;> decide +kernel

/-- The variable of a sum starts with the value of zero, or with copies of it. -/
theorem evaluates_zero {items : List (Item Unit)} :
    Evaluates items scope (e.literalTree (.zero .double false))
      (.float e.options.precision (.zero e.options.precision.format false)) scope := by
  have hzero : Evaluates items scope _ _ scope := e.evaluates_literalTree (.zero .double false)
  rwa [readBack_zero] at hzero

section

variable (hnames : ((e.moduleItems ensemble).map Item.valueName?).Nodup)

include hnames

theorem evaluates_withBase {value : Expr Unit} {x : Binary e.options.precision.format}
    (hvalue : Evaluates (e.moduleItems ensemble) scope value (.float e.options.precision x) scope)
    (hfree : scope.lookup "BASE_SCORE" = none) :
    Evaluates (e.moduleItems ensemble) scope (withBase value) (.float e.options.precision
      (x.add (e.options.precision.readBack ensemble.baseScore))) scope :=
  hvalue.binary (e.evaluates_baseScore hnames hfree) (binary?_add _ _)

/-- The scores at the end of the function. -/
theorem evaluateAll_results {n : Nat} (hn : n < UInt64.size)
    (score : Nat → Binary e.options.precision.format) (classes : List Nat)
    (hclasses : ∀ c ∈ classes, c < n) :
    EvaluateAll (e.moduleItems ensemble) (e.sumScope features "scores" (e.scoresValue n score))
      (classes.map fun c => withBase (slotTree c))
      (classes.map fun c => .float e.options.precision
        ((score c).add (e.options.precision.readBack ensemble.baseScore)))
      (e.sumScope features "scores" (e.scoresValue n score)) := by
  induction classes with
  | nil => exact evaluateAll_nil
  | cons c classes ih =>
    have hc : c < n := hclasses c List.mem_cons_self
    have hword : (UInt64.ofNat c).toNat = c := UInt64.toNat_ofNat_of_lt (by omega)
    have hscores : Evaluates (e.moduleItems ensemble) _ _ _ _ :=
      e.evaluates_sum features "scores" (e.scoresValue n score)
    have helement := e.element?_scoresValue (by rw [hword]; exact hc) score
    have hslot := hscores.index (evaluates_integerTree (Nat.lt_trans hc hn)) helement
    rw [hword] at hslot
    exact (e.evaluates_withBase hnames hslot rfl).cons
      (ih fun d hd => hclasses d (List.mem_cons_of_mem _ hd))

/-- The body for one class, before and after the trees are added. -/
theorem blockEvaluates_single (hmode : e.options.missing = mode)
    (hsingle : ensemble.isMulticlass = false)
    (hscope : scope = [(parameterName (!ensemble.trees.isEmpty), e.vectorValue features)]) :
    BlockEvaluates (e.moduleItems ensemble) scope (e.singleBlock ensemble)
      (.float e.options.precision
        (ensemble.score e.options.precision.readBack (mode.known features) 0)) scope := by
  subst hscope
  unfold singleBlock Ensemble.score
  by_cases hempty : ensemble.trees.isEmpty = true
  · rw [if_pos hempty, if_pos hempty]
    refine Evaluates.block (e.evaluates_baseScore hnames ?_)
    rw [hempty]
    rfl
  · rw [if_neg hempty, if_neg hempty, Bool.not_eq_true] at *
    rw [hempty]
    -- with one class every tree is of class 0, so none is left out of its sum
    have hclass : ∀ tree ∈ ensemble.trees, tree.classIndex.toNat = 0 := by
      intro tree htree
      have hlt := UInt64.lt_iff_toNat_lt.1 (ensemble.class_lt tree htree)
      have hone : ¬ 1 < ensemble.numClasses := by simpa [Ensemble.isMulticlass] using hsingle
      rw [UInt64.lt_iff_toNat_lt] at hone
      have htoNat : (1 : UInt64).toNat = 1 := rfl
      omega
    have hfilter : ensemble.trees.filter (·.classIndex.toNat = 0) = ensemble.trees :=
      List.filter_eq_self.2 fun tree htree => by simpa using hclass tree htree
    have htrees := e.statementsLead_single features hmode hnames ensemble.trees (fun _ h => h)
      (.zero e.options.precision.format false)
    rw [Ensemble.sumFrom, hfilter]
    exact (e.evaluates_zero.bindingThen htrees).block
      (e.evaluates_withBase hnames (e.evaluates_sum features "score" _) rfl) rfl

/-- The body for several classes. -/
theorem blockEvaluates_multiclass (hmode : e.options.missing = mode)
    (hscope : scope = [(parameterName (!ensemble.trees.isEmpty), e.vectorValue features)]) :
    BlockEvaluates (e.moduleItems ensemble) scope (e.multiclassBlock ensemble)
      (e.scoresValue ensemble.numClasses.toNat
        (ensemble.score e.options.precision.readBack (mode.known features))) scope := by
  have hreplicate : ∀ x : Binary e.options.precision.format,
      Value.array (List.replicate ensemble.numClasses.toNat (.float e.options.precision x)) =
        e.scoresValue ensemble.numClasses.toNat fun _ => x := by
    intro x
    rw [scoresValue, List.map_const', List.length_range]
  subst hscope
  unfold multiclassBlock
  -- without trees the array is filled with the base score at once
  by_cases hempty : ensemble.trees.isEmpty = true
  · have hscore : ensemble.score e.options.precision.readBack (mode.known features) =
        fun _ => e.options.precision.readBack ensemble.baseScore := by
      funext c
      rw [Ensemble.score, if_pos hempty]
    rw [if_pos hempty, hscore, ← hreplicate, hempty]
    exact Evaluates.block ((e.evaluates_baseScore hnames rfl).repeated
      (e.evaluates_numClasses hnames rfl))
  · rw [if_neg hempty]
    rw [Bool.not_eq_true] at hempty
    rw [hempty]
    have hzero : Evaluates (e.moduleItems ensemble) [("features", e.vectorValue features)] _ _ _ :=
      e.evaluates_zero.repeated (e.evaluates_numClasses hnames rfl)
    rw [hreplicate] at hzero
    have htrees := e.statementsLead_multiclass features hmode hnames ensemble.trees (fun _ h => h)
      fun _ => .zero e.options.precision.format false
    have hresults := e.evaluateAll_results features hnames ensemble.numClasses.toNat_lt_size
      (fun c => Ensemble.sumFrom e.options.precision.readBack (mode.known features)
        (.zero e.options.precision.format false) ensemble.trees c)
      (List.range ensemble.numClasses.toNat) (fun c hc => List.mem_range.1 hc)
    have hscore : ensemble.score e.options.precision.readBack (mode.known features) = fun c =>
        (Ensemble.sumFrom e.options.precision.readBack (mode.known features)
          (.zero e.options.precision.format false) ensemble.trees c).add
            (e.options.precision.readBack ensemble.baseScore) := by
      funext c
      rw [Ensemble.score, hempty]
      rfl
    rw [hscore]
    exact (hzero.bindingThen htrees).block hresults.array rfl

end

/-- The public function of the module returns the scores. -/
theorem settles_callPublic (hmode : e.options.missing = mode)
    (hname : e.options.functionName ∉ definedNames)
    (hpositions : (ensemble.trees.map (·.position)).Nodup) :
    Settles ((e.moduleTree ensemble).callPublic e.options.moduleName e.options.functionName
        [e.vectorValue features])
      (ensemble.scoreValue e.options.precision e.options.precision.readBack
        (mode.known features)) := by
  have hnames := e.nodup_valueNames hname hpositions
  have hmodule : onlyItem? Item.moduleName? (e.moduleTree ensemble).items e.options.moduleName =
      some (.module () .everywhere [] ⟨(), e.options.moduleName⟩ (e.moduleItems ensemble)) := by
    simp [onlyItem?, moduleTree, Item.moduleName?]
  have hfunction := e.onlyItem?_scoring hnames
  unfold File.callPublic
  simp only [hmodule, hfunction, scoringFunction, functionTree]
  have hbody : BlockEvaluates (e.moduleItems ensemble)
      [(parameterName (!ensemble.trees.isEmpty), e.vectorValue features)]
      (if ensemble.isMulticlass then e.multiclassBlock ensemble else e.singleBlock ensemble)
      (ensemble.scoreValue e.options.precision e.options.precision.readBack (mode.known features))
      [(parameterName (!ensemble.trees.isEmpty), e.vectorValue features)] := by
    unfold Ensemble.scoreValue
    cases hmulticlass : ensemble.isMulticlass with
    | true => exact e.blockEvaluates_multiclass features hnames hmode rfl
    | false => exact e.blockEvaluates_single features hnames hmode hmulticlass rfl
  exact hbody.call rfl rfl

end EnsembleCompiler.Emitter
