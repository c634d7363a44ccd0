import EnsembleCompiler.Proofs.Document.Integers
import EnsembleCompiler.Proofs.Document.Texts
import EnsembleCompiler.Proofs.Json.Members

/-!
# Documents that write a model

The layout of model documents: which members every object has and what their values write. Objects
may have any other members, in any order, and the same integer, score or flag is written in several
ways. Each value is read back as what it writes.
-/

namespace EnsembleCompiler.Document

open Json (Flag Number Scalar Shape StringUnit Value stringValue? unitsValue? valuesOf)

/-! ### Scalars -/

/-- Text with blanks around it. -/
def Padded (core cs : List Char) : Prop :=
  ∃ before after, (∀ c ∈ before, Text.isBlank c = true) ∧ (∀ c ∈ after, Text.isBlank c = true) ∧
    cs = before ++ (core ++ after)

/-- An integer is written as its canonical numeral, or as a string of it between blanks. -/
inductive WritesInteger (i : Int) : Value → Prop where
  | number {n : Json.Numeral} (h : n.text = canonical i) : WritesInteger i (.number n)
  | string {units : List StringUnit} {cs : List Char} (hvalue : unitsValue? units = some cs)
      (h : Padded (canonical i) cs) : WritesInteger i (.string units)

/-- An entry of an array of integers is written as its canonical numeral. -/
inductive WritesEntry (i : Int64) : Value → Prop where
  | number {n : Json.Numeral} (h : n.text = canonical i.toInt) : WritesEntry i (.number n)

/-- A floating-point value is written as a numeral that is read as it. -/
inductive WritesReal (x : Binary64) : Value → Prop where
  | number {n : Json.Numeral} {m : Number} (h : n.value? = some m) (hx : m.toReal = x) :
      WritesReal x (.number n)

/-- A base score is written as a number, or as a string of a text that names it, which may stand
in brackets. There may be blanks around the text and around the brackets. -/
inductive WritesScore (x : Binary64) : Value → Prop where
  | number {v : Value} (h : WritesReal x v) : WritesScore x v
  | plain {units : List StringUnit} {cs core : List Char} (hvalue : unitsValue? units = some cs)
      (h : Padded core cs) (hx : Binary.ofChars? .double core = some x) :
      WritesScore x (.string units)
  | bracketed {units : List StringUnit} {cs inside core : List Char}
      (hvalue : unitsValue? units = some cs) (h : Padded ('[' :: (inside ++ [']'])) cs)
      (hinside : Padded core inside) (hx : Binary.ofChars? .double core = some x) :
      WritesScore x (.string units)

/-- A flag is written as a truth value, or as zero or one. -/
inductive WritesFlag : Bool → Value → Prop where
  | word (value : Bool) : WritesFlag value (.bool value)
  | zero {n : Json.Numeral} (h : n.text = canonical 0) : WritesFlag false (.number n)
  | one {n : Json.Numeral} (h : n.text = canonical 1) : WritesFlag true (.number n)

/-- A text is written as a string of it. -/
inductive WritesText (text : String) : Value → Prop where
  | string {units : List StringUnit} (h : stringValue? units = some text) :
      WritesText text (.string units)

/-- A string of nothing but blanks. -/
inductive WritesBlank : Value → Prop where
  | string {units : List StringUnit} {cs : List Char} (hvalue : unitsValue? units = some cs)
      (h : ∀ c ∈ cs, Text.isBlank c = true) : WritesBlank (.string units)

/-- The number of classes of a model with a single output is written as one or as zero. -/
def WritesClasses (n : UInt64) (v : Value) : Prop :=
  WritesInteger n.toNat v ∨ n = 1 ∧ WritesInteger 0 v

/-! ### Lists and objects -/

/-- A list of what writes the elements. -/
def IsList {α : Type} (p : α → Value → Prop) (xs : List α) (v : Value) : Prop :=
  ∃ items, v.items? = some items ∧ List.Forall₂ p xs items

/-- An object whose members satisfy a predicate. -/
def IsObject (p : List (String × Value) → Prop) (v : Value) : Prop :=
  ∃ members, v.members? = some members ∧ p members

/-- One member has the key, and its value satisfies a predicate. -/
def Has (members : List (String × Value)) (key : String) (p : Value → Prop) : Prop :=
  ∃ v, valuesOf members key = [v] ∧ p v

/-- No member has the key. -/
def Lacks (members : List (String × Value)) (key : String) : Prop := valuesOf members key = []

/-- Something that may be absent: then its member is omitted or null. -/
def HasOptional {α : Type} (members : List (String × Value)) (key : String)
    (p : α → Value → Prop) : Option α → Prop
  | some x => Has members key (p x)
  | none => Lacks members key ∨ Has members key (· = .null)

structure WritesTree (tree : RawTree) (members : List (String × Value)) : Prop where
  numNodes : Has members "tree_param"
    (IsObject fun params => Has params "num_nodes" (WritesInteger tree.numNodes))
  leftChildren : Has members "left_children" (IsList WritesEntry tree.leftChildren.toList)
  rightChildren : Has members "right_children" (IsList WritesEntry tree.rightChildren.toList)
  splitIndices : Has members "split_indices" (IsList WritesEntry tree.splitIndices.toList)
  splitConditions : Has members "split_conditions" (IsList WritesReal tree.splitConditions.toList)
  defaultLeft : Has members "default_left" (IsList WritesFlag tree.defaultLeft.toList)

structure WritesTrees (raw : RawEnsemble) (members : List (String × Value)) : Prop where
  treeInfo : Has members "tree_info" (IsList WritesEntry raw.treeInfo)
  trees : Has members "trees" (IsList (fun tree => IsObject (WritesTree tree)) raw.trees)

structure WritesBooster (raw : RawEnsemble) (members : List (String × Value)) : Prop where
  name : HasOptional members "name" WritesText none ∨
    HasOptional members "name" WritesText (some "gbtree")
  model : Has members "model" (IsObject (WritesTrees raw))

structure WritesParams (raw : RawEnsemble) (members : List (String × Value)) : Prop where
  baseScore : Has members "base_score" (WritesScore raw.baseScore)
  numClasses : Has members "num_class" (WritesClasses raw.numClasses)
  numFeatures : HasOptional members "num_feature" (fun n : UInt64 => WritesInteger n.toNat)
    raw.numFeatures

/-- The best iteration, if there is one; it is also absent where it is blank. -/
def WritesAttributes (raw : RawEnsemble) (members : List (String × Value)) : Prop :=
  HasOptional members "best_iteration" (fun k : Int64 => WritesInteger k.toInt) raw.bestIteration ∨
    raw.bestIteration = none ∧ Has members "best_iteration" WritesBlank

structure WritesLearner (raw : RawEnsemble) (members : List (String × Value)) : Prop where
  attributes : raw.bestIteration = none ∧ Lacks members "attributes" ∨
    Has members "attributes" (IsObject (WritesAttributes raw))
  booster : Has members "gradient_booster" (IsObject (WritesBooster raw))
  params : Has members "learner_model_param" (IsObject (WritesParams raw))

/-- A value that writes a model. -/
def Writes (raw : RawEnsemble) : Value → Prop :=
  IsObject fun members => Has members "learner" (IsObject (WritesLearner raw))

/-! ### Models that can be written -/

/-- The arrays of a tree are equally long, and not longer than arrays can be. -/
structure IsWritableTree (tree : RawTree) : Prop where
  rightChildren : tree.rightChildren.size = tree.numNodes
  splitIndices : tree.splitIndices.size = tree.numNodes
  splitConditions : tree.splitConditions.size = tree.numNodes
  defaultLeft : tree.defaultLeft.size = tree.numNodes
  numNodes_lt : tree.numNodes < 0x8000000000000000

/-- A model has a class, its counts are signed integers of 64 bits, and every tree has a class. -/
structure IsWritable (raw : RawEnsemble) : Prop where
  numClasses_pos : 0 < raw.numClasses
  numClasses_lt : raw.numClasses.toNat < 0x8000000000000000
  numFeatures_lt : ∀ n ∈ raw.numFeatures, n.toNat < 0x8000000000000000
  treeInfo_le : raw.trees.length ≤ raw.treeInfo.length
  trees : ∀ tree ∈ raw.trees, IsWritableTree tree

/-! ### Reading scalars back -/

theorem isPlain_of_mem_canonical {i : Int} {c : Char} (h : c ∈ canonical i) : Text.IsPlain c := by
  rcases mem_canonical h with rfl | hdigit
  · exact ⟨by decide, by decide, by decide⟩
  · exact Text.isPlain_of_isDigit hdigit

theorem Padded.trim_eq {core cs : List Char} (h : Padded core cs)
    (hfirst : ∀ c ∈ core.head?, Text.isBlank c = false)
    (hlast : ∀ c ∈ core.getLast?, Text.isBlank c = false) : Text.trim cs = core := by
  obtain ⟨before, after, hbefore, hafter, rfl⟩ := h
  exact Text.trim_padded hbefore hafter hfirst hlast

theorem Padded.trim_plain {core cs : List Char} (h : Padded core cs)
    (hcore : ∀ c ∈ core, Text.IsPlain c) : Text.trim cs = core :=
  h.trim_eq (fun c hc => (hcore c (List.mem_of_mem_head? hc)).1)
    fun c hc => (hcore c (List.mem_of_mem_getLast? hc)).1

theorem padded_self (core : List Char) : Padded core core := ⟨[], [], by simp, by simp, by simp⟩

theorem canonical_ne_nil (i : Int) : canonical i ≠ [] := by
  rw [canonical_eq]
  split <;> simp [Nat.toDigits_ne_nil]

/-- A string is read as the text of its characters. -/
theorem scalar?_string {units : List StringUnit} {cs : List Char}
    (h : unitsValue? units = some cs) :
    (Value.string units).scalar? = some (.text (String.ofList cs)) := by
  simp [Value.scalar?, stringValue?, h]

/-- What writes an integer is read as a scalar of its value, which is not blank. -/
theorem WritesInteger.exists_scalar {i : Int} {v : Value} {k : Int64} (h : WritesInteger i v)
    (hk : integerOfText?.within i = some k) :
    ∃ s, v.scalar? = some s ∧ integerOf s = .ok k ∧ isBlank s = false := by
  cases h with
  | @number n h =>
    have hinteger := toInteger?_of_canonical h
    rw [hk] at hinteger
    obtain ⟨m, hm, htoInteger⟩ := Option.bind_eq_some_iff.1 hinteger
    exact ⟨.number m, by simp [Value.scalar?, hm], by simp [integerOf, htoInteger], rfl⟩
  | @string units cs hvalue h =>
    have htrim := h.trim_plain fun c hc => isPlain_of_mem_canonical hc
    refine ⟨.text (String.ofList cs), scalar?_string hvalue, ?_, ?_⟩
    · simp [integerOf, htrim, integerOfText?_canonical, hk]
    · simp [isBlank, htrim, canonical_ne_nil]

theorem within_toInt (k : Int64) : integerOfText?.within k.toInt = some k := by
  have hmin := k.minValue_le_toInt
  have hmax : k.toInt ≤ Int64.maxValue.toInt := Int64.toInt_le k
  rw [integerOfText?.within, if_pos ⟨hmin, hmax⟩, Int64.ofInt_toInt]

theorem WritesEntry.integer? {i : Int64} {v : Value} (h : WritesEntry i v) :
    v.integer? = some i := by
  obtain ⟨h⟩ := h
  exact (toInteger?_of_canonical h).trans (within_toInt i)

theorem WritesReal.real? {x : Binary64} {v : Value} (h : WritesReal x v) : v.real? = some x := by
  obtain ⟨h, rfl⟩ := h
  simp [Value.real?, h]

theorem stripBrackets_of_plain {cs : List Char} (h : ∀ c ∈ cs, Text.IsPlain c) :
    stripBrackets cs = cs := by
  unfold stripBrackets
  split
  · exact absurd rfl (h '[' (by simp)).2.1
  · rfl

theorem stripBrackets_brackets (inside : List Char) :
    stripBrackets ('[' :: (inside ++ [']'])) = inside := by
  simp [stripBrackets]

theorem WritesScore.exists_scalar {x : Binary64} {v : Value} (h : WritesScore x v) :
    ∃ s, v.scalar? = some s ∧ realOf s = .ok x := by
  cases h with
  | number h =>
    obtain @⟨n, m, hm, rfl⟩ := h
    exact ⟨.number m, by simp [Value.scalar?, hm], rfl⟩
  | plain hvalue h hx =>
    have hplain := Binary.isPlain_of_ofChars? hx
    have htrim := h.trim_plain hplain
    have hcore := (padded_self _).trim_plain hplain
    refine ⟨_, scalar?_string hvalue, ?_⟩
    simp only [realOf, String.toList_ofList, htrim, stripBrackets_of_plain hplain, hcore, hx]
  | @bracketed units cs inside core hvalue h hinside hx =>
    have hplain := Binary.isPlain_of_ofChars? hx
    have hopen : Text.isBlank '[' = false := by decide
    have hclose : Text.isBlank ']' = false := by decide
    have hlast : ('[' :: (inside ++ [']'])).getLast? = some ']' := by
      rw [← List.cons_append, List.getLast?_concat]
    -- a bracket is no blank, so only what stands outside the brackets is trimmed
    have htrim := h.trim_eq (by simp [hopen]) (by simp [hlast, hclose])
    have hcore := hinside.trim_plain hplain
    refine ⟨_, scalar?_string hvalue, ?_⟩
    simp only [realOf, String.toList_ofList, htrim, stripBrackets_brackets, hcore, hx]

theorem flag?_of_canonical {n : Json.Numeral} {i : Int} {k : Int64} (h : n.text = canonical i)
    (hk : integerOfText?.within i = some k) : (Value.number n).flag? = some (.integer k) := by
  have hinteger := toInteger?_of_canonical h
  rw [hk] at hinteger
  exact congrArg (Option.map Flag.integer) hinteger

theorem WritesFlag.exists_flag {value : Bool} {v : Value} (h : WritesFlag value v) :
    ∃ flag, v.flag? = some flag ∧ ∀ node, truthOf node flag = .ok value := by
  cases h with
  | word value => exact ⟨.bool value, rfl, fun _ => rfl⟩
  | zero h => exact ⟨.integer 0, flag?_of_canonical h rfl, fun _ => rfl⟩
  | one h => exact ⟨.integer 1, flag?_of_canonical h rfl, fun _ => rfl⟩

end EnsembleCompiler.Document
