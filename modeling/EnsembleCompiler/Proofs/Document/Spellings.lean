import EnsembleCompiler.Proofs.Document.Decoding
import EnsembleCompiler.Proofs.Json.Places

/-!
# Integers written as numbers and as strings

The integer fields of a document may be numbers or strings. Decoding depends on such a field only
through the integer that it stands for, so the two spellings of a numeral decode alike; the negative
zero is the only exception.
-/

namespace EnsembleCompiler

open Json (Context Fields Scalar Shape Spaced StringUnit Value plainUnits unitsValue?
  unitsValue?_plainUnits)

namespace Document

/-! ### Computations that need an integer -/

variable {α β ε : Type}

/-- A computation that depends on a scalar only through the integer that the scalar stands for, and
fails if it stands for none. Blank scalars are left out. -/
def NeedsInteger (f : Scalar → Except ε α) : Prop :=
  ∃ k : Int64 → Option α, ∀ s, isBlank s = false → (f s).toOption = (integerOf s).toOption.bind k

theorem toOption_bind (x : Except ε α) (f : α → Except ε β) :
    (x >>= f).toOption = x.toOption.bind fun a => (f a).toOption := by
  cases x <;> rfl

theorem toOption_mapError {ε' : Type} (f : ε → ε') (x : Except ε α) :
    (x.mapError f).toOption = x.toOption := by
  cases x <;> rfl

namespace NeedsInteger

theorem integerOf : NeedsInteger integerOf :=
  ⟨some, fun s _ => by cases (Document.integerOf s).toOption <;> rfl⟩

theorem error (e : ε) : NeedsInteger fun _ => (.error e : Except ε α) :=
  ⟨fun _ => none, fun s _ => by cases (Document.integerOf s).toOption <;> rfl⟩

theorem inField {f : Scalar → Except FieldCause α} (h : NeedsInteger f) (field : Field)
    (tree : Option Nat) : NeedsInteger fun s => inField field tree (f s) := by
  obtain ⟨k, hk⟩ := h
  exact ⟨k, fun s hs => (toOption_mapError _ _).trans (hk s hs)⟩

theorem congr {f f' : Scalar → Except ε α} (heq : ∀ s, f s = f' s) (h : NeedsInteger f') :
    NeedsInteger f := (funext heq : f = f') ▸ h

theorem map {f : Scalar → Except ε α} (h : NeedsInteger f) (k : α → β) :
    NeedsInteger fun s => (f s).map k := by
  obtain ⟨next, hnext⟩ := h
  refine ⟨fun i => (next i).map k, fun s hs => ?_⟩
  have hmap (x : Except ε α) : (x.map k).toOption = x.toOption.map k := by cases x <;> rfl
  rw [hmap, hnext s hs, Option.map_bind]
  rfl

/-- What comes after does not matter. -/
theorem bind {f : Scalar → Except ε α} (h : NeedsInteger f) (next : α → Except ε β) :
    NeedsInteger fun s => f s >>= next := by
  obtain ⟨k, hk⟩ := h
  refine ⟨fun i => (k i).bind fun a => (next a).toOption, fun s hs => ?_⟩
  rw [toOption_bind, hk s hs, Option.bind_assoc]

/-- What comes before does not matter, as long as it does not depend on the scalar. -/
theorem after {f : α → Scalar → Except ε β} (first : Except ε α) (h : ∀ a, NeedsInteger (f a)) :
    NeedsInteger fun s => first >>= fun a => f a s := by
  choose k hk using h
  refine ⟨fun i => first.toOption.bind fun a => k a i, fun s hs => ?_⟩
  simp only [toOption_bind, hk _ s hs]
  cases first.toOption <;> cases (Document.integerOf s).toOption <;> rfl

theorem through {f : Scalar → Except ε α} {a : Scalar → α} {next : α → Except ε β}
    (hf : ∀ s, f s = .ok (a s)) (h : NeedsInteger fun s => next (a s)) :
    NeedsInteger fun s => f s >>= next :=
  .congr (fun s => congrArg (· >>= next) (hf s)) h

theorem countOf : NeedsInteger countOf := NeedsInteger.integerOf.bind _

end NeedsInteger

/-! ### The integer fields -/

/-- The model of a document from its parts. -/
theorem modelOf_eq (attributes : attributesShape.Val) (booster : gradientBoosterShape.Val)
    (score classes : Scalar) (features : Option Scalar) :
    modelOf ((attributes, booster, (score, classes, features, ()), ()), ()) =
      boosterModelOf booster >>= fun (model : List Int64 × List treeShape.Val × Unit) =>
      inField .baseScore none (realOf score) >>= fun baseScore =>
      inField .numClass none ((countOf classes).map fun n => if n = 0 then 1 else n) >>=
        fun numClasses =>
      inField .numFeature none (features.mapM countOf) >>= fun numFeatures =>
      bestIterationOf attributes >>= fun bestIteration =>
      if model.1.length < model.2.1.length then
        .error (.field .treeInfo none (.tooFewClasses model.2.1.length model.1.length))
      else
        (model.2.1.mapIdx treeOf).mapM id >>= fun trees =>
          pure { trees, treeInfo := model.1, bestIteration, baseScore, numClasses, numFeatures } :=
  rfl

/-- A document that is open in the parameters of its learner. -/
theorem exists_params {key : String} {path : List String} {g : Scalar → shape.Val}
    (h : shape.Hole ("learner" :: "learner_model_param" :: key :: path) g) :
    ∃ attributes booster params, modelParamShape.Hole (key :: path) params ∧
      g = fun s => ((attributes, booster, params s, ()), ()) := by
  obtain ⟨learner, ⟨⟩, hlearner, rfl⟩ := Fields.Hole.first h
  obtain ⟨attributes, rest, hrest, rfl⟩ := Fields.Hole.later hlearner (by decide)
  obtain ⟨booster, last, hlast, rfl⟩ := hrest.later (by decide)
  obtain ⟨params, ⟨⟩, hparams, rfl⟩ := hlast.first
  exact ⟨attributes, booster, params, hparams, rfl⟩

theorem needsInteger_numClass {g : Scalar → shape.Val}
    (h : shape.Hole ["learner", "learner_model_param", "num_class"] g) :
    NeedsInteger fun s => modelOf (g s) := by
  obtain ⟨attributes, booster, params, hparams, rfl⟩ := exists_params h
  obtain ⟨score, rest, hrest, rfl⟩ := Fields.Hole.later hparams (by decide)
  obtain ⟨classes, ⟨features, ⟨⟩⟩, hclasses, rfl⟩ := hrest.first
  obtain rfl : classes = id := hclasses
  refine .congr (fun s => modelOf_eq attributes booster score s features) ?_
  refine .after _ fun model => .after _ fun baseScore => ?_
  exact ((NeedsInteger.countOf.map _).inField .numClass none).bind _

theorem needsInteger_numFeature {g : Scalar → shape.Val}
    (h : shape.Hole ["learner", "learner_model_param", "num_feature"] g) :
    NeedsInteger fun s => modelOf (g s) := by
  obtain ⟨attributes, booster, params, hparams, rfl⟩ := exists_params h
  obtain ⟨score, rest, hrest, rfl⟩ := Fields.Hole.later hparams (by decide)
  obtain ⟨classes, last, hlast, rfl⟩ := hrest.later (by decide)
  obtain ⟨features, ⟨⟩, ⟨feature, hfeature, rfl⟩, rfl⟩ := hlast.first
  obtain rfl : feature = id := hfeature
  refine .congr (fun s => modelOf_eq attributes booster score classes (some s)) ?_
  refine .after _ fun model => .after _ fun baseScore => .after _ fun numClasses => ?_
  have hcount (s : Scalar) : (some s).mapM countOf = countOf s >>= fun n => pure (some n) := by
    rw [Option.mapM_some]
    rfl
  simp only [hcount]
  exact ((NeedsInteger.countOf.bind _).inField .numFeature none).bind _

theorem needsInteger_bestIteration {g : Scalar → shape.Val}
    (h : shape.Hole ["learner", "attributes", "best_iteration"] g) :
    NeedsInteger fun s => modelOf (g s) := by
  obtain ⟨learner, ⟨⟩, hlearner, rfl⟩ := Fields.Hole.first h
  obtain ⟨attributes, ⟨booster, ⟨score, classes, features, ⟨⟩⟩, ⟨⟩⟩, hattributes, rfl⟩ :=
    Fields.Hole.first hlearner
  obtain ⟨best, ⟨⟩, ⟨iteration, hiteration, rfl⟩, rfl⟩ := Fields.Hole.first hattributes
  obtain rfl : iteration = id := hiteration
  refine .congr (fun s => modelOf_eq (some s, ()) booster score classes features) ?_
  refine .after _ fun model => .after _ fun baseScore => .after _ fun numClasses =>
    .after _ fun numFeatures => .bind ?_ _
  obtain ⟨k, hk⟩ := (NeedsInteger.integerOf.map some).inField .bestIteration none
  refine ⟨k, fun s hs => Eq.trans ?_ (hk s hs)⟩
  simp only [bestIterationOf, hs, Bool.false_eq_true, if_false]

/-! ### The number of nodes of a tree -/

theorem needsInteger_treeOf {tree : Scalar → treeShape.Val}
    (h : treeShape.Hole ["tree_param", "num_nodes"] tree) (position : Nat) :
    NeedsInteger fun s => treeOf position (tree s) := by
  obtain ⟨param, ⟨left, right, feature, condition, flags, ⟨⟩⟩, hparam, rfl⟩ := Fields.Hole.first h
  obtain ⟨nodes, ⟨⟩, hnodes, rfl⟩ := Fields.Hole.first hparam
  obtain rfl : nodes = id := hnodes
  simp only [treeOf, numNodesOf]
  exact (NeedsInteger.countOf.inField .numNodes (some position)).bind _

theorem mapM_mapIdx_append (f : Nat → α → Except ε β) (before : List α) (x : α) (after : List α) :
    ((before ++ x :: after).mapIdx f).mapM id =
      (before.mapIdx f).mapM id >>= fun xs => f before.length x >>= fun y =>
        (after.mapIdx fun i => f (i + 1 + before.length)).mapM id >>= fun ys =>
          pure (xs ++ y :: ys) := by
  simp only [List.mapIdx_append, List.mapIdx_cons, List.mapM_append, List.mapM_cons, id,
    Nat.zero_add, bind_assoc, pure_bind]

theorem boosterModelOf_other {name : String} (hname : name ≠ "gbtree")
    (model : Option boosterModelShape.Val) : boosterModelOf (some name, model, ()) =
      .error (.field .gradientBooster none (.unsupportedBooster name)) := by
  simp only [boosterModelOf]
  split
  · next heq => exact absurd (Option.some.inj heq) hname
  · next heq => cases heq
  · next heq => exact absurd (Option.some.inj heq) hname
  · next heq => cases heq
  · next heq _ _ =>
    cases heq
    rfl

/-- A booster with a model is that model, or is refused whatever the model. -/
theorem boosterModelOf_some (name : Option String) :
    (∀ model, boosterModelOf (name, some model, ()) = .ok model) ∨
      ∃ e, ∀ model, boosterModelOf (name, some model, ()) = .error e := by
  cases name with
  | none => exact .inl fun _ => rfl
  | some name =>
    by_cases hname : name = "gbtree"
    · subst hname
      exact .inl fun _ => rfl
    · exact .inr ⟨_, fun model => boosterModelOf_other hname (some model)⟩

/-- A model needs the integer that one of its trees needs. -/
theorem NeedsInteger.tree {tree : Scalar → treeShape.Val}
    (h : ∀ position, NeedsInteger fun s => treeOf position (tree s))
    (attributes : attributesShape.Val) (name : Option String) (info : List Int64)
    (before after : List treeShape.Val) (score classes : Scalar) (features : Option Scalar) :
    NeedsInteger fun s => modelOf ((attributes,
      (name, some (info, before ++ tree s :: after, ()), ()),
      (score, classes, features, ()), ()), ()) := by
  have hlength (s : Scalar) :
      (before ++ tree s :: after).length = before.length + (after.length + 1) := by
    rw [List.length_append, List.length_cons]
  refine .congr (fun s => modelOf_eq attributes
    (name, some (info, before ++ tree s :: after, ()), ()) score classes features) ?_
  rcases boosterModelOf_some name with hmodel | ⟨e, herror⟩
  · -- what is read in front of the trees does not depend on the integer, nor does an error in it
    refine .through (fun s => hmodel (info, before ++ tree s :: after, ())) ?_
    refine .after _ fun baseScore => .after _ fun numClasses => .after _ fun numFeatures =>
      .after _ fun bestIteration => ?_
    simp only [hlength]
    split
    · exact .error _
    · refine .bind (.congr (fun s => mapM_mapIdx_append treeOf before (tree s) after) ?_) _
      exact .after _ fun xs => .bind (h before.length) _
  · refine .congr (fun s => ?_) (.error e)
    rw [herror (info, before ++ tree s :: after, ())]
    rfl

theorem needsInteger_numNodes {g : Scalar → shape.Val}
    (h : shape.Hole
      ["learner", "gradient_booster", "model", "trees", "tree_param", "num_nodes"] g) :
    NeedsInteger fun s => modelOf (g s) := by
  obtain ⟨learner, ⟨⟩, hlearner, rfl⟩ := Fields.Hole.first h
  obtain ⟨attributes, rest, hrest, rfl⟩ := Fields.Hole.later hlearner (by decide)
  obtain ⟨booster, ⟨⟨score, classes, features, ⟨⟩⟩, ⟨⟩⟩, hbooster, rfl⟩ := hrest.first
  obtain ⟨name, last, hlast, rfl⟩ := Fields.Hole.later hbooster (by decide)
  obtain ⟨model, ⟨⟩, ⟨trees, htrees, rfl⟩, rfl⟩ := hlast.first
  obtain ⟨info, list, hlist, rfl⟩ := Fields.Hole.later htrees (by decide)
  obtain ⟨list, ⟨⟩, ⟨before, tree, after, htree, rfl⟩, rfl⟩ := hlist.first
  exact .tree (needsInteger_treeOf htree) attributes name info before after score classes features

/-! ### The two spellings -/

/-- The fields of a document that are integers written as numbers or as strings. -/
inductive IntegerField where
  | numClass
  | numFeature
  | bestIteration
  | numNodes
  deriving DecidableEq

/-- The keys that lead to a field. -/
def IntegerField.path : IntegerField → List String
  | numClass => ["learner", "learner_model_param", "num_class"]
  | numFeature => ["learner", "learner_model_param", "num_feature"]
  | bestIteration => ["learner", "attributes", "best_iteration"]
  | numNodes => ["learner", "gradient_booster", "model", "trees", "tree_param", "num_nodes"]

theorem IntegerField.needsInteger (field : IntegerField) {g : Scalar → shape.Val}
    (h : shape.Hole field.path g) : NeedsInteger fun s => modelOf (g s) := by
  cases field with
  | numClass => exact needsInteger_numClass h
  | numFeature => exact needsInteger_numFeature h
  | bestIteration => exact needsInteger_bestIteration h
  | numNodes => exact needsInteger_numNodes h

/-- The integer that a value stands for where both numbers and strings may stand. -/
def integerIn? (v : Value) : Option Int64 := v.scalar?.bind fun s => (integerOf s).toOption

theorem integerIn?_number (n : Json.Numeral) :
    integerIn? (.number n) = n.value?.bind Json.Number.toInteger? := by
  have hnumber (m : Json.Number) : (integerOf (.number m)).toOption = m.toInteger? := by
    simp only [integerOf]
    cases m.toInteger? <;> rfl
  cases hvalue : n.value? <;> simp [integerIn?, Value.scalar?, hvalue, hnumber]

theorem isPlain_of_isInteger {n : Json.Numeral} (hn : n.IsInteger) {c : Char}
    (hc : c ∈ n.text) : Text.IsPlain c := by
  rw [hn.text_eq, Json.Numeral.signText] at hc
  rcases List.mem_append.1 hc with hc | hc
  · split at hc
    · obtain rfl := List.mem_singleton.1 hc
      exact ⟨by decide, by decide, by decide⟩
    · cases hc
  · exact Text.isPlain_of_isDigit (n.whole_digits.isDigit c hc)

theorem text_ne_nil (n : Json.Numeral) : n.text ≠ [] := by
  simp [Json.Numeral.text, n.whole_digits.ne_nil]

theorem trim_text {n : Json.Numeral} (hn : n.IsInteger) : Text.trim n.text = n.text :=
  (padded_self _).trim_plain fun _ hc => isPlain_of_isInteger hn hc

theorem integerIn?_string {n : Json.Numeral} (hn : n.IsInteger) {units : List StringUnit}
    (hunits : unitsValue? units = some n.text) :
    integerIn? (.string units) = integerOfText? n.text := by
  simp only [integerIn?, scalar?_string hunits, Option.bind_some, integerOf, String.toList_ofList,
    trim_text hn]
  cases integerOfText? n.text <;> rfl

/-- A document decodes by the integer that stands in one of its integer fields, if it is one. -/
theorem exists_decoded (field : IntegerField) {c : Value → Value}
    (hc : Context shape field.path c) (before after : Json.Blanks) :
    ∃ k : Int64 → Option RawEnsemble, ∀ v, v.isNull = false →
      (∀ s ∈ v.scalar?, isBlank s = false) →
        (decodeDocument (Spaced.source ⟨before, c v, after⟩)).toOption = (integerIn? v).bind k := by
  obtain ⟨o, hhole, hread⟩ := hc.opens
  have hvalue (v : Value) (hv : v.isNull = false) :
      (decodeDocument (Spaced.source ⟨before, c v, after⟩)).toOption =
        (v.scalar?.bind fun s => o.map fun g => g s).bind fun x => (modelOf x).toOption := by
    rw [toOption_decodeDocument]
    exact congrArg (Option.bind · _) (hread v hv)
  -- where the place is not open the document fails whatever stands there
  cases o with
  | none =>
    refine ⟨fun _ => none, fun v hv _ => ?_⟩
    rw [hvalue v hv]
    cases v.scalar? <;> cases integerIn? v <;> rfl
  | some g =>
    obtain ⟨k, hk⟩ := field.needsInteger (hhole g rfl)
    refine ⟨k, fun v hv hblank => ?_⟩
    rw [hvalue v hv, integerIn?]
    cases hscalar : v.scalar? with
    | none => rfl
    | some s => exact hk s (hblank s hscalar)

theorem isBlank_number (n : Json.Numeral) : ∀ s ∈ (Value.number n).scalar?, isBlank s = false := by
  intro s hs
  obtain ⟨m, -, rfl⟩ := Option.map_eq_some_iff.1 hs
  rfl

theorem isBlank_string {n : Json.Numeral} (hn : n.IsInteger) {units : List StringUnit}
    (hunits : unitsValue? units = some n.text) :
    ∀ s ∈ (Value.string units).scalar?, isBlank s = false := by
  intro s hs
  rw [scalar?_string hunits] at hs
  obtain rfl := Option.some.inj hs
  simp [isBlank, trim_text hn, text_ne_nil]

/-- The negative zero is no integer as a number, and zero as a string. -/
theorem decodeDocument_negativeZero (field : IntegerField) {c : Value → Value}
    (hc : Context shape field.path c) (before after : Json.Blanks) {n zero : Json.Numeral}
    (hn : n.text = ['-', '0']) (hzero : zero.text = ['0']) {units : List StringUnit}
    (hunits : unitsValue? units = some n.text) :
    (decodeDocument (Spaced.source ⟨before, c (.number n), after⟩)).toOption = none ∧
      (decodeDocument (Spaced.source ⟨before, c (.string units), after⟩)).toOption =
        (decodeDocument (Spaced.source ⟨before, c (.number zero), after⟩)).toOption := by
  obtain ⟨k, hk⟩ := exists_decoded field hc before after
  have hinteger : n.IsInteger := isInteger_of_mem_text (by simp [hn])
  have hnone : integerIn? (.number n) = none := by
    rw [integerIn?_number, Json.Numeral.value?, hn]
    rfl
  have hstring : integerIn? (.string units) = some 0 := by
    rw [integerIn?_string hinteger hunits, hn]
    rfl
  have hnumber : integerIn? (.number zero) = some 0 := by
    rw [integerIn?_number, toInteger?_of_canonical (i := 0) hzero]
    rfl
  rw [hk _ rfl (isBlank_number n), hk _ rfl (isBlank_string hinteger hunits),
    hk _ rfl (isBlank_number zero), hnone, hstring, hnumber]
  exact ⟨rfl, rfl⟩

/-- An integer field may be written as a numeral or as a string of it: the document decodes to the
same model, or to none. This holds for every numeral without fraction and exponent but `-0`. -/
theorem decodeDocument_number_eq_string (field : IntegerField) {c : Value → Value}
    (hc : Context shape field.path c) (before after : Json.Blanks) {n : Json.Numeral}
    (hn : n.IsInteger) (hne : n.text ≠ ['-', '0']) {units : List StringUnit}
    (hunits : unitsValue? units = some n.text) :
    (decodeDocument (Spaced.source ⟨before, c (.number n), after⟩)).toOption =
      (decodeDocument (Spaced.source ⟨before, c (.string units), after⟩)).toOption := by
  obtain ⟨k, hk⟩ := exists_decoded field hc before after
  rw [hk _ rfl (isBlank_number n), hk _ rfl (isBlank_string hn hunits), integerIn?_number,
    integerIn?_string hn hunits, integerOfText?_eq_toInteger? hn hne]

/-- The number of classes of a small document is open. -/
theorem context_leafValue : Context shape IntegerField.numClass.path leafValue :=
  .member_tight [("version", .ofItems [])] [] (by decide) rfl <|
  .member_tight [("gradient_booster", _)] [("attributes", _)] (by decide) rfl <|
  .member_tight [("num_feature", _), ("base_score", _)] [] (by decide) rfl .scalar

theorem decodeDocument_number_eq_string_one :
    Context shape IntegerField.numClass.path leafValue ∧
      (Json.Numeral.digit false '1' rfl).IsInteger ∧
      (Json.Numeral.digit false '1' rfl).text ≠ ['-', '0'] ∧
      (decodeDocument
          (Spaced.tight (leafValue (.number (.digit false '1' rfl)))).source).toOption =
        (decodeDocument (Spaced.tight (leafValue (.ofText "1"))).source).toOption :=
  ⟨context_leafValue, ⟨rfl, rfl⟩, by decide,
    decodeDocument_number_eq_string .numClass context_leafValue .none .none ⟨rfl, rfl⟩ (by decide)
      (unitsValue?_plainUnits (by decide))⟩

/-- A document whose number of classes is the negative zero is refused, and it decodes with a
string of the negative zero. -/
theorem decodeDocument_negativeZero_ne :
    Context shape IntegerField.numClass.path leafValue ∧
      (Json.Numeral.digit true '0' rfl).IsInteger ∧
      (decodeDocument
          (Spaced.tight (leafValue (.number (.digit true '0' rfl)))).source).toOption = none ∧
      (decodeDocument (Spaced.tight (leafValue (.ofText "-0"))).source).toOption =
        some leafModel := by
  have hn : (Json.Numeral.digit true '0' rfl).text = ['-', '0'] := rfl
  have hzero : (Json.Numeral.digit false '0' rfl).text = ['0'] := rfl
  obtain ⟨hnumber, hstring⟩ := decodeDocument_negativeZero .numClass context_leafValue .none .none
    hn hzero (unitsValue?_plainUnits (by decide))
  refine ⟨context_leafValue, ⟨rfl, rfl⟩, hnumber, hstring.trans ?_⟩
  obtain ⟨x, hx, hmodel⟩ := writes_leafDocument.exists_value isWritable_leafModel
  rw [toOption_decodeDocument]
  exact (congrArg (Option.bind · _) hx).trans (congrArg Except.toOption hmodel)

end Document

end EnsembleCompiler
