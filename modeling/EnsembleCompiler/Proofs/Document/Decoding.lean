import EnsembleCompiler.Compile
import EnsembleCompiler.Proofs.Document.Layouts
import EnsembleCompiler.Proofs.Json.Shapes

/-!
# Decoding what was written

A document that writes a model decodes to that model, whatever layout it has.
-/

namespace EnsembleCompiler

open Json (Flag Scalar Shape Fields Spaced Value stringValue?_plainUnits
  unitsValue?_plainUnits)

namespace Document

/-! ### Parts of a model -/

variable {α β : Type}

/-- A list of what can be read is read element by element. -/
theorem IsList.exists_items {p : α → Value → Prop} {r : α → β → Prop} {f : Value → Option β}
    {xs : List α} {v : Value} (h : IsList p xs v)
    (hread : ∀ x ∈ xs, ∀ w, p x w → ∃ y, f w = some y ∧ r x y) :
    ∃ ys, (v.items?.bind fun ws => ws.mapM f) = some ys ∧ List.Forall₂ r xs ys := by
  obtain ⟨ws, hitems, hws⟩ := h
  rw [hitems]
  clear hitems
  induction hws with
  | nil => exact ⟨[], rfl, .nil⟩
  | @cons x w xs ws hx hws ih =>
    obtain ⟨y, hy, hr⟩ := hread x List.mem_cons_self w hx
    obtain ⟨ys, hys, hrs⟩ := ih fun x hx => hread x (List.mem_cons_of_mem _ hx)
    simp only [Option.bind_some] at hys
    exact ⟨y :: ys, by simp [hy, hys], .cons hr hrs⟩

/-- A list of what is read as its elements is read as the list. -/
theorem IsList.items_eq {p : α → Value → Prop} {f : Value → Option α} {xs : List α} {v : Value}
    (h : IsList p xs v) (hread : ∀ x w, p x w → f w = some x) :
    (v.items?.bind fun ws => ws.mapM f) = some xs := by
  obtain ⟨ys, hys, hrs⟩ := h.exists_items (r := Eq) fun x _ w hx => ⟨x, hread x w hx, rfl⟩
  have heq : xs = ys := by simpa using hrs
  rw [hys, heq]

theorem ofValue?_record {name : String} {fields : Fields} {v : Value}
    {members : List (String × Value)} {xs : fields.Vals} (hv : v.members? = some members)
    (h : fields.ofMembers? members = some xs) :
    (Shape.record name fields).ofValue? v = some xs := by
  have hitems : v.items? = none := by
    cases v <;> first | rfl | cases hv
  rw [Shape.ofValue?, hitems, hv]
  exact h

/-- What succeeds at every index with the same result succeeds for the whole list. -/
theorem mapM_mapIdx_eq_ok {ε : Type} {f : Nat → α → Except ε β} {r : β → α → Prop} {xs : List α}
    {ys : List β} (h : List.Forall₂ r ys xs) (hf : ∀ y x, r y x → ∀ i, f i x = .ok y) :
    (xs.mapIdx f).mapM id = .ok ys := by
  induction xs generalizing f ys with
  | nil =>
    cases h
    rfl
  | cons x xs ih =>
    cases h with
    | @cons y ys _ _ hx hxs =>
      have hrest := ih hxs fun y x hx i => hf y x hx (i + 1)
      rw [List.mapIdx_cons, List.mapM_cons, id, hf y x hx 0, hrest]
      rfl

theorem countOf_eq_ok {s : Scalar} {n : Nat} (h : integerOf s = .ok (Int64.ofInt n))
    (hn : n < 0x8000000000000000) : countOf s = .ok n.toUInt64 := by
  have hpos : ¬ Int64.ofInt n < 0 := by
    rw [Int64.lt_iff_toInt_lt, Int64.toInt_ofInt_of_le (by omega) (by omega)]
    simp
  have hcount : (Int64.ofInt n).toUInt64 = n.toUInt64 := by
    rw [Int64.ofInt_eq_ofNat]
    rfl
  simp only [countOf, h, bind, Except.bind, hpos, if_false, hcount]
  rfl

theorem within_natCast {n : Nat} (hn : n < 0x8000000000000000) :
    integerOfText?.within n = some (Int64.ofInt n) := by
  rw [within_eq, if_pos (by omega)]

/-- What writes a count is read as a scalar of its value. -/
theorem WritesInteger.exists_count {n : Nat} {v : Value} (h : WritesInteger n v)
    (hn : n < 0x8000000000000000) : ∃ s, v.scalar? = some s ∧ countOf s = .ok n.toUInt64 := by
  obtain ⟨s, hs, hinteger, -⟩ := h.exists_scalar (within_natCast hn)
  exact ⟨s, hs, countOf_eq_ok hinteger hn⟩

/-! ### Trees -/

/-- The tree of arrays that are as long as the tree says, and of flags that have truth values. -/
theorem treeOf_eq_ok {tree : RawTree} (htree : IsWritableTree tree) {nodes : Scalar}
    {flags : List Flag} (hcount : countOf nodes = .ok tree.numNodes.toUInt64)
    (hflags : List.Forall₂ (fun b flag => ∀ node, truthOf node flag = .ok b)
      tree.defaultLeft.toList flags) (position : Nat) :
    treeOf position ((nodes, ()), tree.leftChildren.toList, tree.rightChildren.toList,
      tree.splitIndices.toList, tree.splitConditions.toList, flags, ()) = .ok tree := by
  have hnodes : tree.numNodes.toUInt64.toNat = tree.numNodes :=
    UInt64.toNat_ofNat_of_lt' (Nat.lt_trans htree.numNodes_lt (by decide))
  have hlength : flags.length = tree.numNodes := by
    rw [← hflags.length_eq, Array.length_toList, htree.defaultLeft]
  have htruth := mapM_mapIdx_eq_ok hflags fun _ _ h => h
  have hleft : tree.leftChildren.size = tree.numNodes := rfl
  simp only [treeOf, numNodesOf, hcount, inField, Except.mapError, bind, Except.bind, hnodes,
    checkLength, Array.length_toList, hleft, htree.rightChildren, htree.splitIndices,
    htree.splitConditions, hlength, htruth, if_true, Array.toArray_toList]
  rfl

theorem WritesTree.exists_value {tree : RawTree} {v : Value} (h : IsObject (WritesTree tree) v)
    (htree : IsWritableTree tree) :
    ∃ x, treeShape.ofValue? v = some x ∧ ∀ position, treeOf position x = .ok tree := by
  obtain ⟨members, hmembers, h⟩ := h
  obtain ⟨param, hparam, params, hparams, num, hnum, hinteger⟩ := h.numNodes
  obtain ⟨nodes, hnodes, hcount⟩ := hinteger.exists_count htree.numNodes_lt
  obtain ⟨left, hleft, hleftList⟩ := h.leftChildren
  obtain ⟨right, hright, hrightList⟩ := h.rightChildren
  obtain ⟨feature, hfeature, hfeatureList⟩ := h.splitIndices
  obtain ⟨condition, hcondition, hconditionList⟩ := h.splitConditions
  obtain ⟨default, hdefault, hdefaultList⟩ := h.defaultLeft
  obtain ⟨flags, hflags, htruth⟩ := hdefaultList.exists_items fun b _ w hb => hb.exists_flag
  have hentry := fun i w (hi : WritesEntry i w) => hi.integer?
  have hreal := fun x w (hx : WritesReal x w) => hx.real?
  have hparamValue : (Shape.record "TreeParam" (.field "num_nodes" true .scalar .none)).ofValue?
      param = some (nodes, ()) :=
    ofValue?_record hparams (Fields.ofMembers?_present hnum hnodes (by decide) rfl)
  refine ⟨_, ofValue?_record hmembers <|
    Fields.ofMembers?_present hparam hparamValue (by decide) <|
    Fields.ofMembers?_present hleft (hleftList.items_eq hentry) (by decide) <|
    Fields.ofMembers?_present hright (hrightList.items_eq hentry) (by decide) <|
    Fields.ofMembers?_present hfeature (hfeatureList.items_eq hentry) (by decide) <|
    Fields.ofMembers?_present hcondition (hconditionList.items_eq hreal) (by decide) <|
    Fields.ofMembers?_present hdefault hflags (by decide) rfl, treeOf_eq_ok htree hcount htruth⟩

theorem WritesTrees.exists_value {raw : RawEnsemble} {v : Value} (h : IsObject (WritesTrees raw) v)
    (hraw : IsWritable raw) :
    ∃ trees, boosterModelShape.ofValue? v = some (raw.treeInfo, trees, ()) ∧
      raw.trees.length = trees.length ∧ (trees.mapIdx treeOf).mapM id = .ok raw.trees := by
  obtain ⟨members, hmembers, h⟩ := h
  obtain ⟨info, hinfo, hinfoList⟩ := h.treeInfo
  obtain ⟨list, hlist, htreeList⟩ := h.trees
  obtain ⟨trees, hvalue, htrees⟩ := htreeList.exists_items (f := treeShape.ofValue?)
    fun tree htree w hw => WritesTree.exists_value hw (hraw.trees tree htree)
  have hinfoValue := hinfoList.items_eq fun i w (hi : WritesEntry i w) => hi.integer?
  refine ⟨trees, ofValue?_record hmembers <|
    Fields.ofMembers?_present hinfo hinfoValue (by decide) <|
    Fields.ofMembers?_present hlist hvalue (by decide) rfl, htrees.length_eq,
    mapM_mapIdx_eq_ok htrees fun _ _ h => h⟩

/-! ### Optional parts -/

theorem ofValue?_optional {inner : Shape} {v : Value} {x : inner.Val}
    (hnull : inner.ofValue? .null = none) (h : inner.ofValue? v = some x) :
    (Shape.optional inner).ofValue? v = some (some x) := by
  have hv : v.isNull = false := by
    cases v <;> first | rfl | exact absurd (hnull.symm.trans h) (by simp)
  rw [Shape.ofValue?, hv, h]
  rfl

/-- A field of a record that is optional in both ways has the value that is written, if any. -/
theorem HasOptional.exists_field {p : α → Value → Prop} {o : Option α} {key : String}
    {inner : Shape} {rest : Fields} {members : List (String × Value)} {xs : rest.Vals}
    {r : Option inner.Val → Prop} (h : HasOptional members key p o)
    (hnull : inner.ofValue? .null = none)
    (hsome : ∀ x ∈ o, ∀ w, p x w → ∃ y, inner.ofValue? w = some y ∧ r (some y))
    (hnone : o = none → r none) (hkey : key ∉ rest.keys)
    (hrest : rest.ofMembers? members = some xs) :
    ∃ y, (Fields.field key false (.optional inner) rest).ofMembers? members = some (y, xs) ∧
      r y := by
  cases o with
  | some x =>
    obtain ⟨w, hw, hp⟩ := h
    obtain ⟨y, hy, hr⟩ := hsome x rfl w hp
    exact ⟨some y, Fields.ofMembers?_present hw (ofValue?_optional hnull hy) hkey hrest, hr⟩
  | none =>
    rcases h with hlacks | ⟨w, hw, rfl⟩
    · exact ⟨none, Fields.ofMembers?_absent hlacks hkey hrest, hnone rfl⟩
    · have hvalue : (Shape.optional inner).ofValue? .null = some none := by
        rw [Shape.ofValue?]
        rfl
      exact ⟨none, Fields.ofMembers?_present hw hvalue hkey hrest, hnone rfl⟩

theorem WritesBooster.exists_value {raw : RawEnsemble} {v : Value}
    (h : IsObject (WritesBooster raw) v) (hraw : IsWritable raw) :
    ∃ booster trees, gradientBoosterShape.ofValue? v = some booster ∧
      boosterModelOf booster = .ok (raw.treeInfo, trees, ()) ∧
      raw.trees.length = trees.length ∧ (trees.mapIdx treeOf).mapM id = .ok raw.trees := by
  obtain ⟨members, hmembers, h⟩ := h
  obtain ⟨model, hmodel, hobject⟩ := h.model
  obtain ⟨trees, hvalue, htrees⟩ := WritesTrees.exists_value hobject hraw
  have hrest : (Fields.field "model" false (.optional boosterModelShape) .none).ofMembers? members =
      some (some (raw.treeInfo, trees, ()), ()) :=
    Fields.ofMembers?_present hmodel (ofValue?_optional rfl hvalue) (by decide) rfl
  -- nothing reads the name, but it may be there, and then it has to be a text
  have hname (o : Option String) (hwrites : HasOptional members "name" WritesText o) :
      ∃ y : Option Shape.text.Val, (Fields.field "name" false (.optional .text) <|
        .field "model" false (.optional boosterModelShape) .none).ofMembers? members =
          some (y, some (raw.treeInfo, trees, ()), ()) ∧ y = o := by
    refine hwrites.exists_field rfl (fun x hx w hw => ?_) (fun h => h.symm)
      (by decide) hrest
    obtain ⟨hunits⟩ := hw
    exact ⟨x, hunits, hx.symm⟩
  rcases h.name with hnone | hsome
  · obtain ⟨_, hfields, rfl⟩ := hname none hnone
    exact ⟨_, trees, ofValue?_record hmembers hfields, rfl, htrees⟩
  · obtain ⟨_, hfields, rfl⟩ := hname _ hsome
    exact ⟨_, trees, ofValue?_record hmembers hfields, rfl, htrees⟩

/-! ### Parameters -/

theorem mapM_countOf_some {s : Scalar} {n : UInt64} (h : countOf s = .ok n) :
    inField .numFeature none ((some s).mapM countOf) = .ok (some n) := by
  rw [Option.mapM_some, h]
  rfl

theorem WritesClasses.exists_scalar {n : UInt64} {v : Value} (h : WritesClasses n v) (hpos : 0 < n)
    (hn : n.toNat < 0x8000000000000000) :
    ∃ s, v.scalar? = some s ∧ (countOf s).map (fun m => if m = 0 then 1 else m) = .ok n := by
  rcases h with h | ⟨rfl, h⟩
  · obtain ⟨s, hs, hcount⟩ := h.exists_count hn
    have hne : n ≠ 0 := by rintro rfl; exact absurd hpos (by decide)
    exact ⟨s, hs, by simp [hcount, Except.map, hne]⟩
  · obtain ⟨s, hs, hcount⟩ := WritesInteger.exists_count (n := 0) h (by decide)
    exact ⟨s, hs, by rw [hcount]; rfl⟩

theorem WritesParams.exists_value {raw : RawEnsemble} {v : Value}
    (h : IsObject (WritesParams raw) v) (hraw : IsWritable raw) :
    ∃ params, modelParamShape.ofValue? v = some params ∧ realOf params.1 = .ok raw.baseScore ∧
      numClassesOf params = .ok raw.numClasses ∧ numFeaturesOf params = .ok raw.numFeatures := by
  obtain ⟨members, hmembers, h⟩ := h
  obtain ⟨w, hw, hwrites⟩ := h.baseScore
  obtain ⟨score, hscore, hreal⟩ := hwrites.exists_scalar
  obtain ⟨c, hc, hclasses⟩ := h.numClasses
  obtain ⟨classes, hclass, hcount⟩ := hclasses.exists_scalar hraw.numClasses_pos hraw.numClasses_lt
  obtain ⟨features, hfields, hfeatures⟩ : ∃ y : Option Shape.scalar.Val,
      (Fields.field "num_feature" false (.optional .scalar) .none).ofMembers? members =
        some (y, ()) ∧ inField .numFeature none (y.mapM countOf) = .ok raw.numFeatures := by
    refine h.numFeatures.exists_field rfl (fun n hn w hw => ?_) (fun hnone => ?_) (by decide) rfl
    · obtain ⟨s, hs, hfeature⟩ := hw.exists_count (hraw.numFeatures_lt n hn)
      -- the number that is read back is a word again, and the same one
      have hsame : n.toNat.toUInt64 = n := UInt64.ofNat_toNat
      exact ⟨s, hs, hn ▸ mapM_countOf_some (hsame ▸ hfeature)⟩
    · rw [hnone]
      rfl
  refine ⟨(score, classes, features, ()), ofValue?_record hmembers <|
    Fields.ofMembers?_present hw hscore (by decide) <|
    Fields.ofMembers?_present hc hclass (by decide) hfields, hreal, ?_, hfeatures⟩
  exact congrArg (inField .numClass none) hcount

/-! ### The best iteration -/

theorem bestIterationOf_eq_ok {s : Scalar} {k : Int64} (h : integerOf s = .ok k)
    (hblank : isBlank s = false) : bestIterationOf (some s, ()) = .ok (some k) := by
  simp only [bestIterationOf, hblank, Bool.false_eq_true, if_false, h]
  rfl

theorem WritesBlank.exists_scalar {v : Value} (h : WritesBlank v) :
    ∃ s, v.scalar? = some s ∧ isBlank s = true := by
  obtain ⟨hvalue, hblank⟩ := h
  refine ⟨_, scalar?_string hvalue, ?_⟩
  simp [isBlank, Text.trim_blanks hblank]

theorem WritesAttributes.exists_value {raw : RawEnsemble} {v : Value}
    (h : IsObject (WritesAttributes raw) v) :
    ∃ attributes, attributesShape.ofValue? v = some attributes ∧
      bestIterationOf attributes = .ok raw.bestIteration := by
  obtain ⟨members, hmembers, h⟩ := h
  obtain ⟨best, hfields, hbest⟩ : ∃ y : Option Shape.scalar.Val,
      (Fields.field "best_iteration" false (.optional .scalar) .none).ofMembers? members =
        some (y, ()) ∧ bestIterationOf (y, ()) = .ok raw.bestIteration := by
    rcases h with h | ⟨hnone, w, hw, hblank⟩
    · refine h.exists_field rfl (fun k hk w hw => ?_) (fun hnone => ?_) (by decide) rfl
      · obtain ⟨s, hs, hinteger, hblank⟩ := hw.exists_scalar (within_toInt k)
        exact ⟨s, hs, by rw [hk]; exact bestIterationOf_eq_ok hinteger hblank⟩
      · rw [hnone]
        rfl
    · obtain ⟨s, hs, hblank⟩ := hblank.exists_scalar
      refine ⟨some s, Fields.ofMembers?_present hw (ofValue?_optional rfl hs) (by decide) rfl, ?_⟩
      simp only [bestIterationOf, hblank, if_true, hnone]
  exact ⟨(best, ()), ofValue?_record hmembers hfields, hbest⟩

/-! ### Documents -/

theorem Writes.exists_value {raw : RawEnsemble} {v : Value} (h : Writes raw v)
    (hraw : IsWritable raw) : ∃ x, shape.ofValue? v = some x ∧ modelOf x = .ok raw := by
  obtain ⟨document, hdocument, w, hw, members, hmembers, h⟩ := h
  obtain ⟨b, hb, hbooster⟩ := h.booster
  obtain ⟨booster, trees, hboosterValue, hmodel, hlength, htrees⟩ :=
    WritesBooster.exists_value hbooster hraw
  obtain ⟨p, hp, hparams⟩ := h.params
  obtain ⟨params, hparamsValue, hscore, hclasses, hfeatures⟩ :=
    WritesParams.exists_value hparams hraw
  have hrest : (Fields.field "gradient_booster" true gradientBoosterShape <|
      .field "learner_model_param" true modelParamShape .none).ofMembers? members =
        some (booster, params, ()) :=
    Fields.ofMembers?_present hb hboosterValue (by decide) <|
    Fields.ofMembers?_present hp hparamsValue (by decide) rfl
  obtain ⟨attributes, hlearner, hbest⟩ : ∃ attributes, learnerShape.ofValue? w =
      some (attributes, booster, params, ()) ∧
      bestIterationOf attributes = .ok raw.bestIteration := by
    -- where no attributes are written there is no best iteration; the other two members are
    -- required
    rcases h.attributes with ⟨hnone, hlacks⟩ | ⟨a, ha, hattributes⟩
    · exact ⟨_, ofValue?_record hmembers (Fields.ofMembers?_absent hlacks (by decide) hrest),
        by rw [hnone]; rfl⟩
    · obtain ⟨attributes, hvalue, hbest⟩ := WritesAttributes.exists_value hattributes
      exact ⟨attributes, ofValue?_record hmembers
        (Fields.ofMembers?_present ha hvalue (by decide) hrest), hbest⟩
  refine ⟨_, ofValue?_record hdocument (Fields.ofMembers?_present hw hlearner (by decide) rfl), ?_⟩
  have hshort : ¬ raw.treeInfo.length < trees.length := by
    have := hraw.treeInfo_le
    omega
  simp only [modelOf, hmodel, hscore, hclasses, hfeatures, hbest, inField, Except.mapError, bind,
    Except.bind, hshort, if_false, htrees]
  rfl

end Document

/-- A document decodes to the model of the value that its shape makes of it, if there is one. -/
theorem toOption_decodeDocument (document : Spaced Value) :
    (decodeDocument document.source).toOption =
      (Document.shape.ofValue? document.value).bind fun x => (Document.modelOf x).toOption := by
  rw [decodeDocument, ← Document.shape.toOption_parse (by decide) document]
  cases Document.shape.parse document.source with
  | error e => rfl
  | ok x => cases hmodel : Document.modelOf x <;> simp [hmodel, Except.toOption, Except.mapError]

/-- A document that writes a model decodes to that model. -/
theorem decodeDocument_of_writes {raw : RawEnsemble} {document : Spaced Value}
    (h : Document.Writes raw document.value) (hraw : Document.IsWritable raw) :
    decodeDocument document.source = .ok raw := by
  obtain ⟨x, hx, hmodel⟩ := h.exists_value hraw
  have hdecoded := toOption_decodeDocument document
  rw [hx, Option.bind_some, hmodel] at hdecoded
  cases hresult : decodeDocument document.source with
  | error e => simp [hresult, Except.toOption] at hdecoded
  | ok result => simpa [hresult, Except.toOption] using hdecoded

/-! ### A document with a mixed layout -/

namespace Document

/-- A tree of one leaf. -/
def leafTree : RawTree := ⟨#[-1], #[-1], #[0], #[Binary.ofNat .double 1], #[true]⟩

def leafTreeValue : Value :=
  .ofMembers
    [("default_left", .ofItems [.number (Json.Numeral.digit false '1' rfl)]),
     ("split_conditions", .ofItems [.number (Json.Numeral.digit false '1' rfl)]),
     ("split_indices", .ofItems [.number (Json.Numeral.digit false '0' rfl)]),
     ("left_children", .ofItems [.number (Json.Numeral.digit true '1' rfl)]),
     ("right_children", .ofItems [.number (Json.Numeral.digit true '1' rfl)]),
     ("tree_param", .ofMembers [("num_nodes", .ofText " 1")])]

theorem isBlank_space : ∀ c ∈ [' '], Text.isBlank c = true := List.all_eq_true.1 (by decide)

theorem writes_leafTreeValue : IsObject (WritesTree leafTree) leafTreeValue := by
  have hentries (i : Int64) (n : Json.Numeral) (h : n.text = canonical i.toInt) :
      IsList WritesEntry [i] (.ofItems [.number n]) :=
    ⟨_, Value.items?_ofItems _, .cons (.number h) .nil⟩
  refine ⟨_, Value.members?_ofMembers (by decide), ?_⟩
  constructor
  · refine ⟨_, rfl, _, Value.members?_ofMembers (by decide), _, rfl, ?_⟩
    exact .string (unitsValue?_plainUnits (by decide)) ⟨[' '], [], isBlank_space, by simp, rfl⟩
  · exact ⟨_, rfl, hentries _ _ rfl⟩
  · exact ⟨_, rfl, hentries _ _ rfl⟩
  · exact ⟨_, rfl, hentries _ _ rfl⟩
  · exact ⟨_, rfl, _, Value.items?_ofItems _, .cons (.number rfl rfl) .nil⟩
  · exact ⟨_, rfl, _, Value.items?_ofItems _, .cons (.one rfl) .nil⟩

/-- A model of a single output. -/
def leafModel : RawEnsemble where
  trees := [leafTree]
  treeInfo := [0]
  bestIteration := none
  baseScore := Binary.ofNat .double 1
  numClasses := 1
  numFeatures := none

theorem isWritable_leafModel : IsWritable leafModel where
  numClasses_pos := by decide
  numClasses_lt := by decide
  numFeatures_lt := by simp [leafModel]
  treeInfo_le := Nat.le_refl 1
  trees := by
    intro tree htree
    obtain rfl := List.mem_singleton.1 htree
    constructor <;> simp [leafTree, RawTree.numNodes]

/-- A value with numbers in text and outside of it, a base score in brackets, and a member that
belongs to no model, given its number of classes. -/
def leafValue (classes : Value) : Value :=
  .ofMembers
    [("version", .ofItems []),
     ("learner", .ofMembers
       [("gradient_booster", .ofMembers
          [("name", .ofText "gbtree"),
           ("model", .ofMembers
             [("trees", .ofItems [leafTreeValue]),
              ("tree_info", .ofItems [.number (Json.Numeral.digit false '0' rfl)])])]),
        ("learner_model_param", .ofMembers
          [("num_feature", .null), ("base_score", .ofText " [1E0 ]"), ("num_class", classes)]),
        ("attributes", .ofMembers [("best_iteration", .ofText " ")])])]

def leafDocument : Spaced Value where
  before := .none
  value := leafValue (.number (Json.Numeral.digit false '0' rfl))
  after := ⟨['\n'], by simp [Json.isJsonBlank]⟩

theorem writes_leafDocument : Writes leafModel leafDocument.value := by
  refine ⟨_, Value.members?_ofMembers (by decide), _, rfl, _,
    Value.members?_ofMembers (by decide), ?_⟩
  constructor
  · refine .inr ⟨_, rfl, _, Value.members?_ofMembers (by decide), .inr ⟨rfl, _, rfl, ?_⟩⟩
    exact .string (unitsValue?_plainUnits (by decide)) isBlank_space
  · refine ⟨_, rfl, _, Value.members?_ofMembers (by decide), ?_⟩
    constructor
    · exact .inr ⟨_, rfl, .string (stringValue?_plainUnits (by decide))⟩
    · refine ⟨_, rfl, _, Value.members?_ofMembers (by decide), ?_⟩
      constructor
      · exact ⟨_, rfl, _, Value.items?_ofItems _, .cons (.number rfl) .nil⟩
      · exact ⟨_, rfl, _, Value.items?_ofItems _, .cons writes_leafTreeValue .nil⟩
  · refine ⟨_, rfl, _, Value.members?_ofMembers (by decide), ?_⟩
    constructor
    · have hinside : Padded "1E0".toList "1E0 ".toList := ⟨[], [' '], by simp, isBlank_space, rfl⟩
      exact ⟨_, rfl, .bracketed (unitsValue?_plainUnits (by decide))
        ⟨[' '], [], isBlank_space, by simp, rfl⟩ hinside (by decide +kernel)⟩
    · exact ⟨_, rfl, .inr ⟨rfl, .number rfl⟩⟩
    · exact .inr ⟨_, rfl, rfl⟩

end Document

theorem decodeDocument_leafDocument :
    Document.Writes Document.leafModel Document.leafDocument.value ∧
      Document.IsWritable Document.leafModel ∧
      decodeDocument Document.leafDocument.source = .ok Document.leafModel :=
  ⟨Document.writes_leafDocument, Document.isWritable_leafModel,
    decodeDocument_of_writes Document.writes_leafDocument Document.isWritable_leafModel⟩

end EnsembleCompiler
