import EnsembleCompiler.Proofs.Json.Members

/-!
# A scalar at a place of a document

A document with one scalar left open, which stands for a field of a record or of what is in it. What
the shape makes of such a document is open at the same place, whatever scalar is put there.
-/

namespace EnsembleCompiler.Json

variable {α β γ : Type}

/-- The index and the shape of the field with a key. -/
def Fields.find? : Fields → String → Option (Nat × Shape)
  | .none, _ => Option.none
  | .field k _ shape rest, key =>
    if k = key then some (0, shape)
    else (rest.find? key).map fun found => (found.1 + 1, found.2)

/-- Documents of a shape that are open at the scalar to which a path of keys leads. A path enters
any element of a list, and a record in either of its forms. -/
inductive Context : Shape → List String → (Value → Value) → Prop where
  | scalar : Context .scalar [] id
  | optional {inner : Shape} {path : List String} {c : Value → Value} (h : Context inner path c) :
      Context (.optional inner) path c
  | element {element : Shape} {path : List String} {c : Value → Value} (inside left right : Blanks)
      (before after : List (Spaced Value)) (h : Context element path c) :
      Context (.list element) path fun v => .list inside (before ++ ⟨left, c v, right⟩ :: after)
  | member {name key : String} {fields : Fields} {index : Nat} {inner : Shape}
      {path : List String} {c : Value → Value} {units : Spaced (List StringUnit)}
      (inside left right : Blanks) (before after : List (Member Value))
      (hkey : stringValue? units.value = some key) (hfind : fields.find? key = some (index, inner))
      (h : Context inner path c) : Context (.record name fields) (key :: path) fun v =>
        .object inside (before ++ ⟨units, ⟨left, c v, right⟩⟩ :: after)
  | position {name key : String} {fields : Fields} {inner : Shape} {path : List String}
      {c : Value → Value} (inside left right : Blanks) (before after : List (Spaced Value))
      (hfind : fields.find? key = some (before.length, inner)) (h : Context inner path c) :
      Context (.record name fields) (key :: path) fun v =>
        .list inside (before ++ ⟨left, c v, right⟩ :: after)

theorem Context.member_tight {name key : String} {fields : Fields} {index : Nat} {inner : Shape}
    {path : List String} {c : Value → Value} (before after : List (String × Value))
    (hkey : key.toList.all isVerbatim = true) (hfind : fields.find? key = some (index, inner))
    (h : Context inner path c) : Context (.record name fields) (key :: path) fun v =>
      .ofMembers (before ++ (key, c v) :: after) := by
  have hunits : stringValue? (Spaced.tight (plainUnits key.toList)).value = some key :=
    stringValue?_plainUnits hkey
  simp only [Value.ofMembers, List.map_append, List.map_cons]
  exact .member .none .none .none _ _ hunits hfind h

mutual

/-- Values of a shape that are open at the scalar to which a path of keys leads. -/
def Shape.Hole : (shape : Shape) → List String → (Scalar → shape.Val) → Prop
  | .scalar, [], g => g = id
  | .optional inner, path, g => ∃ h, inner.Hole path h ∧ g = fun s => some (h s)
  | .list element, path, g =>
    ∃ (before : List element.Val) (h : Scalar → element.Val) (after : List element.Val),
      element.Hole path h ∧ g = fun s => (before ++ h s :: after : List element.Val)
  | .record _ fields, key :: path, g => fields.Hole key path g
  | _, _, _ => False

def Fields.Hole : (fields : Fields) → String → List String → (Scalar → fields.Vals) → Prop
  | .none, _, _, _ => False
  | .field k _ shape rest, key, path, g =>
    (k = key ∧ ∃ h xs, shape.Hole path h ∧ g = fun s => (h s, xs)) ∨
      (k ≠ key ∧ ∃ x h, rest.Hole key path h ∧ g = fun s => (x, h s))

end

section

variable {k key : String} {isRequired : Bool} {shape : Shape} {rest : Fields} {path : List String}
  {g : Scalar → (Fields.field k isRequired shape rest).Vals}

theorem Fields.Hole.first (h : (Fields.field k isRequired shape rest).Hole k path g) :
    ∃ x xs, shape.Hole path x ∧ g = fun s => (x s, xs) := by
  rcases h with ⟨-, h⟩ | ⟨hne, -⟩
  · exact h
  · exact absurd rfl hne

theorem Fields.Hole.later (h : (Fields.field k isRequired shape rest).Hole key path g)
    (hne : k ≠ key) : ∃ x xs, rest.Hole key path xs ∧ g = fun s => (x, xs s) := by
  rcases h with ⟨heq, -⟩ | ⟨-, h⟩
  · exact absurd heq hne
  · exact h

end

theorem Context.isNull_eq {shape : Shape} {path : List String} {c : Value → Value}
    (h : Context shape path c) {v : Value} (hv : v.isNull = false) : (c v).isNull = false := by
  induction h with
  | scalar => exact hv
  | optional h ih => exact ih
  | element => rfl
  | member => rfl
  | position => rfl

/-- What `f` makes of a document is open at a scalar: a value that satisfies `P` with the scalar put
in it, or nothing, whatever the scalar is. -/
def Opens (P : (Scalar → α) → Prop) (f : Value → Option α) : Prop :=
  ∃ o : Option (Scalar → α), (∀ g ∈ o, P g) ∧
    ∀ v, v.isNull = false → f v = v.scalar?.bind fun s => o.map fun g => g s

namespace Opens

variable {P : (Scalar → α) → Prop} {Q : (Scalar → β) → Prop} {f f' : Value → Option α}

theorem congr (heq : ∀ v, v.isNull = false → f v = f' v) (h : Opens P f') : Opens P f := by
  obtain ⟨o, hP, hread⟩ := h
  exact ⟨o, hP, fun v hv => (heq v hv).trans (hread v hv)⟩

theorem none : Opens P fun _ => Option.none :=
  ⟨Option.none, by simp, fun v _ => by cases v.scalar? <;> rfl⟩

/-- Something that does not depend on the scalar is read before. -/
theorem bind_left (h : Opens P f) (q : Option γ) (k : γ → α → β)
    (hQ : ∀ y g, P g → Q fun s => k y (g s)) :
    Opens Q fun v => q.bind fun y => (f v).map (k y) := by
  obtain ⟨o, hP, hread⟩ := h
  refine ⟨q.bind fun y => o.map fun g s => k y (g s), fun g' hg' => ?_, fun v hv => ?_⟩
  · obtain ⟨y, -, hmap⟩ := Option.bind_eq_some_iff.1 hg'
    obtain ⟨g, hg, rfl⟩ := Option.map_eq_some_iff.1 hmap
    exact hQ y g (hP g hg)
  · simp only [hread v hv]
    cases v.scalar? <;> cases q <;> cases o <;> rfl

/-- Something that does not depend on the scalar is read after. -/
theorem bind_right (h : Opens P f) (q : Option γ) (k : α → γ → β)
    (hQ : ∀ g y, P g → Q fun s => k (g s) y) :
    Opens Q fun v => (f v).bind fun x => q.map (k x) := by
  obtain ⟨o, hP, hread⟩ := h
  refine ⟨o.bind fun g => q.map fun y s => k (g s) y, fun g' hg' => ?_, fun v hv => ?_⟩
  · obtain ⟨g, hg, hmap⟩ := Option.bind_eq_some_iff.1 hg'
    obtain ⟨y, -, rfl⟩ := Option.map_eq_some_iff.1 hmap
    exact hQ g y (hP g hg)
  · simp only [hread v hv]
    cases v.scalar? <;> cases q <;> cases o <;> rfl

theorem map (h : Opens P f) (k : α → β) (hQ : ∀ g, P g → Q fun s => k (g s)) :
    Opens Q fun v => (f v).map k :=
  h.bind_left (some ()) (fun _ => k) fun _ g hg => hQ g hg

/-- A list with an element that is open. -/
theorem mapM {P : (Scalar → α) → Prop} {Q : (Scalar → List α) → Prop} {f : Value → Option α}
    {c : Value → Value} (h : Opens P fun v => f (c v)) (before after : List Value)
    (hQ : ∀ xs g ys, P g → Q fun s => xs ++ g s :: ys) :
    Opens Q fun v => (before ++ c v :: after).mapM f := by
  have htail : Opens (fun g' => ∃ g ys, P g ∧ g' = fun s => g s :: ys)
      fun v => (f (c v)).bind fun x => (after.mapM f).map fun ys => x :: ys :=
    h.bind_right (after.mapM f) List.cons fun g ys hg => ⟨g, ys, hg, rfl⟩
  refine .congr (fun v _ => ?_) (htail.bind_left (before.mapM f) (· ++ ·) ?_)
  · rw [List.mapM_append, List.mapM_cons]
    cases before.mapM f <;> cases f (c v) <;> cases after.mapM f <;> rfl
  · rintro xs _ ⟨g, ys, hg, rfl⟩
    exact hQ xs g ys hg

end Opens

/-! ### Records -/

section

variable {shape : Shape} {rest : Fields} {key k : String} {isRequired : Bool}
  {path : List String} {c : Value → Value}

/-- The first field of a record is open where its member is, unless other members have its key. -/
theorem opens_own (h : Opens (shape.Hole path) fun v => shape.ofValue? (c v))
    (before after : List (String × Value)) :
    Opens ((Fields.field k isRequired shape rest).Hole k path) fun v =>
      (Fields.field k isRequired shape rest).ofMembers? (before ++ (k, c v) :: after) := by
  have hown (v : Value) : (before ++ (k, c v) :: after).filter (·.1 = k) =
      before.filter (·.1 = k) ++ (k, c v) :: after.filter (·.1 = k) := by
    simp
  have hothers (v : Value) : (before ++ (k, c v) :: after).filter (·.1 ≠ k) =
      before.filter (·.1 ≠ k) ++ after.filter (·.1 ≠ k) := by
    simp
  -- the member is alone with its key, or the document is refused whatever its value is
  by_cases hsingle : before.filter (·.1 = k) = [] ∧ after.filter (·.1 = k) = []
  · generalize hxs : rest.ofMembers? (before.filter (·.1 ≠ k) ++ after.filter (·.1 ≠ k)) = others
    refine .congr (fun v _ => ?_) (h.bind_right others Prod.mk fun g xs hg =>
      .inl ⟨rfl, g, xs, hg, rfl⟩)
    simp only [Fields.ofMembers?, hown, hothers, hsingle.1, hsingle.2, hxs]
    rfl
  · refine .congr (fun v _ => ?_) .none
    simp only [Fields.ofMembers?, hown]
    cases hbefore : before.filter (·.1 = k) with
    | nil =>
      cases hafter : after.filter (·.1 = k) with
      | nil => exact absurd ⟨hbefore, hafter⟩ hsingle
      | cons m ms => rfl
    | cons m ms => cases ms <;> rfl

/-- A member with another key than that of the first field is for the other fields. -/
theorem opens_other (hk : k ≠ key) {before after : List (String × Value)}
    (h : Opens (rest.Hole key path) fun v => rest.ofMembers?
      (before.filter (·.1 ≠ k) ++ (key, c v) :: after.filter (·.1 ≠ k))) :
    Opens ((Fields.field k isRequired shape rest).Hole key path) fun v =>
      (Fields.field k isRequired shape rest).ofMembers? (before ++ (key, c v) :: after) := by
  have hown (v : Value) : (before ++ (key, c v) :: after).filter (·.1 = k) =
      before.filter (·.1 = k) ++ after.filter (·.1 = k) := by
    simp [Ne.symm hk]
  have hothers (v : Value) : (before ++ (key, c v) :: after).filter (·.1 ≠ k) =
      before.filter (·.1 ≠ k) ++ (key, c v) :: after.filter (·.1 ≠ k) := by
    simp [Ne.symm hk]
  obtain ⟨own, hread⟩ : ∃ own : Option shape.Val, ∀ v,
      (Fields.field k isRequired shape rest).ofMembers? (before ++ (key, c v) :: after) =
        own.bind fun x => (rest.ofMembers?
          (before.filter (·.1 ≠ k) ++ (key, c v) :: after.filter (·.1 ≠ k))).map (Prod.mk x) :=
    ⟨_, fun v => by rw [Fields.ofMembers?, hown, hothers]; rfl⟩
  exact .congr (fun v _ => hread v)
    (h.bind_left own Prod.mk fun x g hg => .inr ⟨hk, x, g, hg, rfl⟩)

/-- In an object a field is open where its member is. -/
theorem Fields.opens_member {index : Nat} {inner : Shape} (fields : Fields)
    (hfind : fields.find? key = some (index, inner))
    (h : Opens (inner.Hole path) fun v => inner.ofValue? (c v))
    (before after : List (String × Value)) :
    Opens (fields.Hole key path) fun v => fields.ofMembers? (before ++ (key, c v) :: after) := by
  match fields with
  | .none => cases hfind
  | .field k isRequired shape rest =>
    by_cases hk : k = key
    · subst hk
      simp only [find?, if_true, Option.some.injEq, Prod.mk.injEq] at hfind
      obtain ⟨-, rfl⟩ := hfind
      exact opens_own h before after
    · simp only [find?, hk, if_false, Option.map_eq_some_iff, Prod.mk.injEq] at hfind
      obtain ⟨⟨index, found⟩, hfind, -, rfl⟩ := hfind
      exact opens_other hk (Fields.opens_member rest hfind h _ _)

/-- In a list a field is open at its index. -/
theorem Fields.opens_item {inner : Shape} (fields : Fields) (before after : List Value)
    (hfind : fields.find? key = some (before.length, inner))
    (h : Opens (inner.Hole path) fun v => inner.ofValue? (c v)) :
    Opens (fields.Hole key path) fun v => fields.ofItems? (before ++ c v :: after) := by
  match fields with
  | .none => cases hfind
  | .field k isRequired shape rest =>
    by_cases hk : k = key
    · simp only [find?, hk, if_true, Option.some.injEq, Prod.mk.injEq] at hfind
      obtain ⟨hlength, rfl⟩ := hfind
      obtain rfl := List.length_eq_zero_iff.1 hlength.symm
      exact h.bind_right (rest.ofItems? after) Prod.mk fun g xs hg => .inl ⟨hk, g, xs, hg, rfl⟩
    · simp only [find?, hk, if_false, Option.map_eq_some_iff, Prod.mk.injEq] at hfind
      obtain ⟨⟨index, found⟩, hfind, hlength, rfl⟩ := hfind
      cases before with
      | nil => cases hlength
      | cons w before =>
        obtain rfl : index = before.length := by simpa using hlength
        exact (Fields.opens_item rest before after hfind h).bind_left (shape.ofValue? w) Prod.mk
          fun x g hg => .inr ⟨hk, x, g, hg, rfl⟩

end

/-- The members of an object where one of them is open. -/
theorem members?_open {units : Spaced (List StringUnit)} {key : String} {inside left right : Blanks}
    (hkey : stringValue? units.value = some key) (before after : List (Member Value)) (v : Value) :
    (Value.object inside (before ++ ⟨units, ⟨left, v, right⟩⟩ :: after)).members? =
      ((Value.object inside before).members?).bind fun xs =>
        ((Value.object inside after).members?).map fun ys => xs ++ (key, v) :: ys := by
  simp only [Value.members?, List.mapM_append, List.mapM_cons, hkey]
  cases before.mapM fun m => (stringValue? m.key.value).map fun key => (key, m.content.value)
  · rfl
  · cases after.mapM fun m => (stringValue? m.key.value).map fun key => (key, m.content.value)
    · rfl
    · rfl

/-- A list has no members. -/
theorem orElse_noMembers (f : β → Option α) (g : γ → Option α) (x : β) :
    ((some x).bind f <|> (none : Option γ).bind g) = f x := by
  cases hx : f x <;> simp [hx]

/-- What a shape makes of a document that is open at a place is open at the place. -/
theorem Context.opens {shape : Shape} {path : List String} {c : Value → Value}
    (h : Context shape path c) : Opens (shape.Hole path) fun v => shape.ofValue? (c v) := by
  -- inwards from the document: what stands around the place is refused, or is kept aside
  induction h with
  | scalar =>
    refine ⟨some id, fun g hg => ?_, fun v _ => ?_⟩
    · obtain rfl := Option.some.inj hg
      rfl
    · change v.scalar? = _
      cases v.scalar? <;> rfl
  | @optional inner path c h ih =>
    refine .congr (fun v hv => ?_) (ih.map some fun g hg => ⟨g, hg, rfl⟩)
    simp only [Shape.ofValue?, h.isNull_eq hv]
    rfl
  | @element element path c inside left right before after h ih =>
    refine .congr (fun v _ => ?_) (ih.mapM (before.map Spaced.value) (after.map Spaced.value)
      fun xs g ys hg => ⟨xs, g, ys, hg, rfl⟩)
    simp only [Shape.ofValue?, Value.items?, List.map_append, List.map_cons]
    rfl
  | @member name key fields index inner path c units inside left right before after hkey hfind h
      ih =>
    cases hbefore : (Value.object inside before).members? with
    | none =>
      refine .congr (fun v _ => ?_) .none
      simp only [Shape.ofValue?, Value.items?, members?_open hkey, hbefore]
      rfl
    | some xs =>
      cases hafter : (Value.object inside after).members? with
      | none =>
        refine .congr (fun v _ => ?_) .none
        simp only [Shape.ofValue?, Value.items?, members?_open hkey, hbefore, hafter]
        rfl
      | some ys =>
        refine .congr (fun v _ => ?_) (fields.opens_member hfind ih xs ys)
        simp only [Shape.ofValue?, Value.items?, members?_open hkey, hbefore, hafter]
        rfl
  | @position name key fields inner path c inside left right before after hfind h ih =>
    refine .congr (fun v _ => ?_) (fields.opens_item (before.map Spaced.value)
      (after.map Spaced.value) (by rwa [List.length_map]) ih)
    simp only [Shape.ofValue?, Value.items?, Value.members?, List.map_append, List.map_cons]
    exact orElse_noMembers fields.ofItems? fields.ofMembers? _

end EnsembleCompiler.Json
