import EnsembleCompiler.Proofs.Json.Lists

/-!
# What a shape makes of a value

The values of a shape by recursion on the shape, for a JSON value that is already parsed: a record
takes the member of each of its fields, wherever it stands, and leaves other members aside. The
fields of a record may as well be put in their places one member after the other.
-/

namespace EnsembleCompiler.Json

variable {α : Type}

/-- The number that a numeral stands for; none, if it is past the range of numbers. -/
def Numeral.value? (n : Numeral) : Option Number := (Reader.number.on n.text).map Prod.fst

namespace Value

def integer? : Value → Option Int64
  | number n => n.value? >>= Number.toInteger?
  | _ => none

def real? : Value → Option Binary64
  | number n => n.value?.map Number.toReal
  | _ => none

def string? : Value → Option String
  | string units => stringValue? units
  | _ => none

def scalar? : Value → Option Scalar
  | number n => n.value?.map Scalar.number
  | string units => (stringValue? units).map Scalar.text
  | _ => none

def flag? : Value → Option Flag
  | bool value => some (.bool value)
  | number n => (n.value? >>= Number.toInteger?).map Flag.integer
  | _ => none

def items? : Value → Option (List Value)
  | list _ items => some (items.map Spaced.value)
  | _ => none

/-- The members of an object by their keys. Every key has to stand for a text. -/
def members? : Value → Option (List (String × Value))
  | object _ ms =>
    ms.mapM fun m => (stringValue? m.key.value).map fun key => (key, m.content.value)
  | _ => none

def isNull : Value → Bool
  | null => true
  | _ => false

end Value

mutual

/-- What a shape makes of a value. -/
def Shape.ofValue? : (shape : Shape) → Value → Option shape.Val
  | .integer, v => v.integer?
  | .real, v => v.real?
  | .text, v => v.string?
  | .scalar, v => v.scalar?
  | .flag, v => v.flag?
  | .list element, v => v.items?.bind fun vs => vs.mapM fun w => element.ofValue? w
  | .optional inner, v => if v.isNull then some none else (inner.ofValue? v).map some
  | .record _ fields, v =>
    (v.items?.bind fun vs => fields.ofItems? vs) <|> v.members?.bind fun ms => fields.ofMembers? ms

/-- The fields of a record from a list of their values in order. -/
def Fields.ofItems? : (fields : Fields) → List Value → Option fields.Vals
  | .none, [] => some ()
  | .none, _ :: _ => none
  | .field _ _ shape rest, v :: vs =>
    (shape.ofValue? v).bind fun x => (rest.ofItems? vs).map fun xs => (x, xs)
  | .field _ isRequired shape rest, [] =>
    if isRequired then none else (rest.ofItems? []).map fun xs => (shape.blank, xs)

/-- The fields of a record from members: one member with the key of a field, or none if the field
is not required. Members with other keys are left aside. -/
def Fields.ofMembers? : (fields : Fields) → List (String × Value) → Option fields.Vals
  | .none, _ => some ()
  | .field key isRequired shape rest, members =>
    let own := match members.filter (·.1 = key) with
      | [] => if isRequired then none else some shape.blank
      | [member] => shape.ofValue? member.2
      | _ => none
    own.bind fun x => (rest.ofMembers? (members.filter (·.1 ≠ key))).map fun xs => (x, xs)

end

/-! ### Members one after the other -/

/-- What becomes of the value of a field when the members with its key are read. -/
def ownSlot (f : Value → Option α) (slot : Option α) (m : String × Value) : Option (Option α) :=
  if slot.isSome then none else (f m.2).map some

/-- A member for the first field of a record, or for the other fields. -/
def putFirst {σ : Type} (key : String) (f : Value → Option α)
    (g : σ → String × Value → Option σ) (slots : Option α × σ) (m : String × Value) :
    Option (Option α × σ) :=
  if m.1 = key then (ownSlot f slots.1 m).map fun slot => (slot, slots.2)
  else (g slots.2 m).map fun others => (slots.1, others)

/-- What the reader of a member makes of a member, given the fields that have been read. -/
def Fields.put? : (fields : Fields) → fields.Slots → String × Value → Option fields.Slots
  | .none, _, _ => some ()
  | .field key _ shape rest, slots, m =>
    putFirst key shape.ofValue? (fun slots m => rest.put? slots m) slots m

/-- The members for the first field and those for the others do not meet. -/
theorem foldlM_putFirst {σ : Type} (key : String) (f : Value → Option α)
    (g : σ → String × Value → Option σ) (members : List (String × Value)) (slot : Option α)
    (others : σ) :
    members.foldlM (putFirst key f g) (slot, others) =
      ((members.filter (·.1 = key)).foldlM (ownSlot f) slot).bind fun slot =>
        ((members.filter (·.1 ≠ key)).foldlM g others).map fun others => (slot, others) := by
  induction members generalizing slot others with
  | nil => rfl
  | cons m members ih =>
    rw [List.foldlM_cons]
    by_cases hkey : m.1 = key
    · cases hslot : ownSlot f slot m <;> simp [putFirst, hkey, hslot, ih]
    · cases hothers : g others m with
      | some next => simp [putFirst, hkey, hothers, ih]
      | none => simp [putFirst, hkey, hothers]

/-- The value of a field: that of its only member, or the default if there is none. -/
theorem foldlM_ownSlot (f : Value → Option α) (members : List (String × Value)) :
    members.foldlM (ownSlot f) none = match members with
      | [] => some none
      | [m] => (f m.2).map some
      | _ => none := by
  match members with
  | [] => rfl
  | [m] => simp [ownSlot]
  | m :: m' :: members =>
    cases hm : f m.2 <;> simp [ownSlot, hm]

/-- A record is finished by its first field and by the others. -/
theorem finish_putFirst {σ β : Type} (key : String) (isRequired : Bool) (blank : α)
    (f : Value → Option α) (g : σ → String × Value → Option σ) (start : σ)
    (finish : σ → Except String β) (members : List (String × Value)) :
    ((members.foldlM (putFirst key f g) (none, start)).bind fun slots =>
      Except.toOption (match slots.1 with
        | some value => (finish slots.2).map fun values => (value, values)
        | none =>
          if isRequired then .error key
          else (finish slots.2).map fun values => (blank, values))) =
      Option.bind (match members.filter (·.1 = key) with
        | [] => if isRequired then none else some blank
        | [m] => f m.2
        | _ => none) fun x =>
          (((members.filter (·.1 ≠ key)).foldlM g start).bind fun others =>
            (finish others).toOption).map fun xs => (x, xs) := by
  rw [foldlM_putFirst, foldlM_ownSlot]
  have htoOption (x : α) (others : σ) : ((finish others).map fun values => (x, values)).toOption =
      (finish others).toOption.map fun values => (x, values) := by
    cases finish others <;> rfl
  generalize (members.filter (·.1 ≠ key)).foldlM g start = read
  -- no member, one or several have the key; a second one is an error
  cases members.filter (·.1 = key) with
  | nil =>
    cases read with
    | none => cases isRequired <;> rfl
    | some others =>
      cases isRequired with
      | true => rfl
      | false => simp [htoOption]
  | cons m own =>
    cases own with
    | nil => cases hf : f m.2 <;> cases read <;> simp [htoOption, hf]
    | cons m' own => rfl

/-- Members that are read one after the other give the fields that the members have together. -/
theorem Fields.foldlM_put? (fields : Fields) (members : List (String × Value)) :
    ((members.foldlM fields.put? fields.emptySlots).bind fun slots =>
      (fields.finish slots).toOption) = fields.ofMembers? members := by
  match fields with
  | .none =>
    have hput : members.foldlM (fun (_ : Unit) (_ : String × Value) => some ()) () = some () := by
      induction members with
      | nil => rfl
      | cons m members ih => rw [List.foldlM_cons]; exact ih
    exact congrArg (·.bind fun _ => some ()) hput
  | .field key isRequired shape rest =>
    -- the other fields see the members that the first field passes on
    have hrest := Fields.foldlM_put? rest (members.filter (·.1 ≠ key))
    have hput : (Fields.field key isRequired shape rest).put? =
      putFirst key shape.ofValue? rest.put? := by
      funext slots m
      rfl
    have hfinish := finish_putFirst key isRequired shape.blank shape.ofValue? rest.put?
      rest.emptySlots rest.finish members
    rw [hrest] at hfinish
    have hmembers : (Fields.field key isRequired shape rest).ofMembers? members =
      Option.bind (match members.filter (·.1 = key) with
        | [] => if isRequired then Option.none else some shape.blank
        | [m] => shape.ofValue? m.2
        | _ => Option.none) fun x =>
          (rest.ofMembers? (members.filter (·.1 ≠ key))).map fun xs => (x, xs) := by
      rw [Fields.ofMembers?]
      rfl
    rw [hput, hmembers]
    refine Eq.trans (congrArg (Option.bind _) (funext fun slots => ?_)) hfinish
    obtain ⟨slot, others⟩ := slots
    cases slot <;> rfl

end EnsembleCompiler.Json
