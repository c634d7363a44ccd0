import EnsembleCompiler.Proofs.Json.Meaning

/-!
# The fields of a record by their keys

In an object a record takes its fields from the members with their keys, and no field depends on
the order of the members or on members with other keys.
-/

namespace EnsembleCompiler.Json

/-- The values of the members with a key. -/
def valuesOf (members : List (String × Value)) (key : String) : List Value :=
  (members.filter (·.1 = key)).map Prod.snd

theorem filter_of_valuesOf_nil {members : List (String × Value)} {key : String}
    (h : valuesOf members key = []) : members.filter (·.1 = key) = [] :=
  List.map_eq_nil_iff.1 h

theorem filter_of_valuesOf_singleton {members : List (String × Value)} {key : String} {v : Value}
    (h : valuesOf members key = [v]) : members.filter (·.1 = key) = [(key, v)] := by
  obtain ⟨m, hfilter, rfl⟩ := List.map_eq_singleton_iff.1 h
  have hm : m ∈ members.filter (·.1 = key) := hfilter ▸ List.mem_singleton_self m
  have hkey : m.1 = key := by simpa using (List.mem_filter.1 hm).2
  rw [hfilter, ← hkey]

namespace Fields

def keys : Fields → List String
  | .none => []
  | .field key _ _ rest => key :: rest.keys

/-- A record leaves members aside whose key is none of its own. -/
theorem ofMembers?_filter_ne {key : String} (fields : Fields) (h : key ∉ fields.keys)
    (members : List (String × Value)) :
    fields.ofMembers? (members.filter (·.1 ≠ key)) = fields.ofMembers? members := by
  match fields with
  | .none => rfl
  | .field k isRequired shape rest =>
    have hkey : k ≠ key := fun heq => h (heq ▸ List.mem_cons_self)
    have hrest := ofMembers?_filter_ne rest (fun hmem => h (List.mem_cons_of_mem _ hmem))
      (members.filter (·.1 ≠ k))
    have hown : (members.filter (·.1 ≠ key)).filter (·.1 = k) = members.filter (·.1 = k) := by
      rw [List.filter_filter]
      refine List.filter_congr fun m _ => ?_
      by_cases hm : m.1 = k <;> simp [hm, hkey]
    have hothers : (members.filter (·.1 ≠ key)).filter (·.1 ≠ k) =
        (members.filter (·.1 ≠ k)).filter (·.1 ≠ key) := by
      rw [List.filter_filter, List.filter_filter]
      exact List.filter_congr fun m _ => Bool.and_comm _ _
    rw [ofMembers?, ofMembers?, hown, hothers, hrest]

variable {key : String} {isRequired : Bool} {shape : Shape} {rest : Fields}
  {members : List (String × Value)} {xs : rest.Vals}

/-- A field that one member is for has the value of the member. -/
theorem ofMembers?_present {v : Value} {x : shape.Val} (h : valuesOf members key = [v])
    (hvalue : shape.ofValue? v = some x) (hkey : key ∉ rest.keys)
    (hrest : rest.ofMembers? members = some xs) :
    (field key isRequired shape rest).ofMembers? members = some (x, xs) := by
  rw [ofMembers?, ofMembers?_filter_ne rest hkey, hrest, filter_of_valuesOf_singleton h]
  exact (congrArg (Option.bind · _) hvalue).trans rfl

/-- A field that no member is for has its default, if it is not required. -/
theorem ofMembers?_absent (h : valuesOf members key = []) (hkey : key ∉ rest.keys)
    (hrest : rest.ofMembers? members = some xs) :
    (field key false shape rest).ofMembers? members = some (shape.blank, xs) := by
  rw [ofMembers?, ofMembers?_filter_ne rest hkey, hrest, filter_of_valuesOf_nil h]
  rfl

end Fields

/-! ### Values without blanks and escapes -/

/-- Whether a character stands for itself in a string. -/
def isVerbatim (c : Char) : Bool := c ≠ '"' ∧ c ≠ '\\' ∧ 0x20 ≤ c.toNat

theorem ne_of_isVerbatim {c : Char} (h : isVerbatim c = true) :
    c ≠ '"' ∧ c ≠ '\\' ∧ 0x20 ≤ c.toNat := of_decide_eq_true h

/-- Text as it stands in a string, if all its characters stand for themselves. -/
def plainUnits (cs : List Char) : List StringUnit :=
  cs.filterMap fun c => if h : isVerbatim c then some (.plain c (ne_of_isVerbatim h)) else none

theorem unitsValue?_plainUnits {cs : List Char} (h : cs.all isVerbatim = true) :
    unitsValue? (plainUnits cs) = some cs := by
  induction cs with
  | nil => rfl
  | cons c cs ih =>
    rw [List.all_cons, Bool.and_eq_true] at h
    have hcons : plainUnits (c :: cs) = .plain c (ne_of_isVerbatim h.1) :: plainUnits cs := by
      rw [plainUnits, List.filterMap_cons_some (dif_pos h.1)]
      rfl
    simp only [hcons, unitsValue?, ih h.2, Option.map_some]

theorem stringValue?_plainUnits {key : String} (h : key.toList.all isVerbatim = true) :
    stringValue? (plainUnits key.toList) = some key := by
  rw [stringValue?, unitsValue?_plainUnits h, Option.map_some, String.ofList_toList]

/-- The numeral of one digit. -/
def Numeral.digit (isNegative : Bool) (c : Char) (hc : c.isDigit = true) : Numeral where
  isNegative := isNegative
  whole := [c]
  fraction := none
  exponent := none
  whole_digits := ⟨by simp, by simpa using hc⟩
  zero_alone h := (List.cons.inj h).2.symm
  fraction_digits := by simp

/-- Something without blanks around it. -/
def Spaced.tight {α : Type} (x : α) : Spaced α := ⟨.none, x, .none⟩

/-- A member without blanks. -/
def Member.tight (m : String × Value) : Member Value := ⟨.tight (plainUnits m.1.toList), .tight m.2⟩

namespace Value

def ofText (s : String) : Value := string (plainUnits s.toList)

def ofItems (vs : List Value) : Value := list .none (vs.map .tight)

def ofMembers (members : List (String × Value)) : Value :=
  object .none (members.map .tight)

@[simp]
theorem items?_ofItems (vs : List Value) : (ofItems vs).items? = some vs := by
  simp [ofItems, items?, Function.comp_def, Spaced.tight]

theorem members?_ofMembers {members : List (String × Value)}
    (h : (members.map Prod.fst).all (·.toList.all isVerbatim) = true) :
    (ofMembers members).members? = some members := by
  rw [ofMembers, members?, Reader.mapM_eq_some_iff, List.forall₂_map_left_iff, List.forall₂_same]
  intro m hm
  have hkey := List.all_eq_true.1 h m.1 (List.mem_map_of_mem hm)
  simp [Member.tight, Spaced.tight, stringValue?_plainUnits hkey]

end Value

end EnsembleCompiler.Json
