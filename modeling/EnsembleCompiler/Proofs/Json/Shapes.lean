import EnsembleCompiler.Proofs.Json.Meaning

/-!
# Reading shapes

The reader of a shape makes of the text of a value what the shape makes of the value, wherever the
text stands, and takes all of it.
-/

namespace EnsembleCompiler.Json

open Value (itemTexts memberTexts)

variable {α : Type} {rest : List Char}

/-! ### Scalars -/

theorem Numeral.on_number (n : Numeral) (h : Ends rest) :
    Reader.number.on (n.text ++ rest) = n.value?.map fun x => (x, rest) := by
  rw [(Reader.settles_number n).on_append h, value?]
  cases Reader.number.on n.text <;> rfl

namespace Reader

theorem isJsonBlank_of_startsNumber {c : Char} (h : startsNumber c = true) :
    isJsonBlank c = false :=
  isJsonBlank_of_beginsValue (by simp [beginsValue, h])

/-- No word, string, list or object begins as a number does. -/
theorem ne_of_startsNumber {c : Char} (h : startsNumber c = true) :
    c ≠ 'n' ∧ c ≠ 't' ∧ c ≠ 'f' ∧ c ≠ '"' ∧ c ≠ '[' ∧ c ≠ '\x7b' := by
  refine ⟨?_, ?_, ?_, ?_, ?_, ?_⟩ <;> rintro rfl <;> exact absurd h (by decide)

theorem on_peekToken_numeral (n : Numeral) (rest : List Char) :
    ∃ c, startsNumber c = true ∧ peekToken.on (n.text ++ rest) = some (some c, n.text ++ rest) := by
  obtain ⟨c, tail, htext, hc⟩ := n.exists_text_eq_cons
  exact ⟨c, hc, by rw [htext, List.cons_append, on_peekToken_cons (isJsonBlank_of_startsNumber hc)]⟩

theorem on_integer (v : Value) (h : Ends rest) :
    integer.on (v.text ++ rest) = v.integer?.map fun x => (x, rest) := by
  cases v with
  | number n =>
    obtain ⟨c, hc, hpeek⟩ := on_peekToken_numeral n rest
    rw [Value.text]
    simp only [integer, on_bind, hpeek, Option.bind_some, hc, if_true, n.on_number h,
      Value.integer?]
    cases n.value? with
    | none => rfl
    | some x =>
      cases hx : x.toInteger? with
      | some i => simp [hx]
      | none => cases x <;> simp [hx]
  | bool value =>
    cases value <;> simp [Value.text, integer, isJsonBlank, startsNumber, Value.integer?]
  | _ => simp [Value.text, quotedText, integer, isJsonBlank, startsNumber, Value.integer?]

theorem on_real (v : Value) (h : Ends rest) :
    real.on (v.text ++ rest) = v.real?.map fun x => (x, rest) := by
  cases v with
  | number n =>
    obtain ⟨c, hc, hpeek⟩ := on_peekToken_numeral n rest
    rw [Value.text]
    simp only [real, on_bind, hpeek, Option.bind_some, hc, if_true, n.on_number h, Value.real?]
    cases n.value? <;> rfl
  | bool value => cases value <;> simp [Value.text, real, isJsonBlank, startsNumber, Value.real?]
  | _ => simp [Value.text, quotedText, real, isJsonBlank, startsNumber, Value.real?]

theorem on_text (v : Value) (rest : List Char) :
    Reader.text.on (v.text ++ rest) = v.string?.map fun x => (x, rest) := by
  cases v with
  | string units =>
    simp only [Value.text, quotedText, Reader.text, Value.string?, stringValue?]
    cases hunits : unitsValue? units <;> simp [isJsonBlank, on_stringBody, hunits]
  | number n =>
    obtain ⟨c, hc, hpeek⟩ := on_peekToken_numeral n rest
    have hquote := (ne_of_startsNumber hc).2.2.2.1
    simp [Value.text, Reader.text, hpeek, Value.string?]
  | bool value => cases value <;> simp [Value.text, Reader.text, isJsonBlank, Value.string?]
  | _ => simp [Value.text, Reader.text, isJsonBlank, Value.string?]

theorem on_anyValue_number (n : Numeral) (room : Nat) (h : Ends rest) :
    (anyValue room).on (n.text ++ rest) = n.value?.map fun x => (Kind.number x, rest) := by
  obtain ⟨c, hc, hpeek⟩ := on_peekToken_numeral n rest
  obtain ⟨hn, ht, hf, hquote, hlist, hobject⟩ := ne_of_startsNumber hc
  unfold anyValue
  simp only [on_bind, hpeek, Option.bind_some, hc, if_true, n.on_number h]
  cases n.value? <;> rfl

theorem on_anyValue_string (units : List StringUnit) (room : Nat) (rest : List Char) :
    (anyValue room).on (quotedText units ++ rest) =
      (stringValue? units).map fun s => (Kind.text s, rest) := by
  unfold anyValue
  cases hunits : unitsValue? units <;>
    simp [quotedText, isJsonBlank, on_stringBody, stringValue?, hunits]

theorem on_anyValue_null (room : Nat) (rest : List Char) :
    (anyValue room).on (Value.null.text ++ rest) = some (.null, rest) := by
  unfold anyValue
  simp [Value.text, isJsonBlank]

theorem on_anyValue_bool (value : Bool) (room : Nat) (rest : List Char) :
    (anyValue room).on ((Value.bool value).text ++ rest) = some (.bool value, rest) := by
  unfold anyValue
  cases value <;> simp [Value.text, isJsonBlank]

/-- What begins with a bracket is taken for a list if it can be read at all. -/
theorem kind_of_on_anyValue_list {room : Nat} {cs : List Char} {r : Kind × List Char}
    (h : (anyValue room).on ('[' :: cs) = some r) : r.1 = .list := by
  unfold anyValue at h
  cases room with
  | zero => simp [isJsonBlank] at h
  | succ room =>
    simp only [on_bind, on_peekToken_cons (show isJsonBlank '[' = false from rfl),
      Option.bind_some, on_pure, Option.bind_eq_some_iff] at h
    obtain ⟨read, -, hr⟩ := h
    exact congrArg Prod.fst (Option.some.inj hr).symm

theorem kind_of_on_anyValue_object {room : Nat} {cs : List Char} {r : Kind × List Char}
    (h : (anyValue room).on ('\x7b' :: cs) = some r) : r.1 = .object := by
  unfold anyValue at h
  cases room with
  | zero => simp [isJsonBlank] at h
  | succ room =>
    simp only [on_bind, on_peekToken_cons (show isJsonBlank '\x7b' = false from rfl),
      Option.bind_some, on_pure, Option.bind_eq_some_iff] at h
    obtain ⟨read, -, hr⟩ := h
    exact congrArg Prod.fst (Option.some.inj hr).symm

theorem on_scalar (v : Value) (room : Nat) (h : Ends rest) :
    (scalar room).on (v.text ++ rest) = v.scalar?.map fun x => (x, rest) := by
  cases v with
  | null => simp [scalar, on_anyValue_null, Value.scalar?]
  | bool value => simp [scalar, on_anyValue_bool, Value.scalar?]
  | number n =>
    simp only [Value.text, scalar, on_bind, on_anyValue_number n room h, Value.scalar?]
    cases n.value? <;> rfl
  | string units =>
    simp only [Value.text, scalar, on_bind, on_anyValue_string, Value.scalar?]
    cases stringValue? units <;> rfl
  | list inside items =>
    rw [Value.text_list, List.cons_append, scalar, on_bind]
    cases hread : (anyValue room).on ('[' :: _) with
    | none => rfl
    | some r => simp [kind_of_on_anyValue_list hread, Value.scalar?]
  | object inside members =>
    rw [Value.text_object, List.cons_append, scalar, on_bind]
    cases hread : (anyValue room).on ('\x7b' :: _) with
    | none => rfl
    | some r => simp [kind_of_on_anyValue_object hread, Value.scalar?]

theorem on_flag (v : Value) (room : Nat) (h : Ends rest) :
    (flag room).on (v.text ++ rest) = v.flag?.map fun x => (x, rest) := by
  cases v with
  | null => simp [flag, on_anyValue_null, Value.flag?]
  | bool value => simp [flag, on_anyValue_bool, Value.flag?]
  | number n =>
    simp only [Value.text, flag, on_bind, on_anyValue_number n room h, Value.flag?]
    cases n.value? with
    | none => rfl
    | some x => cases hx : x.toInteger? <;> simp [hx]
  | string units =>
    simp only [Value.text, flag, on_bind, on_anyValue_string, Value.flag?]
    cases stringValue? units <;> rfl
  | list inside items =>
    rw [Value.text_list, List.cons_append, flag, on_bind]
    -- no list is a flag; it may be refused earlier, while it is read
    cases hread : (anyValue room).on ('[' :: _) with
    | none => rfl
    | some r => simp [kind_of_on_anyValue_list hread, Value.flag?]
  | object inside members =>
    rw [Value.text_object, List.cons_append, flag, on_bind]
    cases hread : (anyValue room).on ('\x7b' :: _) with
    | none => rfl
    | some r => simp [kind_of_on_anyValue_object hread, Value.flag?]

theorem on_optional {inner : Reader α} {f : Value → Option α} (v : Value)
    (hinner : inner.on (v.text ++ rest) = (f v).map fun x => (x, rest)) :
    (optional inner).on (v.text ++ rest) =
      (if v.isNull then some none else (f v).map some).map fun x => (x, rest) := by
  by_cases hnull : v = .null
  · subst hnull
    simp [Value.text, optional, isJsonBlank, Value.isNull]
  · have hisNull : v.isNull = false := by cases v <;> first | rfl | exact absurd rfl hnull
    -- the reader looks at the first character only, and `null` is the one value that begins with
    -- its letter
    have hpeek : ∃ c ≠ 'n', peekToken.on (v.text ++ rest) = some (some c, v.text ++ rest) := by
      cases v with
      | null => exact absurd rfl hnull
      | number n =>
        obtain ⟨c, hc, hpeek⟩ := on_peekToken_numeral n rest
        exact ⟨c, (ne_of_startsNumber hc).1, by rw [Value.text, hpeek]⟩
      | bool value =>
        cases value with
        | true => exact ⟨'t', by decide, by simp [Value.text, isJsonBlank]⟩
        | false => exact ⟨'f', by decide, by simp [Value.text, isJsonBlank]⟩
      | string units => exact ⟨'"', by decide, by simp [Value.text, quotedText, isJsonBlank]⟩
      | list inside items => exact ⟨'[', by decide, by simp [Value.text, isJsonBlank]⟩
      | object inside members => exact ⟨'\x7b', by decide, by simp [Value.text, isJsonBlank]⟩
    obtain ⟨c, hc, hpeek⟩ := hpeek
    simp [optional, hpeek, hc, hinner, hisNull]
    cases f v <;> rfl

theorem on_colon (m : Member Value) (rest : List Char) :
    colon.on (m.fromKey rest) =
      some ((), m.content.before.text ++ (m.content.value.text ++ rest)) := by
  simp [colon, Member.fromKey, on_peekToken_blanks, isJsonBlank]

theorem on_peekToken_bind_blanks (k : Option Char → Reader α) (b : Blanks) (cs : List Char) :
    (peekToken >>= k).on (b.text ++ cs) = (peekToken >>= k).on cs := by
  rw [on_bind, on_bind, on_peekToken_blanks]

theorem on_anyValue_bind_blanks (k : Kind → Reader α) (room : Nat) (b : Blanks)
    (cs : List Char) : (anyValue room >>= k).on (b.text ++ cs) = (anyValue room >>= k).on cs := by
  rw [on_bind, on_bind]
  unfold anyValue
  rw [on_peekToken_bind_blanks]

theorem on_bracketed (bracket : Bracket) {room : Nat} (hroom : 0 < room) (inner : Reader α)
    (c : Char) (cs : List Char) : (bracketed bracket room inner).on (c :: cs) = inner.on cs := by
  have hne : room ≠ 0 := by omega
  simp [bracketed, hne]

/-- A member that belongs to no field. -/
theorem on_unknown (m : Member Value) (h : Ends rest) :
    (do colon; skipValue).on (m.fromKey rest) = some ((), rest) := by
  rw [on_bind, on_colon]
  exact on_skipValue _ _ h

theorem on_list {element : Reader α} {room : Nat} (hroom : 0 < room) (f : Value → Option α)
    (helement : ∀ w rest, Ends rest → element.on (w.text ++ rest) = (f w).map fun x => (x, rest))
    (v : Value) (rest : List Char) :
    (list room element).on (v.text ++ rest) =
      (v.items?.bind fun ws => ws.mapM fun w => f w).map fun x => (x, rest) := by
  cases v with
  | list inside items =>
    have hread := on_listRest element f items (fun x _ => helement x.value) inside rest
    simp only [Value.text_list, List.cons_append, List.append_assoc, list, on_bind,
      on_peekToken_cons (show isJsonBlank '[' = false from rfl), Option.bind_some,
      on_bracketed .list hroom]
    simpa [Value.items?, List.mapM_map, Function.comp_def] using hread
  | number n =>
    obtain ⟨c, hc, hpeek⟩ := on_peekToken_numeral n rest
    obtain ⟨hn, ht, hf, hquote, hlist, hobject⟩ := ne_of_startsNumber hc
    simp [Value.text, list, hpeek, Value.items?]
  | bool value => cases value <;> simp [Value.text, list, isJsonBlank, Value.items?]
  | _ => simp [Value.text, quotedText, list, isJsonBlank, Value.items?]

theorem on_record {name : String} {positional named : Reader α} {room : Nat} (hroom : 0 < room)
    (fi : List Value → Option α) (fm : List (String × Value) → Option α)
    (hpositional : ∀ (items : List (Spaced Value)) (b : Blanks) rest,
      (do let values ← positional; listEnd; return values).on
          (b.text ++ (separated true (itemTexts items) ++ ']' :: rest)) =
        (fi (items.map Spaced.value)).map fun x => (x, rest))
    (hnamed : ∀ (ms : List (Member Value)) (b : Blanks) rest,
      named.on (b.text ++ (separated true (memberTexts ms) ++ '\x7d' :: rest)) =
        ((Value.object b ms).members?.bind fm).map fun x => (x, rest))
    (v : Value) (rest : List Char) :
    (record name room positional named).on (v.text ++ rest) =
      (v.items?.bind fi <|> v.members?.bind fm).map fun x => (x, rest) := by
  -- a list gives the fields in their order, an object by their names; other values are no records
  cases v with
  | list inside items =>
    simp only [Value.text_list, List.cons_append, List.append_assoc, record, on_bind,
      on_peekToken_cons (show isJsonBlank '[' = false from rfl), Option.bind_some,
      on_bracketed .list hroom]
    simpa [Value.items?, Value.members?] using hpositional items inside rest
  | object inside members =>
    simp only [Value.text_object, List.cons_append, List.append_assoc, record, on_bind,
      on_peekToken_cons (show isJsonBlank '\x7b' = false from rfl), Option.bind_some,
      on_bracketed .object hroom]
    simpa [Value.items?] using hnamed members inside rest
  | number n =>
    obtain ⟨c, hc, hpeek⟩ := on_peekToken_numeral n rest
    obtain ⟨hn, ht, hf, hquote, hlist, hobject⟩ := ne_of_startsNumber hc
    simp [Value.text, record, hpeek, Value.items?, Value.members?]
  | bool value =>
    cases value <;> simp [Value.text, record, isJsonBlank, Value.items?, Value.members?]
  | _ => simp [Value.text, quotedText, record, isJsonBlank, Value.items?, Value.members?]

/-- A member for the first field of a record, or for one of the others. -/
theorem on_field {σ : Type} {name key : String} {slot : Option α} {others : σ} {value : Reader α}
    {other : Reader σ} {m : Member Value} {f : Value → Option α}
    {g : σ → String × Value → Option σ}
    (hvalue : value.on (m.content.before.text ++ (m.content.value.text ++ rest)) =
      (f m.content.value).map fun x => (x, rest))
    (hother : other.on (m.fromKey rest) =
      (g others (key, m.content.value)).map fun y => (y, rest)) :
    (if key = name then do
      if slot.isSome then failUnplaced (.duplicateField name)
      colon
      return (some (← value), others)
    else do return (slot, ← other)).on (m.fromKey rest) =
      (putFirst name f g (slot, others) (key, m.content.value)).map fun z => (z, rest) := by
  by_cases hkey : key = name
  · cases slot with
    | some _ => simp [putFirst, ownSlot, hkey]
    | none =>
      cases hf : f m.content.value <;> simp [putFirst, ownSlot, hkey, on_colon, hvalue, hf]
  · cases hg : g others (key, m.content.value) <;> simp [putFirst, hkey, hother, hg]

/-- The members of an object, its closing bracket and what becomes of them. -/
theorem on_named {σ : Type} {readers : Reader σ} {members : Option (List (String × Value))}
    {fold : List (String × Value) → Option σ} {fm : List (String × Value) → Option α}
    {cs : List Char} (finish : σ → Except String α)
    (hread : readers.on cs = (members.bind fold).map fun s => (s, '\x7d' :: rest))
    (hfinish : ∀ ms, ((fold ms).bind fun s => (finish s).toOption) = fm ms) :
    (do
      let slots ← readers
      match finish slots with
      | .ok values =>
        let _ ← peekToken
        shift
        return values
      | .error key => failUnplaced (.missingField key)).on cs =
      (members.bind fm).map fun x => (x, rest) := by
  have hclose : isJsonBlank '\x7d' = false := rfl
  cases members with
  | none => simp [hread]
  | some ms =>
    rw [on_bind, hread, Option.bind_some, Option.bind_some, ← hfinish]
    cases fold ms with
    | none => rfl
    | some s => cases hs : finish s <;> simp [hs, hclose, Except.toOption]

theorem on_listEnd (isFirst : Bool) (items : List (Spaced Value)) (b : Blanks)
    (rest : List Char) :
    listEnd.on (b.text ++ (separated isFirst (itemTexts items) ++ ']' :: rest)) =
      if items = [] then some ((), rest) else none := by
  cases items with
  | nil => simp [listEnd, itemTexts, separated, on_peekToken_blanks, isJsonBlank]
  | cons x items =>
    obtain ⟨c, tail, htext, hc⟩ := x.value.exists_text_eq_cons
    have hblank := isJsonBlank_of_beginsValue hc
    have hends := endsValue_of_beginsValue hc
    have hclose : c ≠ ']' := by rintro rfl; exact absurd hc (by decide)
    have hcomma : c ≠ ',' := by rintro rfl; exact absurd hc (by decide)
    have hcommaBlank : isJsonBlank ',' = false := rfl
    cases isFirst <;>
      simp [listEnd, itemTexts, separated, Spaced.around, on_peekToken_blanks, htext, hblank,
        hcommaBlank, hclose]

/-- A list without fields has to be empty. -/
theorem on_noFields (isFirst : Bool) (items : List (Spaced Value)) (b : Blanks)
    (rest : List Char) :
    (do let values ← (pure () : Reader Unit); listEnd; return values).on
        (b.text ++ (separated isFirst (itemTexts items) ++ ']' :: rest)) =
      (if items = [] then some () else none).map fun x => (x, rest) := by
  simp only [on_bind, on_pure, on_listEnd]
  split <;> rfl

/-- The first value of a record stands in front of the others, up to the end of the list. -/
theorem on_thenEnd {β : Type} (y : α) (others : Reader β) (cs : List Char) :
    (do
      let values ← (do return (y, ← others))
      listEnd
      return values).on cs =
      ((do let values ← others; listEnd; return values).on cs).map
        fun (ys, rest) => ((y, ys), rest) := by
  simp only [on_bind, on_pure]
  cases others.on cs with
  | none => rfl
  | some r => cases hend : listEnd.on r.2 <;> simp [hend]

/-- The fields of a record in a list, from one on that has an element. -/
theorem on_position_element {β : Type} {isFirst : Bool} {value : Reader α}
    {absent : Reader (α × β)} {others : Reader β} {b : Blanks} {x : Spaced Value}
    {items : List (Spaced Value)} {y : Option α} {ys : Option β}
    (hvalue : value.on (x.value.text ++
      (x.after.text ++ (separated false (itemTexts items) ++ ']' :: rest))) =
        y.map fun y => (y, x.after.text ++ (separated false (itemTexts items) ++ ']' :: rest)))
    (hothers : (do let values ← others; listEnd; return values).on
      (x.after.text ++ (separated false (itemTexts items) ++ ']' :: rest)) =
        ys.map fun ys => (ys, rest)) :
    (do
      let values ← (do
        if ← hasElement isFirst then
          let v ← value
          return (v, ← others)
        else absent)
      listEnd
      return values).on (b.text ++ (separated isFirst (itemTexts (x :: items)) ++ ']' :: rest)) =
      (y.bind fun y => ys.map fun ys => (y, ys)).map fun z => (z, rest) := by
  -- the end of the list is read behind the other fields and changes nothing of the value
  have hend (y : α) := on_thenEnd y others
    (x.after.text ++ (separated false (itemTexts items) ++ ']' :: rest))
  rw [on_bind, on_bind, on_hasElement]
  simp only [hothers, Option.bind_some, if_true, on_bind, hvalue] at hend ⊢
  cases y with
  | none => rfl
  | some y =>
    refine (hend y).trans ?_
    cases ys <;> rfl

/-- The fields of a record in a list, from one on that has no element. -/
theorem on_position_end {β : Type} {isFirst isRequired : Bool} {value : Reader (α × β)}
    {cause : Cause} {blank : α} {others : Reader β} {b : Blanks} {ys : Option β}
    (hothers : (do let values ← others; listEnd; return values).on (']' :: rest) =
        ys.map fun ys => (ys, rest)) :
    (do
      let values ← (do
        if ← hasElement isFirst then value
        else
          if isRequired then failUnplaced cause
          return (blank, ← others))
      listEnd
      return values).on (b.text ++ ']' :: rest) =
      (if isRequired then none else ys.map fun ys => (blank, ys)).map fun z => (z, rest) := by
  have hend := on_thenEnd blank others (']' :: rest)
  rw [on_bind, on_bind, on_hasElement_end]
  cases isRequired with
  | true => simp
  | false =>
    simp only [hothers, Option.bind_some, Bool.false_eq_true, if_false] at hend ⊢
    refine (on_bind _ _ _).symm.trans (hend.trans ?_)
    cases ys <;> rfl

end Reader

/-! ### Shapes -/

/-- The reader of a shape passes over blanks in front. -/
theorem Shape.on_read_blanks (shape : Shape) (room : Nat) (b : Blanks) (cs : List Char) :
    (shape.read room).on (b.text ++ cs) = (shape.read room).on cs := by
  cases shape with
  | integer => exact Reader.on_peekToken_bind_blanks _ b cs
  | real => exact Reader.on_peekToken_bind_blanks _ b cs
  | text => exact Reader.on_peekToken_bind_blanks _ b cs
  | scalar => exact Reader.on_anyValue_bind_blanks _ room b cs
  | flag => exact Reader.on_anyValue_bind_blanks _ room b cs
  | list element => exact Reader.on_peekToken_bind_blanks _ b cs
  | optional inner => exact Reader.on_peekToken_bind_blanks _ b cs
  | record name fields => exact Reader.on_peekToken_bind_blanks _ b cs

mutual

/-- How many brackets the values of a shape open inside one another. -/
def Shape.depth : Shape → Nat
  | .list element => element.depth + 1
  | .optional inner => inner.depth
  | .record _ fields => fields.depth + 1
  | _ => 0

def Fields.depth : Fields → Nat
  | .none => 0
  | .field _ _ shape rest => max shape.depth rest.depth

end

/-- One member after the other is the same as the list of all members by their keys. -/
theorem foldlM_memberStep (f : α → String × Value → Option α) (ms : List (Member Value))
    (inside : Blanks) (start : α) :
    ms.foldlM (Reader.memberStep fun read key v => f read (key, v)) start =
      (Value.object inside ms).members?.bind fun members =>
        members.foldlM f start := by
  simp only [Value.members?]
  induction ms generalizing start with
  | nil => simp
  | cons m ms ih =>
    rw [List.foldlM_cons, List.mapM_cons]
    simp only [Reader.memberStep, Option.bind_eq_bind]
    cases stringValue? m.key.value with
    | none => rfl
    | some key =>
      cases hnext : f start (key, m.content.value) with
      | none =>
        cases List.mapM (m := Option) _ ms <;> simp [hnext]
      | some next =>
        cases hkeyed : ms.mapM fun m => (stringValue? m.key.value).map fun key =>
          (key, m.content.value) <;> simp [hnext, ih next, hkeyed]

mutual

/-- The reader of a shape makes of the text of a value what the shape makes of the value, and takes
all of it. -/
theorem Shape.on_read (shape : Shape) (room : Nat) (hroom : shape.depth ≤ room) (v : Value)
    (rest : List Char) (h : Ends rest) :
    (shape.read room).on (v.text ++ rest) = (shape.ofValue? v).map fun x => (x, rest) := by
  match shape with
  | .integer => exact Reader.on_integer v h
  | .real => exact Reader.on_real v h
  | .text => exact Reader.on_text v rest
  | .scalar => exact Reader.on_scalar v room h
  | .flag => exact Reader.on_flag v room h
  | .list element =>
    have hlt : element.depth < room := hroom
    exact Reader.on_list (by omega) element.ofValue?
      (fun w rest h => Shape.on_read element (room - 1) (by omega) w rest h) v rest
  | .optional inner => exact Reader.on_optional v (Shape.on_read inner room hroom v rest h)
  | .record name fields =>
    have hlt : fields.depth < room := hroom
    refine Reader.on_record (by omega) fields.ofItems? fields.ofMembers? (fun items b rest => ?_)
      (fun members b rest => ?_) v rest
    · exact Fields.on_readPositional fields (room - 1) (by omega) name fields.size 0 items b rest
    · have hread := Reader.on_members (fields.readMember (room - 1))
        (fun slots key w => fields.put? slots (key, w)) members
        (fun m _ slots key rest h =>
          Fields.on_readMember fields (room - 1) (by omega) slots key m rest h)
        fields.emptySlots b rest
      rw [foldlM_memberStep fields.put? members b] at hread
      have hnamed := Reader.on_named fields.finish hread (fun ms => Fields.foldlM_put? fields ms)
      refine Eq.trans (congrArg (Reader.on · _) ?_) hnamed
      refine congrArg (Reader.members _ _ >>= ·) (funext fun slots => ?_)
      cases fields.finish slots <;> rfl

theorem Fields.on_readMember (fields : Fields) (room : Nat) (hroom : fields.depth ≤ room)
    (slots : fields.Slots) (key : String) (m : Member Value) (rest : List Char) (h : Ends rest) :
    (fields.readMember room slots key).on (m.fromKey rest) =
      (fields.put? slots (key, m.content.value)).map fun x => (x, rest) := by
  match fields, slots with
  | .none, () => exact Reader.on_unknown m h
  | .field name _ shape others, (slot, slots) =>
    have hshape : shape.depth ≤ room := Nat.le_trans (Nat.le_max_left _ _) hroom
    have hothers : others.depth ≤ room := Nat.le_trans (Nat.le_max_right _ _) hroom
    have hvalue := Shape.on_read shape room hshape m.content.value rest h
    rw [← Shape.on_read_blanks shape room m.content.before] at hvalue
    have hrest := Fields.on_readMember others room hothers slots key m rest h
    exact Reader.on_field hvalue (g := fun slots m => others.put? slots m) hrest

theorem Fields.on_readPositional (fields : Fields) (room : Nat) (hroom : fields.depth ≤ room)
    (name : String) (size index : Nat) (items : List (Spaced Value)) (b : Blanks)
    (rest : List Char) :
    (do
      let values ← fields.readPositional room name size index
      Reader.listEnd
      return values).on
        (b.text ++ (separated (index = 0) (itemTexts items) ++ ']' :: rest)) =
      (fields.ofItems? (items.map Spaced.value)).map fun x => (x, rest) := by
  match fields, items with
  | .none, items =>
    have hread := Reader.on_noFields (index = 0) items b rest
    cases items with
    | nil => exact hread
    | cons x items => exact hread
  | .field key isRequired shape others, [] =>
    have hothers : others.depth ≤ room := Nat.le_trans (Nat.le_max_right _ _) hroom
    have hrest := Fields.on_readPositional others room hothers name size (index + 1) [] .none rest
    exact Reader.on_position_end hrest
  | .field key isRequired shape others, x :: items =>
    have hshape : shape.depth ≤ room := Nat.le_trans (Nat.le_max_left _ _) hroom
    have hothers : others.depth ≤ room := Nat.le_trans (Nat.le_max_right _ _) hroom
    have hvalue := Shape.on_read shape room hshape x.value _ (Reader.ends_afterElement x items rest)
    have hrest :=
      Fields.on_readPositional others room hothers name size (index + 1) items x.after rest
    exact Reader.on_position_element hvalue hrest

end

/-! ### Documents -/

theorem Shape.on_readDocument (shape : Shape) (hdepth : shape.depth ≤ nestingLimit)
    (document : Spaced Value) :
    shape.readDocument.on (document.around document.value.text) =
      (shape.ofValue? document.value).map fun x => (x, []) := by
  have hends : Ends document.after.text := by
    have hnil : Ends [] := fun c hc => absurd hc (by simp)
    simpa using document.after.ends_append hnil
  have hread := shape.on_read nestingLimit hdepth document.value document.after.text hends
  have hafter : Reader.peekToken.on document.after.text = some (none, []) := by
    have hskip := Reader.on_peekToken_blanks document.after []
    rw [List.append_nil] at hskip
    exact hskip
  rw [readDocument, Reader.on_bind, Spaced.around, Shape.on_read_blanks, hread]
  cases shape.ofValue? document.value with
  | none => rfl
  | some x => simp [hafter]

/-- A document, which is one value between blanks, is parsed as what the shape makes of the value,
and with an error if it makes nothing of it. -/
theorem Shape.toOption_parse (shape : Shape) (hdepth : shape.depth ≤ nestingLimit)
    (document : Spaced Value) :
    (shape.parse document.source).toOption = shape.ofValue? document.value := by
  have hread := shape.on_readDocument hdepth document
  rw [parse, Spaced.source, String.toList_ofList]
  rw [Reader.on] at hread
  cases hrun : shape.readDocument.run ⟨0, document.around document.value.text⟩ with
  | error e =>
    rw [hrun] at hread
    cases e <;> cases hvalue : shape.ofValue? document.value <;> simp_all [outcome, Except.toOption]
  | ok result =>
    rw [hrun] at hread
    cases hvalue : shape.ofValue? document.value <;> simp_all [outcome, Except.toOption]

end EnsembleCompiler.Json
