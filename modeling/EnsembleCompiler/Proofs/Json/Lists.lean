import EnsembleCompiler.Proofs.Json.Skipping

/-!
# Reading what stands in brackets

The readers of lists and objects, given what the readers of elements and members make of each of
them.
-/

namespace EnsembleCompiler.Json

open Value (itemTexts memberTexts)

variable {α : Type} {rest : List Char}

/-- The text that a string stands for. -/
def stringValue? (units : List StringUnit) : Option String :=
  (unitsValue? units).map String.ofList

/-- A member as it is written from its key on, in front of other text. -/
def Member.fromKey (m : Member Value) (rest : List Char) : List Char :=
  m.key.after.text ++ ':' :: (m.content.before.text ++ (m.content.value.text ++ rest))

namespace Reader

theorem length_le_of_on {p : Reader α} {cs : List Char} {a : α} (h : p.on cs = some (a, rest)) :
    rest.length ≤ cs.length := by
  obtain ⟨d, hrun, hrest⟩ := exists_of_outcome h
  obtain ⟨read, hread, -⟩ := p.reaches hrun
  simp only [hrest] at hread
  simp [hread]

/-! ### Lists -/

theorem on_hasElement (isFirst : Bool) (b : Blanks) (x : Spaced Value)
    (items : List (Spaced Value)) (rest : List Char) :
    (hasElement isFirst).on (b.text ++ (separated isFirst (itemTexts (x :: items)) ++ rest)) =
      some (true,
        x.value.text ++ (x.after.text ++ (separated false (itemTexts items) ++ rest))) := by
  obtain ⟨c, tail, htext, hc⟩ := x.value.exists_text_eq_cons
  have hblank := isJsonBlank_of_beginsValue hc
  have hclose : c ≠ ']' := by rintro rfl; exact absurd hc (by decide)
  have hcomma : isJsonBlank ',' = false := rfl
  cases isFirst <;>
    simp [hasElement, itemTexts, separated, Spaced.around, on_peekToken_blanks, htext, hblank,
      hcomma]

theorem on_hasElement_end (isFirst : Bool) (b : Blanks) (rest : List Char) :
    (hasElement isFirst).on (b.text ++ ']' :: rest) = some (false, ']' :: rest) := by
  simp [hasElement, on_peekToken_blanks, isJsonBlank]

theorem ends_afterElement (x : Spaced Value) (items : List (Spaced Value)) (rest : List Char) :
    Ends (x.after.text ++ (separated false (itemTexts items) ++ ']' :: rest)) :=
  x.after.ends_append (ends_afterItem .list (itemTexts items) rest)

/-- A turn reads one element with the blanks and the comma in front of it. -/
theorem on_elementTurn (element : Reader α) (f : Value → Option α) (x : Spaced Value)
    (items : List (Spaced Value))
    (h : ∀ rest, Ends rest →
      element.on (x.value.text ++ rest) = (f x.value).map fun a => (a, rest))
    (read : List α) (b : Blanks) (rest : List Char) :
    (elementTurn element read).on
        (b.text ++ (separated read.isEmpty (itemTexts (x :: items)) ++ ']' :: rest)) =
      (f x.value).map fun a => (.again (a :: read),
        x.after.text ++ (separated false (itemTexts items) ++ ']' :: rest)) := by
  have hhas := on_hasElement read.isEmpty b x items (']' :: rest)
  have hx := h _ (ends_afterElement x items rest)
  cases hvalue : f x.value <;> simp [elementTurn, hhas, hx, hvalue]

/-- The elements that are left of a list are read one after the other. -/
theorem on_elementLoop (element : Reader α) (f : Value → Option α) (items : List (Spaced Value))
    (h : ∀ x ∈ items, ∀ rest, Ends rest →
      element.on (x.value.text ++ rest) = (f x.value).map fun a => (a, rest))
    (read : List α) (b : Blanks) (rest : List Char) :
    (loop (elementTurn element) read).on
        (b.text ++ (separated read.isEmpty (itemTexts items) ++ ']' :: rest)) =
      (items.mapM fun x => f x.value).map fun values => (read.reverse ++ values, ']' :: rest) := by
  -- the loop goes along the elements; a first element is one in front of which nothing is read yet
  induction items generalizing read b with
  | nil =>
    have hturn : (elementTurn element read).on (b.text ++ ']' :: rest) =
        some (.leave read.reverse, ']' :: rest) := by
      simp [elementTurn, on_hasElement_end]
    simpa [itemTexts, separated] using on_loop_leave hturn
  | cons x items ih =>
    have hturn := on_elementTurn element f x items (h x (by simp)) read b rest
    cases hvalue : f x.value with
    | none =>
      rw [hvalue] at hturn
      rw [on_loop_none hturn]
      simp [hvalue]
    | some a =>
      rw [hvalue] at hturn
      -- the loop takes another turn only where the last one left fewer characters
      have hle := length_le_of_on (on_hasElement read.isEmpty b x items (']' :: rest))
      have hpos := x.value.length_text_pos
      rw [List.length_append] at hle
      rw [on_loop_again hturn (by omega)]
      have hrest := ih (fun y hy => h y (by simp [hy])) (a :: read) x.after
      rw [List.isEmpty_cons] at hrest
      rw [hrest]
      cases hvalues : items.mapM fun y => f y.value <;> simp [hvalue, hvalues]

/-- A list is read after its opening bracket. -/
theorem on_listRest (element : Reader α) (f : Value → Option α) (items : List (Spaced Value))
    (h : ∀ x ∈ items, ∀ rest, Ends rest →
      element.on (x.value.text ++ rest) = (f x.value).map fun a => (a, rest))
    (inside : Blanks) (rest : List Char) :
    (listRest element).on (inside.text ++ (separated true (itemTexts items) ++ ']' :: rest)) =
      (items.mapM fun x => f x.value).map fun values => (values, rest) := by
  have helements := on_elementLoop element f items h [] inside rest
  rw [List.isEmpty_nil] at helements
  simp only [listRest, elements, on_bind, helements]
  cases items.mapM fun x => f x.value <;> simp [listEnd, isJsonBlank]

/-! ### Objects -/

theorem on_hasMember (isFirst : Bool) (b : Blanks) (m : Member Value) (ms : List (Member Value))
    (rest : List Char) :
    (hasMember isFirst).on (b.text ++ (separated isFirst (memberTexts (m :: ms)) ++ rest)) =
      some (true, unitsText m.key.value ++ '"' :: m.fromKey
        (m.content.after.text ++ (separated false (memberTexts ms) ++ rest))) := by
  cases isFirst <;>
    simp [hasMember, memberTexts, separated, Member.around, Spaced.around, quotedText,
      Member.fromKey, on_peekToken_blanks, isJsonBlank]

theorem on_hasMember_end (isFirst : Bool) (b : Blanks) (rest : List Char) :
    (hasMember isFirst).on (b.text ++ '\x7d' :: rest) = some (false, '\x7d' :: rest) := by
  simp [hasMember, on_peekToken_blanks, isJsonBlank]

/-- What the reader of members makes of one member. -/
def memberStep (f : α → String → Value → Option α) (read : α) (m : Member Value) : Option α :=
  (stringValue? m.key.value).bind fun key => f read key m.content.value

/-- A turn reads one member with the blanks and the comma in front of it. -/
theorem on_memberTurn (member : α → String → Reader α) (f : α → String → Value → Option α)
    (m : Member Value) (ms : List (Member Value))
    (h : ∀ read key rest, Ends rest →
      (member read key).on (m.fromKey rest) =
        (f read key m.content.value).map fun next => (next, rest))
    (isFirst : Bool) (read : α) (b : Blanks) (rest : List Char) :
    (memberTurn member (isFirst, read)).on
        (b.text ++ (separated isFirst (memberTexts (m :: ms)) ++ '\x7d' :: rest)) =
      (memberStep f read m).map fun next => (.again (false, next),
        m.content.after.text ++ (separated false (memberTexts ms) ++ '\x7d' :: rest)) := by
  have hhas := on_hasMember isFirst b m ms ('\x7d' :: rest)
  have hends := m.content.after.ends_append (ends_afterItem .object (memberTexts ms) rest)
  cases hkey : unitsValue? m.key.value with
  | none => simp [memberTurn, hhas, on_stringBody, memberStep, stringValue?, hkey]
  | some key =>
    have hm := h read (String.ofList key) _ hends
    simp only [Bracket.close] at hm
    cases hnext : f read (String.ofList key) m.content.value <;>
      simp [memberTurn, hhas, on_stringBody, memberStep, stringValue?, hkey, hm, hnext]

/-- The members that are left of an object are read one after the other. -/
theorem on_memberLoop (member : α → String → Reader α) (f : α → String → Value → Option α)
    (ms : List (Member Value))
    (h : ∀ m ∈ ms, ∀ read key rest, Ends rest →
      (member read key).on (m.fromKey rest) =
        (f read key m.content.value).map fun next => (next, rest))
    (isFirst : Bool) (read : α) (b : Blanks) (rest : List Char) :
    (loop (memberTurn member) (isFirst, read)).on
        (b.text ++ (separated isFirst (memberTexts ms) ++ '\x7d' :: rest)) =
      (ms.foldlM (memberStep f) read).map fun last => (last, '\x7d' :: rest) := by
  induction ms generalizing isFirst read b with
  | nil =>
    have hturn : (memberTurn member (isFirst, read)).on (b.text ++ '\x7d' :: rest) =
        some (.leave read, '\x7d' :: rest) := by
      simp [memberTurn, on_hasMember_end]
    simpa [memberTexts, separated] using on_loop_leave hturn
  | cons m ms ih =>
    have hturn := on_memberTurn member f m ms (h m (by simp)) isFirst read b rest
    rw [List.foldlM_cons]
    change _ = ((memberStep f read m).bind fun next => ms.foldlM (memberStep f) next).map _
    cases hstep : memberStep f read m with
    | none =>
      rw [hstep] at hturn
      rw [on_loop_none hturn]
      rfl
    | some next =>
      rw [hstep] at hturn
      -- as for elements, a turn has to leave fewer characters
      have hle := length_le_of_on (on_hasMember isFirst b m ms ('\x7d' :: rest))
      have hpos := m.content.value.length_text_pos
      simp only [Member.fromKey, List.length_append, List.length_cons] at hle
      rw [on_loop_again hturn (by simp only [List.length_append, List.length_cons]; omega),
        ih (fun y hy => h y (by simp [hy]))]
      rfl

/-- The members of an object are read up to the closing bracket. -/
theorem on_members (member : α → String → Reader α) (f : α → String → Value → Option α)
    (ms : List (Member Value))
    (h : ∀ m ∈ ms, ∀ read key rest, Ends rest →
      (member read key).on (m.fromKey rest) =
        (f read key m.content.value).map fun next => (next, rest))
    (start : α) (inside : Blanks) (rest : List Char) :
    (members member start).on
        (inside.text ++ (separated true (memberTexts ms) ++ '\x7d' :: rest)) =
      (ms.foldlM (memberStep f) start).map fun last => (last, '\x7d' :: rest) :=
  on_memberLoop member f ms h true start inside rest

end Reader

end EnsembleCompiler.Json
