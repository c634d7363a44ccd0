import EnsembleCompiler.Json.Shape
import EnsembleCompiler.Proofs.Text.Runs

/-!
# The syntax of JSON

Values with the way they are written: numerals down to their digits, strings down to their escapes,
and the blanks around everything. The text of a value is well-formed JSON, and every well-formed
JSON text is the text of a value between blanks.
-/

namespace EnsembleCompiler.Json

structure Blanks where
  text : List Char
  blank : ∀ c ∈ text, isJsonBlank c = true

/-- No blanks. -/
def Blanks.none : Blanks := ⟨[], by simp⟩

@[simp]
theorem Blanks.text_none : Blanks.none.text = [] := rfl

/-- An exponent with its mark. Its sign may be written, and is a minus if it is `true`. -/
structure Exponent where
  isUpper : Bool
  sign : Option Bool
  digits : List Char
  isDigits : Digits digits

namespace Exponent

def mark (e : Exponent) : Char := if e.isUpper then 'E' else 'e'

def signText (e : Exponent) : List Char :=
  match e.sign with
  | none => []
  | some isMinus => [if isMinus then '-' else '+']

def text (e : Exponent) : List Char := e.mark :: (e.signText ++ e.digits)

end Exponent

/-- A number as it is written. The digits in front of its point are a zero alone or begin with
another digit. -/
structure Numeral where
  isNegative : Bool
  whole : List Char
  fraction : Option (List Char)
  exponent : Option Exponent
  whole_digits : Digits whole
  zero_alone : ∀ {rest}, whole = '0' :: rest → rest = []
  fraction_digits : ∀ ds ∈ fraction, Digits ds

namespace Numeral

def signText (n : Numeral) : List Char := if n.isNegative then ['-'] else []

def fractionText (n : Numeral) : List Char :=
  match n.fraction with
  | none => []
  | some ds => '.' :: ds

def exponentText (n : Numeral) : List Char :=
  match n.exponent with
  | none => []
  | some e => e.text

def text (n : Numeral) : List Char :=
  n.signText ++ (n.whole ++ (n.fractionText ++ n.exponentText))

end Numeral

/-- A character of a string as it is written: itself, an escape of one letter, or one of four
hexadecimal digits. -/
inductive StringUnit where
  | plain (c : Char) (h : c ≠ '"' ∧ c ≠ '\\' ∧ 0x20 ≤ c.toNat)
  | escape (letter : Char) (c : Char) (h : escaped? letter = some c)
  | unicode (digits : List Char) (n : Nat) (h : hexValue? digits = some n)

def StringUnit.text : StringUnit → List Char
  | plain c _ => [c]
  | escape letter _ _ => ['\\', letter]
  | unicode digits _ _ => '\\' :: 'u' :: digits

theorem StringUnit.length_text_pos (unit : StringUnit) : 0 < unit.text.length := by
  cases unit <;> simp [StringUnit.text]

/-- The text of a string between its quotes. -/
def unitsText (units : List StringUnit) : List Char := units.flatMap StringUnit.text

@[simp]
theorem unitsText_nil : unitsText [] = [] := rfl

theorem unitsText_cons (unit : StringUnit) (units : List StringUnit) :
    unitsText (unit :: units) = unit.text ++ unitsText units := rfl

theorem unitsText_unicode_append {rest ds : List Char} {n : Nat} (h : hexValue? ds = some n)
    (units : List StringUnit) : unitsText (.unicode ds n h :: units) ++ rest =
      '\\' :: 'u' :: (ds ++ (unitsText units ++ rest)) := by
  simp [unitsText_cons, StringUnit.text]

/-- The characters that a string stands for. Two hexadecimal escapes of surrogates stand for one
character, and a surrogate that is not in such a pair for none. -/
def unitsValue? : List StringUnit → Option (List Char)
  | [] => some []
  | .plain c _ :: units => (unitsValue? units).map (c :: ·)
  | .escape _ c _ :: units => (unitsValue? units).map (c :: ·)
  | .unicode _ high _ :: units =>
    if 0xDC00 ≤ high && high ≤ 0xDFFF then none
    else if 0xD800 ≤ high && high ≤ 0xDBFF then
      match units with
      | .unicode _ low _ :: units =>
        if low < 0xDC00 || 0xDFFF < low then none
        else (unitsValue? units).map
          (Char.ofNat (0x10000 + (high - 0xD800) * 0x400 + (low - 0xDC00)) :: ·)
      | _ => none
    else (unitsValue? units).map (Char.ofNat high :: ·)

def quotedText (units : List StringUnit) : List Char := '"' :: (unitsText units ++ ['"'])

/-- Something between blanks. -/
structure Spaced (α : Type) where
  before : Blanks
  value : α
  after : Blanks

/-- A member of an object. -/
structure Member (α : Type) where
  key : Spaced (List StringUnit)
  content : Spaced α

/-- A value as it is written. After an opening bracket there may be blanks. -/
inductive Value where
  | null
  | bool (value : Bool)
  | number (n : Numeral)
  | string (units : List StringUnit)
  | list (inside : Blanks) (items : List (Spaced Value))
  | object (inside : Blanks) (members : List (Member Value))

/-- The text of something between blanks. -/
def Spaced.around {α : Type} (x : Spaced α) (text : List Char) : List Char :=
  x.before.text ++ (text ++ x.after.text)

/-- The text of a member with the given content. -/
def Member.around {α : Type} (m : Member α) (text : List Char) : List Char :=
  m.key.around (quotedText m.key.value) ++ ':' :: m.content.around text

theorem Spaced.around_append {α : Type} (x : Spaced α) (text rest : List Char) :
    x.around text ++ rest = x.before.text ++ (text ++ (x.after.text ++ rest)) := by
  simp [around]

theorem Member.around_append {α : Type} (m : Member α) (text rest : List Char) :
    m.around text ++ rest = m.key.around (quotedText m.key.value) ++
      ':' :: (m.content.before.text ++ (text ++ (m.content.after.text ++ rest))) := by
  simp [around, Spaced.around]

/-- Texts with commas between them; there is one in front too unless the first text is the first in
its brackets. -/
def separated : Bool → List (List Char) → List Char
  | _, [] => []
  | true, x :: xs => x ++ separated false xs
  | false, x :: xs => ',' :: (x ++ separated false xs)

namespace Value

theorem sizeOf_item_lt {inside : Blanks} {items : List (Spaced Value)} {x : Spaced Value}
    (h : x ∈ items) : sizeOf x.value < sizeOf (list inside items) := by
  have := List.sizeOf_lt_of_mem h
  cases x
  simp only [Spaced.mk.sizeOf_spec, list.sizeOf_spec] at *
  omega

theorem sizeOf_member_lt {inside : Blanks} {members : List (Member Value)} {m : Member Value}
    (h : m ∈ members) : sizeOf m.content.value < sizeOf (object inside members) := by
  have := List.sizeOf_lt_of_mem h
  rcases m with ⟨key, ⟨before, value, after⟩⟩
  simp only [Member.mk.sizeOf_spec, Spaced.mk.sizeOf_spec, object.sizeOf_spec] at *
  omega

def text : Value → List Char
  | null => "null".toList
  | bool true => "true".toList
  | bool false => "false".toList
  | number n => n.text
  | string units => quotedText units
  | list inside items =>
    '[' :: (inside.text ++ (separated true (items.map fun x => x.around x.value.text) ++ [']']))
  | object inside members =>
    '\x7b' :: (inside.text ++
      (separated true (members.map fun m => m.around m.content.value.text) ++ ['\x7d']))
termination_by v => sizeOf v
decreasing_by
  · exact sizeOf_item_lt ‹_›
  · exact sizeOf_member_lt ‹_›

/-- The elements of a list as they are written. -/
def itemTexts (items : List (Spaced Value)) : List (List Char) :=
  items.map fun x => x.around x.value.text

/-- The members of an object as they are written. -/
def memberTexts (members : List (Member Value)) : List (List Char) :=
  members.map fun m => m.around m.content.value.text

theorem text_list (inside : Blanks) (items : List (Spaced Value)) : (list inside items).text =
    '[' :: (inside.text ++ (separated true (itemTexts items) ++ [']'])) := by
  rw [text, itemTexts]

theorem text_object (inside : Blanks) (members : List (Member Value)) :
    (object inside members).text =
      '\x7b' :: (inside.text ++ (separated true (memberTexts members) ++ ['\x7d'])) := by
  rw [text, memberTexts]

/-- Induction over what stands in brackets. -/
theorem induct {P : Value → Prop} (null : P .null) (bool : ∀ value, P (.bool value))
    (number : ∀ n, P (.number n)) (string : ∀ units, P (.string units))
    (list : ∀ inside items, (∀ x ∈ items, P x.value) → P (.list inside items))
    (object : ∀ inside members, (∀ m ∈ members, P m.content.value) → P (.object inside members)) :
    ∀ v, P v
  | .null => null
  | .bool value => bool value
  | .number n => number n
  | .string units => string units
  | .list inside items =>
    list inside items fun x _ => induct null bool number string list object x.value
  | .object inside members =>
    object inside members fun m _ => induct null bool number string list object m.content.value
termination_by v => sizeOf v
decreasing_by
  · exact sizeOf_item_lt ‹_›
  · exact sizeOf_member_lt ‹_›

end Value

/-- A document, which is a value between blanks. -/
def Spaced.source (document : Spaced Value) : String :=
  String.ofList (document.around document.value.text)

end EnsembleCompiler.Json
