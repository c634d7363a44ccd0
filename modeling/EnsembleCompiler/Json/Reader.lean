import EnsembleCompiler.Span
import EnsembleCompiler.Json.Number
import EnsembleCompiler.Text.Quoted

/-!
# Readers of JSON text

A reader takes characters from the front of a text. It fails with a cause and, as a rule, with
the place of it, a count of bytes; a failure without place gets one from the list or object in
which it happens.

This and the other modules on JSON follow the documented behaviour of the package `serde_json`, in
its first version and without optional features: what it accepts, in which order it looks for
errors, and what it says of them and where.
-/

namespace EnsembleCompiler.Json

/-- A kind of JSON value, as messages name it. -/
inductive Kind where
  | null
  | bool (value : Bool)
  | number (n : Number)
  | text (s : String)
  | list
  | object
  deriving DecidableEq

namespace Kind

def description : Kind → String
  | null => "null"
  | bool value => "boolean `" ++ (if value then "true" else "false") ++ "`"
  | number (.real x) => "floating point `" ++ (Number.real x).text ++ "`"
  | number n => "integer `" ++ n.text ++ "`"
  | text s => "string " ++ Text.quoted s
  | list => "sequence"
  | object => "map"

end Kind

/-- What a failure is about: that text ends too early, that it is no JSON, or that it does not
have the expected shape. -/
inductive Category where
  | ending
  | form
  | shape
  deriving DecidableEq, Repr

inductive Cause where
  | endOfValue
  | endOfList
  | endOfObject
  | endOfString
  | expectedValue
  | expectedWord
  | expectedColon
  | expectedListEnd
  | expectedObjectEnd
  | keyNotString
  | trailingComma
  | trailingCharacters
  | invalidNumber
  | numberOutOfRange
  | invalidEscape
  | controlCharacter
  | loneSurrogate
  | endOfEscape
  | tooDeep
  | invalidType (found : Kind) (expected : String)
  | invalidValue (found : Kind) (expected : String)
  | invalidLength (count : Nat) (record : String) (size : Nat)
  | missingField (key : String)
  | duplicateField (key : String)
  | noVariant (name : String)
  /-- More repetition than characters could ask for. -/
  | exhausted
  deriving DecidableEq

namespace Cause

def message : Cause → String
  | endOfValue => "EOF while parsing a value"
  | endOfList => "EOF while parsing a list"
  | endOfObject => "EOF while parsing an object"
  | endOfString => "EOF while parsing a string"
  | expectedValue => "expected value"
  | expectedWord => "expected ident"
  | expectedColon => "expected `:`"
  | expectedListEnd => "expected `,` or `]`"
  | expectedObjectEnd => "expected `,` or `\x7d`"
  | keyNotString => "key must be a string"
  | trailingComma => "trailing comma"
  | trailingCharacters => "trailing characters"
  | invalidNumber => "invalid number"
  | numberOutOfRange => "number out of range"
  | invalidEscape => "invalid escape"
  | controlCharacter => "control character (\\u0000-\\u001F) found while parsing a string"
  | loneSurrogate => "lone leading surrogate in hex escape"
  | endOfEscape => "unexpected end of hex escape"
  | tooDeep => "recursion limit exceeded"
  | invalidType found expected => "invalid type: " ++ found.description ++ ", expected " ++ expected
  | invalidValue found expected =>
    "invalid value: " ++ found.description ++ ", expected " ++ expected
  | invalidLength count record size =>
    "invalid length " ++ Nat.repr count ++ ", expected struct " ++ record ++ " with "
      ++ Nat.repr size ++ (if size = 1 then " element" else " elements")
  | missingField key => "missing field `" ++ key ++ "`"
  | duplicateField key => "duplicate field `" ++ key ++ "`"
  | noVariant name => "data did not match any variant of untagged enum " ++ name
  | exhausted => "repetition limit exceeded"

def category : Cause → Category
  | endOfValue | endOfList | endOfObject | endOfString => .ending
  | invalidType _ _ | invalidValue _ _ | invalidLength _ _ _ | missingField _ | duplicateField _
  | noVariant _ => .shape
  | _ => .form

end Cause

/-- A place in a text: how many bytes have been read, and what follows. -/
structure Cursor where
  index : Nat
  rest : List Char

/-- The cursor `d` is `c` after some of its characters have been read. -/
def Cursor.Reaches (c d : Cursor) : Prop :=
  ∃ read, c.rest = read ++ d.rest ∧ d.index = c.index + byteLength read

theorem Cursor.Reaches.refl (c : Cursor) : c.Reaches c := ⟨[], rfl, rfl⟩

theorem Cursor.Reaches.trans {c d e : Cursor} (h : c.Reaches d) (k : d.Reaches e) :
    c.Reaches e := by
  obtain ⟨r, hr, hi⟩ := h
  obtain ⟨s, hs, hj⟩ := k
  exact ⟨r ++ s, by simp [hr, hs], by simp [hi, hj, Nat.add_assoc]⟩

theorem Cursor.Reaches.length_lt {c d : Cursor} (h : c.Reaches d) (hlt : c.index < d.index) :
    d.rest.length < c.rest.length := by
  obtain ⟨read, hr, hi⟩ := h
  have : read ≠ [] := by
    rintro rfl
    simp at hi
    omega
  have := List.length_pos_iff.2 this
  simp [hr]
  omega

/-- A reader has passed over something just where less text is left. -/
theorem Cursor.Reaches.index_lt_iff {c d : Cursor} (h : c.Reaches d) :
    c.index < d.index ↔ d.rest.length < c.rest.length := by
  refine ⟨h.length_lt, fun hlt => ?_⟩
  obtain ⟨read, hr, hi⟩ := h
  have hne : byteLength read ≠ 0 := by
    intro hzero
    simp [hr, byteLength_eq_zero hzero] at hlt
  omega

inductive Failure where
  /-- A cause after this many bytes. -/
  | placed (cause : Cause) (index : Nat)
  /-- A cause found at a cursor, whose place depends on what encloses it. -/
  | unplaced (cause : Cause) (cursor : Cursor)

/-- A result without places: the value and the text that follows, unless there is a failure. -/
def outcome {α : Type} : Except Failure (α × Cursor) → Option (α × List Char)
  | .ok (a, d) => some (a, d.rest)
  | .error _ => none

theorem exists_of_outcome {α : Type} {result : Except Failure (α × Cursor)} {a : α}
    {rest : List Char} (h : outcome result = some (a, rest)) :
    ∃ d, result = .ok (a, d) ∧ d.rest = rest := by
  cases result with
  | error e => cases h
  | ok read =>
    cases h
    exact ⟨read.2, rfl, rfl⟩

/-- A reader of values of type `α`. It passes over what it reads and nothing else, and what it reads
does not depend on where the text stands. -/
structure Reader (α : Type) where
  run : Cursor → Except Failure (α × Cursor)
  reaches : ∀ {c a d}, run c = .ok (a, d) → c.Reaches d
  placeless : ∀ {c d}, c.rest = d.rest → outcome (run c) = outcome (run d)

/-- How a turn of a loop ends: with another turn, or with the value of the loop. -/
inductive Turn (σ α : Type) where
  | again (state : σ)
  | leave (value : α)

namespace Reader

variable {α β σ : Type}

protected def pure (a : α) : Reader α where
  run c := .ok (a, c)
  reaches h := by cases h; exact .refl _
  placeless h := by simp [outcome, h]

protected def bind (p : Reader α) (f : α → Reader β) : Reader β where
  run c :=
    match p.run c with
    | .ok (a, d) => (f a).run d
    | .error e => .error e
  reaches {c b e} h := by
    cases hp : p.run c with
    | error e => simp [hp] at h
    | ok ad =>
      obtain ⟨a, d⟩ := ad
      rw [hp] at h
      exact (p.reaches hp).trans ((f a).reaches h)
  placeless {c d} h := by
    have hp := p.placeless h
    cases hc : p.run c with
    | error e => cases hd : p.run d <;> simp_all [outcome]
    | ok read =>
      obtain ⟨a, c'⟩ := read
      cases hd : p.run d with
      | error e => simp [hc, hd, outcome] at hp
      | ok other =>
        obtain ⟨b, d'⟩ := other
        simp only [hc, hd, outcome, Option.some.injEq, Prod.mk.injEq] at hp
        obtain ⟨rfl, hrest⟩ := hp
        exact (f a).placeless hrest

instance : Monad Reader where
  pure := Reader.pure
  bind := Reader.bind

/-- Fails at the place that a function of the cursor gives. -/
def failAt (cause : Cause) (place : Cursor → Nat) : Reader α where
  run c := .error (.placed cause (place c))
  reaches h := by cases h
  placeless _ := rfl

/-- Fails after what has been read. -/
def failHere (cause : Cause) : Reader α := failAt cause (·.index)

/-- Fails one byte further, which belongs to what has been read. -/
def failPast (cause : Cause) : Reader α := failAt cause (·.index + 1)

/-- Fails at the next byte, or at the end of the text. -/
def failNext (cause : Cause) : Reader α :=
  failAt cause fun c => if c.rest.isEmpty then c.index else c.index + 1

/-- Fails without a place. -/
def failUnplaced (cause : Cause) : Reader α where
  run c := .error (.unplaced cause c)
  reaches h := by cases h
  placeless _ := rfl

/-- Gives a failure without place the place that a function of its cursor gives. -/
def placing (place : Cursor → Nat) (p : Reader α) : Reader α where
  run c :=
    match p.run c with
    | .error (.unplaced cause d) => .error (.placed cause (place d))
    | .error (.placed cause index) => .error (.placed cause index)
    | .ok result => .ok result
  reaches {c a d} h := by
    cases hp : p.run c with
    | error e => cases e <;> simp [hp] at h
    | ok result =>
      simp only [hp, Except.ok.injEq] at h
      exact p.reaches (h ▸ hp)
  placeless {c d} h := by
    have hp := p.placeless h
    cases hc : p.run c with
    | error e => cases e <;> cases hd : p.run d <;> simp_all [outcome] <;> grind
    | ok read => cases hd : p.run d <;> simp_all [outcome]

/-- The next character. -/
def peek : Reader (Option Char) where
  run c := .ok (c.rest.head?, c)
  reaches h := by cases h; exact .refl _
  placeless h := by simp [outcome, h]

/-- Passes over the next character, if there is one. -/
def shift : Reader Unit where
  run c :=
    match c.rest with
    | [] => .ok ((), c)
    | x :: rest => .ok ((), ⟨c.index + x.utf8Size, rest⟩)
  reaches {c a d} h := by
    cases hc : c.rest with
    | nil =>
      simp only [hc] at h
      cases h
      exact .refl _
    | cons x rest =>
      simp only [hc] at h
      cases h
      exact ⟨[x], by simp [hc], by simp⟩
  placeless {c d} h := by
    rw [h]
    cases hd : d.rest with
    | nil => simp [outcome, h, hd]
    | cons x rest => rfl

/-- Takes characters as long as they have a property. -/
def takeWhile (p : Char → Bool) : Reader (List Char) where
  run c := .ok (c.rest.takeWhile p,
    ⟨c.index + byteLength (c.rest.takeWhile p), c.rest.dropWhile p⟩)
  reaches h := by
    cases h
    exact ⟨_, List.takeWhile_append_dropWhile.symm, rfl⟩
  placeless h := by simp [outcome, h]

/-- Repeats a reader, turn by turn, until a turn leaves. A turn that would go on without having
read anything fails, so that there are no more turns than characters. -/
def loopRun (turn : σ → Reader (Turn σ α)) (s : σ) (c : Cursor) :
    Except Failure (α × Cursor) :=
  match h : (turn s).run c with
  | .error e => .error e
  | .ok (.leave a, d) => .ok (a, d)
  | .ok (.again s', d) =>
    if hlt : c.index < d.index then
      have _hless := Cursor.Reaches.length_lt ((turn s).reaches h) hlt
      loopRun turn s' d
    else .error (.placed .exhausted d.index)
termination_by c.rest.length

theorem reaches_loopRun (turn : σ → Reader (Turn σ α)) (s : σ) (c : Cursor) {a : α}
    {d : Cursor} (h : loopRun turn s c = .ok (a, d)) : c.Reaches d := by
  fun_induction loopRun turn s c with
  | case1 => cases h
  | case2 s c a' d' hrun =>
    cases h
    exact (turn s).reaches hrun
  | case3 s c s' d' hrun hlt hless ih => exact ((turn s).reaches hrun).trans (ih h)
  | case4 => cases h

theorem loopRun_eq (turn : σ → Reader (Turn σ α)) (s : σ) (c : Cursor) :
    loopRun turn s c = match (turn s).run c with
      | .error e => .error e
      | .ok (.leave a, d) => .ok (a, d)
      | .ok (.again s', d) =>
        if c.index < d.index then loopRun turn s' d else .error (.placed .exhausted d.index) := by
  rw [loopRun]
  split <;> next h => simp [h]

theorem placeless_loopRun (turn : σ → Reader (Turn σ α)) (s : σ) (c : Cursor) {d : Cursor}
    (h : c.rest = d.rest) : outcome (loopRun turn s c) = outcome (loopRun turn s d) := by
  fun_induction loopRun turn s c generalizing d with
  | case1 s c e hc =>
    have hturn := (turn s).placeless h
    rw [loopRun_eq]
    cases hd : (turn s).run d <;> simp_all [outcome]
  | case2 s c a c' hc =>
    have hturn := (turn s).placeless h
    obtain ⟨d', hd, hrest⟩ := exists_of_outcome (hturn.symm.trans (by rw [hc]; rfl))
    rw [loopRun_eq turn s d, hd]
    simp [outcome, hrest]
  | case3 s c s' c' hc hlt hless ih =>
    have hturn := (turn s).placeless h
    obtain ⟨d', hd, hrest⟩ := exists_of_outcome (hturn.symm.trans (by rw [hc]; rfl))
    have hlater : d.index < d'.index := by
      rw [((turn s).reaches hd).index_lt_iff, hrest, ← h]
      exact hless
    rw [loopRun_eq turn s d, hd]
    simp only [hlater, if_true]
    exact ih hrest.symm
  | case4 s c s' c' hc hlt =>
    have hturn := (turn s).placeless h
    obtain ⟨d', hd, hrest⟩ := exists_of_outcome (hturn.symm.trans (by rw [hc]; rfl))
    have hlater : ¬ d.index < d'.index := by
      rw [((turn s).reaches hd).index_lt_iff, hrest, ← h, ← ((turn s).reaches hc).index_lt_iff]
      exact hlt
    rw [loopRun_eq turn s d, hd]
    simp only [hlater, if_false]
    rfl

/-- The reader of a loop. -/
def loop (turn : σ → Reader (Turn σ α)) (s : σ) : Reader α where
  run := loopRun turn s
  reaches := reaches_loopRun turn s _
  placeless := placeless_loopRun turn s _

end Reader

/-- The blanks of JSON. -/
def isJsonBlank (c : Char) : Bool := c = ' ' || c = '\t' || c = '\n' || c = '\r'

/-- The cursor after blanks. -/
def Cursor.skipBlanks (c : Cursor) : Cursor :=
  ⟨c.index + byteLength (c.rest.takeWhile isJsonBlank), c.rest.dropWhile isJsonBlank⟩

namespace Reader

/-- Passes over blanks and shows the next character. -/
def peekToken : Reader (Option Char) := do
  let _ ← takeWhile isJsonBlank
  peek

/-- The letters of a word after its first. -/
def word : List Char → Reader Unit
  | [] => return ()
  | expected :: rest => do
    match ← peek with
    | none => failHere .endOfValue
    | some c =>
      if c = expected then
        shift
        word rest
      else failPast .expectedWord

end Reader

end EnsembleCompiler.Json
