import EnsembleCompiler.Json.Values

/-!
# Shapes of JSON documents

A shape says what a document holds, down to its scalars. Every shape has a type of values and a
reader for them. A record is written as an object, with its members in any order and others among
them, or as a list of its fields in their order. So the readers that the package `serde` derives for
records are documented to behave.
-/

namespace EnsembleCompiler.Json

/-- A number, or text that may stand for one. -/
inductive Scalar where
  | number (n : Number)
  | text (s : String)
  deriving DecidableEq

/-- A truth value, or an integer that may stand for one. -/
inductive Flag where
  | bool (value : Bool)
  | integer (n : Int64)
  deriving DecidableEq

mutual

inductive Shape where
  | integer
  | real
  | text
  | scalar
  | flag
  | list (element : Shape)
  /-- A value or null. -/
  | optional (inner : Shape)
  | record (name : String) (fields : Fields)

/-- The fields of a record in their order. A field that is not required may be absent. -/
inductive Fields where
  | none
  | field (key : String) (isRequired : Bool) (shape : Shape) (rest : Fields)

end

mutual

/-- The values of a shape. -/
def Shape.Val : Shape → Type
  | .integer => Int64
  | .real => Binary64
  | .text => String
  | .scalar => Scalar
  | .flag => Flag
  | .list element => List element.Val
  | .optional inner => Option inner.Val
  | .record _ fields => fields.Vals

/-- The values of all fields. -/
def Fields.Vals : Fields → Type
  | .none => Unit
  | .field _ _ shape rest => shape.Val × rest.Vals

end

/-- The values of the fields that have been read. -/
def Fields.Slots : Fields → Type
  | .none => Unit
  | .field _ _ shape rest => Option shape.Val × rest.Slots

def Fields.emptySlots : (fields : Fields) → fields.Slots
  | .none => ()
  | .field _ _ _ rest => (Option.none, rest.emptySlots)

def Fields.size : Fields → Nat
  | .none => 0
  | .field _ _ _ rest => rest.size + 1

mutual

/-- The value of a field that is absent. -/
def Shape.blank : (shape : Shape) → shape.Val
  | .integer => (0 : Int64)
  | .real => Binary.zero .double false
  | .text => ""
  | .scalar => Scalar.text ""
  | .flag => Flag.bool false
  | .list _ => []
  | .optional _ => Option.none
  | .record _ fields => fields.blanks

def Fields.blanks : (fields : Fields) → fields.Vals
  | .none => ()
  | .field _ _ shape rest => (shape.blank, rest.blanks)

end

/-- The values of a record from what has been read, or the first required field without one. -/
def Fields.finish : (fields : Fields) → fields.Slots → Except String fields.Vals
  | .none, () => .ok ()
  | .field key isRequired shape rest, (slot, others) =>
    match slot with
    | some value => (rest.finish others).map fun values => (value, values)
    | Option.none =>
      if isRequired then .error key
      else (rest.finish others).map fun values => (shape.blank, values)

namespace Reader

variable {α : Type}

/-- A number as a signed integer of 64 bits. -/
def integer : Reader Int64 := do
  match ← peekToken with
  | some c =>
    if startsNumber c then
      let n ← number
      match n.toInteger? with
      | some i => return i
      | none =>
        match n with
        | .real _ => failHere (.invalidType (.number n) "i64")
        | _ => failHere (.invalidValue (.number n) "i64")
    else unexpected "i64"
  | none => failNext .endOfValue

/-- A number as a floating-point value. -/
def real : Reader Binary64 := do
  match ← peekToken with
  | some c => if startsNumber c then return (← number).toReal else unexpected "f64"
  | none => failNext .endOfValue

/-- A string. -/
def text : Reader String := do
  match ← peekToken with
  | some '"' =>
    shift
    return String.ofList (← stringBody)
  | some _ => unexpected "a string"
  | none => failNext .endOfValue

/-- A number or a string. -/
def scalar (room : Nat) : Reader Scalar := do
  match ← anyValue room with
  | .number n => return .number n
  | .text s => return .text s
  | _ => failUnplaced (.noVariant "NumberField")

/-- A truth value or an integer. -/
def flag (room : Nat) : Reader Flag := do
  match ← anyValue room with
  | .bool value => return .bool value
  | .number n =>
    match n.toInteger? with
    | some i => return .integer i
    | none => failUnplaced (.noVariant "Flag")
  | _ => failUnplaced (.noVariant "Flag")

/-- Null, or a value. -/
def optional (inner : Reader α) : Reader (Option α) := do
  if (← peekToken) = some 'n' then
    shift
    word "ull".toList
    return none
  else return some (← inner)

/-- A list. -/
def list (room : Nat) (element : Reader α) : Reader (List α) := do
  match ← peekToken with
  | some '[' => bracketed .list room (listRest element)
  | some _ => unexpected "a sequence"
  | none => failNext .endOfValue

/-- A record: `positional` reads its fields from a list, `named` from an object, both after the
opening bracket. -/
def record (name : String) (room : Nat) (positional named : Reader α) : Reader α := do
  match ← peekToken with
  | some '[' =>
    bracketed .list room do
      let values ← positional
      listEnd
      return values
  | some '\x7b' => bracketed .object room named
  | some _ => unexpected ("struct " ++ name)
  | none => failNext .endOfValue

end Reader

mutual

/-- The reader of a shape. `room` is how many brackets may still be opened. -/
def Shape.read : (shape : Shape) → (room : Nat) → Reader shape.Val
  | .integer, _ => Reader.integer
  | .real, _ => Reader.real
  | .text, _ => Reader.text
  | .scalar, room => Reader.scalar room
  | .flag, room => Reader.flag room
  | .list element, room => Reader.list room (element.read (room - 1))
  | .optional inner, room => Reader.optional (inner.read room)
  | .record name fields, room =>
    Reader.record name room (fields.readPositional (room - 1) name fields.size 0) do
      let slots ← Reader.members (fields.readMember (room - 1)) fields.emptySlots
      match fields.finish slots with
      | .ok values =>
        let _ ← Reader.peekToken
        Reader.shift
        return values
      | .error key => Reader.failUnplaced (.missingField key)

/-- The part of a member after its key, for a record some of whose fields have been read. A key
that names no field is skipped with its value. -/
def Fields.readMember : (fields : Fields) → (room : Nat) → fields.Slots → String →
    Reader fields.Slots
  | .none, _, (), _ => do
    Reader.colon
    Reader.skipValue
  | .field key _ shape rest, room, (slot, others), k =>
    if k = key then do
      if slot.isSome then Reader.failUnplaced (.duplicateField key)
      Reader.colon
      return (some (← shape.read room), others)
    else do return (slot, ← rest.readMember room others k)

/-- The fields of a record from a list, the first of them having the given index in the record. -/
def Fields.readPositional : (fields : Fields) → (room : Nat) → (name : String) → (size : Nat) →
    (index : Nat) → Reader fields.Vals
  | .none, _, _, _, _ => return ()
  | .field _ isRequired shape rest, room, name, size, index => do
    if ← Reader.hasElement (index = 0) then
      let value ← shape.read room
      return (value, ← rest.readPositional room name size (index + 1))
    else
      if isRequired then Reader.failUnplaced (.invalidLength index name size)
      return (shape.blank, ← rest.readPositional room name size (index + 1))

end

/-- How many brackets of a document may be open at once. -/
def nestingLimit : Nat := 127

/-- A failure with its place. -/
structure Error where
  cause : Cause
  position : Position
  deriving DecidableEq

/-- The line and column of a place: the column counts the bytes read of the line. -/
def placeOf (source : String) (index : Nat) : Position :=
  let p := positionOf source index
  ⟨p.line, p.column - 1⟩

/-- The message of an error. -/
def Error.message (e : Error) : String :=
  e.cause.message ++ " at line " ++ Nat.repr e.position.line ++ " column "
    ++ Nat.repr e.position.column

/-- A document: one value between blanks. -/
def Shape.readDocument (shape : Shape) : Reader shape.Val := do
  let value ← shape.read nestingLimit
  if (← Reader.peekToken).isSome then Reader.failNext .trailingCharacters
  return value

/-- The value of a document of the given shape. -/
def Shape.parse (shape : Shape) (source : String) : Except Error shape.Val :=
  match shape.readDocument.run ⟨0, source.toList⟩ with
  | .ok (value, _) => .ok value
  | .error (.placed cause index) => .error ⟨cause, placeOf source index⟩
  | .error (.unplaced cause cursor) => .error ⟨cause, placeOf source cursor.index⟩

end EnsembleCompiler.Json
