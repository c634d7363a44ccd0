import EnsembleCompiler.Json.Numerals
import EnsembleCompiler.Json.Strings

/-!
# JSON values

Values of any kind: read for their content, where a field admits several kinds, or skipped, where
an object has a member that nobody asked for. Reading is bounded in depth and skipping is not.
-/

namespace EnsembleCompiler.Json

/-- How a list or an object may be closed before the end of what it holds. -/
inductive Bracket where
  | list
  | object
  deriving DecidableEq, Repr

namespace Bracket

def close : Bracket → Char
  | list => ']'
  | object => '\x7d'

def endCause : Bracket → Cause
  | list => .endOfList
  | object => .endOfObject

def expectedCause : Bracket → Cause
  | list => .expectedListEnd
  | object => .expectedObjectEnd

/-- The place of a failure inside brackets that has none of its own: after the closing bracket if
it follows at once, and in a list also after a comma and the blanks after it. -/
def failurePlace (bracket : Bracket) (c : Cursor) : Nat :=
  let d := c.skipBlanks
  match bracket, d.rest with
  | .list, ']' :: _ => d.index + 1
  | .list, ',' :: rest => (Cursor.skipBlanks ⟨d.index + 1, rest⟩).index
  | .object, '\x7d' :: _ => d.index + 1
  | _, _ => d.index

end Bracket

namespace Reader

variable {α : Type}

/-- What stands in brackets. `room` is how many brackets may still be opened. -/
def bracketed (bracket : Bracket) (room : Nat) (inner : Reader α) : Reader α := do
  if room = 0 then failNext .tooDeep
  shift
  placing bracket.failurePlace inner

/-- The end of a list all of whose wanted elements have been read. -/
def listEnd : Reader Unit := do
  match ← peekToken with
  | none => failNext .endOfList
  | some ']' => shift
  | some ',' =>
    shift
    if (← peekToken) = some ']' then failNext .trailingComma else failNext .trailingCharacters
  | some _ => failNext .trailingCharacters

/-- Whether a list goes on with an element, whose comma is passed over. -/
def hasElement (isFirst : Bool) : Reader Bool := do
  match ← peekToken with
  | none => failNext .endOfList
  | some ']' => return false
  | some c =>
    if isFirst then return true
    if c ≠ ',' then failNext .expectedListEnd
    shift
    match ← peekToken with
    | none => failNext .endOfValue
    | some ']' => failNext .trailingComma
    | some _ => return true

/-- One element of a list, or the end of the list. -/
def elementTurn (element : Reader α) (read : List α) : Reader (Turn (List α) (List α)) := do
  if ← hasElement read.isEmpty then return .again ((← element) :: read)
  else return .leave read.reverse

/-- The elements of a list up to its closing bracket, which is left. -/
def elements (element : Reader α) : Reader (List α) := loop (elementTurn element) []

/-- A list after its opening bracket. -/
def listRest (element : Reader α) : Reader (List α) := do
  let read ← elements element
  listEnd
  return read

/-- Whether an object goes on with a member, whose comma and opening quote are passed over. -/
def hasMember (isFirst : Bool) : Reader Bool := do
  match ← peekToken with
  | none => failNext .endOfObject
  | some '\x7d' => return false
  | some c =>
    if isFirst then
      if c ≠ '"' then failNext .keyNotString
      shift
      return true
    if c ≠ ',' then failNext .expectedObjectEnd
    shift
    match ← peekToken with
    | none => failNext .endOfValue
    | some '"' =>
      shift
      return true
    | some '\x7d' => failNext .trailingComma
    | some _ => failNext .keyNotString

/-- The colon after a key. -/
def colon : Reader Unit := do
  match ← peekToken with
  | none => failNext .endOfObject
  | some ':' => shift
  | some _ => failNext .expectedColon

/-- One member of an object, or the end of the object. -/
def memberTurn (member : α → String → Reader α) (state : Bool × α) :
    Reader (Turn (Bool × α) α) := do
  if ← hasMember state.1 then
    let key ← stringBody
    return .again (false, ← member state.2 (String.ofList key))
  else return .leave state.2

/-- The members of an object up to its closing bracket, which is left. A reader for the part of a
member after its key takes what has been read before and gives what has been read then. -/
def members (member : α → String → Reader α) (start : α) : Reader α :=
  loop (memberTurn member) (true, start)

/-- The next bracket that is open while a value is skipped, or that the value has ended. -/
inductive SkipState where
  /-- A value comes next. -/
  | value
  /-- A value has ended, and one of its brackets may be closed. -/
  | ended

/-- The key of a member whose value is skipped. -/
def skipKey : Reader Unit := do
  match ← peekToken with
  | none => failNext .endOfObject
  | some '"' =>
    shift
    skipString
    colon
  | some _ => failNext .keyNotString

/-- Passes over a value that is no list or object. -/
def skipScalar (c : Char) : Reader Unit :=
  match c with
  | 'n' => do
    shift
    word "ull".toList
  | 't' => do
    shift
    word "rue".toList
  | 'f' => do
    shift
    word "alse".toList
  | '"' => do
    shift
    skipString
  | c => if startsNumber c then skipNumber else failNext .expectedValue

/-- The bracket that a character opens. -/
def opens? (c : Char) : Option Bracket :=
  match c with
  | '[' => some .list
  | '\x7b' => some .object
  | _ => none

/-- Skips the beginning of a value: all of it, or an opening bracket. After a bracket that is not
closed at once the next value comes. -/
def skipStart (outer : List Bracket) : Reader (Turn (SkipState × List Bracket) Unit) := do
  match ← peekToken with
  | none => failNext .endOfValue
  | some c =>
    match opens? c with
    | none =>
      skipScalar c
      return .again (.ended, outer)
    | some bracket =>
      shift
      match ← peekToken with
      | none => failNext bracket.endCause
      | some d =>
        if d = bracket.close then
          shift
          return .again (.ended, outer)
        if bracket = .object then skipKey
        return .again (.value, bracket :: outer)

/-- Goes on after a value inside a bracket: with a comma or its end. -/
def skipNext (bracket : Bracket) (outer : List Bracket) :
    Reader (Turn (SkipState × List Bracket) Unit) := do
  match ← peekToken with
  | none => failNext bracket.endCause
  | some c =>
    if c = ',' then
      shift
      if bracket = .object then skipKey
      return .again (.value, bracket :: outer)
    if c ≠ bracket.close then failNext bracket.expectedCause
    shift
    return .again (.ended, outer)

/-- One step through a value that is skipped, with the brackets that are open around it. -/
def skipTurn : SkipState × List Bracket → Reader (Turn (SkipState × List Bracket) Unit)
  | (.value, outer) => skipStart outer
  | (.ended, []) => return .leave ()
  | (.ended, bracket :: outer) => skipNext bracket outer

/-- Skips a value of any kind and depth. -/
def skipValue : Reader Unit := loop skipTurn (.value, [])

/-- A value, of which the kind is kept. `room` is how many brackets may still be opened. -/
def anyValue (room : Nat) : Reader Kind := do
  match ← peekToken with
  | none => failNext .endOfValue
  | some 'n' =>
    shift
    word "ull".toList
    return .null
  | some 't' =>
    shift
    word "rue".toList
    return .bool true
  | some 'f' =>
    shift
    word "alse".toList
    return .bool false
  | some '"' =>
    shift
    return .text (String.ofList (← stringBody))
  | some '[' =>
    match room with
    | 0 => failNext .tooDeep
    | room + 1 =>
      let _ ← bracketed .list (room + 1) (listRest (anyValue room))
      return .list
  | some '\x7b' =>
    match room with
    | 0 => failNext .tooDeep
    | room + 1 =>
      bracketed .object (room + 1) do
        members (fun _ _ => do
          colon
          let _ ← anyValue room) ()
        shift
      return .object
  | some c => if startsNumber c then return .number (← number) else failNext .expectedValue

/-- Fails because a value of another kind was expected. The value is read first, a list or object
only up to its bracket. -/
def unexpected (expected : String) : Reader α := do
  match ← peekToken with
  | some '[' => failHere (.invalidType .list expected)
  | some '\x7b' => failHere (.invalidType .object expected)
  | _ =>
    let kind ← anyValue 0
    failHere (.invalidType kind expected)

end Reader

end EnsembleCompiler.Json
